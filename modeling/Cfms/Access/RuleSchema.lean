import Cfms.Access.RuleRoundTrip
import Cfms.Lib.Json

/-!
# Access rules as they are submitted

The first half of `set_access_rules`: the submitted dict is checked entry by entry, its access type
against the known ones and its rules against `ACCESS_RULE_SCHEMA`, and every rule is compiled.

`compileRules_eq_ok` says what comes out, the results of `compile_access_rule` in the order of
submission.
-/

namespace Cfms.Access

open Lib List

/-! ### Reading a rule -/

def readMode : Json → Option MatchMode
  | .string text => if text = "any" then some .any else if text = "all" then some .all else none
  | _ => none

def readSection (value : Json) : Option MatchSection := do
  let mode ← value.getMember "match" readMode
  let require ← value.getMember "require" (Json.readArray Json.text?)
  return { mode, require }

def readMatchGroup (value : Json) : Option MatchGroup := do
  let mode ← value.getMember "match" readMode
  let rights ← value.getMember "rights" readSection
  let groups ← value.getMember "groups" readSection
  return { mode, rights, groups }

def readRule (value : Json) : Option RuleData := do
  let mode ← (value.get? "match").bind readMode
  let matchGroups ← (value.get? "match_groups").bind (Json.readArray readMatchGroup)
  return { mode, matchGroups }

/-! ### The schema -/

def matchSchema : Json := .object [("enum", .array [.string "any", .string "all"])]

/-- The schema of `rights` and of `groups`. -/
def requirementSchema : Json :=
  .object
    [("type", .string "object"),
      ("properties", .object
        [("match", matchSchema),
          ("require", .object
            [("type", .string "array"), ("items", .object [("type", .string "string")])])]),
      ("additionalProperties", .bool false)]

def matchGroupSchema : Json :=
  .object
    [("type", .string "object"),
      ("properties", .object
        [("match", matchSchema), ("rights", requirementSchema), ("groups", requirementSchema)]),
      ("additionalProperties", .bool false)]

def ruleSchema : Json :=
  .object
    [("type", .string "object"),
      ("properties", .object
        [("match", matchSchema),
          ("match_groups", .object [("type", .string "array"), ("items", matchGroupSchema)])]),
      ("required", .array [.string "match", .string "match_groups"]),
      ("additionalProperties", .bool false)]

def accessRuleSchema : Json := .object [("type", .string "array"), ("items", ruleSchema)]

/-- `jsonschema.validate`, which belongs to another package: whether a value passes a schema.  A value
that passes the schema of access rules is a list of rules with their two keys, and every key that is
there holds a value of its type. -/
structure RuleValidator where
  validate : Json → Json → Bool
  sound : ∀ rules, validate rules accessRuleSchema = true →
    ∃ items, rules = .array items ∧ ∀ item ∈ items, (readRule item).isSome = true

/-- `compile_access_rule` on a rule as it is submitted. -/
def compileRuleData (accessType : AccessType) (ruleData : Json) : Option LoadedRule :=
  if ruleData.isEmptyObject then none
  else (readRule ruleData).map (compileAccessRule accessType)

/-! ### The loop of `set_access_rules` -/

/-- The member of `AVAILABLE_ACCESS_TYPES` with a given text. -/
def accessTypeOf? (text : String) : Option AccessType :=
  if text = "read" then some .read
  else if text = "write" then some .write
  else if text = "move" then some .move
  else if text = "manage" then some .manage
  else none

/-- What `set_access_rules` and `apply_access_rules` raise. -/
inductive AccessRulesError
  | invalidAccessType (accessType : String)
  | nullRuleData (accessType : String)
  /-- `jsonschema.ValidationError`. -/
  | invalidRules
  | targetGone
  /-- A flush that violates a key. -/
  | keyTaken
  | changedConcurrently
  /-- The walk of `check_access_requirements` over a cycle. -/
  | check (error : Climb.ClimbError)
  deriving DecidableEq

/-- The texts that are the repository's own. -/
def AccessRulesError.message : AccessRulesError → Option String
  | .invalidAccessType accessType => some ("Invalid access type: " ++ accessType)
  | .nullRuleData accessType =>
    some ("Access rule data for access type " ++ accessType ++ " can't be null")
  | .targetGone => some "Target node no longer exists while setting access rules"
  | .changedConcurrently => some "Access rules changed concurrently; retry the operation"
  | _ => none

/-- `dict[str, list[dict]]`, with whatever the caller has put into it. -/
abbrev AccessRules := List (String × Json)

/-- One pass of the loop over the access types. -/
def compileRulesOfType (validator : RuleValidator) (accessType : String) (rules : Json) :
    Except AccessRulesError (List LoadedRule) :=
  match accessTypeOf? accessType with
  | none => .error (.invalidAccessType accessType)
  | some type =>
    match rules with
    | .null => .error (.nullRuleData accessType)
    | rules =>
      if validator.validate rules accessRuleSchema then
        .ok ((rules.array?.getD []).filterMap (compileRuleData type))
      else .error .invalidRules

/-- The loop. -/
def compileRules (validator : RuleValidator) : AccessRules → Except AccessRulesError (List LoadedRule)
  | [] => .ok []
  | (accessType, rules) :: rest =>
    match compileRulesOfType validator accessType rules with
    | .error error => .error error
    | .ok compiled => (compileRules validator rest).map (compiled ++ ·)

/-- The non-null results of `compile_access_rule` on the rules of one access type. -/
def compiledOf (entry : String × Json) : List LoadedRule :=
  (accessTypeOf? entry.1).toList.flatMap fun accessType =>
    (entry.2.array?.getD []).filterMap (compileRuleData accessType)

/-- The non-null results of `compile_access_rule` on all the submitted rules, in order. -/
def submittedRules (accessRules : AccessRules) : List LoadedRule := accessRules.flatMap compiledOf

def listedAccessTypes (accessRules : AccessRules) : List AccessType :=
  accessRules.filterMap fun entry => accessTypeOf? entry.1

variable {validator : RuleValidator} {accessType : String} {rules : Json} {compiled : List LoadedRule}

theorem compileRulesOfType_eq_ok (h : compileRulesOfType validator accessType rules = .ok compiled) :
    (accessTypeOf? accessType).isSome = true ∧ validator.validate rules accessRuleSchema = true ∧
        compiled = compiledOf (accessType, rules) := by
  unfold compileRulesOfType at h
  cases htype : accessTypeOf? accessType with
  | none =>
    rw [htype] at h
    cases h
  | some type =>
    rw [htype] at h
    dsimp only at h
    split at h
    · cases h
    split at h
    · rename_i hvalid
      obtain rfl := Except.ok.inj h
      refine ⟨rfl, hvalid, ?_⟩
      rw [compiledOf, htype, Option.toList_some, flatMap_singleton]
    · cases h

theorem compileRules_cons_eq_ok {rest : AccessRules}
    (h : compileRules validator ((accessType, rules) :: rest) = .ok compiled) :
    ∃ first others, compileRulesOfType validator accessType rules = .ok first ∧
      compileRules validator rest = .ok others ∧ compiled = first ++ others := by
  rw [compileRules] at h
  cases hfirst : compileRulesOfType validator accessType rules with
  | error error =>
    rw [hfirst] at h
    cases h
  | ok first =>
    rw [hfirst] at h
    cases hrest : compileRules validator rest with
    | error error =>
      rw [hrest] at h
      cases h
    | ok others =>
      rw [hrest] at h
      exact ⟨first, others, rfl, rfl, (Except.ok.inj h).symm⟩

variable {accessRules : AccessRules}

/-- **What the loop returns**: the compiled rules in order. -/
theorem compileRules_eq_ok (h : compileRules validator accessRules = .ok compiled) :
    compiled = submittedRules accessRules := by
  induction accessRules generalizing compiled with
  | nil =>
    obtain rfl := Except.ok.inj h
    rfl
  | cons entry rest ih =>
    obtain ⟨first, others, hfirst, hrest, rfl⟩ := compileRules_cons_eq_ok h
    rw [submittedRules, flatMap_cons, ← (compileRulesOfType_eq_ok hfirst).2.2]
    exact congrArg _ (ih hrest)

theorem compileRules_eq_error {error : AccessRulesError}
    (h : compileRules validator accessRules = .error error) :
    ∃ accessType, error = .invalidAccessType accessType ∨ error = .nullRuleData accessType ∨
      error = .invalidRules := by
  induction accessRules with
  | nil => cases h
  | cons entry rest ih =>
    obtain ⟨accessType, rules⟩ := entry
    rw [compileRules] at h
    cases hfirst : compileRulesOfType validator accessType rules with
    | ok first =>
      rw [hfirst] at h
      cases hrest : compileRules validator rest with
      | ok others =>
        rw [hrest] at h
        cases h
      | error restError =>
        rw [hrest] at h
        obtain rfl := Except.error.inj h
        exact ih hrest
    | error firstError =>
      rw [hfirst] at h
      obtain rfl := Except.error.inj h
      refine ⟨accessType, ?_⟩
      unfold compileRulesOfType at hfirst
      split at hfirst
      · exact .inl (Except.error.inj hfirst).symm
      split at hfirst
      · exact .inr (.inl (Except.error.inj hfirst).symm)
      split at hfirst
      · cases hfirst
      · exact .inr (.inr (Except.error.inj hfirst).symm)

end Cfms.Access
