import Cfms.Access.Evaluation

/-!
# Reading access rules back

`compile_access_rule` and `serialize_compiled_access_rule` translate between the JSON form of an
access rule and the object that is stored.  A client reads the rules of a node in the JSON form and
sets them again, so the two have to be inverse as far as decisions go.

They are, but for one shape.  A match group that consists of a match key only is compiled to a
group without requirements, which everybody matches.  Its JSON form is the empty object, and the
compilation leaves empty objects out.
-/

namespace Cfms.Access

open List

/-! ### Rules as JSON -/

/-- The `rights` or `groups` section of a match group, as `ACCESS_RULE_SCHEMA` admits it. -/
structure MatchSection where
  mode : Option MatchMode
  require : Option (List String)
  deriving DecidableEq

/-- A match group; every key may be absent. -/
structure MatchGroup where
  mode : Option MatchMode
  rights : Option MatchSection
  groups : Option MatchSection
  deriving DecidableEq

/-- A rule; both keys are required. -/
structure RuleData where
  mode : MatchMode
  matchGroups : List MatchGroup
  deriving DecidableEq

/-! ### Rules as objects -/

/-- A compiled group with the rights and memberships it holds. -/
structure LoadedGroup where
  groupIndex : ℕ
  mode : MatchMode
  rightsMode : MatchMode
  rightsEmpty : Bool
  rights : List String
  groupsMode : MatchMode
  groupsEmpty : Bool
  groups : List String
  deriving DecidableEq

structure LoadedRule where
  accessType : AccessType
  mode : MatchMode
  matchGroups : List LoadedGroup
  deriving DecidableEq

/-- `_compiled_group_matches_user`. -/
def LoadedGroup.matchesUser (group : LoadedGroup) (user : User) : Bool :=
  let rightsMatch := sectionMatches group.rightsEmpty group.rightsMode group.rights user.allPermissions
  let groupsMatch := sectionMatches group.groupsEmpty group.groupsMode group.groups user.allGroups
  match group.mode with
  | .any => rightsMatch || groupsMatch
  | .all => rightsMatch && groupsMatch

/-- `_compiled_rule_matches_user`. -/
def LoadedRule.matchesUser (rule : LoadedRule) (user : User) : Bool :=
  matchGroupsLoop rule.mode (·.matchesUser user) rule.matchGroups

variable (db : Database)

/-- The object that the rows of a group are loaded into. -/
def loadGroup (group : CompiledAccessRuleGroup) : LoadedGroup where
  groupIndex := group.groupIndex
  mode := group.matchMode
  rightsMode := group.rightsMatchMode
  rightsEmpty := group.rightsEmpty
  rights := db.requiredRights group
  groupsMode := group.groupsMatchMode
  groupsEmpty := group.groupsEmpty
  groups := db.requiredGroups group

def loadRule (rule : CompiledAccessRule) : LoadedRule where
  accessType := rule.accessType
  mode := rule.matchMode
  matchGroups := (db.matchGroups rule).map (loadGroup db)

/-! ### Compilation and serialization -/

def requireList (data : Option MatchSection) : List String :=
  (data.bind MatchSection.require).getD []

def sectionMode (data : Option MatchSection) : MatchMode :=
  (data.bind MatchSection.mode).getD .all

/-- `not group_data`. -/
def MatchGroup.isEmpty (data : MatchGroup) : Bool :=
  data.mode.isNone && data.rights.isNone && data.groups.isNone

/-- The body of the loop in `_compile_match_groups`. -/
def compileMatchGroup (index : ℕ) (data : MatchGroup) : Option LoadedGroup :=
  if data.isEmpty then none
  else
    some
      { groupIndex := index
        mode :=
          if (requireList data.rights).isEmpty || (requireList data.groups).isEmpty then .all
          else data.mode.getD .all
        rightsMode := sectionMode data.rights
        rightsEmpty := data.rights.isNone
        rights := requireList data.rights
        groupsMode := sectionMode data.groups
        groupsEmpty := data.groups.isNone
        groups := requireList data.groups }

def compileMatchGroups (groups : List MatchGroup) : List LoadedGroup :=
  groups.zipIdx.filterMap fun row => compileMatchGroup row.2 row.1

/-- `compile_access_rule`; a rule has its two required keys, so it is not empty. -/
def compileAccessRule (accessType : AccessType) (rule : RuleData) : LoadedRule where
  accessType := accessType
  mode := rule.mode
  matchGroups := compileMatchGroups rule.matchGroups

/-- The body of the loop in `serialize_compiled_access_rule`. -/
def serializeGroup (group : LoadedGroup) : MatchGroup where
  mode := if !group.rightsEmpty && !group.groupsEmpty then some group.mode else none
  rights := if group.rightsEmpty then none else some ⟨some group.rightsMode, some group.rights⟩
  groups := if group.groupsEmpty then none else some ⟨some group.groupsMode, some group.groups⟩

def serializeCompiledAccessRule (rule : LoadedRule) : RuleData where
  mode := rule.mode
  matchGroups := rule.matchGroups.map serializeGroup

def MatchGroup.isMatchOnly (data : MatchGroup) : Bool :=
  data.mode.isSome && data.rights.isNone && data.groups.isNone

def MatchGroup.requiresNothing (data : MatchGroup) : Bool :=
  (data.rights.isSome || data.groups.isSome) && (requireList data.rights).isEmpty &&
    (requireList data.groups).isEmpty

/-- The condition on a rule: all groups have to match, or no group consists of a match key only,
or another group admits everybody as well. -/
def RuleData.survives (rule : RuleData) : Bool :=
  rule.mode == .all || !rule.matchGroups.any MatchGroup.isMatchOnly ||
    rule.matchGroups.any MatchGroup.requiresNothing

/-! ### Decisions -/

theorem compileMatchGroup_index (index : ℕ) (data : MatchGroup) (user : User) :
    (compileMatchGroup index data).map (·.matchesUser user) =
      (compileMatchGroup 0 data).map (·.matchesUser user) := by
  unfold compileMatchGroup
  split <;> rfl

theorem compileMatchGroups_map (groups : List MatchGroup) (user : User) :
    (compileMatchGroups groups).map (·.matchesUser user) =
      groups.filterMap fun data => (compileMatchGroup 0 data).map (·.matchesUser user) := by
  have hshift : ∀ start, ((groups.zipIdx start).filterMap fun row =>
      compileMatchGroup row.2 row.1).map (·.matchesUser user) =
        groups.filterMap fun data => (compileMatchGroup 0 data).map (·.matchesUser user) := by
    induction groups with
    | nil => intro start; rfl
    | cons data rest ih =>
      intro start
      have hindex := compileMatchGroup_index start data user
      rw [zipIdx_cons, filterMap_cons, filterMap_cons, ← hindex]
      cases compileMatchGroup start data with
      | none => exact ih (start + 1)
      | some group => exact congrArg _ (ih (start + 1))
  exact hshift 0

variable {groups : List MatchGroup} {group : LoadedGroup}

theorem mem_compileMatchGroups : group ∈ compileMatchGroups groups ↔
      ∃ data index, (data, index) ∈ groups.zipIdx ∧ compileMatchGroup index data = some group := by
  rw [compileMatchGroups, mem_filterMap]
  exact Prod.exists

theorem compiledRuleMatchesUser_eq (rule : CompiledAccessRule) (user : User) :
    compiledRuleMatchesUser db rule user = (loadRule db rule).matchesUser user := by
  rw [compiledRuleMatchesUser, LoadedRule.matchesUser, loadRule]
  cases rule.matchMode with
  | any =>
    rw [matchGroupsLoop_any, matchGroupsLoop_any, any_map]
    rfl
  | all =>
    rw [matchGroupsLoop_all, matchGroupsLoop_all, all_map]
    rfl

/-! ### The way back -/

/-- A group as the compilation leaves it. -/
structure LoadedGroup.Normal (group : LoadedGroup) : Prop where
  rights : group.rightsEmpty = true → group.rights = [] ∧ group.rightsMode = .all
  groups : group.groupsEmpty = true → group.groups = [] ∧ group.groupsMode = .all
  mode : group.rights = [] ∨ group.groups = [] → group.mode = .all

variable {index : ℕ} {data : MatchGroup}

theorem compileMatchGroup_normal
    (h : compileMatchGroup index data = some group) : group.Normal := by
  unfold compileMatchGroup at h
  split at h
  · cases h
  cases h
  refine ⟨?_, ?_, ?_⟩
  · intro hempty
    show requireList data.rights = [] ∧ sectionMode data.rights = .all
    rw [Option.isNone_iff_eq_none.mp hempty]
    exact ⟨rfl, rfl⟩
  · intro hempty
    show requireList data.groups = [] ∧ sectionMode data.groups = .all
    rw [Option.isNone_iff_eq_none.mp hempty]
    exact ⟨rfl, rfl⟩
  · intro hnil
    apply if_pos
    simpa [List.isEmpty_iff] using hnil

/-- A group without sections. -/
def LoadedGroup.isVacuous (group : LoadedGroup) : Bool := group.rightsEmpty && group.groupsEmpty

/-- **A group comes back as it was**, or is left out when it has no sections. -/
theorem compile_serializeGroup (h : group.Normal) :
    compileMatchGroup group.groupIndex (serializeGroup group) =
      if group.isVacuous then none else some group := by
  obtain ⟨index, mode, rightsMode, rightsEmpty, rights, groupsMode, groupsEmpty, groups⟩ := group
  obtain ⟨hrights, hgrps, hmode⟩ := h
  cases rightsEmpty with
  | true =>
    obtain ⟨rfl, rfl⟩ := hrights rfl
    obtain rfl := hmode (.inl rfl)
    cases groupsEmpty with
    | true | false => rfl
  | false =>
    cases groupsEmpty with
    | true =>
      obtain ⟨rfl, rfl⟩ := hgrps rfl
      obtain rfl := hmode (.inr rfl)
      cases rights with
      | nil | cons right rest => rfl
    | false =>
      cases rights with
      | nil =>
        obtain rfl := hmode (.inl rfl)
        rfl
      | cons right rest =>
        cases groups with
        | nil =>
          obtain rfl := hmode (.inr rfl)
          rfl
        | cons group more => rfl

theorem roundTrip_map {groups : List LoadedGroup} (h : ∀ group ∈ groups, group.Normal)
    (user : User) :
    (compileMatchGroups (groups.map serializeGroup)).map (·.matchesUser user) =
      (groups.filter fun group => !group.isVacuous).map (·.matchesUser user) := by
  rw [compileMatchGroups_map]
  induction groups with
  | nil => rfl
  | cons group rest ih =>
    have hback := compile_serializeGroup (h group mem_cons_self)
    have hrest := ih fun other hmem => h other (mem_cons_of_mem _ hmem)
    rw [map_cons, filterMap_cons, ← compileMatchGroup_index group.groupIndex, hback, filter_cons]
    cases group.isVacuous with
    | true => exact hrest
    | false => exact congrArg _ hrest

theorem matchesUser_of_nil (hrights : group.rights = [])
    (hgrps : group.groups = []) (user : User) : group.matchesUser user = true := by
  simp only [LoadedGroup.matchesUser, sectionMatches, hrights, hgrps, isEmpty_nil, Bool.or_true]
  cases group.mode <;> rfl

/-- A user without permissions and groups. -/
def nobody : User := ⟨"", [], []⟩

theorem sectionMatches_nobody {empty : Bool} {mode : MatchMode} {required : List String}
    (hempty : empty = true → required = []) (h : sectionMatches empty mode required [] = true) :
    required = [] := by
  cases required with
  | nil => rfl
  | cons item rest =>
    cases empty with
    | true => exact hempty rfl
    | false => cases mode <;> simp [sectionMatches] at h

theorem nil_of_matchesUser_nobody (h : group.Normal)
    (hmatch : group.matchesUser nobody = true) : group.rights = [] ∧ group.groups = [] := by
  have hrights : sectionMatches group.rightsEmpty group.rightsMode group.rights [] = true →
      group.rights = [] := sectionMatches_nobody fun hempty => (h.rights hempty).1
  have hgrps : sectionMatches group.groupsEmpty group.groupsMode group.groups [] = true →
      group.groups = [] := sectionMatches_nobody fun hempty => (h.groups hempty).1
  simp only [LoadedGroup.matchesUser] at hmatch
  cases hmode : group.mode with
  | all =>
    rw [hmode] at hmatch
    obtain ⟨hr, hg⟩ := (Bool.and_eq_true _ _).mp hmatch
    exact ⟨hrights hr, hgrps hg⟩
  | any =>
    -- the mode `any` is kept only where both sections require something
    rw [hmode] at hmatch
    have hnil : group.rights = [] ∨ group.groups = [] :=
      ((Bool.or_eq_true _ _).mp hmatch).imp hrights hgrps
    rw [h.mode hnil] at hmode
    cases hmode

/-! ### When decisions survive -/

theorem compileMatchGroup_isVacuous
    (h : compileMatchGroup index data = some group) : group.isVacuous = data.isMatchOnly := by
  unfold compileMatchGroup at h
  split at h
  · cases h
  rename_i hdata
  cases h
  show (data.rights.isNone && data.groups.isNone) = data.isMatchOnly
  simp only [MatchGroup.isMatchOnly]
  simp only [MatchGroup.isEmpty] at hdata
  cases hmode : data.mode with
  | some mode => simp
  | none =>
    rw [hmode, Option.isNone_none] at hdata
    exact Bool.eq_false_iff.mpr hdata

theorem compileMatchGroup_requiresNothing (h : compileMatchGroup index data = some group) :
    data.requiresNothing = true ↔
      group.isVacuous = false ∧ group.rights = [] ∧ group.groups = [] := by
  unfold compileMatchGroup at h
  split at h
  · cases h
  cases h
  show data.requiresNothing = true ↔ (data.rights.isNone && data.groups.isNone) = false ∧
    requireList data.rights = [] ∧ requireList data.groups = []
  simp only [MatchGroup.requiresNothing]
  cases hrights : data.rights <;> cases hgrps : data.groups <;> simp

theorem exists_compiled (hmem : data ∈ groups) (hdata : data.isEmpty = false) :
    ∃ group index, group ∈ compileMatchGroups groups ∧ compileMatchGroup index data = some group := by
  obtain ⟨index, hget⟩ := getElem?_of_mem hmem
  have hindex : (data, index) ∈ groups.zipIdx := mk_mem_zipIdx_iff_getElem?.mpr hget
  have hcompile : ∃ group, compileMatchGroup index data = some group := by
    rw [compileMatchGroup, hdata]
    exact ⟨_, rfl⟩
  obtain ⟨group, hgroup⟩ := hcompile
  exact ⟨group, index, mem_compileMatchGroups.mpr ⟨data, index, hindex, hgroup⟩, hgroup⟩

theorem compileMatchGroups_normal (h : group ∈ compileMatchGroups groups) : group.Normal := by
  obtain ⟨data, index, -, hgroup⟩ := mem_compileMatchGroups.mp h
  exact compileMatchGroup_normal hgroup

theorem any_isVacuous_iff (groups : List MatchGroup) :
    (∃ group ∈ compileMatchGroups groups, group.isVacuous = true) ↔
      ∃ data ∈ groups, data.isMatchOnly = true := by
  constructor
  · intro ⟨group, hmem, hvac⟩
    obtain ⟨data, index, hindex, hgroup⟩ := mem_compileMatchGroups.mp hmem
    rw [compileMatchGroup_isVacuous hgroup] at hvac
    exact ⟨data, fst_mem_of_mem_zipIdx hindex, hvac⟩
  · intro ⟨data, hmem, honly⟩
    have hdata : data.isEmpty = false := by
      simp only [MatchGroup.isMatchOnly, Bool.and_eq_true] at honly
      simp [MatchGroup.isEmpty, Option.isSome_iff_ne_none.mp honly.1.1]
    obtain ⟨group, index, hgroup, hcompile⟩ := exists_compiled hmem hdata
    exact ⟨group, hgroup, (compileMatchGroup_isVacuous hcompile).trans honly⟩

theorem any_requiresNothing_iff (groups : List MatchGroup) : (∃ group ∈ compileMatchGroups groups,
        group.isVacuous = false ∧ group.rights = [] ∧ group.groups = []) ↔
      ∃ data ∈ groups, data.requiresNothing = true := by
  constructor
  · intro ⟨group, hmem, hnothing⟩
    obtain ⟨data, index, hindex, hgroup⟩ := mem_compileMatchGroups.mp hmem
    exact ⟨data, fst_mem_of_mem_zipIdx hindex,
      (compileMatchGroup_requiresNothing hgroup).mpr hnothing⟩
  · intro ⟨data, hmem, hnothing⟩
    have hdata : data.isEmpty = false := by
      simp only [MatchGroup.requiresNothing] at hnothing
      cases hrights : data.rights with
      | some rights => simp [MatchGroup.isEmpty, hrights]
      | none =>
        cases hgrps : data.groups with
        | some groups => simp [MatchGroup.isEmpty, hgrps]
        | none => simp [hrights, hgrps] at hnothing
    obtain ⟨group, index, hgroup, hcompile⟩ := exists_compiled hmem hdata
    exact ⟨group, hgroup, (compileMatchGroup_requiresNothing hcompile).mp hnothing⟩

/-- The groups that are left after a round trip, as far as decisions go. -/
def LoadedRule.kept (rule : LoadedRule) : List LoadedGroup :=
  rule.matchGroups.filter fun group => !group.isVacuous

theorem any_matchesUser_map (groups : List LoadedGroup) (user : User) :
    groups.any (·.matchesUser user) = (groups.map (·.matchesUser user)).any id := by
  rw [any_map]
  rfl

theorem all_matchesUser_map (groups : List LoadedGroup) (user : User) :
    groups.all (·.matchesUser user) = (groups.map (·.matchesUser user)).all id := by
  rw [all_map]
  rfl

theorem roundTrip_matchesUser (access : AccessType) (rule : RuleData) (user : User) :
    (compileAccessRule access (serializeCompiledAccessRule
        (compileAccessRule access rule))).matchesUser user =
      matchGroupsLoop rule.mode (·.matchesUser user) (compileAccessRule access rule).kept := by
  have hnormal : ∀ group ∈ compileMatchGroups rule.matchGroups, group.Normal :=
    fun group hmem => compileMatchGroups_normal hmem
  have hmap := roundTrip_map hnormal user
  show matchGroupsLoop rule.mode (·.matchesUser user)
      (compileMatchGroups ((compileMatchGroups rule.matchGroups).map serializeGroup)) = _
  cases rule.mode with
  | all =>
    rw [matchGroupsLoop_all, matchGroupsLoop_all, all_matchesUser_map, all_matchesUser_map, hmap]
    rfl
  | any =>
    rw [matchGroupsLoop_any, matchGroupsLoop_any, any_matchesUser_map, any_matchesUser_map, hmap]
    rfl

theorem vacuous_nil (h : group.Normal) (hvac : group.isVacuous = true) :
    group.rights = [] ∧ group.groups = [] := by
  obtain ⟨hrights, hgrps⟩ := (Bool.and_eq_true _ _).mp hvac
  exact ⟨(h.rights hrights).1, (h.groups hgrps).1⟩

theorem all_kept (access : AccessType) (rule : RuleData) (user : User) :
    matchGroupsLoop .all (·.matchesUser user) (compileAccessRule access rule).kept =
      matchGroupsLoop .all (·.matchesUser user) (compileAccessRule access rule).matchGroups := by
  rw [matchGroupsLoop_all, matchGroupsLoop_all, LoadedRule.kept, Bool.eq_iff_iff]
  simp only [all_eq_true, mem_filter, Bool.not_eq_true']
  constructor
  · intro h group hmem
    cases hvac : group.isVacuous with
    | false => exact h group ⟨hmem, hvac⟩
    | true =>
      obtain ⟨hrights, hgrps⟩ := vacuous_nil (compileMatchGroups_normal hmem) hvac
      exact matchesUser_of_nil hrights hgrps user
  · intro h group hmem
    exact h group hmem.1

/-- Where one group is enough, the groups without sections decide unless there are none or another
group admits everybody. -/
theorem any_kept_iff (access : AccessType) (rule : RuleData) :
    (∀ user, matchGroupsLoop .any (·.matchesUser user) (compileAccessRule access rule).kept =
        matchGroupsLoop .any (·.matchesUser user) (compileAccessRule access rule).matchGroups) ↔
      ¬ (∃ data ∈ rule.matchGroups, data.isMatchOnly = true) ∨
        ∃ data ∈ rule.matchGroups, data.requiresNothing = true := by
  rw [← any_isVacuous_iff, ← any_requiresNothing_iff]
  have hdecide : ∀ user,
      matchGroupsLoop .any (·.matchesUser user) (compileAccessRule access rule).kept =
        matchGroupsLoop .any (·.matchesUser user) (compileAccessRule access rule).matchGroups ↔
        ((∃ group, (group ∈ compileMatchGroups rule.matchGroups ∧ group.isVacuous = false) ∧
            group.matchesUser user = true) ↔
          ∃ group ∈ compileMatchGroups rule.matchGroups, group.matchesUser user = true) := by
    intro user
    rw [matchGroupsLoop_any, matchGroupsLoop_any, Bool.eq_iff_iff, any_eq_true, any_eq_true]
    simp only [LoadedRule.kept, mem_filter, Bool.not_eq_true', compileAccessRule]
  simp only [hdecide]
  constructor
  · intro h
    refine or_iff_not_imp_left.mpr fun hvac => ?_
    obtain ⟨group, hmem, hgroup⟩ := not_not.mp hvac
    obtain ⟨hrights, hgrps⟩ := vacuous_nil (compileMatchGroups_normal hmem) hgroup
    obtain ⟨other, ⟨hother, hkept⟩, hmatch⟩ :=
      (h nobody).mpr ⟨group, hmem, matchesUser_of_nil hrights hgrps nobody⟩
    exact ⟨other, hother, hkept, nil_of_matchesUser_nobody (compileMatchGroups_normal hother) hmatch⟩
  · intro h user
    constructor
    · intro ⟨group, hmem, hmatch⟩
      exact ⟨group, hmem.1, hmatch⟩
    · intro ⟨group, hmem, hmatch⟩
      cases h with
      | inl hnone =>
        have hkept : group.isVacuous = false :=
          Bool.eq_false_iff.mpr fun hvac => hnone ⟨group, hmem, hvac⟩
        exact ⟨group, ⟨hmem, hkept⟩, hmatch⟩
      | inr hsome =>
        obtain ⟨other, hother, hkept, hrights, hgrps⟩ := hsome
        exact ⟨other, ⟨hother, hkept⟩, matchesUser_of_nil hrights hgrps user⟩

/-- **Reading a rule back and setting it again changes nobody's access** exactly when the rule meets
this condition. -/
theorem round_trip_keeps_decisions_iff (access : AccessType) (rule : RuleData) :
    (∀ user, (compileAccessRule access (serializeCompiledAccessRule
        (compileAccessRule access rule))).matchesUser user =
          (compileAccessRule access rule).matchesUser user) ↔
      rule.survives = true := by
  simp only [roundTrip_matchesUser]
  show (∀ user, matchGroupsLoop rule.mode (·.matchesUser user)
    (compileAccessRule access rule).kept = matchGroupsLoop rule.mode (·.matchesUser user)
      (compileAccessRule access rule).matchGroups) ↔ _
  have hany := any_kept_iff access rule
  have hall := all_kept access rule
  simp only [RuleData.survives, Bool.or_eq_true, Bool.not_eq_true', any_eq_false, any_eq_true]
  cases rule.mode with
  | all =>
    have hmode : (MatchMode.all == MatchMode.all) = true := rfl
    exact ⟨fun _ => .inl (.inl hmode), fun _ => hall⟩
  | any =>
    have hmode : ¬ (MatchMode.any == MatchMode.all) = true := by decide
    rw [hany, or_iff_right hmode]
    simp only [not_exists, not_and]

/-- The rule `{"match": "any", "match_groups": [{"match": "all"}]}`. -/
def matchOnlyRule : RuleData := ⟨.any, [⟨some .all, none, none⟩]⟩

/-- Everybody may read under the rule as it was set and nobody after it was read back and set
again. -/
theorem match_only_rule_changes :
    (compileAccessRule .read matchOnlyRule).matchesUser ⟨"alice", [], ["staff"]⟩ = true ∧
      (compileAccessRule .read (serializeCompiledAccessRule
        (compileAccessRule .read matchOnlyRule))).matchesUser ⟨"alice", [], ["staff"]⟩ = false := by
  decide

end Cfms.Access
