import Cfms.Access.RuleSchema
import Cfms.Documents.Rows
import Cfms.Lib.OwnedRows
import Mathlib.Data.List.Sort

/-!
# The tables of compiled rules

A rule set owns rules, a rule owns match groups and a group owns rights and memberships, each in a
table of its own that refers to the owner by a foreign key.  `KeyedRuleSet` is a rule set with all it
owns under the keys that the flush has drawn.  `Holds db sets` says that the five tables are the rows
of a list of such sets and nothing else; the inserts and the cascading delete of `set_access_rules`
keep it, and what the queries load back are the rules of the sets.
-/

namespace Cfms.Access

open Lib.OwnedRows List

/-! ### Rule sets under their keys -/

structure KeyedGroup where
  id : String
  group : LoadedGroup
  deriving DecidableEq

structure KeyedRule where
  id : ℕ
  accessType : AccessType
  mode : MatchMode
  groups : List KeyedGroup
  deriving DecidableEq

structure KeyedRuleSet where
  id : String
  nodeId : NodeId
  rules : List KeyedRule
  deriving DecidableEq

/-- The keys that a flush draws: `secrets.token_hex` for rule sets and groups, the next numbers for
the rules. -/
structure DrawnIds where
  ruleSet : String
  rule : ℕ → ℕ
  group : ℕ → ℕ → String

def keyRule (drawn : DrawnIds) (index : ℕ) (rule : LoadedRule) : KeyedRule where
  id := drawn.rule index
  accessType := rule.accessType
  mode := rule.mode
  groups := rule.matchGroups.zipIdx.map fun group => ⟨drawn.group index group.2, group.1⟩

def keyRuleSet (drawn : DrawnIds) (nodeId : NodeId) (rules : List LoadedRule) : KeyedRuleSet where
  id := drawn.ruleSet
  nodeId := nodeId
  rules := rules.zipIdx.map fun rule => keyRule drawn rule.2 rule.1

def KeyedRule.loaded (rule : KeyedRule) : LoadedRule where
  accessType := rule.accessType
  mode := rule.mode
  matchGroups := rule.groups.map KeyedGroup.group

theorem loaded_keyRule (drawn : DrawnIds) (index : ℕ) (rule : LoadedRule) :
    (keyRule drawn index rule).loaded = rule := by
  obtain ⟨access, mode, matchGroups⟩ := rule
  show LoadedRule.mk access mode (map KeyedGroup.group _) = _
  congr 1
  rw [keyRule, map_map]
  exact zipIdx_map_fst 0 matchGroups

theorem loaded_keyRuleSet (drawn : DrawnIds) (nodeId : NodeId) (rules : List LoadedRule) :
    (keyRuleSet drawn nodeId rules).rules.map KeyedRule.loaded = rules := by
  rw [keyRuleSet, map_map]
  refine Eq.trans (map_congr_left fun rule _ => ?_) (zipIdx_map_fst 0 rules)
  exact loaded_keyRule drawn rule.2 rule.1

/-! ### Keys -/

/-- The keys of the tables that have one. -/
inductive RowKey
  | ruleSet (id : String)
  | rule (id : ℕ)
  | group (id : String)
  deriving DecidableEq

def RowKey.ruleSet? : RowKey → Option String
  | .ruleSet id => some id
  | _ => none

def RowKey.rule? : RowKey → Option ℕ
  | .rule id => some id
  | _ => none

def RowKey.group? : RowKey → Option String
  | .group id => some id
  | _ => none

/-! ### Rows -/

def KeyedRule.row (ruleSetId : String) (rule : KeyedRule) : CompiledAccessRule :=
  ⟨rule.id, ruleSetId, rule.accessType, rule.mode⟩

def KeyedGroup.row (ruleId : ℕ) (group : KeyedGroup) : CompiledAccessRuleGroup where
  id := group.id
  ruleId := ruleId
  groupIndex := group.group.groupIndex
  matchMode := group.group.mode
  rightsMatchMode := group.group.rightsMode
  rightsEmpty := group.group.rightsEmpty
  groupsMatchMode := group.group.groupsMode
  groupsEmpty := group.group.groupsEmpty

def KeyedRule.groupRows (rule : KeyedRule) : List CompiledAccessRuleGroup :=
  rule.groups.map (KeyedGroup.row rule.id)

def KeyedGroup.rightRows (group : KeyedGroup) : List CompiledAccessRuleRight :=
  group.group.rights.map fun permission => ⟨group.id, permission⟩

def KeyedGroup.membershipRows (group : KeyedGroup) : List CompiledAccessRuleMembership :=
  group.group.groups.map fun groupName => ⟨group.id, groupName⟩

namespace KeyedRuleSet

def row (ruleSet : KeyedRuleSet) : CompiledAccessRuleSet := ⟨ruleSet.id, ruleSet.nodeId⟩

def groups (ruleSet : KeyedRuleSet) : List KeyedGroup := ruleSet.rules.flatMap KeyedRule.groups

def ruleRows (ruleSet : KeyedRuleSet) : List CompiledAccessRule :=
  ruleSet.rules.map (KeyedRule.row ruleSet.id)

def groupRows (ruleSet : KeyedRuleSet) : List CompiledAccessRuleGroup :=
  ruleSet.rules.flatMap KeyedRule.groupRows

def rightRows (ruleSet : KeyedRuleSet) : List CompiledAccessRuleRight :=
  ruleSet.groups.flatMap KeyedGroup.rightRows

def membershipRows (ruleSet : KeyedRuleSet) : List CompiledAccessRuleMembership :=
  ruleSet.groups.flatMap KeyedGroup.membershipRows

def keys (ruleSet : KeyedRuleSet) : List RowKey :=
  .ruleSet ruleSet.id :: (ruleSet.rules.map fun rule => .rule rule.id) ++
    ruleSet.groups.map fun group => .group group.id

def ruleIds (ruleSet : KeyedRuleSet) : List ℕ := ruleSet.rules.map KeyedRule.id

def groupIds (ruleSet : KeyedRuleSet) : List String := ruleSet.groups.map KeyedGroup.id

/-! ### Keys of one table -/

theorem filterMap_ruleSet? (ruleSet : KeyedRuleSet) :
    ruleSet.keys.filterMap RowKey.ruleSet? = [ruleSet.id] := by
  have hown : (RowKey.ruleSet ruleSet.id).ruleSet? = some ruleSet.id := rfl
  rw [keys, cons_append, filterMap_cons_some hown, filterMap_append, filterMap_map, filterMap_map]
  show ruleSet.id :: (ruleSet.rules.filterMap (fun _ => none) ++
    ruleSet.groups.filterMap fun _ => none) = _
  rw [filterMap_none, filterMap_none, nil_append]

theorem filterMap_rule? (ruleSet : KeyedRuleSet) :
    ruleSet.keys.filterMap RowKey.rule? = ruleSet.ruleIds := by
  rw [keys, cons_append, filterMap_cons_none rfl, filterMap_append, filterMap_map, filterMap_map]
  show ruleSet.rules.filterMap (some ∘ KeyedRule.id) ++ ruleSet.groups.filterMap (fun _ => none) = _
  rw [filterMap_eq_map, filterMap_none, append_nil, ruleIds]

theorem filterMap_group? (ruleSet : KeyedRuleSet) :
    ruleSet.keys.filterMap RowKey.group? = ruleSet.groupIds := by
  rw [keys, cons_append, filterMap_cons_none rfl, filterMap_append, filterMap_map, filterMap_map]
  show ruleSet.rules.filterMap (fun _ => none) ++
    ruleSet.groups.filterMap (some ∘ KeyedGroup.id) = _
  rw [filterMap_eq_map, filterMap_none, nil_append, groupIds]

end KeyedRuleSet

def keysOf (sets : List KeyedRuleSet) : List RowKey := sets.flatMap KeyedRuleSet.keys

section

variable {sets : List KeyedRuleSet} (h : (keysOf sets).Nodup)

include h

theorem ruleSetIds_nodup : (sets.flatMap fun ruleSet => [ruleSet.id]).Nodup := by
  have hids := h.filterMap (f := RowKey.ruleSet?) (by
    rintro (_ | _ | _) (_ | _ | _) id hfirst hsnd <;> cases hfirst <;> cases hsnd
    rfl)
  rw [keysOf, filterMap_flatMap] at hids
  simpa only [KeyedRuleSet.filterMap_ruleSet?] using hids

theorem ruleIds_nodup : (sets.flatMap KeyedRuleSet.ruleIds).Nodup := by
  have hids := h.filterMap (f := RowKey.rule?) (by
    rintro (_ | _ | _) (_ | _ | _) id hfirst hsnd <;> cases hfirst <;> cases hsnd
    rfl)
  rw [keysOf, filterMap_flatMap] at hids
  simpa only [KeyedRuleSet.filterMap_rule?] using hids

theorem groupIds_nodup : (sets.flatMap KeyedRuleSet.groupIds).Nodup := by
  have hids := h.filterMap (f := RowKey.group?) (by
    rintro (_ | _ | _) (_ | _ | _) id hfirst hsnd <;> cases hfirst <;> cases hsnd
    rfl)
  rw [keysOf, filterMap_flatMap] at hids
  simpa only [KeyedRuleSet.filterMap_group?] using hids

end

variable (db : Database)

namespace Database

/-- `session.add(new_rule_set)` and the flush. -/
def insertRuleSet (ruleSet : KeyedRuleSet) : Database :=
  { db with
    ruleSets := db.ruleSets ++ [ruleSet.row]
    rules := db.rules ++ ruleSet.ruleRows
    ruleGroups := db.ruleGroups ++ ruleSet.groupRows
    ruleRights := db.ruleRights ++ ruleSet.rightRows
    ruleMemberships := db.ruleMemberships ++ ruleSet.membershipRows }

/-- The `DELETE` of rule sets, with the rows that the foreign keys take along. -/
def deleteRuleSets (gone : CompiledAccessRuleSet → Bool) : Database :=
  let goneSets := (db.ruleSets.filter gone).map CompiledAccessRuleSet.id
  let goneRules :=
    (referring goneSets CompiledAccessRule.ruleSetId db.rules).map CompiledAccessRule.id
  let goneGroups :=
    (referring goneRules CompiledAccessRuleGroup.ruleId db.ruleGroups).map
      CompiledAccessRuleGroup.id
  { db with
    ruleSets := db.ruleSets.filter fun ruleSet => !gone ruleSet
    rules := cascade goneSets CompiledAccessRule.ruleSetId db.rules
    ruleGroups := cascade goneRules CompiledAccessRuleGroup.ruleId db.ruleGroups
    ruleRights := cascade goneGroups CompiledAccessRuleRight.groupId db.ruleRights
    ruleMemberships := cascade goneGroups CompiledAccessRuleMembership.groupId db.ruleMemberships }

end Database

structure Holds (sets : List KeyedRuleSet) : Prop where
  ruleSets : db.ruleSets = sets.map KeyedRuleSet.row
  rules : db.rules = sets.flatMap KeyedRuleSet.ruleRows
  ruleGroups : db.ruleGroups = sets.flatMap KeyedRuleSet.groupRows
  ruleRights : db.ruleRights = sets.flatMap KeyedRuleSet.rightRows
  ruleMemberships : db.ruleMemberships = sets.flatMap KeyedRuleSet.membershipRows

namespace Holds

variable {db : Database} {sets : List KeyedRuleSet}

theorem insertRuleSet (h : Holds db sets) (ruleSet : KeyedRuleSet) :
    Holds (db.insertRuleSet ruleSet) (sets ++ [ruleSet]) := by
  refine ⟨?_, ?_, ?_, ?_, ?_⟩
  · show db.ruleSets ++ [ruleSet.row] = _
    rw [h.ruleSets, map_append, map_singleton]
  · show db.rules ++ ruleSet.ruleRows = _
    rw [h.rules, flatMap_append, flatMap_singleton]
  · show db.ruleGroups ++ ruleSet.groupRows = _
    rw [h.ruleGroups, flatMap_append, flatMap_singleton]
  · show db.ruleRights ++ ruleSet.rightRows = _
    rw [h.ruleRights, flatMap_append, flatMap_singleton]
  · show db.ruleMemberships ++ ruleSet.membershipRows = _
    rw [h.ruleMemberships, flatMap_append, flatMap_singleton]

end Holds

/-! ### References -/

variable {ruleSet : KeyedRuleSet}

theorem KeyedRuleSet.ruleSetId_mem {row : CompiledAccessRule}
    (h : row ∈ ruleSet.ruleRows) : row.ruleSetId ∈ [ruleSet.id] := by
  obtain ⟨rule, -, rfl⟩ := mem_map.mp h
  exact mem_singleton_self _

theorem KeyedRule.ruleId_eq {rule : KeyedRule} {row : CompiledAccessRuleGroup}
    (h : row ∈ rule.groupRows) : row.ruleId = rule.id := by
  obtain ⟨group, -, rfl⟩ := mem_map.mp h
  rfl

theorem KeyedGroup.rightGroupId_eq {group : KeyedGroup} {row : CompiledAccessRuleRight}
    (h : row ∈ group.rightRows) : row.groupId = group.id := by
  obtain ⟨perm, -, rfl⟩ := mem_map.mp h
  rfl

theorem KeyedGroup.membershipGroupId_eq {group : KeyedGroup} {row : CompiledAccessRuleMembership}
    (h : row ∈ group.membershipRows) : row.groupId = group.id := by
  obtain ⟨groupName, -, rfl⟩ := mem_map.mp h
  rfl

theorem KeyedRuleSet.ruleId_mem {row : CompiledAccessRuleGroup}
    (h : row ∈ ruleSet.groupRows) : row.ruleId ∈ ruleSet.ruleIds := by
  obtain ⟨rule, hrule, hrow⟩ := mem_flatMap.mp h
  rw [KeyedRule.ruleId_eq hrow]
  exact mem_map_of_mem hrule

theorem KeyedRuleSet.rightGroupId_mem {row : CompiledAccessRuleRight}
    (h : row ∈ ruleSet.rightRows) : row.groupId ∈ ruleSet.groupIds := by
  obtain ⟨group, hgroup, hrow⟩ := mem_flatMap.mp h
  rw [KeyedGroup.rightGroupId_eq hrow]
  exact mem_map_of_mem hgroup

theorem KeyedRuleSet.membershipGroupId_mem
    {row : CompiledAccessRuleMembership} (h : row ∈ ruleSet.membershipRows) :
    row.groupId ∈ ruleSet.groupIds := by
  obtain ⟨group, hgroup, hrow⟩ := mem_flatMap.mp h
  rw [KeyedGroup.membershipGroupId_eq hrow]
  exact mem_map_of_mem hgroup

theorem KeyedRuleSet.map_id_ruleRows (ruleSet : KeyedRuleSet) :
    ruleSet.ruleRows.map CompiledAccessRule.id = ruleSet.ruleIds := by
  rw [ruleRows, map_map]
  rfl

theorem KeyedRuleSet.map_id_groupRows (ruleSet : KeyedRuleSet) :
    ruleSet.groupRows.map CompiledAccessRuleGroup.id = ruleSet.groupIds := by
  rw [groupRows, groupIds, groups, map_flatMap, map_flatMap]
  congr 1
  funext rule
  rw [KeyedRule.groupRows, map_map]
  rfl

namespace Holds

variable {db : Database} {sets : List KeyedRuleSet}

/-- **The delete leaves the rows of the sets that stay.** -/
theorem deleteRuleSets (h : Holds db sets) (hkeys : (keysOf sets).Nodup)
    (gone : CompiledAccessRuleSet → Bool) :
    Holds (db.deleteRuleSets gone) (sets.filter fun ruleSet => !gone ruleSet.row) := by
  let goneSet : KeyedRuleSet → Bool := fun ruleSet => gone ruleSet.row
  have hsets : (db.ruleSets.filter gone).map CompiledAccessRuleSet.id =
      (sets.filter goneSet).flatMap fun ruleSet => [ruleSet.id] := by
    rw [h.ruleSets, filter_map, map_map, ← map_eq_flatMap]
    rfl
  have hrules : (referring ((sets.filter goneSet).flatMap fun ruleSet => [ruleSet.id])
      CompiledAccessRule.ruleSetId db.rules).map CompiledAccessRule.id =
        (sets.filter goneSet).flatMap KeyedRuleSet.ruleIds := by
    rw [h.rules, referring_eq (ruleSetIds_nodup hkeys)
      (fun _ _ hrow => KeyedRuleSet.ruleSetId_mem hrow), map_flatMap]
    simp only [KeyedRuleSet.map_id_ruleRows]
  have hgrps : (referring ((sets.filter goneSet).flatMap KeyedRuleSet.ruleIds)
      CompiledAccessRuleGroup.ruleId db.ruleGroups).map CompiledAccessRuleGroup.id =
        (sets.filter goneSet).flatMap KeyedRuleSet.groupIds := by
    rw [h.ruleGroups, referring_eq (ruleIds_nodup hkeys)
      (fun _ _ hrow => KeyedRuleSet.ruleId_mem hrow), map_flatMap]
    simp only [KeyedRuleSet.map_id_groupRows]
  refine ⟨?_, ?_, ?_, ?_, ?_⟩
  · show db.ruleSets.filter _ = _
    rw [h.ruleSets, filter_map]
    rfl
  · show cascade _ CompiledAccessRule.ruleSetId db.rules = _
    rw [hsets, h.rules]
    exact cascade_eq (ruleSetIds_nodup hkeys) (fun _ _ hrow => KeyedRuleSet.ruleSetId_mem hrow)
      goneSet
  · show cascade _ CompiledAccessRuleGroup.ruleId db.ruleGroups = _
    rw [hsets, hrules, h.ruleGroups]
    exact cascade_eq (ruleIds_nodup hkeys) (fun _ _ hrow => KeyedRuleSet.ruleId_mem hrow) goneSet
  · show cascade _ CompiledAccessRuleRight.groupId db.ruleRights = _
    rw [hsets, hrules, hgrps, h.ruleRights]
    exact cascade_eq (groupIds_nodup hkeys) (fun _ _ hrow => KeyedRuleSet.rightGroupId_mem hrow)
      goneSet
  · show cascade _ CompiledAccessRuleMembership.groupId db.ruleMemberships = _
    rw [hsets, hrules, hgrps, h.ruleMemberships]
    exact cascade_eq (groupIds_nodup hkeys)
      (fun _ _ hrow => KeyedRuleSet.membershipGroupId_mem hrow) goneSet

/-! ### Loading -/

variable {ruleSet : KeyedRuleSet}

theorem matchGroups_eq (h : Holds db sets) (hkeys : (keysOf sets).Nodup)
    (hset : ruleSet ∈ sets) {rule : KeyedRule} (hrule : rule ∈ ruleSet.rules) :
    db.matchGroups (rule.row ruleSet.id) = rule.groupRows := by
  have htable : db.ruleGroups = (sets.flatMap KeyedRuleSet.rules).flatMap KeyedRule.groupRows := by
    rw [h.ruleGroups, flatMap_assoc]
    rfl
  have hids : ((sets.flatMap KeyedRuleSet.rules).map KeyedRule.id).Nodup := by
    rw [map_flatMap]
    exact ruleIds_nodup hkeys
  show db.ruleGroups.filter (fun group => group.ruleId == rule.id) = _
  rw [htable]
  exact filter_ref_eq hids (fun _ _ hrow => KeyedRule.ruleId_eq hrow)
    (mem_flatMap.mpr ⟨ruleSet, hset, hrule⟩)

theorem loadGroup_eq (h : Holds db sets) (hkeys : (keysOf sets).Nodup)
    (hset : ruleSet ∈ sets) {group : KeyedGroup} (hgroup : group ∈ ruleSet.groups) (ruleId : ℕ) :
    loadGroup db (group.row ruleId) = group.group := by
  have hids : ((sets.flatMap KeyedRuleSet.groups).map KeyedGroup.id).Nodup := by
    rw [map_flatMap]
    exact groupIds_nodup hkeys
  have hmem : group ∈ sets.flatMap KeyedRuleSet.groups := mem_flatMap.mpr ⟨ruleSet, hset, hgroup⟩
  have hrights : db.requiredRights (group.row ruleId) = group.group.rights := by
    have htable : db.ruleRights = (sets.flatMap KeyedRuleSet.groups).flatMap
        KeyedGroup.rightRows := by
      rw [h.ruleRights, flatMap_assoc]
      rfl
    show (db.ruleRights.filter fun right => right.groupId == group.id).map _ = _
    rw [htable, filter_ref_eq hids (fun _ _ hrow => KeyedGroup.rightGroupId_eq hrow) hmem,
      KeyedGroup.rightRows, map_map]
    exact map_id _
  have hgrps : db.requiredGroups (group.row ruleId) = group.group.groups := by
    have htable : db.ruleMemberships = (sets.flatMap KeyedRuleSet.groups).flatMap
        KeyedGroup.membershipRows := by
      rw [h.ruleMemberships, flatMap_assoc]
      rfl
    show (db.ruleMemberships.filter fun membership => membership.groupId == group.id).map _ = _
    rw [htable, filter_ref_eq hids (fun _ _ hrow => KeyedGroup.membershipGroupId_eq hrow) hmem,
      KeyedGroup.membershipRows, map_map]
    exact map_id _
  rw [loadGroup, hrights, hgrps]
  rfl

/-- **A stored rule is loaded as it was added.** -/
theorem loadRule_eq (h : Holds db sets) (hkeys : (keysOf sets).Nodup)
    (hset : ruleSet ∈ sets) {rule : KeyedRule} (hrule : rule ∈ ruleSet.rules) :
    loadRule db (rule.row ruleSet.id) = rule.loaded := by
  have hgrps : (db.matchGroups (rule.row ruleSet.id)).map (loadGroup db) =
      rule.groups.map KeyedGroup.group := by
    rw [h.matchGroups_eq hkeys hset hrule, KeyedRule.groupRows, map_map]
    refine map_congr_left fun group hgroup => ?_
    exact h.loadGroup_eq hkeys hset (mem_flatMap.mpr ⟨rule, hrule, hgroup⟩) rule.id
  rw [loadRule, hgrps]
  rfl

end Holds

/-! ### The rules of a node -/

def getCompiledAccessRules (targetType : NodeType) (targetId : NodeId) : List CompiledAccessRule :=
  (activeRules db targetType targetId).insertionSort fun a b => a.id ≤ b.id

def KeyedRuleSet.Numbered (ruleSet : KeyedRuleSet) : Prop := ruleSet.ruleIds.Pairwise (· < ·)

instance (ruleSet : KeyedRuleSet) : Decidable ruleSet.Numbered :=
  inferInstanceAs (Decidable (ruleSet.ruleIds.Pairwise (· < ·)))

variable {db : Database} {node : Node}

theorem activeCompiledRuleConditions_iff (hnode : node ∈ db.nodes) (rule : CompiledAccessRule) :
    activeCompiledRuleConditions db rule node.type node.id = true ↔ ∃ ruleSet ∈ db.ruleSets,
      rule.ruleSetId = ruleSet.id ∧ ruleSet.nodeId = node.id ∧
        node.accessRuleSetId = some ruleSet.id := by
  rw [activeCompiledRuleConditions, any_eq_true]
  refine exists_congr fun ruleSet => and_congr_right fun _ => ?_
  rw [Bool.and_eq_true, Bool.and_eq_true, any_eq_true, beq_iff_eq, beq_iff_eq, and_assoc]
  refine and_congr_right fun _ => and_congr_right fun _ => ?_
  constructor
  · rintro ⟨other, hother, hrow⟩
    rw [Bool.and_eq_true, Bool.and_eq_true, beq_iff_eq, beq_iff_eq, beq_iff_eq] at hrow
    obtain ⟨⟨hid, -⟩, hptr⟩ := hrow
    rwa [← Database.eq_of_id_eq hother hnode hid]
  · intro hptr
    exact ⟨node, hnode, by simp [hptr]⟩

theorem activeRules_of_set {sets : List KeyedRuleSet} (h : Holds db sets)
    (hkeys : (keysOf sets).Nodup) (hset : ruleSet ∈ sets) (hnode : node ∈ db.nodes)
    (hid : ruleSet.nodeId = node.id) (hptr : node.accessRuleSetId = some ruleSet.id) :
    activeRules db node.type node.id = ruleSet.ruleRows := by
  have hsetRow : ruleSet.row ∈ db.ruleSets := by
    rw [h.ruleSets]
    exact mem_map_of_mem hset
  have hact : ∀ rule ∈ db.rules,
      activeCompiledRuleConditions db rule node.type node.id = (rule.ruleSetId == ruleSet.id) := by
    intro rule _
    rw [Bool.eq_iff_iff, activeCompiledRuleConditions_iff hnode, beq_iff_eq]
    constructor
    · rintro ⟨other, -, hother, -, hotherPointer⟩
      rw [hptr, Option.some.injEq] at hotherPointer
      rw [hother, hotherPointer]
    · intro hown
      exact ⟨ruleSet.row, hsetRow, hown, hid, hptr⟩
  have hids : (sets.map KeyedRuleSet.id).Nodup := by
    rw [map_eq_flatMap]
    exact ruleSetIds_nodup hkeys
  rw [activeRules, filter_congr hact, h.rules]
  exact filter_ref_eq hids (fun _ _ hrow => mem_singleton.mp (KeyedRuleSet.ruleSetId_mem hrow)) hset

theorem activeRules_of_none (hnode : node ∈ db.nodes) (hptr : node.accessRuleSetId = none) :
    activeRules db node.type node.id = [] := by
  refine filter_eq_nil_iff.mpr fun rule _ hact => ?_
  obtain ⟨ruleSet, -, -, -, hruleSet⟩ := (activeCompiledRuleConditions_iff hnode rule).mp hact
  rw [hptr] at hruleSet
  cases hruleSet

theorem getCompiledAccessRules_of_set {sets : List KeyedRuleSet}
    (h : Holds db sets) (hkeys : (keysOf sets).Nodup)
    (hset : ruleSet ∈ sets) (hnum : ruleSet.Numbered) (hnode : node ∈ db.nodes)
    (hid : ruleSet.nodeId = node.id) (hptr : node.accessRuleSetId = some ruleSet.id) :
    (getCompiledAccessRules db node.type node.id).map (loadRule db) =
      ruleSet.rules.map KeyedRule.loaded := by
  have hsort : ruleSet.ruleRows.Pairwise fun a b => a.id ≤ b.id := by
    rw [KeyedRuleSet.ruleRows, pairwise_map]
    exact (pairwise_map.mp hnum).imp Nat.le_of_lt
  rw [getCompiledAccessRules, activeRules_of_set h hkeys hset hnode hid hptr,
    hsort.insertionSort_eq, KeyedRuleSet.ruleRows, map_map]
  exact map_congr_left fun rule hrule => h.loadRule_eq hkeys hset hrule

theorem getCompiledAccessRules_of_none (hnode : node ∈ db.nodes)
    (hptr : node.accessRuleSetId = none) :
    getCompiledAccessRules db node.type node.id = [] := by
  rw [getCompiledAccessRules, activeRules_of_none hnode hptr]
  rfl

end Cfms.Access
