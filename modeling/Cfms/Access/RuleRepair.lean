import Cfms.Lib.OwnedRows
import Mathlib.Data.Prod.Lex
import Mathlib.Data.String.Basic

/-!
# Repair of the compiled rules

The repair unlinks nodes, deletes rule sets, deletes rules and deletes the rule sets that this has
emptied; the checker looks at the tables afresh.  A consistent database is `Clean` after the four
passes, the checker accepts clean databases and the repair leaves them as they are.
-/

namespace Cfms.Access.Repair

open Lib.OwnedRows List

/-! ### Rows -/

structure Node where
  id : String
  type : String
  accessRuleSetId : Option String
  deriving DecidableEq

def Node.unlink (node : Node) : Node := { node with accessRuleSetId := none }

structure CompiledAccessRuleSet where
  id : String
  nodeId : String
  deriving DecidableEq

structure CompiledAccessRule where
  id : ℕ
  ruleSetId : String
  accessType : String
  matchMode : String
  deriving DecidableEq

structure CompiledAccessRuleGroup where
  id : String
  ruleId : ℕ
  matchMode : String
  rightsMatchMode : String
  groupsMatchMode : String
  deriving DecidableEq

structure CompiledDb where
  nodes : List Node
  ruleSets : List CompiledAccessRuleSet
  rules : List CompiledAccessRule
  groups : List CompiledAccessRuleGroup
  deriving DecidableEq

namespace CompiledDb

variable (db : CompiledDb)

def ruleSet? (id : String) : Option CompiledAccessRuleSet :=
  db.ruleSets.find? fun ruleSet => ruleSet.id = id

def rulesOf (id : String) : List CompiledAccessRule :=
  db.rules.filter fun rule => rule.ruleSetId = id

def groupsOf (id : ℕ) : List CompiledAccessRuleGroup :=
  db.groups.filter fun group => group.ruleId = id

def nodeIds : List String := db.nodes.map Node.id

/-- `node_type_by_id.get(..., "node")`. -/
def nodeType (id : String) : String :=
  ((db.nodes.find? fun node => node.id = id).map Node.type).getD "node"

def activeRuleSetIds : List String := db.nodes.filterMap Node.accessRuleSetId

/-- The primary keys and the foreign keys of the four tables. -/
structure Consistent : Prop where
  nodes : db.nodeIds.Nodup
  ruleSets : (db.ruleSets.map CompiledAccessRuleSet.id).Nodup
  rules : (db.rules.map CompiledAccessRule.id).Nodup
  ofNode : ∀ id ∈ db.activeRuleSetIds, id ∈ db.ruleSets.map CompiledAccessRuleSet.id
  ofRuleSet : ∀ ruleSet ∈ db.ruleSets, ruleSet.nodeId ∈ db.nodeIds
  ofRule : ∀ rule ∈ db.rules, rule.ruleSetId ∈ db.ruleSets.map CompiledAccessRuleSet.id
  ofGroup : ∀ group ∈ db.groups, group.ruleId ∈ db.rules.map CompiledAccessRule.id

instance : Decidable db.Consistent :=
  decidable_of_iff (db.nodeIds.Nodup ∧ (db.ruleSets.map CompiledAccessRuleSet.id).Nodup ∧
      (db.rules.map CompiledAccessRule.id).Nodup ∧
      (∀ id ∈ db.activeRuleSetIds, id ∈ db.ruleSets.map CompiledAccessRuleSet.id) ∧
      (∀ ruleSet ∈ db.ruleSets, ruleSet.nodeId ∈ db.nodeIds) ∧
      (∀ rule ∈ db.rules, rule.ruleSetId ∈ db.ruleSets.map CompiledAccessRuleSet.id) ∧
      ∀ group ∈ db.groups, group.ruleId ∈ db.rules.map CompiledAccessRule.id)
    ⟨fun ⟨h₁, h₂, h₃, h₄, h₅, h₆, h₇⟩ => ⟨h₁, h₂, h₃, h₄, h₅, h₆, h₇⟩,
      fun ⟨h₁, h₂, h₃, h₄, h₅, h₆, h₇⟩ => ⟨h₁, h₂, h₃, h₄, h₅, h₆, h₇⟩⟩

/-! ### The checker -/

def availableAccessTypes : List String := ["read", "write", "move", "manage"]

def matchModes : List String := ["all", "any"]

/-- `_compiled_rule_has_invalid_shape`. -/
def hasInvalidShape (rule : CompiledAccessRule) : Bool :=
  (db.ruleSet? rule.ruleSetId).isNone || !availableAccessTypes.contains rule.accessType ||
    !matchModes.contains rule.matchMode ||
    (db.groupsOf rule.id).any fun group => !matchModes.contains group.matchMode ||
      !matchModes.contains group.rightsMatchMode || !matchModes.contains group.groupsMatchMode

def nodeMismatches (node : Node) : List (String × String) :=
  match node.accessRuleSetId with
  | none => []
  | some id =>
    match db.ruleSet? id with
    | none => [(node.type, node.id)]
    | some active =>
      if active.nodeId ≠ node.id then [(node.type, node.id)]
      else if (db.rulesOf active.id).isEmpty then [(node.type, node.id)] else []

def ruleSetMismatches (includeOrphans : Bool) (ruleSet : CompiledAccessRuleSet) :
    List (String × String) :=
  if includeOrphans ∧ ruleSet.nodeId ∉ db.nodeIds then [("node", ruleSet.nodeId)]
  else if ruleSet.nodeId ∈ db.nodeIds ∧ ruleSet.id ∉ db.activeRuleSetIds then
    [(db.nodeType ruleSet.nodeId, ruleSet.nodeId)]
  else if (db.rulesOf ruleSet.id).isEmpty then [(db.nodeType ruleSet.nodeId, ruleSet.nodeId)] else []

def ruleMismatches (includeOrphans : Bool) (rule : CompiledAccessRule) : List (String × String) :=
  match db.ruleSet? rule.ruleSetId with
  | none => [("rule_set", rule.ruleSetId)]
  | some ruleSet =>
    if db.hasInvalidShape rule then [(db.nodeType ruleSet.nodeId, ruleSet.nodeId)]
    else if includeOrphans ∧ ruleSet.nodeId ∉ db.nodeIds then
      [(db.nodeType ruleSet.nodeId, ruleSet.nodeId)]
    else []

/-- `sorted(set(mismatches))`. -/
def sortedSet (mismatches : List (String × String)) : List (String × String) :=
  mismatches.dedup.mergeSort fun first second => decide (toLex first ≤ toLex second)

def findCompiledAccessRuleMismatches (includeOrphans : Bool := true) : List (String × String) :=
  sortedSet (db.nodes.flatMap db.nodeMismatches ++
    db.ruleSets.flatMap (db.ruleSetMismatches includeOrphans) ++
    db.rules.flatMap (db.ruleMismatches includeOrphans))

/-! ### The repair -/

/-- `str(node.access_rule_set_id)`. -/
def str : Option String → String
  | none => "None"
  | some id => id

/-- `session.delete(rule_set)` for rule sets with these keys; the relationships cascade. -/
def deleteRuleSets (gone : List String) : CompiledDb where
  nodes := db.nodes
  ruleSets := db.ruleSets.filter fun ruleSet => !gone.contains ruleSet.id
  rules := cascade gone CompiledAccessRule.ruleSetId db.rules
  groups := cascade ((referring gone CompiledAccessRule.ruleSetId db.rules).map CompiledAccessRule.id)
    CompiledAccessRuleGroup.ruleId db.groups

/-- A flush raises if the rows break a key. -/
def flush : Option CompiledDb := if db.Consistent then some db else none

def unlinkNode (node : Node) : Node :=
  match db.ruleSet? (str node.accessRuleSetId) with
  | none => node.unlink
  | some active =>
    if active.nodeId ≠ node.id ∨ (db.rulesOf active.id).isEmpty then node.unlink else node

def unlinkNodes : CompiledDb := { db with nodes := db.nodes.map db.unlinkNode }

def unusedRuleSets : List CompiledAccessRuleSet :=
  db.ruleSets.filter fun ruleSet => ruleSet.nodeId ∉ db.nodeIds ∨
    ruleSet.id ∉ db.activeRuleSetIds ∨ (db.rulesOf ruleSet.id).isEmpty

def deleteUnusedRuleSets : CompiledDb :=
  db.deleteRuleSets (db.unusedRuleSets.map CompiledAccessRuleSet.id)

def deleteInvalidRules : CompiledDb :=
  { db with
    rules := db.rules.filter fun rule => !db.hasInvalidShape rule
    groups := cascade ((db.rules.filter db.hasInvalidShape).map CompiledAccessRule.id)
      CompiledAccessRuleGroup.ruleId db.groups }

def unlinkFrom (ruleSet : CompiledAccessRuleSet) (node : Node) : Node :=
  if node.id = ruleSet.nodeId ∧ node.accessRuleSetId = some ruleSet.id then node.unlink else node

def unlinkOwner (ruleSet : CompiledAccessRuleSet) : CompiledDb :=
  { db with nodes := db.nodes.map (unlinkFrom ruleSet) }

/-- One round of the loop over the remaining rule sets, for one without rules. -/
def removeEmptied (ruleSet : CompiledAccessRuleSet) : CompiledDb :=
  (db.unlinkOwner ruleSet).deleteRuleSets [ruleSet.id]

def emptiedRuleSets : List CompiledAccessRuleSet :=
  db.ruleSets.filter fun ruleSet => (db.rulesOf ruleSet.id).isEmpty

def removeEmptiedRuleSets : CompiledDb := db.emptiedRuleSets.foldl removeEmptied db

/-- `repair_compiled_access_rules`; the second flush is that of the query for the rules. -/
def repairCompiledAccessRules : Option (CompiledDb × List (String × String)) := do
  let db ← db.unlinkNodes.flush
  let db ← db.deleteUnusedRuleSets.flush
  let db ← db.deleteInvalidRules.flush
  let db ← db.removeEmptiedRuleSets.flush
  some (db, db.findCompiledAccessRuleMismatches)

/-! ### Lookups -/

variable {db} {id : String}

theorem mem_of_ruleSet? {ruleSet : CompiledAccessRuleSet}
    (h : db.ruleSet? id = some ruleSet) : ruleSet ∈ db.ruleSets ∧ ruleSet.id = id := by
  have hid := find?_some h
  exact ⟨mem_of_find?_eq_some h, of_decide_eq_true hid⟩

theorem ruleSet?_of_mem (h : db.Consistent) {ruleSet : CompiledAccessRuleSet}
    (hmem : ruleSet ∈ db.ruleSets) : db.ruleSet? ruleSet.id = some ruleSet := by
  cases hfound : db.ruleSet? ruleSet.id with
  | none => exact absurd (decide_eq_true rfl) (find?_eq_none.mp hfound ruleSet hmem)
  | some found =>
    obtain ⟨hin, hid⟩ := mem_of_ruleSet? hfound
    rw [inj_on_of_nodup_map h.ruleSets hin hmem hid]

@[grind =]
theorem mem_rulesOf {rule : CompiledAccessRule} :
    rule ∈ db.rulesOf id ↔ rule ∈ db.rules ∧ rule.ruleSetId = id := by
  rw [rulesOf, mem_filter, decide_eq_true_iff]

@[grind =]
theorem mem_activeRuleSetIds :
    id ∈ db.activeRuleSetIds ↔ ∃ node ∈ db.nodes, node.accessRuleSetId = some id :=
  mem_filterMap

theorem flush_eq_some (h : db.Consistent) : db.flush = some db := if_pos h

/-! ### Clean databases -/

variable (db) in
def Linked : Prop :=
  ∀ node ∈ db.nodes, ∀ id, node.accessRuleSetId = some id →
    ∃ ruleSet ∈ db.ruleSets, ruleSet.id = id ∧ ruleSet.nodeId = node.id

variable (db) in
/-- What the repair leads to. -/
structure Clean : Prop where
  linked : db.Linked
  used : ∀ ruleSet ∈ db.ruleSets, ruleSet.id ∈ db.activeRuleSetIds
  filled : ∀ ruleSet ∈ db.ruleSets, db.rulesOf ruleSet.id ≠ []
  valid : ∀ rule ∈ db.rules, db.hasInvalidShape rule = false

/-- **The checker** accepts clean databases. -/
theorem find_eq_nil (h : db.Consistent) (hclean : db.Clean) (includeOrphans : Bool) :
    db.findCompiledAccessRuleMismatches includeOrphans = [] := by
  have hnodes : db.nodes.flatMap db.nodeMismatches = [] := by
    refine flatMap_eq_nil_iff.mpr fun node hnode => ?_
    unfold nodeMismatches
    cases hlink : node.accessRuleSetId with
    | none => rfl
    | some id =>
      obtain ⟨active, hact, rfl, howner⟩ := hclean.linked node hnode id hlink
      simp [ruleSet?_of_mem h hact, howner, hclean.filled active hact]
  have hruleSets : db.ruleSets.flatMap (db.ruleSetMismatches includeOrphans) = [] := by
    refine flatMap_eq_nil_iff.mpr fun ruleSet hmem => ?_
    simp [ruleSetMismatches, h.ofRuleSet ruleSet hmem, hclean.used ruleSet hmem,
      hclean.filled ruleSet hmem]
  have hrules : db.rules.flatMap (db.ruleMismatches includeOrphans) = [] := by
    refine flatMap_eq_nil_iff.mpr fun rule hrule => ?_
    obtain ⟨ruleSet, hmem, hid⟩ := mem_map.mp (h.ofRule rule hrule)
    simp [ruleMismatches, ← hid, ruleSet?_of_mem h hmem, hclean.valid rule hrule,
      h.ofRuleSet ruleSet hmem]
  rw [findCompiledAccessRuleMismatches, hnodes, hruleSets, hrules]
  simp [sortedSet]

theorem deleteRuleSets_nil (db : CompiledDb) : db.deleteRuleSets [] = db := by
  simp [deleteRuleSets, cascade, referring]

/-- **The repair leaves clean databases** as they are. -/
theorem repair_of_clean (h : db.Consistent) (hclean : db.Clean) :
    db.repairCompiledAccessRules = some (db, []) := by
  have hunlink : db.unlinkNodes = db := by
    have hnodes : db.nodes.map db.unlinkNode = db.nodes := by
      refine (map_congr_left fun node hnode => ?_).trans (map_id _)
      cases hlink : node.accessRuleSetId with
      | none =>
        have hsame : node.unlink = node := by rw [Node.unlink, ← hlink]
        grind [unlinkNode]
      | some id =>
        obtain ⟨active, hact, rfl, howner⟩ := hclean.linked node hnode id hlink
        simp [unlinkNode, hlink, str, ruleSet?_of_mem h hact, howner, hclean.filled active hact]
    rw [unlinkNodes, hnodes]
  have hunus : db.unusedRuleSets = [] := by
    refine filter_eq_nil_iff.mpr fun ruleSet hmem => ?_
    simp [h.ofRuleSet ruleSet hmem, hclean.used ruleSet hmem, hclean.filled ruleSet hmem]
  have hinvalid : db.deleteInvalidRules = db := by
    have hnone : db.rules.filter db.hasInvalidShape = [] :=
      filter_eq_nil_iff.mpr fun rule hrule => by simp [hclean.valid rule hrule]
    have hall : db.rules.filter (fun rule => !db.hasInvalidShape rule) = db.rules :=
      filter_eq_self.mpr fun rule hrule => by simp [hclean.valid rule hrule]
    rw [deleteInvalidRules, hnone, hall]
    simp [cascade]
  have hemp : db.emptiedRuleSets = [] :=
    filter_eq_nil_iff.mpr fun ruleSet hmem => by simp [hclean.filled ruleSet hmem]
  simp [repairCompiledAccessRules, hunlink, deleteUnusedRuleSets, hunus, deleteRuleSets_nil,
    hinvalid, removeEmptiedRuleSets, hemp, flush_eq_some h, find_eq_nil h hclean]

/-! ### Deletions -/

variable {gone : List String} {ruleSet : CompiledAccessRuleSet} {rule : CompiledAccessRule}

@[grind =] theorem nodes_deleteRuleSets : (db.deleteRuleSets gone).nodes = db.nodes := rfl

@[grind =]
theorem mem_ruleSets_deleteRuleSets : ruleSet ∈ (db.deleteRuleSets gone).ruleSets ↔
    ruleSet ∈ db.ruleSets ∧ ruleSet.id ∉ gone := by
  simp [deleteRuleSets]

@[grind =]
theorem mem_rules_deleteRuleSets : rule ∈ (db.deleteRuleSets gone).rules ↔
    rule ∈ db.rules ∧ rule.ruleSetId ∉ gone := by
  simp [deleteRuleSets, cascade]

/-- Groups go with their rules. -/
theorem Consistent.ofGroup_cascade (h : db.Consistent) (p : CompiledAccessRule → Bool) :
    ∀ group ∈ cascade ((db.rules.filter p).map CompiledAccessRule.id)
        CompiledAccessRuleGroup.ruleId db.groups,
      group.ruleId ∈ (db.rules.filter fun rule => !p rule).map CompiledAccessRule.id := by
  have hgroup := h.ofGroup
  simp only [cascade] at *
  grind

/-- A deletion keeps the keys, if no node is linked to what goes. -/
theorem Consistent.deleteRuleSets (h : db.Consistent)
    (hgone : ∀ id ∈ db.activeRuleSetIds, id ∉ gone) : (db.deleteRuleSets gone).Consistent where
  nodes := h.nodes
  ruleSets := h.ruleSets.sublist (filter_sublist.map _)
  rules := h.rules.sublist (filter_sublist.map _)
  ofNode id hid := by
    have hset := h.ofNode id hid
    grind
  ofRuleSet ruleSet hmem := h.ofRuleSet ruleSet (mem_of_mem_filter hmem)
  ofRule rule hrule := by
    have hset := h.ofRule rule
    grind
  ofGroup := h.ofGroup_cascade _

theorem rulesOf_deleteRuleSets (hid : id ∉ gone) :
    (db.deleteRuleSets gone).rulesOf id = db.rulesOf id := by
  rw [rulesOf, deleteRuleSets, cascade, filter_filter]
  refine filter_congr fun rule _ => ?_
  by_cases hrule : rule.ruleSetId = id <;> simp [hrule, hid]

/-- The rules that stay keep their groups. -/
theorem groupsOf_cascade (h : db.Consistent) {deleted : List CompiledAccessRule}
    (hsub : deleted ⊆ db.rules) (hrule : rule ∈ db.rules) (hstays : rule ∉ deleted) :
    (cascade (deleted.map CompiledAccessRule.id) CompiledAccessRuleGroup.ruleId db.groups).filter
      (fun group => group.ruleId = rule.id) = db.groupsOf rule.id := by
  have hid : rule.id ∉ deleted.map CompiledAccessRule.id := by
    have hinj := inj_on_of_nodup_map h.rules
    grind
  rw [cascade, filter_filter, groupsOf]
  grind

/-- What a deletion leaves of a rule set that it keeps. -/
theorem kept_deleteRuleSets (h : db.Consistent) (hrule : rule ∈ db.rules)
    (hid : rule.ruleSetId ∉ gone) :
    (db.deleteRuleSets gone).groupsOf rule.id = db.groupsOf rule.id ∧
      (db.deleteRuleSets gone).hasInvalidShape rule = db.hasInvalidShape rule := by
  have hgrps : (db.deleteRuleSets gone).groupsOf rule.id = db.groupsOf rule.id :=
    groupsOf_cascade h filter_sublist.subset hrule fun hmem =>
      hid (by simpa using (mem_filter.mp hmem).2)
  have hruleSet : (db.deleteRuleSets gone).ruleSet? rule.ruleSetId = db.ruleSet? rule.ruleSetId := by
    rw [ruleSet?, deleteRuleSets]
    grind [ruleSet?]
  exact ⟨hgrps, by rw [hasInvalidShape, hgrps, hruleSet, hasInvalidShape]⟩

/-! ### What is kept -/

structure Keeps (node : Node) (ruleSet : CompiledAccessRuleSet) (rules : List CompiledAccessRule)
    (groups : ℕ → List CompiledAccessRuleGroup) (db : CompiledDb) : Prop where
  mem_nodes : node ∈ db.nodes
  linked : node.accessRuleSetId = some ruleSet.id
  mem_ruleSets : ruleSet ∈ db.ruleSets
  own : ruleSet.nodeId = node.id
  valid : (db.rulesOf ruleSet.id).filter (fun rule => !db.hasInvalidShape rule) = rules
  held : ∀ rule ∈ rules, db.groupsOf rule.id = groups rule.id

variable {node : Node} {rules : List CompiledAccessRule} {groups : ℕ → List CompiledAccessRuleGroup}

theorem Keeps.deleteRuleSets (h : Keeps node ruleSet rules groups db) (hdb : db.Consistent)
    (hid : ruleSet.id ∉ gone) : Keeps node ruleSet rules groups (db.deleteRuleSets gone) := by
  have hkept : ∀ rule ∈ db.rulesOf ruleSet.id,
      (db.deleteRuleSets gone).groupsOf rule.id = db.groupsOf rule.id ∧
        (db.deleteRuleSets gone).hasInvalidShape rule = db.hasInvalidShape rule := by
    intro rule hrule
    obtain ⟨hin, heq⟩ := mem_rulesOf.mp hrule
    exact kept_deleteRuleSets hdb hin (heq ▸ hid)
  refine ⟨h.mem_nodes, h.linked, mem_ruleSets_deleteRuleSets.mpr ⟨h.mem_ruleSets, hid⟩, h.own, ?_, ?_⟩
  · rw [rulesOf_deleteRuleSets hid, ← h.valid]
    exact filter_congr fun rule hrule => by rw [(hkept rule hrule).2]
  · intro rule hrule
    rw [(hkept rule (mem_of_mem_filter (h.valid ▸ hrule))).1, h.held rule hrule]

theorem Keeps.rulesOf_ne_nil (h : Keeps node ruleSet rules groups db) (hrules : rules ≠ []) :
    db.rulesOf ruleSet.id ≠ [] := by
  intro hnil
  rw [← h.valid, hnil] at hrules
  exact hrules rfl

/-! ### The four passes -/

/-- Nodes that keep their link or lose it. -/
theorem Consistent.mapNodes (h : db.Consistent) {f : Node → Node}
    (hf : ∀ node, f node = node ∨ f node = node.unlink) :
    Consistent { db with nodes := db.nodes.map f } := by
  have hids : (db.nodes.map f).map Node.id = db.nodeIds := by
    rw [map_map]
    refine map_congr_left fun node _ => ?_
    rcases hf node with heq | heq <;> rw [Function.comp_apply, heq]
    rfl
  refine ⟨(congrArg List.Nodup hids).mpr h.nodes, h.ruleSets, h.rules, fun id hmem => ?_,
    fun ruleSet hmem => (congrArg (ruleSet.nodeId ∈ ·) hids).mpr (h.ofRuleSet ruleSet hmem), h.ofRule,
    h.ofGroup⟩
  have hbef : id ∈ db.activeRuleSetIds := by grind [Node.unlink]
  exact h.ofNode id hbef

theorem unlinkNode_eq (db : CompiledDb) (node : Node) :
    db.unlinkNode node = node.unlink ∨ db.unlinkNode node = node ∧
      ∀ id, node.accessRuleSetId = some id →
        ∃ active ∈ db.ruleSets, active.id = id ∧ active.nodeId = node.id ∧ db.rulesOf id ≠ [] := by
  unfold unlinkNode
  split
  · exact .inl rfl
  next active hact =>
    split
    · exact .inl rfl
    next hkept =>
      refine .inr ⟨rfl, fun id hlink => ?_⟩
      rw [hlink] at hact
      obtain ⟨hmem, rfl⟩ := mem_of_ruleSet? hact
      simp only [not_or, not_not, List.isEmpty_iff] at hkept
      exact ⟨active, hmem, rfl, hkept⟩

theorem link_of_unlinkNodes (hnode : node ∈ db.unlinkNodes.nodes)
    (hlink : node.accessRuleSetId = some id) :
    ∃ active ∈ db.ruleSets, active.id = id ∧ active.nodeId = node.id ∧ db.rulesOf id ≠ [] := by
  obtain ⟨before, -, rfl⟩ := mem_map.mp hnode
  rcases db.unlinkNode_eq before with hunlinked | ⟨hsame, hact⟩
  · rw [hunlinked] at hlink
    cases hlink
  · rw [hsame] at hlink ⊢
    exact hact id hlink

theorem Consistent.unlinkNodes (h : db.Consistent) : db.unlinkNodes.Consistent :=
  h.mapNodes fun node => (db.unlinkNode_eq node).symm.imp And.left id

theorem Keeps.unlinkNodes (h : Keeps node ruleSet rules groups db) (hdb : db.Consistent)
    (hrules : rules ≠ []) : Keeps node ruleSet rules groups db.unlinkNodes := by
  have hsame : db.unlinkNode node = node := by
    simp [unlinkNode, h.linked, str, ruleSet?_of_mem hdb h.mem_ruleSets, h.own,
      h.rulesOf_ne_nil hrules]
  exact ⟨mem_map.mpr ⟨node, h.mem_nodes, hsame⟩, h.linked, h.mem_ruleSets, h.own, h.valid, h.held⟩

/-- After the first pass the links lead to rule sets that are used. -/
theorem not_unused (h : db.Consistent) (hfilled : ∀ id ∈ db.activeRuleSetIds, db.rulesOf id ≠ []) :
    ∀ id ∈ db.activeRuleSetIds, id ∉ db.unusedRuleSets.map CompiledAccessRuleSet.id := by
  have hnode := h.ofRuleSet
  simp only [unusedRuleSets]
  grind

theorem Linked.deleteRuleSets (h : db.Linked) (hgone : ∀ id ∈ db.activeRuleSetIds, id ∉ gone) :
    (db.deleteRuleSets gone).Linked := by
  intro node hnode id hlink
  have hset := h node hnode id hlink
  grind

theorem used_deleteUnusedRuleSets (hmem : ruleSet ∈ db.deleteUnusedRuleSets.ruleSets) :
    ruleSet.id ∈ db.activeRuleSetIds := by
  rw [deleteUnusedRuleSets, unusedRuleSets] at hmem
  grind

theorem Consistent.deleteInvalidRules (h : db.Consistent) : db.deleteInvalidRules.Consistent :=
  ⟨h.nodes, h.ruleSets, h.rules.sublist (filter_sublist.map _), h.ofNode, h.ofRuleSet,
    fun rule hrule => h.ofRule rule (mem_of_mem_filter hrule), h.ofGroup_cascade _⟩

/-- A valid rule is valid afterwards: its groups stay. -/
theorem valid_deleteInvalidRules (h : db.Consistent) (hrule : rule ∈ db.rules)
    (hvalid : db.hasInvalidShape rule = false) :
    db.deleteInvalidRules.groupsOf rule.id = db.groupsOf rule.id ∧
      db.deleteInvalidRules.hasInvalidShape rule = false := by
  have hgrps : db.deleteInvalidRules.groupsOf rule.id = db.groupsOf rule.id :=
    groupsOf_cascade h filter_sublist.subset hrule (by simp [hvalid])
  exact ⟨hgrps, by rw [hasInvalidShape, hgrps]; exact hvalid⟩

theorem Keeps.deleteInvalidRules (h : Keeps node ruleSet rules groups db) (hdb : db.Consistent) :
    Keeps node ruleSet rules groups db.deleteInvalidRules := by
  have hrulesOf : db.deleteInvalidRules.rulesOf ruleSet.id = rules := by
    rw [← h.valid, rulesOf, CompiledDb.deleteInvalidRules, rulesOf, filter_filter, filter_filter]
    exact filter_congr fun rule _ => Bool.and_comm _ _
  have hof : ∀ rule ∈ rules, db.deleteInvalidRules.groupsOf rule.id = db.groupsOf rule.id ∧
      db.deleteInvalidRules.hasInvalidShape rule = false := by
    intro rule hrule
    obtain ⟨hmem, hvalid⟩ := mem_filter.mp (h.valid ▸ hrule)
    exact valid_deleteInvalidRules hdb (mem_rulesOf.mp hmem).1 (by simpa using hvalid)
  refine ⟨h.mem_nodes, h.linked, h.mem_ruleSets, h.own, ?_, ?_⟩
  · rw [hrulesOf]
    exact filter_eq_self.mpr fun rule hrule => by simp [(hof rule hrule).2]
  · intro rule hrule
    rw [(hof rule hrule).1, h.held rule hrule]

/-- The loop over the emptied rule sets. -/
structure Emptying (rest : List CompiledAccessRuleSet) (db : CompiledDb) : Prop where
  consistent : db.Consistent
  linked : db.Linked
  used : ∀ ruleSet ∈ db.ruleSets, ruleSet.id ∈ db.activeRuleSetIds
  valid : ∀ rule ∈ db.rules, db.hasInvalidShape rule = false
  distinct : (rest.map CompiledAccessRuleSet.id).Nodup
  mem_iff : ∀ ruleSet, ruleSet ∈ rest ↔ ruleSet ∈ db.ruleSets ∧ db.rulesOf ruleSet.id = []

theorem unlinkFrom_of_ne (h : node.accessRuleSetId ≠ some ruleSet.id) :
    unlinkFrom ruleSet node = node :=
  if_neg fun hboth => h hboth.2

theorem Consistent.unlinkOwner (h : db.Consistent) : (db.unlinkOwner ruleSet).Consistent :=
  h.mapNodes fun node => by grind [unlinkFrom]

theorem link_of_unlinkOwner (h : db.Consistent) (hlinked : db.Linked) (hmem : ruleSet ∈ db.ruleSets)
    {node : Node} {id : String} (hnode : node ∈ (db.unlinkOwner ruleSet).nodes)
    (hlink : node.accessRuleSetId = some id) : id ≠ ruleSet.id ∧
      ∃ active ∈ db.ruleSets, active.id = id ∧ active.nodeId = node.id := by
  obtain ⟨before, hbef, rfl⟩ := mem_map.mp hnode
  have hset := hlinked before hbef
  have hinj := inj_on_of_nodup_map h.ruleSets
  grind [unlinkFrom, Node.unlink]

variable {rest : List CompiledAccessRuleSet}

theorem Emptying.step (h : Emptying (ruleSet :: rest) db) :
    Emptying rest (db.removeEmptied ruleSet) := by
  obtain ⟨hmem, -⟩ := (h.mem_iff ruleSet).mp mem_cons_self
  obtain ⟨hnew, hdist⟩ := nodup_cons.mp h.distinct
  have hunlinked := @Consistent.unlinkOwner db ruleSet h.consistent
  have hlink := @link_of_unlinkOwner db ruleSet h.consistent h.linked hmem
  have hgone : ∀ id ∈ (db.unlinkOwner ruleSet).activeRuleSetIds, id ∉ [ruleSet.id] := by grind
  refine ⟨hunlinked.deleteRuleSets hgone,
    Linked.deleteRuleSets (fun node hnode id heq => (hlink hnode heq).2) hgone,
    fun other hother => ?_, fun rule hrule => ?_, hdist, fun other => ?_⟩
  · obtain ⟨hin, hne⟩ := mem_ruleSets_deleteRuleSets.mp hother
    obtain ⟨node, hnode, heq⟩ := mem_activeRuleSetIds.mp (h.used other hin)
    exact mem_activeRuleSetIds.mpr
      ⟨node, mem_map.mpr ⟨node, hnode, unlinkFrom_of_ne (by grind)⟩, heq⟩
  · obtain ⟨hrule, hid⟩ := mem_rules_deleteRuleSets.mp hrule
    exact (kept_deleteRuleSets hunlinked hrule hid).2.trans (h.valid rule hrule)
  · by_cases hne : other.id = ruleSet.id
    · have hnotin : other ∉ rest := fun hin => hnew (hne ▸ mem_map_of_mem hin)
      simp [removeEmptied, mem_ruleSets_deleteRuleSets, hne, hnotin]
    · have hrules : (db.removeEmptied ruleSet).rulesOf other.id = db.rulesOf other.id :=
        rulesOf_deleteRuleSets (by simpa using hne)
      have hother := h.mem_iff other
      rw [removeEmptied, mem_ruleSets_deleteRuleSets, ← removeEmptied]
      show other ∈ rest ↔ (other ∈ db.ruleSets ∧ _) ∧ _
      grind

theorem Emptying.run (h : Emptying rest db) : Emptying [] (rest.foldl removeEmptied db) := by
  induction rest generalizing db with
  | nil => exact h
  | cons ruleSet rest ih => exact ih h.step

theorem Keeps.run {kept : CompiledAccessRuleSet} (h : Keeps node kept rules groups db)
    (hrules : rules ≠ []) (hloop : Emptying rest db) :
    Keeps node kept rules groups (rest.foldl removeEmptied db) := by
  induction rest generalizing db with
  | nil => exact h
  | cons ruleSet rest ih =>
    obtain ⟨hmem, hempty⟩ := (hloop.mem_iff ruleSet).mp mem_cons_self
    have hne : kept.id ≠ ruleSet.id := fun heq => h.rulesOf_ne_nil hrules (heq ▸ hempty)
    have hsame : unlinkFrom ruleSet node = node := unlinkFrom_of_ne (by grind [h.linked])
    have hunlinked : Keeps node kept rules groups (db.unlinkOwner ruleSet) :=
      ⟨mem_map.mpr ⟨node, h.mem_nodes, hsame⟩, h.linked, h.mem_ruleSets, h.own, h.valid, h.held⟩
    exact ih (hunlinked.deleteRuleSets hloop.consistent.unlinkOwner (by simpa using hne)) hloop.step

/-- **Repair** ends in a clean database, and keeps what is valid. -/
theorem repair_clean (h : db.Consistent) :
    ∃ repaired, db.repairCompiledAccessRules = some (repaired, []) ∧ repaired.Consistent ∧
      repaired.Clean ∧ ∀ node ruleSet rules groups, rules ≠ [] → Keeps node ruleSet rules groups db →
        Keeps node ruleSet rules groups repaired := by
  have h₁ := h.unlinkNodes
  have hact : ∀ id ∈ db.unlinkNodes.activeRuleSetIds, db.unlinkNodes.rulesOf id ≠ [] := by
    intro id hid
    obtain ⟨node, hnode, hlink⟩ := mem_activeRuleSetIds.mp hid
    obtain ⟨active, -, -, -, hfilled⟩ := link_of_unlinkNodes hnode hlink
    exact hfilled
  have hlinked₁ : db.unlinkNodes.Linked := by
    intro node hnode id hlink
    obtain ⟨active, hmem, hid, howner, -⟩ := link_of_unlinkNodes hnode hlink
    exact ⟨active, hmem, hid, howner⟩
  have hunus := not_unused h₁ hact
  have h₂ : db.unlinkNodes.deleteUnusedRuleSets.Consistent := h₁.deleteRuleSets hunus
  have hlinked₂ : db.unlinkNodes.deleteUnusedRuleSets.Linked := hlinked₁.deleteRuleSets hunus
  have h₃ := h₂.deleteInvalidRules
  generalize hdb₂ : db.unlinkNodes.deleteUnusedRuleSets = db₂ at h₂ h₃ hlinked₂
  have hloop : Emptying db₂.deleteInvalidRules.emptiedRuleSets db₂.deleteInvalidRules := by
    refine ⟨h₃, hlinked₂, fun ruleSet hmem => ?_, fun rule hrule => ?_,
      h₃.ruleSets.sublist (filter_sublist.map _), fun ruleSet => ?_⟩
    · rw [← hdb₂] at hmem ⊢
      exact @used_deleteUnusedRuleSets db.unlinkNodes ruleSet hmem
    · obtain ⟨hrule, hvalid⟩ := mem_filter.mp hrule
      exact (valid_deleteInvalidRules h₂ hrule (by simpa using hvalid)).2
    · rw [emptiedRuleSets, List.mem_filter, List.isEmpty_iff]
  have hend := hloop.run
  have hcons : db₂.deleteInvalidRules.removeEmptiedRuleSets.Consistent := hend.consistent
  have hclean : db₂.deleteInvalidRules.removeEmptiedRuleSets.Clean :=
    ⟨hend.linked, hend.used, fun ruleSet hmem hempty =>
      not_mem_nil ((hend.mem_iff ruleSet).mpr ⟨hmem, hempty⟩), hend.valid⟩
  refine ⟨_, ?_, hcons, hclean, ?_⟩
  · simp [repairCompiledAccessRules, flush_eq_some h₁, hdb₂, flush_eq_some h₂, flush_eq_some h₃,
      flush_eq_some hcons, find_eq_nil hcons hclean]
  · intro node ruleSet rules groups hrules hkeeps
    have hkeeps₁ := hkeeps.unlinkNodes h hrules
    have hid : ruleSet.id ∉ db.unlinkNodes.unusedRuleSets.map CompiledAccessRuleSet.id :=
      hunus _ (mem_activeRuleSetIds.mpr ⟨node, hkeeps₁.mem_nodes, hkeeps₁.linked⟩)
    have hkeeps₂ : Keeps node ruleSet rules groups db₂ := hdb₂ ▸ hkeeps₁.deleteRuleSets h₁ hid
    exact (hkeeps₂.deleteInvalidRules h₂).run hrules hloop

/-- **Repair converges and is conservative.** -/
theorem repair_converges (h : db.Consistent) :
    ∃ repaired, db.repairCompiledAccessRules = some (repaired, []) ∧
      repaired.repairCompiledAccessRules = some (repaired, []) ∧
      ∀ node ∈ db.nodes, ∀ ruleSet ∈ db.ruleSets, node.accessRuleSetId = some ruleSet.id →
        ruleSet.nodeId = node.id →
        (∃ rule ∈ db.rulesOf ruleSet.id, db.hasInvalidShape rule = false) →
        node ∈ repaired.nodes ∧ ruleSet ∈ repaired.ruleSets ∧ repaired.rulesOf ruleSet.id =
            (db.rulesOf ruleSet.id).filter (fun rule => !db.hasInvalidShape rule) ∧
          ∀ rule ∈ repaired.rulesOf ruleSet.id, repaired.groupsOf rule.id = db.groupsOf rule.id := by
  obtain ⟨repaired, hrepair, hcons, hclean, hkept⟩ := repair_clean h
  refine ⟨repaired, hrepair, repair_of_clean hcons hclean, ?_⟩
  intro node hnode ruleSet hruleSet hlink howner hvalid
  obtain ⟨rule, hrule, hshape⟩ := hvalid
  have hkeeps := hkept node ruleSet _ db.groupsOf
    (ne_nil_of_mem (mem_filter.mpr ⟨hrule, by rw [hshape]; rfl⟩))
    ⟨hnode, hlink, hruleSet, howner, rfl, fun _ _ => rfl⟩
  have hall : repaired.rulesOf ruleSet.id =
      (db.rulesOf ruleSet.id).filter fun rule => !db.hasInvalidShape rule := by
    rw [← hkeeps.valid]
    refine (filter_eq_self.mpr fun rule hrule => ?_).symm
    rw [hclean.valid rule (mem_rulesOf.mp hrule).1]
    rfl
  exact ⟨hkeeps.mem_nodes, hkeeps.mem_ruleSets, hall, fun rule hrule => hkeeps.held rule (hall ▸ hrule)⟩

def mixedDb : CompiledDb where
  nodes := [⟨"folder", "directory", some "a"⟩, ⟨"document", "document", some "a"⟩]
  ruleSets := [⟨"a", "folder"⟩, ⟨"b", "document"⟩]
  rules := [⟨1, "a", "read", "all"⟩, ⟨2, "a", "own", "all"⟩, ⟨3, "b", "read", "all"⟩]
  groups := [⟨"g", 1, "all", "any", "all"⟩]

theorem mixedDb_repaired : ∃ repaired, mixedDb.repairCompiledAccessRules = some (repaired, []) ∧
    repaired.repairCompiledAccessRules = some (repaired, []) := by
  obtain ⟨repaired, hrepair, hagain, -⟩ := @repair_converges mixedDb (by decide +kernel)
  exact ⟨repaired, hrepair, hagain⟩

end CompiledDb

end Cfms.Access.Repair
