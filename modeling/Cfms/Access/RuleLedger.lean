import Cfms.Access.CheckFrame
import Cfms.Access.RuleReplacement
import Mathlib.Data.List.Flatten

/-!
# Rule sets and committed calls

The abstract state behind the tables of compiled rules is a list of rule sets, one for a node at most,
and the list of the committed calls.  `Ledger` connects it to the tables and to the rows of the nodes.
`Ledger.commit` says what the commit of a call does: its rule set comes in the place of those of its
node, and everything else stays.
-/

namespace Cfms.Access

open Lib Lib.OwnedRows Lib.Run List

structure Database.WithoutRules (db : Database) : Prop where
  ruleSets : db.ruleSets = []
  rules : db.rules = []
  ruleGroups : db.ruleGroups = []
  ruleRights : db.ruleRights = []
  ruleMemberships : db.ruleMemberships = []
  pointers : ∀ node ∈ db.nodes, node.accessRuleSetId = none

/-! ### What the tables hold -/

def lastCall (committed : List RuleCall) (nodeId : NodeId) : Option RuleCall :=
  committed.find? fun call => call.target == nodeId

def currentRules (committed : List RuleCall) (nodeId : NodeId) : List LoadedRule :=
  (lastCall committed nodeId).elim [] fun call => submittedRules call.accessRules

def setOf (sets : List KeyedRuleSet) (nodeId : NodeId) : Option KeyedRuleSet :=
  rowOf KeyedRuleSet.nodeId sets nodeId

/-- The rule sets once a call has put its own in the place of those of its target. -/
def replaceSet (sets : List KeyedRuleSet) (target : NodeId) (newRuleSet : Option KeyedRuleSet) :
    List KeyedRuleSet := replaceRow KeyedRuleSet.nodeId sets target newRuleSet

def loadedRules (ruleSet : Option KeyedRuleSet) : List LoadedRule :=
  ruleSet.elim [] fun ruleSet => ruleSet.rules.map KeyedRule.loaded

def currentNode (committed : List RuleCall) (sets : List KeyedRuleSet) (node : Node) : Node :=
  { node with
    inherit := (lastCall committed node.id).elim node.inherit RuleCall.inheritParent
    accessRuleSetId := (setOf sets node.id).map KeyedRuleSet.id }

/-- A rule set as a flush leaves it. -/
structure KeyedRuleSet.Sound (ruleSet : KeyedRuleSet) : Prop where
  numbered : ruleSet.Numbered
  nonempty : ruleSet.rules ≠ []

/-- **The abstract state**: a node has at most one rule set, which holds the rules of the last
committed call for it, and the tables hold these sets and nothing else. -/
structure Ledger (start stored : Database) (committed : List RuleCall)
    (sets : List KeyedRuleSet) : Prop where
  holds : Holds stored sets
  keys : (keysOf sets).Nodup
  nodes : stored.nodes = start.nodes.map (currentNode committed sets)
  owners : (sets.map KeyedRuleSet.nodeId).Nodup
  owned : ∀ ruleSet ∈ sets, ∃ node ∈ start.nodes, node.id = ruleSet.nodeId
  sound : ∀ ruleSet ∈ sets, ruleSet.Sound
  rules : ∀ nodeId, loadedRules (setOf sets nodeId) = currentRules committed nodeId

structure NewSetSound (sets : List KeyedRuleSet) (call : RuleCall)
    (newRuleSet : Option KeyedRuleSet) : Prop where
  target : ∀ ruleSet, newRuleSet = some ruleSet → ruleSet.nodeId = call.target
  sound : ∀ ruleSet, newRuleSet = some ruleSet → ruleSet.Sound
  loaded : loadedRules newRuleSet = submittedRules call.accessRules
  keys : (keysOf newRuleSet.toList).Nodup
  fresh : ∀ key ∈ keysOf newRuleSet.toList, key ∉ keysOf sets

def ownedIds (sets : List KeyedRuleSet) (target : NodeId) : List String :=
  (sets.filter fun ruleSet => ruleSet.nodeId == target).map KeyedRuleSet.id

theorem keysOf_append (sets others : List KeyedRuleSet) :
    keysOf (sets ++ others) = keysOf sets ++ keysOf others := flatMap_append

theorem ruleSetKey_mem {sets : List KeyedRuleSet} {ruleSet : KeyedRuleSet} (h : ruleSet ∈ sets) :
    RowKey.ruleSet ruleSet.id ∈ keysOf sets :=
  mem_flatMap.mpr ⟨ruleSet, h, mem_cons_self⟩

section

variable {sets : List KeyedRuleSet} {call : RuleCall} {newRuleSet : Option KeyedRuleSet}

variable (h : NewSetSound sets call newRuleSet)

include h

theorem NewSetSound.setOf_self (others : List KeyedRuleSet) :
    setOf (replaceSet others call.target newRuleSet) call.target = newRuleSet :=
  rowOf_replaceRow_self h.target

theorem NewSetSound.setOf_of_ne {nodeId : NodeId}
    (hne : nodeId ≠ call.target) (others : List KeyedRuleSet) :
    setOf (replaceSet others call.target newRuleSet) nodeId = setOf others nodeId :=
  rowOf_replaceRow_of_ne h.target hne

theorem NewSetSound.keys_append
    (hkeys : (keysOf sets).Nodup) : (keysOf (sets ++ newRuleSet.toList)).Nodup := by
  rw [keysOf_append, nodup_append]
  refine ⟨hkeys, h.keys, ?_⟩
  rintro key hkey other hother rfl
  exact h.fresh key hother hkey

theorem NewSetSound.id_ne {ruleSet added : KeyedRuleSet}
    (hset : ruleSet ∈ sets) (hadded : newRuleSet = some added) : ruleSet.id ≠ added.id := by
  intro hsame
  have hkey : RowKey.ruleSet added.id ∈ keysOf newRuleSet.toList :=
    ruleSetKey_mem (Option.mem_toList.mpr hadded)
  exact h.fresh _ hkey (hsame ▸ ruleSetKey_mem hset)

theorem filter_ownedIds (hkeys : (keysOf sets).Nodup) :
    (sets ++ newRuleSet.toList).filter
        (fun ruleSet => !(ownedIds sets call.target).contains ruleSet.id) =
      replaceSet sets call.target newRuleSet := by
  have hids : (sets.map KeyedRuleSet.id).Nodup := by
    rw [map_eq_flatMap]
    exact ruleSetIds_nodup hkeys
  have hold : sets.filter (fun ruleSet => !(ownedIds sets call.target).contains ruleSet.id) =
      sets.filter fun ruleSet => ruleSet.nodeId != call.target := by
    refine filter_congr fun ruleSet hset => ?_
    rw [bne, Bool.not_inj_iff, Bool.eq_iff_iff, contains_iff_mem, ownedIds, mem_map]
    constructor
    · rintro ⟨other, hother, hid⟩
      obtain ⟨hother, htgt⟩ := mem_filter.mp hother
      rwa [inj_on_of_nodup_map hids hset hother hid.symm]
    · intro htgt
      exact ⟨ruleSet, mem_filter.mpr ⟨hset, htgt⟩, rfl⟩
  have hnew : newRuleSet.toList.filter
      (fun ruleSet => !(ownedIds sets call.target).contains ruleSet.id) = newRuleSet.toList := by
    refine filter_eq_self.mpr fun added hadded => ?_
    rw [Bool.not_eq_true', ← Bool.not_eq_true, contains_iff_mem, ownedIds, mem_map]
    rintro ⟨other, hother, hid⟩
    exact h.id_ne (mem_filter.mp hother).1 (Option.mem_toList.mp hadded) hid
  rw [filter_append, hold, hnew]
  rfl

omit h

variable {db : Database}

theorem Holds.setInherit (h : Holds db sets) (target : NodeId) (inherit : Bool) :
    Holds (db.setInherit target inherit) sets := ⟨h.1, h.2, h.3, h.4, h.5⟩

theorem Holds.setPointer (h : Holds db sets) (target : NodeId) (newRuleSetId : Option String) :
    Holds (db.setPointer target newRuleSetId) sets := ⟨h.1, h.2, h.3, h.4, h.5⟩

theorem Holds.swung (h : Holds db sets) (call : RuleCall) (newRuleSet : Option KeyedRuleSet) :
    Holds (call.swung newRuleSet db) (sets ++ newRuleSet.toList) := by
  have hins : Holds (call.inserted newRuleSet db) (sets ++ newRuleSet.toList) := by
    cases newRuleSet with
    | none =>
      rw [Option.toList_none, append_nil]
      exact h.setInherit call.target call.inheritParent
    | some ruleSet => exact (h.setInherit call.target call.inheritParent).insertRuleSet ruleSet
  exact hins.setPointer call.target _

theorem oldRuleSetIds_eq (h : Holds db sets) (hnew : NewSetSound sets call newRuleSet) :
    call.oldRuleSetIds newRuleSet db = ownedIds sets call.target := by
  have hold : sets.filter ((fun row => row.nodeId == call.target &&
      newRuleSet.all fun new => row.id != new.id) ∘ KeyedRuleSet.row) =
        sets.filter fun ruleSet => ruleSet.nodeId == call.target := by
    refine filter_congr fun ruleSet hset => ?_
    have hall : (newRuleSet.all fun new => ruleSet.id != new.id) = true := by
      rw [Option.all_eq_true]
      exact fun new hadded => bne_iff_ne.mpr (hnew.id_ne hset hadded)
    show (ruleSet.nodeId == call.target && newRuleSet.all fun new => ruleSet.id != new.id) = _
    rw [hall, Bool.and_true]
  have hadded : newRuleSet.toList.filter ((fun row => row.nodeId == call.target &&
      newRuleSet.all fun new => row.id != new.id) ∘ KeyedRuleSet.row) = [] := by
    refine filter_eq_nil_iff.mpr fun added hmem hkept => ?_
    rw [Option.mem_toList] at hmem
    rw [hmem, Function.comp_apply, Bool.and_eq_true, Option.all_some, bne_iff_ne] at hkept
    exact hkept.2 rfl
  rw [RuleCall.oldRuleSetIds, (h.swung call newRuleSet).ruleSets, filter_map, map_map,
    filter_append, hold, hadded, append_nil]
  rfl

theorem nodes_view (call : RuleCall) (draft : RuleDraft) (db : Database) :
    (call.view draft db).nodes = db.nodes.map fun node =>
      if node.id = call.target then
        { node with
          inherit := call.inheritParent
          accessRuleSetId := draft.newRuleSet.map KeyedRuleSet.id }
      else node := by
  have hins : (call.inserted draft.newRuleSet db).nodes =
      (db.setInherit call.target call.inheritParent).nodes := by
    cases draft.newRuleSet <;> rfl
  show ((call.inserted draft.newRuleSet db).nodes.map _) = _
  rw [hins]
  show (db.nodes.map _).map _ = _
  rw [map_map]
  refine map_congr_left fun node _ => ?_
  rw [Function.comp_apply]
  by_cases htgt : node.id = call.target
  · rw [if_pos htgt, if_pos htgt, if_pos (show node.id = call.target from htgt)]
  · rw [if_neg htgt, if_neg htgt, if_neg htgt]

theorem lastCall_cons_self (call : RuleCall) (committed : List RuleCall) :
    lastCall (call :: committed) call.target = some call :=
  find?_cons_of_pos (beq_self_eq_true call.target)

theorem lastCall_cons_of_ne {call : RuleCall} {nodeId : NodeId} (h : nodeId ≠ call.target)
    (committed : List RuleCall) : lastCall (call :: committed) nodeId = lastCall committed nodeId :=
  find?_cons_of_neg (by rw [beq_iff_eq]; exact h.symm)

end

namespace Ledger

variable {start stored : Database} {committed : List RuleCall} {sets : List KeyedRuleSet}

theorem initial (h : start.WithoutRules) : Ledger start start [] [] where
  holds := ⟨h.ruleSets, h.rules, h.ruleGroups, h.ruleRights, h.ruleMemberships⟩
  keys := nodup_nil
  nodes := by
    have hsame : ∀ node ∈ start.nodes, currentNode [] [] node = node := by
      intro node hnode
      show { node with inherit := node.inherit, accessRuleSetId := none } = node
      rw [← h.pointers node hnode]
    rw [map_congr_left hsame]
    exact (map_id _).symm
  owners := nodup_nil
  owned := fun _ hset => nomatch hset
  sound := fun _ hset => nomatch hset
  rules := fun _ => rfl

variable (h : Ledger start stored committed sets)

include h

/-- **A commit puts the rules of the call in the place of those of its node.** -/
theorem commit {call : RuleCall} {draft : RuleDraft}
    (htgt : ∃ node ∈ start.nodes, node.id = call.target)
    (hnew : NewSetSound sets call draft.newRuleSet)
    (hrem : draft.removed = ownedIds sets call.target) :
    Ledger start (call.view draft stored) (call :: committed)
      (replaceSet sets call.target draft.newRuleSet) where
  holds := by
    rw [← filter_ownedIds hnew h.keys, ← hrem]
    exact (h.holds.swung call draft.newRuleSet).deleteRuleSets (hnew.keys_append h.keys) _
  keys := by
    rw [← filter_ownedIds hnew h.keys]
    exact (hnew.keys_append h.keys).sublist (filter_sublist.flatMap _)
  nodes := by
    rw [nodes_view, h.nodes, map_map]
    refine map_congr_left fun node _ => ?_
    show (if node.id = call.target then _ else _) = _
    by_cases hnode : node.id = call.target
    · have hlast : lastCall (call :: committed) node.id = some call := by
        rw [hnode, lastCall_cons_self]
      have hset : setOf (replaceSet sets call.target draft.newRuleSet) node.id =
          draft.newRuleSet := by
        rw [hnode, hnew.setOf_self]
      unfold currentNode
      rw [if_pos hnode, hlast, hset]
      rfl
    · have hset := hnew.setOf_of_ne hnode sets
      unfold currentNode
      rw [if_neg hnode, lastCall_cons_of_ne hnode, hset]
  owners := owners_replaceRow hnew.target h.owners
  owned := by
    intro ruleSet hset
    rcases mem_replaceRow.mp hset with ⟨hset, -⟩ | hadded
    · exact h.owned ruleSet hset
    · rw [hnew.target ruleSet hadded]
      exact htgt
  sound := by
    intro ruleSet hset
    rcases mem_replaceRow.mp hset with ⟨hset, -⟩ | hadded
    · exact h.sound ruleSet hset
    · exact hnew.sound ruleSet hadded
  rules := by
    intro nodeId
    by_cases hnode : nodeId = call.target
    · subst hnode
      rw [hnew.setOf_self, hnew.loaded, currentRules, lastCall_cons_self]
      rfl
    · rw [hnew.setOf_of_ne hnode, currentRules, lastCall_cons_of_ne hnode]
      exact h.rules nodeId

/-! ### What hangs on a node -/

variable {node : Node}

theorem pointer_eq (hnode : node ∈ stored.nodes) :
    node.accessRuleSetId = (setOf sets node.id).map KeyedRuleSet.id := by
  rw [h.nodes] at hnode
  obtain ⟨first, -, rfl⟩ := mem_map.mp hnode
  rfl

theorem activeRules_eq (hnode : node ∈ stored.nodes) :
    activeRules stored node.type node.id = (setOf sets node.id).elim [] KeyedRuleSet.ruleRows := by
  have hptr := h.pointer_eq hnode
  cases hset : setOf sets node.id with
  | none =>
    rw [hset] at hptr
    exact activeRules_of_none hnode hptr
  | some ruleSet =>
    rw [hset] at hptr
    obtain ⟨hmem, howner⟩ := (rowOf_eq_some h.owners).mp hset
    exact activeRules_of_set h.holds h.keys hmem hnode howner hptr

variable {stored' : Database} {committed' : List RuleCall} {sets' : List KeyedRuleSet}
  {A : NodeId → Prop}

/-- **States whose rule sets and last calls are the same on a set of nodes agree there.** -/
theorem agreeOn
    (h' : Ledger start stored' committed' sets')
    (hup : ∀ node ∈ start.nodes, A node.id → ∀ parent, node.parentId = some parent → A parent)
    (hsets : ∀ id, A id → setOf sets' id = setOf sets id)
    (hcalls : ∀ id, A id → lastCall committed' id = lastCall committed id)
    (hents : stored'.objectAccessEntries = stored.objectAccessEntries)
    (hblocks : stored'.userBlockEntries = stored.userBlockEntries)
    (hsubBlocks : stored'.userBlockSubEntries = stored.userBlockSubEntries) :
    AgreeOn A stored stored' := by
  have hsame : ∀ first : Node, A first.id →
      currentNode committed' sets' first = currentNode committed sets first := by
    intro first hA
    rw [currentNode, currentNode, hsets _ hA, hcalls _ hA]
  have hmem : ∀ node ∈ stored.nodes, A node.id → node ∈ stored'.nodes := by
    intro node hnode hA
    rw [h.nodes] at hnode
    obtain ⟨first, hfirst, rfl⟩ := mem_map.mp hnode
    rw [h'.nodes, ← hsame first hA]
    exact mem_map_of_mem hfirst
  refine ⟨?_, ?_, ?_, ?_, hents, hblocks, hsubBlocks⟩
  · rw [h.nodes, h'.nodes, forall₂_map_left_iff, forall₂_map_right_iff, forall₂_same]
    exact fun first _ => ⟨rfl, rfl, hsame first⟩
  · intro node hnode
    rw [h.nodes] at hnode
    obtain ⟨first, hfirst, rfl⟩ := mem_map.mp hnode
    exact hup first hfirst
  · intro node hnode hA
    rw [h.activeRules_eq hnode, h'.activeRules_eq (hmem node hnode hA), hsets _ hA]
  · intro node hnode hA rule hrule user
    rw [h.activeRules_eq hnode] at hrule
    cases hset : setOf sets node.id with
    | none =>
      rw [hset] at hrule
      cases hrule
    | some ruleSet =>
      rw [hset] at hrule
      obtain ⟨keyed, hkeyed, rfl⟩ := mem_map.mp hrule
      have hset' : setOf sets' node.id = some ruleSet := (hsets _ hA).trans hset
      rw [compiledRuleMatchesUser_eq, compiledRuleMatchesUser_eq,
        h.holds.loadRule_eq h.keys ((rowOf_eq_some h.owners).mp hset).1 hkeyed,
        h'.holds.loadRule_eq h'.keys ((rowOf_eq_some h'.owners).mp hset').1 hkeyed]

end Ledger

end Cfms.Access
