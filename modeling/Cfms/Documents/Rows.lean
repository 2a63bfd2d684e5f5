import Cfms.Access.Evaluation

/-!
# Reading and changing node rows

What the handlers do to the `nodes` table through the session: lookups through the soft-delete
filter, updates that leave the primary key alone, inserts and removals.  Each change comes with
the lookup lemma that describes the table after it.
-/

namespace Cfms.Access

variable (db : Database)

namespace Database

/-- `session.get(Folder, id)` through the soft-delete filter. -/
def liveFolder? (id : NodeId) : Option Node := (db.folder? id).filter Node.notDeleted

/-- `session.get(Document, id)` with deleted rows included. -/
def document? (id : NodeId) : Option Node := (db.node? id).filter Node.isDocument

/-- `session.get(Document, id)` through the soft-delete filter. -/
def liveDocument? (id : NodeId) : Option Node :=
  (db.document? id).filter Node.notDeleted

/-- An update of rows that leaves the primary key alone. -/
def mapNodes (f : Node → Node) (hf : ∀ node, (f node).id = node.id) : Database :=
  { db with
    nodes := db.nodes.map f
    nodeIds_nodup := by
      rw [List.map_map, show Node.id ∘ f = Node.id from funext hf]
      exact db.nodeIds_nodup
    nodeIds_ne_empty := by
      intro node hnode
      obtain ⟨old, hold, rfl⟩ := List.mem_map.mp hnode
      rw [hf]
      exact db.nodeIds_ne_empty old hold }

/-- The removal of rows, with the rule sets and revisions that belong to them. -/
def removeNodes (gone : Node → Bool) : Database :=
  { db with
    nodes := db.nodes.filter fun node => !gone node
    nodeIds_nodup := db.nodeIds_nodup.sublist (List.filter_sublist.map Node.id)
    nodeIds_ne_empty := fun node hnode => db.nodeIds_ne_empty node (List.mem_filter.mp hnode).1
    ruleSets := db.ruleSets.filter fun ruleSet =>
      !db.nodes.any fun node => gone node && node.id == ruleSet.nodeId
    revisions := db.revisions.filter fun revision =>
      !db.nodes.any fun node => gone node && node.id == revision.documentId }

structure SubmittedRules where
  accessTypes : List AccessType
  ruleSet : Option CompiledAccessRuleSet
  rules : List CompiledAccessRule
  ruleGroups : List CompiledAccessRuleGroup
  ruleRights : List CompiledAccessRuleRight
  ruleMemberships : List CompiledAccessRuleMembership

/-- Insert a node with its rules and, for a document, its first revision.  A taken key violates
the primary key. -/
def insertNode (node : Node) (submitted : SubmittedRules)
    (upload : Option (DocumentRevision × File)) : Option Database :=
  if h : (∀ other ∈ db.nodes, other.id ≠ node.id) ∧ node.id ≠ "" then
    some
      { nodes := db.nodes ++ [node]
        nodeIds_nodup := by
          rw [List.map_append, List.nodup_append]
          refine ⟨db.nodeIds_nodup, by simp, ?_⟩
          intro a ha b hb
          obtain ⟨other, hother, rfl⟩ := List.mem_map.mp ha
          simp only [List.map_cons, List.map_nil, List.mem_singleton] at hb
          rw [hb]
          exact h.1 other hother
        nodeIds_ne_empty := by
          intro other hother
          rcases List.mem_append.mp hother with hother | hother
          · exact db.nodeIds_ne_empty other hother
          · rw [List.mem_singleton.mp hother]
            exact h.2
        ruleSets := db.ruleSets ++ submitted.ruleSet.toList
        rules := db.rules ++ submitted.rules
        ruleGroups := db.ruleGroups ++ submitted.ruleGroups
        ruleRights := db.ruleRights ++ submitted.ruleRights
        ruleMemberships := db.ruleMemberships ++ submitted.ruleMemberships
        objectAccessEntries := db.objectAccessEntries
        userBlockEntries := db.userBlockEntries
        userBlockSubEntries := db.userBlockSubEntries
        revisions := db.revisions ++ (upload.map Prod.fst).toList
        files := db.files ++ (upload.map Prod.snd).toList }
  else none

/-- The unique constraint on `(parent_id, active_name)`. -/
def activeNamesUnique : Bool :=
  db.nodes.all fun a => db.nodes.all fun b =>
    a.id == b.id || !(a.notDeleted && b.notDeleted && a.parentId.isSome &&
      a.parentId == b.parentId && a.name == b.name)


/-! ### Lookups after a change -/

section

variable {db : Database} {id : NodeId} {node : Node}

theorem liveFolder?_eq_some : db.liveFolder? id = some node ↔
      (node ∈ db.nodes ∧ node.id = id ∧ node.type = .directory) ∧ node.status ≠ .deleted := by
  rw [liveFolder?, Option.filter_eq_some_iff, folder?_eq_some, Node.notDeleted_iff]

theorem document?_eq_some :
    db.document? id = some node ↔ node ∈ db.nodes ∧ node.id = id ∧ node.type = .document := by
  rw [document?, Option.filter_eq_some_iff, node?_eq_some, Node.isDocument_iff, and_assoc]

theorem liveDocument?_eq_some : db.liveDocument? id = some node ↔
      (node ∈ db.nodes ∧ node.id = id ∧ node.type = .document) ∧ node.status ≠ .deleted := by
  rw [liveDocument?, Option.filter_eq_some_iff, document?_eq_some, Node.notDeleted_iff]

theorem node?_mapNodes {f : Node → Node} (hf : ∀ node, (f node).id = node.id) (id : NodeId) :
    (db.mapNodes f hf).node? id = (db.node? id).map f := by
  show (db.nodes.map f).find? (fun node => node.id == id) = (db.nodes.find? _).map f
  rw [List.find?_map]
  congr 2
  funext node
  simp only [Function.comp_apply, hf]

theorem insertNode_eq_some {submitted : SubmittedRules}
    {upload : Option (DocumentRevision × File)} {db' : Database}
    (h : db.insertNode node submitted upload = some db') :
    (∀ other ∈ db.nodes, other.id ≠ node.id) ∧ node.id ≠ "" ∧ db'.nodes = db.nodes ++ [node] := by
  unfold insertNode at h
  split at h
  · rename_i hfresh
    cases h
    exact ⟨hfresh.1, hfresh.2, rfl⟩
  · cases h

end

end Database

end Cfms.Access
