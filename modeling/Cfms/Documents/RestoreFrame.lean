import Cfms.Documents.Hierarchy

/-!
# What a directory restore touches

`RequestRestoreDirectoryHandler` brings back the folder and, in one bulk update, every deleted row
that carries the same operation identifier.  The rows of one deletion are a whole subtree, but the
restored folder need not be the top of it.

`restore_frame_iff` says when the rest of the table stays as it is: exactly when every deleted row of
the operation lies in the subtree of the restored folder.
-/

namespace Cfms.Documents

open Access Lib.Forest

def InSubtree (db : Database) (folderId : NodeId) (node : Node) : Prop :=
  node.id = folderId ∨ ∃ parentId, node.parentId = some parentId ∧
    Below (parentOf db) parentId folderId

/-- The rows that the bulk update of a restore reaches. -/
def sharesOperation (operationId : Option String) (node : Node) : Bool :=
  operationId.any (· != "") && node.statusOperationId == operationId && node.status == .deleted

def KeepsOutside (db db' : Database) (folderId : NodeId) : Prop :=
  ∀ node ∈ db.nodes, ¬ InSubtree db folderId node → ∃ node', db'.node? node.id = some node' ∧
    node'.status = node.status ∧ node'.statusOperationId = node.statusOperationId ∧
    node'.name = node.name ∧ node'.parentId = node.parentId

section

variable {db db' : Database} {actor : Actor} {code : ℕ} {message : String} {folderId : NodeId}

variable {opId : Option String} {node : Node}

theorem restoreOperation_of_shares (h : sharesOperation opId node = true) :
    restoreOperation opId node = { node with status := .ok, statusOperationId := none } :=
  if_pos h

theorem restoreOperation_of_not_shares
    (h : sharesOperation opId node = false) : restoreOperation opId node = node :=
  if_neg (by rw [← sharesOperation, h]; exact Bool.false_ne_true)

variable {name : String} {parentId : NodeId}

theorem restoreNode_of_ne
    (h : node.id ≠ folderId) : restoreNode folderId name parentId node = node :=
  if_neg h

theorem node?_restored (hnode : node ∈ db.nodes) (hne : node.id ≠ folderId) :
    ((db.mapNodes (restoreOperation opId) (restoreOperation_id _)).mapNodes
      (restoreNode folderId name parentId) (restoreNode_id _ _ _)).node? node.id =
        some (restoreOperation opId node) := by
  rw [Database.node?_mapNodes, Database.node?_mapNodes, Database.node?_eq_some.mpr ⟨hnode, rfl⟩,
    Option.map_some, Option.map_some]
  congr 1
  refine restoreNode_of_ne ?_
  rw [restoreOperation_id]
  exact hne

/-- **A restore touches only the folder's own subtree exactly when every deleted row of the operation
lies in it.** -/
theorem restore_frame_iff {targetParentId : Option (Option NodeId)} {newName : Option String}
    {folder : Node} (hfol : db.folder? folderId = some folder)
    (hrest : restoreDirectory db actor folderId targetParentId newName =
      .committed code message db') :
    KeepsOutside db db' folderId ↔ ∀ node ∈ db.nodes,
      sharesOperation folder.statusOperationId node = true → InSubtree db folderId node := by
  obtain ⟨-, found, target, hfound, -, -, -, rfl⟩ := restoreDirectory_committed hrest
  obtain rfl : folder = found := Option.some.inj (hfol.symm.trans hfound)
  constructor
  · intro hkeeps node hnode hshares
    by_contra hout
    have hne : node.id ≠ folderId := fun heq => hout (Or.inl heq)
    obtain ⟨node', hnode', hst, -⟩ := hkeeps node hnode hout
    rw [node?_restored hnode hne, Option.some.injEq, restoreOperation_of_shares hshares] at hnode'
    -- the bulk update has brought the row back
    have hdel : node.status = .deleted := by
      rw [sharesOperation, Bool.and_eq_true, beq_iff_eq] at hshares
      exact hshares.2
    rw [← hnode', hdel] at hst
    cases hst
  · intro hinside node hnode hout
    have hne : node.id ≠ folderId := fun heq => hout (Or.inl heq)
    have hshares : sharesOperation folder.statusOperationId node = false := by
      rw [← Bool.not_eq_true]
      exact fun hshares => hout (hinside node hnode hshares)
    refine ⟨_, node?_restored hnode hne, ?_⟩
    rw [restoreOperation_of_not_shares hshares]
    exact ⟨rfl, rfl, rfl, rfl⟩

end

/-! ### A folder deleted with another one -/

def restorer : Actor := ⟨⟨"restorer", ["restore"], []⟩, 1, true⟩

/-- The folder `f` with the folder `s` in it, both deleted by one request. -/
def deletedTogether : Database where
  nodes :=
    [{ id := rootDirectoryId, type := .directory, name := "/", parentId := none },
     { id := "f", type := .directory, name := "f", parentId := some rootDirectoryId,
       status := .deleted, statusOperationId := some "op" },
     { id := "s", type := .directory, name := "s", parentId := some "f",
       status := .deleted, statusOperationId := some "op" }]
  nodeIds_nodup := by decide
  nodeIds_ne_empty := by decide

/-- The database after a restore that commits. -/
def restoredDatabase (folderId : NodeId) (targetParentId : Option (Option NodeId)) : Database :=
  match restoreDirectory deletedTogether restorer folderId targetParentId none with
  | .committed _ _ db => db
  | _ => deletedTogether

/-- Restoring the outer folder touches nothing else. -/
theorem restore_outer_keeps : KeepsOutside deletedTogether (restoredDatabase "f" none) "f" := by
  have hfol : deletedTogether.folder? "f" = some (deletedTogether.nodes.get ⟨1, by decide⟩) := by
    decide
  have hrest : restoreDirectory deletedTogether restorer "f" none none =
      .committed 200 Messages.success (restoredDatabase "f" none) := rfl
  refine (restore_frame_iff hfol hrest).mpr ?_
  intro node hnode hshares
  simp only [deletedTogether, List.mem_cons, List.not_mem_nil, or_false] at hnode
  rcases hnode with rfl | rfl | rfl
  · exact absurd hshares (by decide)
  · exact Or.inl rfl
  · exact Or.inr ⟨"f", rfl, Below.refl "f"⟩

/-- Restoring the inner folder into the root directory brings the outer one back too. -/
theorem restore_inner_restores_outer :
    restoreDirectory deletedTogether restorer "s" (some none) none =
        .committed 200 Messages.success (restoredDatabase "s" (some none)) ∧
      ¬ KeepsOutside deletedTogether (restoredDatabase "s" (some none)) "s" := by
  refine ⟨rfl, ?_⟩
  intro hkeeps
  have hout : ¬ InSubtree deletedTogether "s" (deletedTogether.nodes.get ⟨1, by decide⟩) := by
    rintro (hid | ⟨parentId, hpar, hbelow⟩)
    · exact absurd hid (by decide)
    cases hpar
    rcases below_head_cases.mp hbelow with heq | ⟨p, hp, -⟩
    · exact absurd heq (by decide)
    · have hroot : parentOf deletedTogether rootDirectoryId = none := by decide
      cases hp
  obtain ⟨node', hnode', hst, -⟩ := hkeeps _ (List.get_mem _ _) hout
  have hrow : ((restoredDatabase "s" (some none)).node? "f").map Node.status = some .ok := by decide
  have hsome := congrArg (Option.map Node.status) hnode'
  rw [Option.map_some, hst] at hsome
  exact absurd (hrow.symm.trans hsome) (by decide)

end Cfms.Documents
