import Cfms.Documents.DeletionTree

/-!
# The plan of a directory deletion

The end of `fetch_subtree_for_deletion`: from the loaded folders and documents and the verdicts on
each of them, which folders are deleted and in which order, and which are kept.  The rows are
loaded in no particular order.

`deletion_plan_exact` holds for any verdicts: without a parent cycle among the loaded folders the
plan is exact and bottom-up, and only a cycle makes it raise.
-/

namespace Cfms.Documents

open Access Lib.Forest Lib.LeafOrder List

variable (db : Database) (ctx : SubtreeContext)

/-- Steps 8 and 9 of `fetch_subtree_for_deletion`: `deletable_folder_ids` and
`protected_folder_ids`. -/
def deletionPlan (rootId : NodeId) (passedFolderIds deletableDocIds : List NodeId) :
    Except DeletionError (List NodeId × List NodeId) :=
  if (topoOrder ctx).length ≠ ctx.folders.length then .error .hierarchyCycle
  else
    .ok ((topoOrder ctx).filter fun id =>
        id != rootId && canDeleteFolder db ctx rootId passedFolderIds deletableDocIds id,
      (topoOrder ctx).filter fun id =>
        id != rootId &&
          !canDeleteFolder db ctx rootId passedFolderIds deletableDocIds id)

theorem fetchSubtreeForDeletion_eq (rootId : NodeId) (user : User) (now : Instant)
    (includeDeleted : Bool) :
    fetchSubtreeForDeletion db rootId user now includeDeleted = do
      let ctx := loadSubtree db rootId user now includeDeleted
      let (deletableDocIds, failedDocuments) ←
        checkItems db ctx user "delete_document" (checkedDocuments ctx includeDeleted)
      let (passedFolderIds, failedFolders) ←
        checkItems db ctx user "delete_directory" (checkedFolders ctx rootId)
      let (deletableFolderIds, protectedFolderIds) ←
        deletionPlan db ctx rootId passedFolderIds deletableDocIds
      return { deletableFolderIds, deletableDocIds,
               failedItems := failedDocuments ++ failedFolders, protectedFolderIds } := by
  refine bind_congr fun documents => bind_congr fun folders => ?_
  obtain ⟨deletableDocIds, failedDocuments⟩ := documents
  obtain ⟨passedFolderIds, failedFolders⟩ := folders
  show (if _ then _ else _) = deletionPlan _ _ _ passedFolderIds deletableDocIds >>= fun _ => _
  rw [deletionPlan]
  split
  · rfl
  · rfl

def HasParentCycle : Prop :=
  ∃ id ∈ ctx.folders.map Node.id, ∃ parentId,
    loadedParent ctx id = some parentId ∧ Below (loadedParent ctx) parentId id

/-- Everything in the subtree of a folder can go: each of its folders on its own, and each of its
documents with an active current revision. -/
def SubtreeDeletable (rootId : NodeId) (passedFolderIds deletableDocIds : List NodeId)
    (id : NodeId) : Prop :=
  ∀ g ∈ ctx.folders.map Node.id, Below (loadedParent ctx) g id →
    folderSelfDeletable rootId passedFolderIds g = true ∧
      ∀ doc ∈ ctx.documents, doc.parentId = some g → currentRevisionActive db doc = true →
        doc.id ∈ deletableDocIds

structure PlanExact (rootId : NodeId)
    (passedFolderIds deletableDocIds deleted kept : List NodeId) : Prop where
  once : (deleted ++ kept).Nodup
  all : ∀ id, id ∈ deleted ++ kept ↔ id ∈ ctx.folders.map Node.id ∧ id ≠ rootId
  deleted_iff : ∀ id ∈ deleted ++ kept, id ∈ deleted ↔
    SubtreeDeletable db ctx rootId passedFolderIds deletableDocIds id
  bottomUp : deleted.Pairwise fun earlier later => ¬ Below (loadedParent ctx) later earlier

section

variable {db : Database} {ctx : SubtreeContext} {rootId : NodeId}
  {passedFolderIds deletableDocIds : List NodeId}

theorem loadedParent_mem_ids : ∀ k ∈ ctx.folders.map Node.id, ∀ p, loadedParent ctx k = some p →
      p ∈ ctx.folders.map Node.id := by
  intro k _ p hp
  have htest := (Option.filter_eq_some_iff.mp hp).2
  rw [Bool.and_eq_true, contains_iff_mem] at htest
  exact htest.2

theorem ownMark_eq_false_iff (g : NodeId) : (!folderSelfDeletable rootId passedFolderIds g ||
        folderHasUndeletableDoc db ctx deletableDocIds g) = false ↔
      folderSelfDeletable rootId passedFolderIds g = true ∧
        ∀ doc ∈ ctx.documents, doc.parentId = some g → currentRevisionActive db doc = true →
          doc.id ∈ deletableDocIds := by
  rw [Bool.or_eq_false_iff, Bool.not_eq_false']
  refine and_congr_right fun _ => ?_
  rw [folderHasUndeletableDoc, any_eq_false]
  refine forall₂_congr fun doc _ => ?_
  simp only [Bool.and_eq_true, Bool.not_eq_true', beq_iff_eq, not_and, contains_eq_mem,
    decide_eq_false_iff_not, and_imp]
  constructor
  · intro h hpar hact
    by_contra hnot
    exact h hact hnot hpar
  · intro h hact hnot hpar
    exact hnot (h hpar hact)

variable (hids : (ctx.folders.map Node.id).Nodup) (hacyc : ¬ HasParentCycle ctx)

include hids hacyc

omit hids in
theorem exists_folder_rank : ∃ rank : NodeId → ℕ, ∀ k ∈ ctx.folders.map Node.id, ∀ p,
    loadedParent ctx k = some p → rank p < rank k :=
  exists_rank fun k hk p hp hbelow => hacyc ⟨k, hk, p, hp, hbelow⟩

theorem topoOrder_of_acyclic : (topoOrder ctx).length = ctx.folders.length ∧ (topoOrder ctx).Nodup ∧
      ∀ id, id ∈ topoOrder ctx ↔ id ∈ ctx.folders.map Node.id := by
  obtain ⟨rank, hrank⟩ := exists_folder_rank hacyc
  have hlen := length_leafOrder hids loadedParent_mem_ids hrank
  rw [length_map] at hlen
  exact ⟨hlen, (leafOrder_ready hids loadedParent_mem_ids).nodup.1, fun id =>
    mem_leafOrder hids loadedParent_mem_ids hrank⟩

theorem canDeleteFolder_iff_subtree {id : NodeId} (hid : id ∈ ctx.folders.map Node.id) :
    canDeleteFolder db ctx rootId passedFolderIds deletableDocIds id = true ↔
      SubtreeDeletable db ctx rootId passedFolderIds deletableDocIds id := by
  obtain ⟨rank, hrank⟩ := exists_folder_rank hacyc
  have hmark : hasUndeletableContent db ctx rootId passedFolderIds deletableDocIds id = false ↔
      SubtreeDeletable db ctx rootId passedFolderIds deletableDocIds id := by
    rw [← Bool.not_eq_true, hasUndeletableContent, topoOrder,
      bubbleUp_leafOrder hids loadedParent_mem_ids hrank hid]
    simp only [not_exists, not_and, Bool.not_eq_true]
    exact forall₃_congr fun g _ _ => ownMark_eq_false_iff g
  rw [canDeleteFolder, Bool.and_eq_true, Bool.not_eq_true', hmark]
  constructor
  · exact And.right
  · intro h
    exact ⟨(h id hid (Below.refl id)).1, h⟩

theorem planExact_of_acyclic : ∃ deleted kept,
      deletionPlan db ctx rootId passedFolderIds deletableDocIds = .ok (deleted, kept) ∧
        PlanExact db ctx rootId passedFolderIds deletableDocIds deleted kept := by
  obtain ⟨hlen, hnodup, hmem⟩ := topoOrder_of_acyclic hids hacyc
  refine ⟨_, _, if_neg (not_not.mpr hlen), ?_, ?_, ?_, ?_⟩
  · rw [nodup_append]
    refine ⟨hnodup.filter _, hnodup.filter _, ?_⟩
    rintro id hdel _ hkept rfl
    simp only [mem_filter, Bool.and_eq_true] at hdel hkept
    rw [hdel.2.2] at hkept
    cases hkept.2.2
  · intro id
    simp only [mem_append, mem_filter, ← hmem]
    cases canDeleteFolder db ctx rootId passedFolderIds deletableDocIds id <;> simp
  · intro id hid
    have hin : id ∈ topoOrder ctx ∧ id ≠ rootId := by
      simp only [mem_append, mem_filter, Bool.and_eq_true, bne_iff_ne] at hid
      rcases hid with hid | hid
      · exact ⟨hid.1, hid.2.1⟩
      · exact ⟨hid.1, hid.2.1⟩
    rw [← canDeleteFolder_iff_subtree hids hacyc ((hmem id).mp hin.1)]
    simp [hin.1, hin.2]
  · exact ((leafOrder_ready hids loadedParent_mem_ids).pairwise loadedParent_mem_ids
      (fun _ hk => nomatch hk)).filter _

omit hacyc in
/-- **The deletion plan is exact and bottom-up, and raises only at a parent cycle.** -/
theorem deletion_plan_exact :
    (∀ e, deletionPlan db ctx rootId passedFolderIds deletableDocIds = .error e →
      HasParentCycle ctx) ∧
    (¬ HasParentCycle ctx → ∃ deleted kept,
      deletionPlan db ctx rootId passedFolderIds deletableDocIds = .ok (deleted, kept) ∧
        PlanExact db ctx rootId passedFolderIds deletableDocIds deleted kept) := by
  refine ⟨?_, planExact_of_acyclic hids⟩
  intro e he
  by_contra hacyc
  have hplan : ∃ deleted kept,
      deletionPlan db ctx rootId passedFolderIds deletableDocIds = .ok (deleted, kept) ∧
        PlanExact db ctx rootId passedFolderIds deletableDocIds deleted kept :=
    planExact_of_acyclic hids hacyc
  obtain ⟨deleted, kept, hplan, -⟩ := hplan
  rw [hplan] at he
  cases he

end

/-! ### A small tree -/

def planFolder (id : NodeId) (parentId : Option NodeId) : Node where
  id := id
  type := .directory
  name := id
  parentId := parentId

/-- A folder in a folder, the rows loaded with the parent first. -/
def planDatabase : Database where
  nodes := [planFolder "/" none, planFolder "a" (some "/"), planFolder "b" (some "a")]
  nodeIds_nodup := by decide
  nodeIds_ne_empty := by decide

def planContext : SubtreeContext where
  folders := planDatabase.nodes
  documents := []
  arguments := { allFolders := planDatabase.nodes, oaeByTarget := fun _ => [] }
  isGloballyBlocked := false
  blockedWriteIds := []

/-- The inner folder goes and the outer one, which fails its own check, stays. -/
theorem planContext_exact :
    deletionPlan planDatabase planContext "/" ["b"] [] = .ok (["b"], ["a"]) ∧
      (∀ e, deletionPlan planDatabase planContext "/" ["b"] [] = .error e →
        HasParentCycle planContext) ∧
      (¬ HasParentCycle planContext → ∃ deleted kept,
        deletionPlan planDatabase planContext "/" ["b"] [] = .ok (deleted, kept) ∧
          PlanExact planDatabase planContext "/" ["b"] [] deleted kept) :=
  ⟨by decide +kernel, deletion_plan_exact (by decide +kernel)⟩

end Cfms.Documents
