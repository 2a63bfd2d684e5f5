import Cfms.Documents.DeletionPlan
import Cfms.Documents.RevisionDeletion

/-!
# Cancelling transfers by a deletion

A file task is a capability to transfer a file, and it stays one as long as the file is reachable:
a document that is not deleted has a revision with the file, or another table refers to it.  The
deletions of documents, directories and revisions ask which files they make unreachable and cancel
the pending and running tasks of those.

`CancelsUnreachable` says what one deletion does to the tasks, and every deletion does it.  Files do
not become reachable again by deletions, so over a run it is the first deletion that makes a file
unreachable that cancels its tasks (`deletion_cancels_exactly`).
-/

namespace Cfms.Documents

open Access Lib Lib.Chunks Lib.LeafOrder List Database
open Files (FileTask FileTaskStatus)

/-! ### The deletions -/

inductive DeletionRequest
  | document (actor : Actor) (documentId : NodeId) (operationId : String)
  | directory (actor : Actor) (folderId : NodeId) (operationId : String)
  | revision (actor : Actor) (revisionId : String)

variable (limits : QueryLimits) (store : FileStore) (actor : Actor)

namespace FileStore

/-- The rows are marked, then the transfers of the files of the documents are cancelled where
nothing else uses the file. -/
def markAndCancel (nodeIds documentIds : List NodeId) (operationId : String) :
    FileStore × List String :=
  let marked := store.mapNodes (markDeleted nodeIds operationId) (markDeleted_id _ _)
  marked.cancelFileTasksForFiles (marked.findUnreachableDocumentFileIds limits documentIds)

/-- `RequestDeleteDocumentHandler`, with the ids of the cancelled tasks. -/
def requestDeleteDocument (documentId : NodeId) (operationId : String) : FileStore × List String :=
  match deleteDocument store.toDatabase actor documentId operationId with
  | .committed _ _ _ => store.markAndCancel limits [documentId] [documentId] operationId
  | _ => (store, [])

/-- `RequestDeleteDirectoryHandler`, with the ids of the cancelled tasks.  The root folder is marked
after the queries, which do not look at folders. -/
def requestDeleteDirectory (folderId : NodeId) (operationId : String) : FileStore × List String :=
  match deleteDirectory store.toDatabase actor folderId operationId,
    fetchSubtreeForDeletion store.toDatabase folderId actor.user actor.now false with
  | .committed _ _ _, .ok analysis =>
    store.markAndCancel limits (deletionMarks folderId analysis) analysis.deletableDocIds operationId
  | _, _ => (store, [])

/-- A deletion, with the ids of the tasks that it cancels.  A request that is refused or that fails
changes nothing. -/
def performDeletion :
    DeletionRequest → FileStore × List String
  | .document actor documentId operationId =>
    store.requestDeleteDocument limits actor documentId operationId
  | .directory actor folderId operationId =>
    store.requestDeleteDirectory limits actor folderId operationId
  | .revision actor revisionId =>
    match store.requestDeleteRevision limits actor revisionId with
    | .committed store' cancelledTaskIds => (store', cancelledTaskIds)
    | _ => (store, [])

/-! ### What a deletion does to the tasks -/

/-- The deletion cancels the active tasks of the files that it makes unreachable, and leaves the
other active tasks alone. -/
structure CancelsUnreachable (outcome : FileStore × List String) : Prop where
  cancelled : ∀ taskId, taskId ∈ outcome.2 ↔
    ∃ row, store.fileTasks.lookup taskId = some row ∧ row.task.status.isActive = true ∧
      store.Reachable row.fileId ∧ ¬ outcome.1.Reachable row.fileId
  status : ∀ taskId ∈ outcome.2, ∀ row, outcome.1.fileTasks.lookup taskId = some row →
    row.task.status = .cancelled
  others : ∀ taskId row, taskId ∉ outcome.2 → store.fileTasks.lookup taskId = some row →
    row.task.status.isActive = true → outcome.1.fileTasks.lookup taskId = some row
  files : ∀ taskId row, outcome.1.fileTasks.lookup taskId = some row →
    ∃ before, store.fileTasks.lookup taskId = some before ∧ before.fileId = row.fileId
  shrinks : ∀ fileId, outcome.1.Reachable fileId → store.Reachable fileId

variable {limits : QueryLimits} {store : FileStore}

theorem CancelsUnreachable.refused (store : FileStore) : CancelsUnreachable store (store, []) where
  cancelled taskId := by
    constructor
    · intro hmem
      exact absurd hmem not_mem_nil
    · rintro ⟨row, -, -, hreach, hnot⟩
      exact absurd hreach hnot
  status taskId hmem := absurd hmem not_mem_nil
  others _ _ _ hrow _ := hrow
  files _ row hrow := ⟨row, hrow, rfl⟩
  shrinks _ h := h

variable {taskId : String} {fileIds : List String}

theorem mem_activeTasksOf : taskId ∈ store.activeTasksOf fileIds ↔
      ∃ row, store.fileTasks.lookup taskId = some row ∧ row.task.status.isActive = true ∧
        row.fileId ∈ fileIds := by
  simp only [activeTasksOf, mem_map, mem_filter, Bool.and_eq_true, contains_iff_mem]
  constructor
  · rintro ⟨⟨id, row⟩, ⟨hmem, hfile, hact⟩, rfl⟩
    exact ⟨row, AList.mem_lookup_iff.mpr hmem, hact, hfile⟩
  · rintro ⟨row, hrow, hact, hfile⟩
    exact ⟨⟨taskId, row⟩, ⟨AList.mem_lookup_iff.mp hrow, hfile, hact⟩, rfl⟩

theorem lookup_cancelFileTasksForFiles (fileIds : List String) (taskId : String) :
    (store.cancelFileTasksForFiles fileIds).1.fileTasks.lookup taskId =
      (store.fileTasks.lookup taskId).map fun row =>
        if (store.activeTasksOf fileIds).contains taskId && row.task.status.isActive then
          { row with task := { row.task with status := .cancelled } }
        else row :=
  Table.lookup_update _ _ _

/-- A cancellation of the tasks of the files that become unreachable; tasks of some of these files
may go with the rows of the files. -/
theorem cancels_of_cancelFileTasks {store' : FileStore} (gone : String → Bool)
    (htasks : ∀ taskId row, store'.fileTasks.lookup taskId = some row ↔
      (store.cancelFileTasksForFiles fileIds).1.fileTasks.lookup taskId = some row ∧
        gone row.fileId = false)
    (hgone : ∀ fileId, gone fileId = true → fileId ∈ fileIds)
    (hfiles : ∀ fileId, fileId ∈ fileIds ↔ store.Reachable fileId ∧ ¬ store'.Reachable fileId)
    (hshr : ∀ fileId, store'.Reachable fileId → store.Reachable fileId) :
    CancelsUnreachable store (store', store.activeTasksOf fileIds) where
  cancelled taskId := by
    show taskId ∈ store.activeTasksOf fileIds ↔ _
    rw [mem_activeTasksOf]
    simp only [hfiles]
  status taskId hmem row hrow := by
    have hcanc := ((htasks taskId row).mp hrow).1
    rw [lookup_cancelFileTasksForFiles, Option.map_eq_some_iff] at hcanc
    obtain ⟨before, hbef, rfl⟩ := hcanc
    obtain ⟨row, hrow, hact, -⟩ := mem_activeTasksOf.mp hmem
    rw [hbef] at hrow
    cases hrow
    rw [if_pos (by rw [Bool.and_eq_true, contains_iff_mem]; exact ⟨hmem, hact⟩)]
  others taskId row hnot hrow hact := by
    have hnot' : taskId ∉ store.activeTasksOf fileIds := hnot
    have hkept : (store.activeTasksOf fileIds).contains taskId = false := by
      simpa only [contains_eq_mem, decide_eq_false_iff_not] using hnot'
    refine (htasks taskId row).mpr ⟨?_, ?_⟩
    · rw [lookup_cancelFileTasksForFiles, hrow, hkept]
      rfl
    · rw [Bool.eq_false_iff]
      intro hfile
      exact hnot' (mem_activeTasksOf.mpr ⟨row, hrow, hact, hgone _ hfile⟩)
  files taskId row hrow := by
    have hcanc := ((htasks taskId row).mp hrow).1
    rw [lookup_cancelFileTasksForFiles, Option.map_eq_some_iff] at hcanc
    obtain ⟨before, hbef, rfl⟩ := hcanc
    refine ⟨before, hbef, ?_⟩
    split <;> rfl
  shrinks := hshr

/-! ### Documents and directories -/

theorem exists_liveDocument_markDeleted (store : FileStore) (nodeIds : List NodeId)
    (opId : String) (id : NodeId) :
    (∃ doc, (store.mapNodes (markDeleted nodeIds opId)
        (markDeleted_id _ _)).liveDocument? id = some doc) ↔
      id ∉ nodeIds ∧ ∃ doc, store.liveDocument? id = some doc := by
  have htype : ∀ node, (markDeleted nodeIds opId node).type = node.type := by
    intro node
    unfold markDeleted
    split <;> rfl
  simp only [liveDocument?_eq_some]
  constructor
  · rintro ⟨_, ⟨hmem, hid, hdocument⟩, hst⟩
    obtain ⟨node, hnode, rfl⟩ := mem_map.mp hmem
    rw [markDeleted_id] at hid
    rw [htype] at hdocument
    have hnot : node.id ∉ nodeIds := by
      intro hmark
      simp [markDeleted, hmark] at hst
    rw [hid] at hnot
    refine ⟨hnot, node, ⟨hnode, hid, hdocument⟩, ?_⟩
    simpa [markDeleted, hid, hnot] using hst
  · rintro ⟨hnot, node, ⟨hnode, rfl, hdocument⟩, hst⟩
    have hsame : markDeleted nodeIds opId node = node := by simp [markDeleted, hnot]
    exact ⟨node, ⟨mem_map.mpr ⟨node, hnode, hsame⟩, rfl, hdocument⟩, hst⟩

/-- Marking rows cancels exactly, when the queried documents are the live documents among the
marked rows. -/
theorem markAndCancel_cancels {nodeIds docIds : List NodeId} (opId : String)
    (hdocs : ∀ id, id ∈ docIds → id ∈ nodeIds ∧ ∃ doc, store.liveDocument? id = some doc)
    (hothers : ∀ id ∈ nodeIds, (∃ doc, store.liveDocument? id = some doc) → id ∈ docIds) :
    CancelsUnreachable store (store.markAndCancel limits nodeIds docIds opId) := by
  have hlive := exists_liveDocument_markDeleted store nodeIds opId
  have hshr : ∀ fileId, (store.mapNodes (markDeleted nodeIds opId)
      (markDeleted_id _ _)).Reachable fileId → store.Reachable fileId := by
    rintro fileId (⟨rev, hrev, hfile, hdocument, hout⟩ | huse)
    · exact .inl ⟨rev, hrev, hfile, ((hlive _).mp hdocument).2, hout⟩
    · exact .inr huse
  refine cancels_of_cancelFileTasks (fun _ => false)
    (fun taskId row => (and_iff_left rfl).symm) (by simp) (fun fileId => ?_) hshr
  rw [mem_findUnreachableDocumentFileIds]
  constructor
  · rintro ⟨⟨rev, hrev, hdocument, hfile⟩, hnot⟩
    refine ⟨.inl ⟨rev, hrev, hfile, (hdocs _ hdocument).2, by simp, by simp⟩, ?_⟩
    rintro (⟨other, hother, hotherFile, hotherLive, -⟩ | huse)
    · refine hnot (.inl ⟨other, hother, hotherFile, hotherLive, fun hmem => ?_, by simp⟩)
      exact ((hlive _).mp hotherLive).1 (hdocs _ hmem).1
    · exact hnot (.inr huse)
  · rintro ⟨hreach, hnot⟩
    rcases hreach with ⟨rev, hrev, hfile, hdocument, -⟩ | huse
    · have hmarked : rev.documentId ∈ nodeIds := by
        by_contra hmarked
        exact hnot (.inl ⟨rev, hrev, hfile, (hlive _).mpr ⟨hmarked, hdocument⟩, by simp, by simp⟩)
      refine ⟨⟨rev, hrev, hothers _ hmarked hdocument, hfile⟩, ?_⟩
      rintro (⟨other, hother, hotherFile, hotherLive, -⟩ | huse)
      · exact hnot (.inl ⟨other, hother, hotherFile, hotherLive, by simp, by simp⟩)
      · exact hnot (.inr huse)
    · exact absurd (.inr huse) hnot

theorem requestDeleteDocument_cancels (docId : NodeId) (opId : String) :
    CancelsUnreachable store (store.requestDeleteDocument limits actor docId opId) := by
  rw [requestDeleteDocument]
  split
  · rename_i hcommit
    refine markAndCancel_cancels opId (fun id hid => ⟨hid, ?_⟩) fun id hid _ => hid
    rw [mem_singleton] at hid
    subst hid
    unfold deleteDocument at hcommit
    split at hcommit
    · cases hcommit
    · rename_i doc hdocument
      exact ⟨doc, hdocument⟩
  · exact CancelsUnreachable.refused store

variable {db : Database} {user : User}

theorem mem_of_checkItems {ctx : SubtreeContext} {perm : String}
    {items : List Node} {ids : List NodeId} {failed : List FailedItem}
    (h : checkItems db ctx user perm items = .ok (ids, failed)) :
    ∀ id ∈ ids, ∃ item ∈ items, item.id = id := by
  induction items generalizing ids failed with
  | nil =>
    cases h
    simp
  | cons item rest ih =>
    have hrest : ∃ passed reported, checkItems db ctx user perm rest = .ok (passed, reported) ∧
        ∀ id ∈ ids, id = item.id ∨ id ∈ passed := by
      rw [checkItems] at h
      cases hrest : checkItems db ctx user perm rest with
      | error e =>
        cases hdeletable : canDelete db ctx user perm item with
        | error e => rw [hdeletable] at h; cases h
        | ok deletable =>
          rw [hdeletable, hrest] at h
          cases deletable with
          | true => cases h
          | false => cases hreport : reportFailure db ctx user item <;> rw [hreport] at h <;> cases h
      | ok passed =>
        refine ⟨passed.1, passed.2, rfl, ?_⟩
        cases hdeletable : canDelete db ctx user perm item with
        | error e => rw [hdeletable] at h; cases h
        | ok deletable =>
          rw [hdeletable, hrest] at h
          cases deletable with
          | true =>
            cases h
            exact fun id hid => mem_cons.mp hid
          | false =>
            cases hreport : reportFailure db ctx user item with
            | error e => rw [hreport] at h; cases h
            | ok reported =>
              rw [hreport] at h
              cases h
              exact fun id hid => .inr hid
    obtain ⟨passed, reported, hpass, hids⟩ := hrest
    intro id hid
    rcases hids id hid with rfl | hmem
    · exact ⟨item, mem_cons_self, rfl⟩
    · obtain ⟨other, hother, hother'⟩ := ih hpass id hmem
      exact ⟨other, mem_cons_of_mem _ hother, hother'⟩

theorem rows_of_fetchSubtreeForDeletion {rootId : NodeId}
    {now : Instant} {analysis : SubtreeAnalysis}
    (h : fetchSubtreeForDeletion db rootId user now false = .ok analysis) :
    (∀ id ∈ analysis.deletableDocIds, ∃ doc, db.liveDocument? id = some doc) ∧
      ∀ id ∈ analysis.deletableFolderIds, ∃ folder, db.folder? id = some folder := by
  rw [fetchSubtreeForDeletion_eq] at h
  cases hdocs : checkItems db (loadSubtree db rootId user now false) user
      "delete_document" (checkedDocuments (loadSubtree db rootId user now false) false) with
  | error e => simp only [hdocs] at h; cases h
  | ok documents =>
    simp only [hdocs] at h
    cases hfols : checkItems db (loadSubtree db rootId user now false) user
        "delete_directory" (checkedFolders (loadSubtree db rootId user now false)
          rootId) with
    | error e => simp only [hfols] at h; cases h
    | ok folders =>
      simp only [hfols] at h
      cases hplan : deletionPlan db (loadSubtree db rootId user now false) rootId
          folders.1 documents.1 with
      | error e =>
        replace h : (deletionPlan db (loadSubtree db rootId user now false) rootId
          folders.1 documents.1 >>= _) = _ := h
        rw [hplan] at h
        cases h
      | ok plan =>
        replace h : (deletionPlan db (loadSubtree db rootId user now false) rootId
          folders.1 documents.1 >>= _) = _ := h
        rw [hplan] at h
        cases h
        constructor
        · intro id hid
          obtain ⟨doc, hdocument, rfl⟩ := mem_of_checkItems hdocs id hid
          rw [mem_checkedDocuments, mem_loadSubtree_documents] at hdocument
          obtain ⟨hrow, htype⟩ := mem_documents.mp hdocument.1.1
          refine ⟨doc, liveDocument?_eq_some.mpr ⟨⟨hrow, rfl, htype⟩, ?_⟩⟩
          simpa using hdocument.1.2.2
        · intro id hid
          rw [deletionPlan] at hplan
          split at hplan
          · cases hplan
          cases hplan
          have horder := (mem_filter.mp hid).1
          have hload := (leafOrder_ready (loadedFolderIds_nodup user now)
            loadedParent_mem).mem_ids id horder
          obtain ⟨folder, hfol, rfl⟩ := mem_map.mp hload
          obtain ⟨hrow, htype⟩ := mem_folders.mp (mem_loadSubtree_folders.mp hfol).1
          exact ⟨folder, folder?_eq_some.mpr ⟨hrow, rfl, htype⟩⟩

theorem not_folder_of_liveDocument {id : NodeId} {doc folder : Node}
    (hdocument : db.liveDocument? id = some doc) (hfol : db.folder? id = some folder) :
    False := by
  obtain ⟨⟨hdoc, hid, htype⟩, -⟩ := liveDocument?_eq_some.mp hdocument
  obtain ⟨hrow, hid', htype'⟩ := folder?_eq_some.mp hfol
  rw [eq_of_id_eq hdoc hrow (hid.trans hid'.symm), htype'] at htype
  cases htype

theorem requestDeleteDirectory_cancels (folderId : NodeId) (opId : String) :
    CancelsUnreachable store (store.requestDeleteDirectory limits actor folderId opId) := by
  rw [requestDeleteDirectory]
  split
  · rename_i hcommit han
    obtain ⟨hdocs, hfols⟩ := rows_of_fetchSubtreeForDeletion han
    obtain ⟨-, folder, -, hfol, -⟩ := deleteDirectory_committed hcommit
    refine markAndCancel_cancels opId (fun id hid => ⟨?_, hdocs id hid⟩) ?_
    · rw [deletionMarks, mem_append, mem_append]
      exact .inl (.inl hid)
    · rintro id hid ⟨doc, hdocument⟩
      rw [deletionMarks, mem_append, mem_append] at hid
      rcases hid with (hid | hid) | hid
      · exact hid
      · obtain ⟨other, hother⟩ := hfols id hid
        exact (not_folder_of_liveDocument hdocument hother).elim
      · split at hid
        · rw [mem_singleton] at hid
          subst hid
          exact (not_folder_of_liveDocument hdocument (Option.filter_eq_some_iff.mp hfol).1).elim
        · exact absurd hid not_mem_nil
  · exact CancelsUnreachable.refused store

/-! ### Revisions -/

section

variable {rev : DocumentRevision} {store' : FileStore}

theorem RevisionDeleted.reachable_iff
    (h : RevisionDeleted (store.beforeRevisionDelete limits rev) rev store')
    {fileId : String} :
    store'.Reachable fileId ↔ store.ReachableOutside [] [rev.id] fileId := by
  have hlive : ∀ id, (∃ doc, store'.liveDocument? id = some doc) ↔
      ∃ doc, store.liveDocument? id = some doc := by
    intro id
    have hnodes : store'.nodes = store.nodes.map (clearCurrentWhere fun node =>
      node.currentRevisionId == some rev.id) := h.nodes
    have hst : ∀ node, (clearCurrentWhere (fun node =>
        node.currentRevisionId == some rev.id) node).status = node.status := by
      intro node
      unfold clearCurrentWhere
      split <;> rfl
    simp only [liveDocument?_eq_some, hnodes, mem_map]
    constructor
    · rintro ⟨_, ⟨⟨node, hnode, rfl⟩, hid, htype⟩, hlive⟩
      rw [clearCurrentWhere_id] at hid
      rw [clearCurrentWhere_type] at htype
      rw [hst] at hlive
      exact ⟨node, ⟨hnode, hid, htype⟩, hlive⟩
    · rintro ⟨node, ⟨hnode, hid, htype⟩, hlive⟩
      exact ⟨_, ⟨⟨node, hnode, rfl⟩, (clearCurrentWhere_id _ _).trans hid,
        (clearCurrentWhere_type _ _).trans htype⟩, by rwa [hst]⟩
  have hrevs := h.revisions
  have huses : store'.otherUses = store.otherUses := by
    rw [otherUses, h.otherTables]
    rfl
  rw [Reachable, ReachableOutside, ReachableOutside, hrevs, huses]
  simp only [hlive, mem_filter, bne_iff_ne, not_mem_nil, not_false_eq_true, and_true,
    true_and, mem_singleton]
  refine or_congr_left (exists_congr fun other => ?_)
  constructor
  · rintro ⟨⟨hother, hid⟩, hfile, hdocument⟩
    exact ⟨hother, hfile, hdocument, hid⟩
  · rintro ⟨hother, hfile, hdocument, hid⟩
    exact ⟨⟨hother, hid⟩, hfile, hdocument⟩

theorem revisionDeletion_cancels (hrev : rev ∈ store.revisions)
    (hlive : ∃ doc, store.liveDocument? rev.documentId = some doc)
    (h : RevisionDeleted (store.beforeRevisionDelete limits rev) rev store') :
    CancelsUnreachable store
      (store', store.activeTasksOf (store.findUnreachableRevisionFileIds limits [rev.id])) := by
  have hreach : store.Reachable rev.fileId :=
    .inl ⟨rev, hrev, rfl, hlive, by simp, by simp⟩
  have hfiles : ∀ fileId, fileId ∈ store.findUnreachableRevisionFileIds limits [rev.id] ↔
      store.Reachable fileId ∧ ¬ store'.Reachable fileId := by
    intro fileId
    rw [mem_findUnreachableRevisionFileIds, h.reachable_iff]
    refine and_congr_left fun hnot => ?_
    constructor
    · rintro ⟨other, hother, hid, rfl⟩
      rw [mem_singleton] at hid
      rw [inj_on_of_nodup_map store.revisionIds_nodup hother hrev hid]
      exact hreach
    · rintro (⟨other, hother, hfile, hdocument, -⟩ | huse)
      · refine ⟨other, hother, ?_, hfile⟩
        by_contra hid
        exact hnot (.inl ⟨other, hother, hfile, hdocument, by simp, hid⟩)
      · exact absurd (.inr huse) hnot
  refine cancels_of_cancelFileTasks (fun fileId => store.isSoleUse rev && fileId == rev.fileId)
    (fun taskId row => ?_) (fun fileId hgone => ?_) hfiles ?_
  · rw [h.fileTasks]
    exact Table.lookup_delete_eq_some
  · rw [Bool.and_eq_true, beq_iff_eq] at hgone
    rw [hgone.2, hfiles]
    refine ⟨hreach, fun hstill => ?_⟩
    have hunus := isUsed_of_isSoleUse hrev hgone.1 store' h.revisions
      (by rw [otherUses, h.otherTables]; rfl)
    rw [isUsed, Bool.or_eq_false_iff, any_eq_false] at hunus
    rcases hstill with ⟨other, hother, hfile, -⟩ | huse
    · exact hunus.1 other hother (by simpa using hfile)
    · simp [huse] at hunus
  · intro fileId hstill
    rcases h.reachable_iff.mp hstill with ⟨other, hother, hfile, hdocument, -⟩ | huse
    · exact .inl ⟨other, hother, hfile, hdocument, by simp, by simp⟩
    · exact .inr huse

end

theorem performDeletion_cancels (limits : QueryLimits) (store : FileStore)
    (request : DeletionRequest) :
    CancelsUnreachable store (store.performDeletion limits request) := by
  cases request with
  | document actor docId opId =>
    exact requestDeleteDocument_cancels actor docId opId
  | directory actor folderId opId =>
    exact requestDeleteDirectory_cancels actor folderId opId
  | revision actor revId =>
    rw [performDeletion]
    split
    · rename_i store' tasks hcomm
      obtain ⟨rev, doc, hfound, hlive, hcommit⟩ :=
        requestDeleteRevision_eq_committed hcomm
      have hrev := (revision?_eq_some.mp hfound).1
      obtain ⟨left, hleft, hdel⟩ := commitRevisionDeletion_ok limits hrev
      rw [hleft] at hcommit
      cases hcommit
      exact revisionDeletion_cancels hrev ⟨doc, hlive⟩ hdel
    · exact CancelsUnreachable.refused store

/-! ### Runs -/

/-- What happens to the tasks between deletions: tasks are issued, and transfers change their
columns. -/
inductive TaskEvent
  | deletion (request : DeletionRequest)
  | issue (taskId : String) (row : FileTaskRow)
  | change (taskId : String) (f : FileTask → FileTask)

def afterEvent (limits : QueryLimits) (store : FileStore) : TaskEvent → FileStore
  | .deletion request => (store.performDeletion limits request).1
  | .issue taskId row =>
    match store.fileTasks.insertNew taskId row with
    | some fileTasks => { store with fileTasks }
    | none => store
  | .change taskId f =>
    { store with
      fileTasks := store.fileTasks.update fun id row =>
        if id = taskId then { row with task := f row.task } else row }

def afterEvents (limits : QueryLimits) (store : FileStore) (events : List TaskEvent) : FileStore :=
  events.foldl (afterEvent limits) store

variable {fileId : String} {event : TaskEvent}

theorem reachable_of_afterEvent
    (h : (store.afterEvent limits event).Reachable fileId) : store.Reachable fileId := by
  cases event with
  | deletion request => exact (performDeletion_cancels limits store request).shrinks fileId h
  | issue taskId row =>
    rw [afterEvent] at h
    split at h
    · exact h
    · exact h
  | change taskId f => exact h

variable {events : List TaskEvent}

theorem reachable_of_afterEvents
    (h : (store.afterEvents limits events).Reachable fileId) : store.Reachable fileId := by
  induction events generalizing store with
  | nil => exact h
  | cons event events ih => exact reachable_of_afterEvent (ih h)

def TaskEvent.keepsId (taskId : String) : TaskEvent → Prop
  | .issue newId _ => newId ≠ taskId
  | _ => True

theorem fileId_afterEvent (hkeeps : event.keepsId taskId)
    (hfile : ∀ row, store.fileTasks.lookup taskId = some row → row.fileId = fileId) :
    ∀ row, (store.afterEvent limits event).fileTasks.lookup taskId = some row →
      row.fileId = fileId := by
  intro row hrow
  cases event with
  | deletion request =>
    obtain ⟨before, hbef, hsame⟩ :=
      (performDeletion_cancels limits store request).files taskId row hrow
    rw [← hsame]
    exact hfile before hbef
  | issue newId new =>
    rw [afterEvent] at hrow
    split at hrow
    · rename_i fileTasks hins
      obtain ⟨-, rfl⟩ := Table.insertNew_eq_some hins
      rcases Table.lookup_insert_eq_some hrow with ⟨heq, -⟩ | ⟨-, hbef⟩
      · exact absurd heq.symm hkeeps
      · exact hfile row hbef
    · exact hfile row hrow
  | change id f =>
    obtain ⟨before, hbef, rfl⟩ := Table.lookup_update_eq_some hrow
    have hsame := hfile before hbef
    split
    · exact hsame
    · exact hsame

theorem fileId_afterEvents (limits : QueryLimits) (hkeeps : ∀ event ∈ events, event.keepsId taskId)
    (hfile : ∀ row, store.fileTasks.lookup taskId = some row → row.fileId = fileId) :
    ∀ row, (store.afterEvents limits events).fileTasks.lookup taskId = some row →
      row.fileId = fileId := by
  induction events generalizing store with
  | nil => exact hfile
  | cons event events ih =>
    exact ih (fun other hother => hkeeps other (mem_cons_of_mem _ hother))
      (fileId_afterEvent (hkeeps event mem_cons_self) hfile)

def FirstUnreachable (limits : QueryLimits) (store : FileStore) (events : List TaskEvent)
    (request : DeletionRequest) (fileId : String) : Prop :=
  (∀ front, front <+: events → (store.afterEvents limits front).Reachable fileId) ∧
    ¬ ((store.afterEvents limits events).performDeletion limits request).1.Reachable fileId

theorem firstUnreachable_iff {request : DeletionRequest} :
    FirstUnreachable limits store events request fileId ↔
      (store.afterEvents limits events).Reachable fileId ∧
        ¬ ((store.afterEvents limits events).performDeletion limits request).1.Reachable fileId := by
  refine and_congr_left fun _ => ?_
  constructor
  · intro hall
    exact hall events prefix_rfl
  · rintro hend front ⟨rest, rfl⟩
    rw [afterEvents, foldl_append] at hend
    exact reachable_of_afterEvents hend

/-- The queries return the files that nothing else uses, and over any run a task is cancelled by the
first deletion that makes its file unreachable, if it is pending or running then, and by no other.
-/
theorem deletion_cancels_exactly (limits : QueryLimits) :
    (∀ (store : FileStore) (docIds : List NodeId) (fileId : String),
      fileId ∈ store.findUnreachableDocumentFileIds limits docIds ↔
        (∃ rev ∈ store.revisions, rev.documentId ∈ docIds ∧
          rev.fileId = fileId) ∧ ¬ store.ReachableOutside docIds [] fileId) ∧
    (∀ (store : FileStore) (revisionIds : List String) (fileId : String),
      fileId ∈ store.findUnreachableRevisionFileIds limits revisionIds ↔
        (∃ rev ∈ store.revisions, rev.id ∈ revisionIds ∧ rev.fileId = fileId) ∧
          ¬ store.ReachableOutside [] revisionIds fileId) ∧
    ∀ (store : FileStore) (taskId : String) (row : FileTaskRow) (events : List TaskEvent)
      (request : DeletionRequest),
      store.fileTasks.lookup taskId = some row → store.Reachable row.fileId →
      (∀ event ∈ events, event.keepsId taskId) →
      (taskId ∈ ((store.afterEvents limits events).performDeletion limits request).2 ↔
        (∃ row', (store.afterEvents limits events).fileTasks.lookup taskId = some row' ∧
          row'.task.status.isActive = true) ∧
        FirstUnreachable limits store events request row.fileId) ∧
      (taskId ∈ ((store.afterEvents limits events).performDeletion limits request).2 →
        ∀ row', ((store.afterEvents limits events).performDeletion limits
          request).1.fileTasks.lookup taskId = some row' → row'.task.status = .cancelled) := by
  refine ⟨fun _ _ _ => mem_findUnreachableDocumentFileIds,
    fun _ _ _ => mem_findUnreachableRevisionFileIds, ?_⟩
  intro store taskId row events request hrow _ hkeeps
  have hcancels := performDeletion_cancels limits (store.afterEvents limits events) request
  have hfile := fileId_afterEvents limits hkeeps
    (fun row' hrow' => by rw [hrow] at hrow'; cases hrow'; rfl :
      ∀ row', store.fileTasks.lookup taskId = some row' → row'.fileId = row.fileId)
  refine ⟨?_, hcancels.status taskId⟩
  rw [hcancels.cancelled, firstUnreachable_iff]
  constructor
  · rintro ⟨row', hrow', hact, hreach, hnot⟩
    rw [hfile row' hrow'] at hreach hnot
    exact ⟨⟨row', hrow', hact⟩, hreach, hnot⟩
  · rintro ⟨⟨row', hrow', hact⟩, hreach, hnot⟩
    rw [← hfile row' hrow'] at hreach hnot
    exact ⟨row', hrow', hact, hreach, hnot⟩

def pendingUpload : FileTaskRow := ⟨"file", { mode := .upload, startTime := 0, endTime := none }⟩

/-- Two documents that share a file which is being transferred. -/
def sharedUpload : FileStore where
  nodes := [{ id := "/", type := .directory, name := "/", parentId := none },
    { id := "draft", type := .document, name := "draft", parentId := some "/" },
    { id := "copy", type := .document, name := "copy", parentId := some "/" }]
  nodeIds_nodup := by decide
  nodeIds_ne_empty := by decide
  revisions := [⟨"r1", "draft", "file"⟩, ⟨"r2", "copy", "file"⟩]
  files := [⟨"file", false⟩]
  revisionIds_nodup := by decide
  fileIds_nodup := by decide
  revisionFileIds_ne_empty := by decide
  fileTasks := AList.insert "t" pendingUpload ∅
  tableNames_nodup := List.nodup_singleton _

def deletesDocument (documentId : NodeId) : DeletionRequest :=
  .document ⟨⟨"owner", ["delete_document", "super_write"], []⟩, 10, true⟩ documentId "delete"

theorem sharedUpload_cancelled_second :
    FirstUnreachable queryLimits sharedUpload [.deletion (deletesDocument "draft")]
      (deletesDocument "copy") "file" :=
  (((deletion_cancels_exactly queryLimits).2.2 sharedUpload "t" pendingUpload
    [.deletion (deletesDocument "draft")] (deletesDocument "copy") (by decide +kernel)
    (.inl ⟨⟨"r1", "draft", "file"⟩, by decide +kernel, rfl,
      Option.isSome_iff_exists.mp (by decide +kernel), by decide, by decide⟩)
    (by simp [TaskEvent.keepsId])).1.mp (by decide +kernel)).2

end FileStore

end Cfms.Documents
