import Cfms.Documents.EffectiveRevision

/-!
# Reclaiming abandoned uploads

`reclaim_abandoned_uploads` goes through the upload tasks that are due or expired, in one
transaction.  It expires the task and deletes it, and then takes the revisions of its file one by
one: a document without an active revision and without another live upload is purged, and otherwise
the revision is deleted.

The loops only ever do three things to the rows: they change tasks, purge a document, or delete a
revision.  `Reclaims` is a sequence of such steps with the removals among them.  `Visits` is one that
follows the loops: it comes to the files of the abandoned tasks in turn, and to the revisions of a
file until one of them is purged with its document.  Every call is such a run
(`reclaimAbandonedUploads_ok`).  `Files.LiveUploads` has the same loops over the rows of upload
tasks, between the transactions of other requests.
-/

namespace Cfms.Documents

open Access Lib List Database
open Files (FileTask FileTaskStatus expireFileTaskIfDue)

/-- The arguments of `reclaim_abandoned_uploads`. -/
structure CleanupFilter where
  documentId : Option NodeId := none
  folderId : Option NodeId := none
  title : Option String := none
  limit : Option ℕ := none

def CleanupFilter.admits (filter : CleanupFilter) (document : Node) : Bool :=
  filter.documentId.all (· == document.id) &&
    filter.folderId.all (some · == document.parentId) && filter.title.all (· == document.name)

/-- What the cleanup removes in one step. -/
inductive Removal
  | document (documentId : NodeId)
  | revision (revision : DocumentRevision)
  deriving DecidableEq

/-- The lists of the call.  In place of the counters `removed_revisions` and `removed_documents` there
is a log of the removals, each with the store it was made in. -/
structure UploadCleanup where
  store : FileStore
  expiredTaskIds : List String := []
  cancelledTaskIds : List String := []
  removals : List (FileStore × Removal) := []

/-- A pending or running upload that is not due. -/
def FileTaskRow.isLiveUpload (row : FileTaskRow) (now : Instant) : Bool :=
  row.task.mode == .upload && row.task.status.isActive && !row.task.isDue now

variable (store : FileStore) (limits : QueryLimits) (now : Instant)

namespace FileStore

/-! ### Queries -/

/-- `session.get(File, id)`. -/
def file? (id : String) : Option File :=
  store.files.find? fun file => file.id == id

def hasRevision (documentId : NodeId) (fileId : String) : Bool :=
  store.revisions.any fun revision =>
    revision.documentId == documentId && revision.fileId == fileId

/-- `_has_live_upload_for_document`; a revision and a task always have their file. -/
def hasLiveUploadForDocument (documentId : NodeId) (excludedTaskId : String) (now : Instant) :
    Bool :=
  store.fileTasks.any fun taskId row =>
    taskId != excludedTaskId && row.isLiveUpload now && store.hasRevision documentId row.fileId

def documentHasActiveRevision (documentId : NodeId) : Bool :=
  store.revisions.any fun revision =>
    revision.documentId == documentId && store.isActive revision

/-- The condition on a task in `_find_cleanup_candidates`. -/
def isAbandoned (row : FileTaskRow) (file : File) (now : Instant) : Bool :=
  row.task.mode == .upload &&
    ((row.task.status.isActive && row.task.isDue now) ||
      (row.task.status == .expired && !file.active))

/-- `ORDER BY end_time, id`; a null comes first. -/
def candidateLe (a b : (_ : String) × FileTaskRow) : Bool :=
  match a.2.task.endTime, b.2.task.endTime with
  | none, none => decide (a.1 ≤ b.1)
  | none, some _ => true
  | some _, none => false
  | some s, some t => decide (s < t) || (decide (s = t) && decide (a.1 ≤ b.1))

/-- `_find_cleanup_candidates`; the row filter leaves out deleted documents. -/
def findCleanupCandidates (filter : CleanupFilter) : List ((_ : String) × FileTaskRow) :=
  let rows := store.fileTasks.entries.filter fun row =>
    (store.file? row.2.fileId).any (fun file => isAbandoned row.2 file now) &&
      store.revisions.any fun revision =>
        revision.fileId == row.2.fileId &&
          (store.liveDocument? revision.documentId).any (CleanupFilter.admits filter)
  let sorted := rows.insertionSort fun a b => candidateLe a b = true
  match filter.limit with
  | none => sorted
  | some limit => sorted.take limit

/-! ### The loops -/

def updateTask (taskId : String) (f : FileTask → FileTask) : FileStore :=
  { store with
    fileTasks := store.fileTasks.update fun id row =>
      if id = taskId then { row with task := f row.task } else row }

def eraseTask (taskId : String) : FileStore :=
  { store with fileTasks := store.fileTasks.erase taskId }

def parentRevision (revision : DocumentRevision) : Option DocumentRevision :=
  (store.upRevision revision).bind store.revision?

def showsRevision (document : Node) (revision : DocumentRevision) : Bool :=
  document.id == revision.documentId && document.isDocument && document.notDeleted &&
    document.currentRevisionId == some revision.id

/-- `document.current_revision = revision.parent_revision`, where the document shows the revision. -/
def passCurrent (parent : Option DocumentRevision) (revision : DocumentRevision) (document : Node) :
    Node :=
  if showsRevision document revision then
    { document with currentRevisionId := parent.map DocumentRevision.id }
  else document

theorem passCurrent_id (parent : Option DocumentRevision) (revision : DocumentRevision)
    (doc : Node) : (passCurrent parent revision doc).id = doc.id := by
  unfold passCurrent
  split <;> rfl

def withCurrentPassed (revision : DocumentRevision) : FileStore :=
  store.mapNodes (passCurrent (store.parentRevision revision) revision) (passCurrent_id _ _)

/-- The loop over the revisions of a reclaimed file, with what it removes. -/
def reclaimRevisions (limits : QueryLimits) (taskId : String) (now : Instant) :
    List DocumentRevision → FileStore → Except StoreError (FileStore × List (FileStore × Removal))
  | [], store => .ok (store, [])
  | revision :: rest, store =>
    if !store.documentHasActiveRevision revision.documentId &&
        !store.hasLiveUploadForDocument revision.documentId taskId now then
      match store.purgeDocumentsBulk limits [revision.documentId] with
      | .error e => .error e
      | .ok purged => .ok (purged, [(store, .document revision.documentId)])
    else
      match (store.withCurrentPassed revision).deleteRevisionAndUnreferencedFile limits revision with
      | .error e => .error e
      | .ok left =>
        match reclaimRevisions limits taskId now rest left with
        | .error e => .error e
        | .ok (store', removals) => .ok (store', (store, .revision revision) :: removals)

/-- The upload session of a task is aborted when the transaction has committed. -/
def queueUploadSession (fileId : String) : Option String → FileStore
  | some session => store.queueDeferredFileDeletion (store.filePath fileId) [session]
  | none => store

def reclaimFile (cleanup : UploadCleanup) (taskId fileId : String) (uploadSessionId : Option String) :
    Except StoreError UploadCleanup :=
  -- the row is expired here, so the `DELETE` finds it
  let store := (cleanup.store.queueUploadSession fileId uploadSessionId).eraseTask taskId
  let revisions := store.revisions.filter fun revision => revision.fileId == fileId
  match reclaimRevisions limits taskId now revisions store with
  | .error e => .error e
  | .ok (store', removals) =>
    .ok { store := store'
          expiredTaskIds := cleanup.expiredTaskIds
          cancelledTaskIds :=
            if cleanup.cancelledTaskIds.contains taskId then cleanup.cancelledTaskIds
            else cleanup.cancelledTaskIds ++ [taskId]
          removals := cleanup.removals ++ removals }

/-- The body of the loop in `reclaim_abandoned_uploads`. -/
def reclaimUpload (cleanup : UploadCleanup) (candidate : (_ : String) × FileTaskRow) :
    Except StoreError UploadCleanup :=
  match cleanup.store.fileTasks.lookup candidate.1 with
  | none => .ok cleanup
  | some row =>
    let expired := expireFileTaskIfDue row.task now
    let store := cleanup.store.updateTask candidate.1 (expireFileTaskIfDue · now)
    if expired.status != .expired then .ok { cleanup with store }
    else
      let newly := if candidate.2.task.status != .expired then [candidate.1] else []
      let cleanup : UploadCleanup :=
        { store
          expiredTaskIds := cleanup.expiredTaskIds ++ newly
          cancelledTaskIds := cleanup.cancelledTaskIds ++ newly
          removals := cleanup.removals }
      if (store.file? candidate.2.fileId).all File.active then .ok cleanup
      else reclaimFile limits now cleanup candidate.1 candidate.2.fileId expired.uploadSessionId

def reclaimAbandonedUploads (store : FileStore) (now : Instant) (filter : CleanupFilter) :
    Except StoreError UploadCleanup :=
  (store.findCleanupCandidates now filter).foldlM (reclaimUpload limits now) { store }

/-! ### Steps -/

/-- The foreign key of `document_revisions`. -/
def RevisionsHaveDocuments : Prop :=
  ∀ revision ∈ store.revisions, (store.document? revision.documentId).isSome = true

/-- The document has an upload that is pending or running and not due. -/
def HasLiveUpload (documentId : NodeId) (now : Instant) : Prop :=
  ∃ taskId row, store.fileTasks.lookup taskId = some row ∧ row.isLiveUpload now = true ∧
    store.hasRevision documentId row.fileId = true

/-- Only tasks and the queue of deferred deletions change, and not the live uploads. -/
structure TasksChanged (store store' : FileStore) : Prop where
  rows : ∃ fileTasks pendingDeleteFiles, store' = { store with fileTasks, pendingDeleteFiles }
  live : ∀ taskId row, row.isLiveUpload now = true →
    (store'.fileTasks.lookup taskId = some row ↔ store.fileTasks.lookup taskId = some row)

inductive Removes (now : Instant) (store : FileStore) : Removal → FileStore → Prop
  | document {documentId : NodeId} {store' : FileStore} :
      store.documentHasActiveRevision documentId = false → ¬ store.HasLiveUpload documentId now →
      Purged store [documentId] store' → Removes now store (.document documentId) store'
  | revision {revision : DocumentRevision} {store' : FileStore} :
      revision ∈ store.revisions → store.isActive revision = false →
      store.documentHasActiveRevision revision.documentId = true ∨
        store.HasLiveUpload revision.documentId now →
      RevisionDeleted (store.withCurrentPassed revision) revision store' →
      Removes now store (.revision revision) store'

/-- A sequence of steps, with the removals among them. -/
inductive Reclaims (now : Instant) : FileStore → List (FileStore × Removal) → FileStore → Prop
  | done (store : FileStore) : Reclaims now store [] store
  | tasks {store store₁ store' : FileStore} {removals : List (FileStore × Removal)} :
      TasksChanged now store store₁ → Reclaims now store₁ removals store' →
      Reclaims now store removals store'
  | removal {store store₁ store' : FileStore} {removal : Removal}
      {removals : List (FileStore × Removal)} :
      Removes now store removal store₁ → Reclaims now store₁ removals store' →
      Reclaims now store ((store, removal) :: removals) store'

/-- The loop over the revisions of a file, which ends with the purge of a document. -/
inductive Loops (now : Instant) :
    List DocumentRevision → FileStore → List (FileStore × Removal) → FileStore → Prop
  | done (store : FileStore) : Loops now [] store [] store
  | purge {revision : DocumentRevision} {rest : List DocumentRevision} {store store' : FileStore} :
      Removes now store (.document revision.documentId) store' →
      Loops now (revision :: rest) store [(store, .document revision.documentId)] store'
  | delete {revision : DocumentRevision} {rest : List DocumentRevision}
      {store store₁ store' : FileStore} {removals : List (FileStore × Removal)} :
      Removes now store (.revision revision) store₁ → Loops now rest store₁ removals store' →
      Loops now (revision :: rest) store ((store, .revision revision) :: removals) store'

def revisionsWith (fileId : String) : List DocumentRevision :=
  store.revisions.filter fun revision => revision.fileId == fileId

/-- The loop over the tasks, by the files whose revisions it goes through. -/
inductive Visits (now : Instant) :
    List String → FileStore → List (FileStore × Removal) → FileStore → Prop
  | done (store : FileStore) : Visits now [] store [] store
  | tasks {files : List String} {store store₁ store' : FileStore}
      {removals : List (FileStore × Removal)} :
      TasksChanged now store store₁ → Visits now files store₁ removals store' →
      Visits now files store removals store'
  | visit {file : String} {files : List String} {store store₁ store' : FileStore}
      {removals removals' : List (FileStore × Removal)} :
      Loops now (store.revisionsWith file) store removals store₁ →
      Visits now files store₁ removals' store' →
      Visits now (file :: files) store (removals ++ removals') store'

theorem Reclaims.append {now : Instant} {store store₁ store' : FileStore}
    {removals removals' : List (FileStore × Removal)} (h : Reclaims now store removals store₁)
    (h' : Reclaims now store₁ removals' store') :
    Reclaims now store (removals ++ removals') store' := by
  induction h with
  | done store => exact h'
  | tasks hstep _ ih => exact .tasks hstep (ih h')
  | removal hstep _ ih => exact .removal hstep (ih h')

theorem Loops.reclaims {now : Instant} {revisions : List DocumentRevision} {store store' : FileStore}
    {removals : List (FileStore × Removal)} (h : Loops now revisions store removals store') :
    Reclaims now store removals store' := by
  induction h with
  | done store => exact .done store
  | purge hstep => exact .removal hstep (.done _)
  | delete hstep _ ih => exact .removal hstep ih

theorem Visits.reclaims {now : Instant} {files : List String} {store store' : FileStore}
    {removals : List (FileStore × Removal)} (h : Visits now files store removals store') :
    Reclaims now store removals store' := by
  induction h with
  | done store => exact .done store
  | tasks hstep _ ih => exact .tasks hstep ih
  | visit hloop _ ih => exact hloop.reclaims.append ih

theorem Visits.append {now : Instant} {files files' : List String} {store store₁ store' : FileStore}
    {removals removals' : List (FileStore × Removal)} (h : Visits now files store removals store₁)
    (h' : Visits now files' store₁ removals' store') :
    Visits now (files ++ files') store (removals ++ removals') store' := by
  induction h with
  | done store => exact h'
  | tasks hstep _ ih => exact .tasks hstep (ih h')
  | visit hloop _ ih =>
    rw [append_assoc]
    exact .visit hloop (ih h')

/-! ### The loops as sequences of steps -/

variable {limits : QueryLimits} {store store' : FileStore} {now : Instant}

variable {taskId : String}

section

variable {documentId : NodeId}

variable (h : Purged store [documentId] store')

include h

theorem Purged.tasks_lookup {taskId : String}
    {row : FileTaskRow} :
    store'.fileTasks.lookup taskId = some row ↔
      store.fileTasks.lookup taskId = some row ∧ store.isSpare [documentId] row.fileId = false := by
  rw [h.fileTasks]
  exact Table.lookup_delete_eq_some

theorem Purged.mem_revisions {revision : DocumentRevision} :
    revision ∈ store'.revisions ↔ revision ∈ store.revisions ∧ revision.documentId ≠ documentId := by
  rw [h.revisions]
  simp

theorem Purged.document?_eq (id : NodeId) :
    store'.document? id = if id = documentId then none
      else (store.document? id).map (clearCurrentWhere fun node =>
        node.currentRevisionId.any (store.purgesRevision [documentId])) := by
  apply Option.ext
  intro node
  rw [document?_eq_some, h.nodes]
  simp only [mem_map, mem_filter]
  split
  · rename_i hid
    subst hid
    constructor
    · rintro ⟨⟨old, ⟨-, hkept⟩, rfl⟩, hid, htype⟩
      rw [clearCurrentWhere_id] at hid
      rw [clearCurrentWhere_type] at htype
      simp [purgesNode, hid, Node.isDocument, htype] at hkept
    · intro hnone
      cases hnone
  · rename_i hid
    rw [Option.map_eq_some_iff]
    constructor
    · rintro ⟨⟨old, ⟨hold, -⟩, rfl⟩, hid', htype⟩
      rw [clearCurrentWhere_id] at hid'
      rw [clearCurrentWhere_type] at htype
      exact ⟨old, document?_eq_some.mpr ⟨hold, hid', htype⟩, rfl⟩
    · rintro ⟨old, hold, rfl⟩
      obtain ⟨hmem, rfl, htype⟩ := document?_eq_some.mp hold
      refine ⟨⟨old, ⟨hmem, ?_⟩, rfl⟩, clearCurrentWhere_id _ _, (clearCurrentWhere_type _ _).trans htype⟩
      simp [purgesNode, hid]

theorem Purged.isActive_eq {other : DocumentRevision}
    (hother : other ∈ store'.revisions) : store'.isActive other = store.isActive other := by
  obtain ⟨hmem, hdoc⟩ := h.mem_revisions.mp hother
  have hkept : store.isSpare [documentId] other.fileId = false := by
    rw [Bool.eq_false_iff, Ne, isSpare_iff]
    rintro ⟨-, hall, -⟩
    exact hdoc (mem_singleton.mp (hall other hmem rfl))
  rw [isActive, h.files, find?_filter]
  congr 2
  funext file
  by_cases hfile : file.id = other.fileId
  · simp [hfile, hkept]
  · simp [hfile]

end

section

variable {revision : DocumentRevision}

theorem RevisionDeleted.tasks_lookup
    (h : RevisionDeleted (store.withCurrentPassed revision) revision store') {taskId : String}
    {row : FileTaskRow} :
    store'.fileTasks.lookup taskId = some row ↔ store.fileTasks.lookup taskId = some row ∧
        (store.isSoleUse revision && row.fileId == revision.fileId) = false := by
  rw [h.fileTasks]
  exact Table.lookup_delete_eq_some

theorem RevisionDeleted.mem_revisions
    (h : RevisionDeleted (store.withCurrentPassed revision) revision store')
    {other : DocumentRevision} :
    other ∈ store'.revisions ↔ other ∈ store.revisions ∧ other.id ≠ revision.id := by
  rw [h.revisions, mem_filter, bne_iff_ne]
  exact Iff.rfl

/-- The row of a document after the deletion. -/
def afterRevision (store : FileStore) (revision : DocumentRevision) (document : Node) : Node :=
  clearCurrentWhere (fun node => node.currentRevisionId == some revision.id)
    (passCurrent (store.parentRevision revision) revision document)

theorem afterRevision_id (doc : Node) : (store.afterRevision revision doc).id = doc.id :=
  (clearCurrentWhere_id _ _).trans (passCurrent_id _ _ _)

theorem afterRevision_type (doc : Node) : (store.afterRevision revision doc).type = doc.type := by
  rw [afterRevision, clearCurrentWhere_type, passCurrent]
  split <;> rfl

theorem RevisionDeleted.document?_eq
    (h : RevisionDeleted (store.withCurrentPassed revision) revision store') (id : NodeId) :
    store'.document? id = (store.document? id).map (store.afterRevision revision) := by
  have hnodes : store'.nodes = store.nodes.map (store.afterRevision revision) := by
    rw [h.nodes]
    show (store.nodes.map _).map _ = _
    rw [map_map]
    rfl
  apply Option.ext
  intro node
  rw [document?_eq_some, hnodes, Option.map_eq_some_iff, mem_map]
  constructor
  · rintro ⟨⟨old, hold, rfl⟩, hid, htype⟩
    rw [afterRevision_id] at hid
    rw [afterRevision_type] at htype
    exact ⟨old, document?_eq_some.mpr ⟨hold, hid, htype⟩, rfl⟩
  · rintro ⟨old, hold, rfl⟩
    obtain ⟨hmem, hid, htype⟩ := document?_eq_some.mp hold
    exact ⟨⟨old, hmem, rfl⟩, (afterRevision_id old).trans hid, (afterRevision_type old).trans htype⟩

end

variable {removal : Removal}

variable (h : Removes now store removal store')

include h

theorem Removes.revisions : ∀ other ∈ store'.revisions,
      other ∈ store.revisions ∧ store'.isActive other = store.isActive other := by
  intro other hother
  cases h with
  | document _ _ hpurged =>
    exact ⟨(hpurged.mem_revisions.mp hother).1, hpurged.isActive_eq hother⟩
  | revision hrev _ _ hdel =>
    exact ⟨(hdel.mem_revisions.mp hother).1, hdel.isActive_eq hrev hother⟩

theorem Removes.tasks
    {row : FileTaskRow} (hrow : store'.fileTasks.lookup taskId = some row) :
    store.fileTasks.lookup taskId = some row := by
  cases h with
  | document _ _ hpurged => exact (hpurged.tasks_lookup.mp hrow).1
  | revision _ _ _ hdel => exact (hdel.tasks_lookup.mp hrow).1

theorem Removes.revisionsHaveDocuments
    (hkeys : store.RevisionsHaveDocuments) : store'.RevisionsHaveDocuments := by
  intro other hother
  have hdoc := hkeys other (h.revisions other hother).1
  cases h with
  | document _ _ hpurged =>
    rw [hpurged.document?_eq, if_neg (hpurged.mem_revisions.mp hother).2, Option.isSome_map]
    exact hdoc
  | revision _ _ _ hdel =>
    rw [hdel.document?_eq, Option.isSome_map]
    exact hdoc

omit h

theorem TasksChanged.revisionsHaveDocuments (h : TasksChanged now store store')
    (hkeys : store.RevisionsHaveDocuments) : store'.RevisionsHaveDocuments := by
  obtain ⟨_, _, rfl⟩ := h.rows
  exact hkeys

/-- A removal leaves a file and its tasks, or takes the file, which then has no revision. -/
theorem Removes.file_cases (h : Removes now store removal store') (id : String) :
    (store'.file? id = store.file? id ∧ ∀ taskId row, store.fileTasks.lookup taskId = some row →
      row.fileId = id → store'.fileTasks.lookup taskId = some row) ∨
    (store'.file? id = none ∧ ∀ revision ∈ store'.revisions, revision.fileId ≠ id) := by
  have hfile : ∀ gone : String → Bool,
      store'.files = (store.files.filter fun file => !gone file.id) →
      store'.file? id = if gone id then none else store.file? id := by
    intro gone hfiles
    rw [file?, hfiles, find?_filter]
    split
    · rename_i hid
      rw [find?_eq_none]
      intro file _ hboth
      simp only [beq_iff_eq, decide_eq_true_eq] at hboth
      rw [hboth.2, hid] at hboth
      exact Bool.false_ne_true hboth.1
    · rename_i hid
      congr 1
      funext file
      by_cases hsame : file.id = id
      · simp [hsame, hid]
      · simp [hsame]
  cases h with
  | @document documentId _ _ _ hpurged =>
    have hid := hfile (store.isSpare [documentId]) hpurged.files
    cases hspare : store.isSpare [documentId] id with
    | false =>
      rw [hspare] at hid
      refine .inl ⟨hid, fun taskId row hrow hsame => hpurged.tasks_lookup.mpr ⟨hrow, ?_⟩⟩
      rw [hsame]
      exact hspare
    | true =>
      rw [hspare] at hid
      refine .inr ⟨hid, fun revision hrev hsame => ?_⟩
      obtain ⟨hmem, hdoc⟩ := hpurged.mem_revisions.mp hrev
      exact hdoc (mem_singleton.mp ((isSpare_iff.mp hspare).2.1 revision hmem hsame))
  | @revision revision _ hrev _ _ hdel =>
    have hid := hfile (fun id => store.isSoleUse revision && id == revision.fileId) hdel.files
    cases hsole : store.isSoleUse revision && id == revision.fileId with
    | false =>
      rw [hsole] at hid
      refine .inl ⟨hid, fun taskId row hrow hsame => hdel.tasks_lookup.mpr ⟨hrow, ?_⟩⟩
      rw [hsame]
      exact hsole
    | true =>
      rw [hsole] at hid
      refine .inr ⟨hid, fun other hother hsame => ?_⟩
      rw [Bool.and_eq_true, beq_iff_eq] at hsole
      have hunus := isUsed_of_isSoleUse hrev hsole.1 store' hdel.revisions
        (by rw [otherUses, hdel.otherTables]; rfl)
      rw [isUsed, Bool.or_eq_false_iff, any_eq_false] at hunus
      exact hunus.1 other hother (by simpa using hsame.trans hsole.2)

/-! ### The calls -/

/-- Where an abandoned task stands before its turn: its file is active or gone, and the call passes
it over; or its row and its inactive file are as they were; or the file has no revision any more. -/
def Awaits (candidate : (_ : String) × FileTaskRow) (visited : Bool) (store : FileStore) : Prop :=
  if visited then
    (∀ revision ∈ store.revisions, revision.fileId ≠ candidate.2.fileId) ∨
      store.fileTasks.lookup candidate.1 = some candidate.2 ∧
        (store.file? candidate.2.fileId).any (fun file => !file.active) = true
  else (store.file? candidate.2.fileId).all File.active = true

theorem Removes.awaits (h : Removes now store removal store')
    {cand : (_ : String) × FileTaskRow} {visited : Bool} (hawaits : Awaits cand visited store) :
    Awaits cand visited store' := by
  rcases h.file_cases cand.2.fileId with ⟨hfile, hrows⟩ | ⟨hfile, hnone⟩
  · cases visited with
    | true =>
      rcases hawaits with hnone | ⟨hrow, hinact⟩
      · exact .inl fun revision hrev => hnone revision (h.revisions revision hrev).1
      · exact .inr ⟨hrows _ _ hrow rfl, hfile ▸ hinact⟩
    | false =>
      show (store'.file? _).all _ = true
      rw [hfile]
      exact hawaits
  · cases visited with
    | true => exact .inl hnone
    | false =>
      show (store'.file? _).all _ = true
      rw [hfile]
      rfl

theorem Loops.awaits {revisions : List DocumentRevision} {removals : List (FileStore × Removal)}
    (h : Loops now revisions store removals store')
    {cand : (_ : String) × FileTaskRow} {visited : Bool} (hawaits : Awaits cand visited store) :
    Awaits cand visited store' := by
  induction h with
  | done store => exact hawaits
  | purge hstep => exact hstep.awaits hawaits
  | delete hstep _ ih => exact ih (hstep.awaits hawaits)

/-- Other rows of tasks change. -/
theorem awaits_of_lookup {cand : (_ : String) × FileTaskRow} {visited : Bool}
    (hrows : ∃ fileTasks pendingDeleteFiles, store' = { store with fileTasks, pendingDeleteFiles })
    (hrow : store'.fileTasks.lookup cand.1 = store.fileTasks.lookup cand.1)
    (hawaits : Awaits cand visited store) : Awaits cand visited store' := by
  obtain ⟨fileTasks, pending, rfl⟩ := hrows
  cases visited with
  | true =>
    rcases hawaits with hnone | ⟨hold, hinact⟩
    · exact .inl hnone
    · exact .inr ⟨hrow.trans hold, hinact⟩
  | false => exact hawaits

/-- A part of the call succeeds, visits these files and logs the removals; the tasks with other
identifiers still await their turn. -/
def Continues (now : Instant) (taskId : String) (files : List String) (cleanup : UploadCleanup)
    (result : Except StoreError UploadCleanup) : Prop :=
  ∃ cleanup' removals, result = .ok cleanup' ∧ cleanup'.removals = cleanup.removals ++ removals ∧
    Visits now files cleanup.store removals cleanup'.store ∧
    cleanup'.store.RevisionsHaveDocuments ∧
    ∀ candidate visited, candidate.1 ≠ taskId → Awaits candidate visited cleanup.store →
      Awaits candidate visited cleanup'.store

variable {cleanup : UploadCleanup} {files : List String}

theorem Continues.tasks {changed : UploadCleanup} {result : Except StoreError UploadCleanup}
    (h : Continues now taskId files changed result) (hsame : changed.removals = cleanup.removals)
    (htasks : TasksChanged now cleanup.store changed.store)
    (hrow : ∀ id, id ≠ taskId →
      changed.store.fileTasks.lookup id = cleanup.store.fileTasks.lookup id) :
    Continues now taskId files cleanup result := by
  obtain ⟨cleanup', removals, hres, hlog, hvisits, hkeys, hothers⟩ := h
  refine ⟨cleanup', removals, hres, hsame ▸ hlog, .tasks htasks hvisits, hkeys, ?_⟩
  intro cand visited hne hawaits
  exact hothers cand visited hne (awaits_of_lookup htasks.rows (hrow _ hne) hawaits)

theorem Continues.refl (hkeys : cleanup.store.RevisionsHaveDocuments) :
    Continues now taskId [] cleanup (.ok cleanup) :=
  ⟨cleanup, [], rfl, (append_nil _).symm, .done _, hkeys, fun _ _ _ hawaits => hawaits⟩

/-- Nothing is left to do for a file without revisions. -/
theorem Continues.skip {file : String} (hkeys : cleanup.store.RevisionsHaveDocuments)
    (hnone : ∀ revision ∈ cleanup.store.revisions, revision.fileId ≠ file) :
    Continues now taskId [file] cleanup (.ok cleanup) := by
  have hempty : cleanup.store.revisionsWith file = [] :=
    filter_eq_nil_iff.mpr fun revision hrev hsame =>
      hnone revision hrev (by simpa using hsame)
  have hloop : Loops now (cleanup.store.revisionsWith file) cleanup.store [] cleanup.store := by
    rw [hempty]
    exact .done _
  exact ⟨cleanup, [], rfl, (append_nil _).symm, .visit hloop (.done _), hkeys,
    fun _ _ _ hawaits => hawaits⟩

end FileStore

end Cfms.Documents
