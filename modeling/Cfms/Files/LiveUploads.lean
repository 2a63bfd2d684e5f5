import Cfms.Files.Tasks
import Cfms.Lib.Largest
import Cfms.Lib.Run
import Cfms.Lib.Table
import Mathlib.Data.List.Sort

/-!
# Live uploads of a document

`core.document.upload` issues an upload task unless the document already has one that is pending or
in progress.  A request is three transactions: the cleanup of abandoned uploads, the query for an
existing task, and the insert of a file, a revision and a task.  Requests run interleaved with each
other, with the creation of documents, with cleanups and with everything that happens to the tasks.

Nothing ties the insert to the query.  What every statement other than an insert does to the rows
is one relation, `Shrinks`: a task that is live afterwards was live before, and no document gains a
revision.  So a second live upload can only come from an insert whose query is out of date.
-/

namespace Cfms.Files.LiveUploads

open List

open Access (Instant)
open Lib Lib.Run

/-! ### Rows -/

/-- A row of `file_tasks` with its file. -/
structure FileTaskRow where
  fileId : String
  task : FileTask
  deriving DecidableEq

/-- A row of `document_revisions`. -/
structure RevisionRow where
  documentId : String
  fileId : String
  deriving DecidableEq

/-- The rows that upload requests read and write; `documents` has those that are not deleted. -/
structure UploadDatabase where
  documents : List String := []
  revisions : Table String RevisionRow := ∅
  files : Table String StoredFile := ∅
  tasks : Table String FileTaskRow := ∅

variable (db : UploadDatabase)

namespace UploadDatabase

def hasRevision (documentId fileId : String) : Bool :=
  db.revisions.any fun _ revision => revision.documentId == documentId && revision.fileId == fileId

def liveUploadRows (documentId : String) : List ((_ : String) × FileTaskRow) :=
  db.tasks.entries.filter fun row =>
    row.2.task.mode == .upload && row.2.task.status.isActive && db.hasRevision documentId row.2.fileId

/-- The ids of these tasks. -/
def liveUploads (documentId : String) : List String :=
  (db.liveUploadRows documentId).map Sigma.fst

def updateTask (taskId : String) (f : FileTask → FileTask) : UploadDatabase :=
  { db with
    tasks := db.tasks.update fun id row =>
      if id = taskId then { row with task := f row.task } else row }

/-- Rows of `files` are deleted; the foreign key takes their tasks along. -/
def deleteFiles (gone : String → Bool) : UploadDatabase :=
  { db with
    files := db.files.delete fun id _ => gone id
    tasks := db.tasks.delete fun _ row => gone row.fileId }

def deleteRevisions (gone : String → RevisionRow → Bool) : UploadDatabase :=
  { db with revisions := db.revisions.delete gone }

end UploadDatabase

/-! ### Cleanup of abandoned uploads -/

def hasLiveUploadForDocument (documentId excludedTaskId : String) (now : Instant) : Bool :=
  (db.liveUploadRows documentId).any fun row => row.1 != excludedTaskId && !row.2.task.isDue now

def documentHasActiveRevision (documentId : String) : Bool :=
  db.revisions.any fun _ revision =>
    revision.documentId == documentId && (db.files.lookup revision.fileId).any StoredFile.active

/-- The condition on a task in `_find_cleanup_candidates`. -/
def isAbandoned (row : FileTaskRow) (now : Instant) : Bool :=
  (row.task.status.isActive && row.task.isDue now) ||
    (row.task.status == .expired && (db.files.lookup row.fileId).any fun file => !file.active)

/-- `ORDER BY end_time, id`; a null comes first. -/
def candidateLe (a b : (_ : String) × FileTaskRow) : Bool :=
  match a.2.task.endTime, b.2.task.endTime with
  | none, none => decide (a.1 ≤ b.1)
  | none, some _ => true
  | some _, none => false
  | some s, some t => decide (s < t) || (decide (s = t) && decide (a.1 ≤ b.1))

variable (now : Instant)

/-- `_find_cleanup_candidates`; the scope is the documents that the arguments select, if they
select any. -/
def findCleanupCandidates (scope : Option (List String)) (limit : Option ℕ) :
    List ((_ : String) × FileTaskRow) :=
  let rows := db.tasks.entries.filter fun row =>
    row.2.task.mode == .upload && isAbandoned db row.2 now &&
      db.documents.any fun documentId =>
        scope.all (·.contains documentId) && db.hasRevision documentId row.2.fileId
  let sorted := rows.insertionSort fun a b => candidateLe a b = true
  match limit with
  | none => sorted
  | some limit => sorted.take limit

/-- `delete_revision_and_unreferenced_file`; avatars never refer to the file of an upload that has
not completed. -/
def deleteRevisionAndUnreferencedFile (revisionId : String) (revision : RevisionRow) :
    UploadDatabase :=
  let total := (db.revisions.entries.filter fun row => row.2.fileId == revision.fileId).length
  let db := if total - 1 = 0 then db.deleteFiles (· == revision.fileId) else db
  db.deleteRevisions fun id _ => id == revisionId

/-- `purge_documents_bulk`, for one document. -/
def purgeDocument (documentId : String) : UploadDatabase :=
  let deletable := fun fileId => db.hasRevision documentId fileId &&
    !db.revisions.any fun _ revision =>
      revision.documentId != documentId && revision.fileId == fileId
  let db := db.deleteFiles deletable
  let db := db.deleteRevisions fun _ revision => revision.documentId == documentId
  { db with documents := db.documents.filter (· != documentId) }

/-- The loop over the revisions of a reclaimed file. -/
def reclaimRevisions (taskId : String) (now : Instant) :
    UploadDatabase → List ((_ : String) × RevisionRow) → UploadDatabase
  | db, [] => db
  | db, ⟨revisionId, revision⟩ :: rest =>
    if !documentHasActiveRevision db revision.documentId &&
        !hasLiveUploadForDocument db revision.documentId taskId now then
      purgeDocument db revision.documentId
    else
      reclaimRevisions taskId now (deleteRevisionAndUnreferencedFile db revisionId revision) rest

/-- The body of the loop in `reclaim_abandoned_uploads`. -/
def reclaimUpload (db : UploadDatabase) (candidate : (_ : String) × FileTaskRow) : UploadDatabase :=
  match db.tasks.lookup candidate.1 with
  | none => db
  | some row =>
    let status := (expireFileTaskIfDue row.task now).status
    let db := db.updateTask candidate.1 fun task => expireFileTaskIfDue task now
    if status != .expired then db
    else if (db.files.lookup row.fileId).all StoredFile.active then db
    else
      let db := { db with tasks := db.tasks.erase candidate.1 }
      reclaimRevisions candidate.1 now db
        (db.revisions.entries.filter fun revision => revision.2.fileId == row.fileId)

def reclaimAbandonedUploads (scope : Option (List String)) (limit : Option ℕ) : UploadDatabase :=
  (findCleanupCandidates db now scope limit).foldl (reclaimUpload now) db

/-! ### Requests -/

inductive UploadResponse
  | notFound
  | accessDenied
  | expired
  | inProgress
  | existing (taskId : String)
  | badParent
  | created (taskId : String)
  /-- An exception leaves the handler. -/
  | failed
  deriving DecidableEq

/-- The code and the message of `conclude_request`. -/
def UploadResponse.conclusion : UploadResponse → Option (ℕ × String)
  | .notFound => some (404, "Document not found")
  | .accessDenied => some (403, "Access denied")
  | .expired => some (410, "Existing upload task has expired")
  | .inProgress => some (409, "Upload is already in progress")
  | .existing _ => some (200, "Existing upload task returned")
  | .badParent => some (400, "Parent revision does not exist or does not belong to this document")
  | .created _ => some (200, "Task successfully created")
  | .failed => none

/-- How far a request is.  A request that has found no live upload remembers the tasks that were
there, which only the statements below look at. -/
inductive RequestPhase
  | received
  | cleaned
  | checked (known : List String)
  | answered (response : UploadResponse)
  deriving DecidableEq

/-- `_UploadDocumentRequest`; the parent revision may be left out or null. -/
structure UploadRequest where
  documentId : String
  parentRevisionId : Option (Option String)
  phase : RequestPhase := .received
  deriving DecidableEq

/-- The first transaction of `RequestUploadDocumentHandler.handle` up to the insert. -/
def queryUpload (documentId : String) (mayWrite : Bool) (now : Instant) :
    RequestPhase × UploadDatabase :=
  if !db.documents.contains documentId then (.answered .notFound, db)
  else if !mayWrite then (.answered .accessDenied, db)
  else
    match largest (fun row => row.2.task.startTime) (db.liveUploadRows documentId) with
    | none => (.checked db.tasks.keys, db)
    | some ⟨taskId, row⟩ =>
      match (expireFileTaskIfDue row.task now).status with
      | .expired =>
        (.answered .expired, db.updateTask taskId fun task => expireFileTaskIfDue task now)
      | .inProgress => (.answered .inProgress, db)
      | _ => (.answered (.existing taskId), db)

/-- The ids that `secrets.token_hex` draws for an upload. -/
structure DrawnIds where
  fileId : String
  revisionId : String
  taskId : String
  deriving DecidableEq

variable (policy : UploadPolicy)

/-- `create_file_task`, for an upload. -/
def createUploadTask (now : Instant) : FileTask :=
  { mode := .upload, startTime := now, endTime := some (now + policy.startTimeoutSeconds) }

def UploadDatabase.addUpload (documentId : String) (ids : DrawnIds) (task : FileTask) :
    UploadDatabase :=
  { db with
    revisions := db.revisions.insert ids.revisionId ⟨documentId, ids.fileId⟩
    files := db.files.insert ids.fileId {}
    tasks := db.tasks.insert ids.taskId ⟨ids.fileId, task⟩ }

/-- What the handler makes of the parent revision before it inserts. -/
def parentFailure (documentId : String) :
    Option (Option String) → Option UploadResponse
  | some (some parentRevisionId) =>
    if (db.revisions.lookup parentRevisionId).any (·.documentId == documentId) then none
    else some .badParent
  | some none => none
  | none =>
    -- `get_latest_revision` raises an error that is not handled when there are no revisions
    if db.revisions.any fun _ revision => revision.documentId == documentId then none
    else some .failed

/-- The insert and the commit. -/
def insertUpload (request : UploadRequest) (policy : UploadPolicy) (ids : DrawnIds) (now : Instant) :
    RequestPhase × UploadDatabase :=
  match parentFailure db request.documentId request.parentRevisionId with
  | some response => (.answered response, db)
  | none =>
    -- the document may have been purged, which the foreign key of the revision notices
    if !db.documents.contains request.documentId then (.answered .failed, db)
    else
      (.answered (.created ids.taskId),
        db.addUpload request.documentId ids (createUploadTask policy now))

/-! ### Runs -/

structure UploadState where
  db : UploadDatabase := {}
  requests : Table ℕ UploadRequest := ∅
  /-- All ids that have been drawn. -/
  drawn : List String := []

inductive UploadAction
  | createDocument (documentId : String) (policy : UploadPolicy) (ids : DrawnIds) (now : Instant)
  | receive (request : ℕ) (documentId : String) (parentRevisionId : Option (Option String))
  | cleanup (request : ℕ) (succeeds : Bool) (now : Instant)
  | query (request : ℕ) (mayWrite : Bool) (now : Instant)
  | insert (request : ℕ) (policy : UploadPolicy) (ids : DrawnIds) (now : Instant)
  | reclaim (scope : Option (List String)) (limit : Option ℕ) (now : Instant)
  | claim (taskId : String) (mode : TransferMode) (policy : UploadPolicy) (now : Instant)
  | release (taskId : String) (now : Instant)
  | finalize (taskId : String) (sha256 : Option String) (size : ℕ)
  | expire (taskId : String) (now : Instant)
  | cancel (taskId : String)
  deriving DecidableEq

/-- `secrets.token_hex` never draws an id again. -/
def DrawnIds.areFresh (ids : DrawnIds) (drawn : List String) : Bool :=
  !drawn.contains ids.fileId && !drawn.contains ids.revisionId && !drawn.contains ids.taskId

def DrawnIds.record (ids : DrawnIds) (drawn : List String) : List String :=
  ids.fileId :: ids.revisionId :: ids.taskId :: drawn

variable (s : UploadState)

def UploadState.setPhase (key : ℕ) (phase : RequestPhase) : UploadState :=
  { s with
    requests := s.requests.update fun k request =>
      if k = key then { request with phase := phase } else request }

/-- `finalize_upload_task` on the rows. -/
def finalizeUpload (taskId : String) (sha256 : Option String) (size : ℕ) :
    Option UploadDatabase := do
  let row ← db.tasks.lookup taskId
  let file ← db.files.lookup row.fileId
  let result := finalizeUploadTask row.task file sha256 size
  return { db.updateTask taskId fun _ => result.1 with files := db.files.insert row.fileId result.2 }

def uploadStep : UploadAction → Option UploadState
  | .createDocument documentId policy ids now =>
    let drawn := documentId :: s.drawn
    if s.drawn.contains documentId || !ids.areFresh drawn then none
    else
      some
        { s with
          db := { s.db.addUpload documentId ids (createUploadTask policy now) with
            documents := documentId :: s.db.documents }
          drawn := ids.record drawn }
  | .receive key documentId parentRevisionId => do
    let requests ← s.requests.insertNew key { documentId, parentRevisionId }
    return { s with requests }
  | .cleanup key succeeds now => do
    let request ← s.requests.lookup key
    guard (request.phase = .received)
    -- a cleanup that raises is rolled back and logged
    let db := if succeeds then reclaimAbandonedUploads s.db now (some [request.documentId]) none else s.db
    return { s.setPhase key .cleaned with db }
  | .query key mayWrite now => do
    let request ← s.requests.lookup key
    guard (request.phase = .cleaned)
    let result := queryUpload s.db request.documentId mayWrite now
    return { s.setPhase key result.1 with db := result.2 }
  | .insert key policy ids now => do
    let request ← s.requests.lookup key
    match request.phase with
    | .checked _ =>
      guard (ids.areFresh s.drawn)
      let result := insertUpload s.db request policy ids now
      return { s.setPhase key result.1 with db := result.2, drawn := ids.record s.drawn }
    | _ => none
  | .reclaim scope limit now =>
    some { s with db := reclaimAbandonedUploads s.db now scope limit }
  | .claim taskId mode policy now =>
    some
      { s with
        db := s.db.updateTask taskId fun task => (claimFileTask policy task {} mode now).2 }
  | .release taskId now => some { s with db := s.db.updateTask taskId (releaseFileTask · now) }
  | .finalize taskId sha256 size => do
    let db ← finalizeUpload s.db taskId sha256 size
    return { s with db }
  | .expire taskId now => some { s with db := s.db.updateTask taskId (expireFileTaskIfDue · now) }
  | .cancel taskId => some { s with db := s.db.updateTask taskId cancelFileTask }

/-- The condition on a step: when a request inserts its upload, no task that has come since its
query is still live. -/
def queryIsCurrent : UploadAction → Bool
  | .insert key _ _ _ =>
    match s.requests.lookup key with
    | some ⟨documentId, _, .checked known⟩ =>
      (s.db.liveUploads documentId).all fun taskId => known.contains taskId
    | _ => true
  | _ => true

/-! ### What is live -/

structure IsLive (documentId taskId : String) : Prop where
  live : ∃ row, db.tasks.lookup taskId = some row ∧ row.task.mode = .upload ∧
    row.task.status.isActive = true ∧ db.hasRevision documentId row.fileId = true

variable {db : UploadDatabase} {docId : String}

theorem mem_liveUploads {taskId : String} :
    taskId ∈ db.liveUploads docId ↔ IsLive db docId taskId := by
  simp only [UploadDatabase.liveUploads, UploadDatabase.liveUploadRows, mem_map,
    mem_filter, Bool.and_eq_true, beq_iff_eq]
  constructor
  · intro ⟨⟨id, row⟩, ⟨hmem, ⟨hmode, hact⟩, hrev⟩, hid⟩
    subst hid
    exact ⟨row, AList.mem_lookup_iff.mpr hmem, hmode, hact, hrev⟩
  · intro ⟨row, hrow, hmode, hact, hrev⟩
    exact ⟨⟨taskId, row⟩, ⟨AList.mem_lookup_iff.mp hrow, ⟨hmode, hact⟩, hrev⟩, rfl⟩

theorem liveUploads_nodup (db : UploadDatabase) (docId : String) :
    (db.liveUploads docId).Nodup := by
  have hkeys : (db.tasks.entries.map Sigma.fst).Nodup := db.tasks.nodupKeys
  exact hkeys.sublist (filter_sublist.map Sigma.fst)

theorem hasRevision_iff {fileId : String} : db.hasRevision docId fileId = true ↔
      ∃ id, db.revisions.lookup id = some ⟨docId, fileId⟩ := by
  rw [UploadDatabase.hasRevision, Table.any_iff]
  constructor
  · intro ⟨id, ⟨doc, file⟩, hrow, hp⟩
    simp only [Bool.and_eq_true, beq_iff_eq] at hp
    obtain ⟨rfl, rfl⟩ := hp
    exact ⟨id, hrow⟩
  · intro ⟨id, hrow⟩
    exact ⟨id, _, hrow, by simp⟩

/-! ### What a statement does to the rows -/

/-- A task keeps its mode and does not come back to life. -/
structure Fades (task task' : FileTask) : Prop where
  mode : task'.mode = task.mode
  active : task'.status.isActive = true → task.status.isActive = true

theorem Fades.refl (task : FileTask) : Fades task task := ⟨rfl, id⟩

theorem fades_expire (task : FileTask) (now : Instant) : Fades task (expireFileTaskIfDue task now) := by
  unfold expireFileTaskIfDue
  split
  · exact ⟨rfl, nofun⟩
  · exact .refl task

theorem fades_claim (task : FileTask) (file : StoredFile) (mode : TransferMode) (now : Instant) :
    Fades task (claimFileTask policy task file mode now).2 := by
  have hexp := fades_expire task now
  unfold claimFileTask
  split
  · exact .refl task
  simp only
  split
  · exact hexp
  rename_i hpend
  have hst : (expireFileTaskIfDue task now).status = .pending := by
    simpa only [bne_iff_ne, not_not] using hpend
  split
  · exact hexp
  have hact : task.status.isActive = true := hexp.active (by rw [hst]; rfl)
  refine ⟨?_, fun _ => hact⟩
  show (claimValues policy mode now (expireFileTaskIfDue task now)).mode = task.mode
  rw [← hexp.mode, claimValues]
  split <;> rfl

theorem fades_release (task : FileTask) (now : Instant) : Fades task (releaseFileTask task now) := by
  unfold releaseFileTask
  split
  · rename_i hst
    refine ⟨rfl, fun _ => ?_⟩
    rw [eq_of_beq hst]
    rfl
  · exact .refl task

theorem fades_cancel (task : FileTask) : Fades task (cancelFileTask task) := by
  unfold cancelFileTask
  split
  · exact ⟨rfl, nofun⟩
  · exact .refl task

theorem fades_finalize (task : FileTask) (file : StoredFile) (sha256 : Option String) (size : ℕ) :
    Fades task (finalizeUploadTask task file sha256 size).1 := by
  have hcompl : Fades task (completeFileTask task) := by
    unfold completeFileTask
    split
    · exact ⟨rfl, nofun⟩
    · exact .refl task
  unfold finalizeUploadTask
  simp only
  split
  · exact hcompl
  · exact ⟨hcompl.mode, hcompl.active⟩

/-- No task appears or comes back to life, and no document appears or gains a revision. -/
structure Shrinks (db db' : UploadDatabase) : Prop where
  documents : ∀ documentId ∈ db'.documents, documentId ∈ db.documents
  tasks : ∀ id row', db'.tasks.lookup id = some row' →
    ∃ row, db.tasks.lookup id = some row ∧ row'.fileId = row.fileId ∧ Fades row.task row'.task
  revisions : ∀ id row, db'.revisions.lookup id = some row → db.revisions.lookup id = some row

namespace Shrinks

variable {db db' db'' : UploadDatabase}

theorem refl (db : UploadDatabase) : Shrinks db db where
  documents _ h := h
  tasks _ row h := ⟨row, h, rfl, .refl _⟩
  revisions _ _ h := h

theorem trans (h : Shrinks db db') (h' : Shrinks db' db'') : Shrinks db db'' where
  documents docId hmem := h.documents docId (h'.documents docId hmem)
  tasks id row'' hrow'' := by
    obtain ⟨row', hrow', hfile', hfades'⟩ := h'.tasks id row'' hrow''
    obtain ⟨row, hrow, hfile, hfades⟩ := h.tasks id row' hrow'
    exact ⟨row, hrow, hfile'.trans hfile, hfades'.mode.trans hfades.mode,
      fun hact => hfades.active (hfades'.active hact)⟩
  revisions id row hrow := h.revisions id row (h'.revisions id row hrow)

/-- **What is live afterwards was live before.** -/
theorem isLive (h : Shrinks db db') {docId taskId : String}
    (hlive : IsLive db' docId taskId) : IsLive db docId taskId := by
  obtain ⟨row', hrow', hmode, hact, hrev⟩ := hlive.live
  obtain ⟨row, hrow, hfile, hfades⟩ := h.tasks taskId row' hrow'
  refine ⟨row, hrow, hfades.mode ▸ hmode, hfades.active hact, ?_⟩
  obtain ⟨id, hid⟩ := hasRevision_iff.mp hrev
  exact hasRevision_iff.mpr ⟨id, hfile ▸ h.revisions id _ hid⟩

theorem updateTask {taskId : String} {f : FileTask → FileTask}
    (hf : ∀ row, db.tasks.lookup taskId = some row → Fades row.task (f row.task)) :
    Shrinks db (db.updateTask taskId f) where
  documents _ h := h
  tasks id row' hrow' := by
    obtain ⟨row, hrow, hupdate⟩ := Table.lookup_update_eq_some hrow'
    refine ⟨row, hrow, ?_⟩
    split at hupdate
    · rename_i hid
      subst hid
      rw [hupdate]
      exact ⟨rfl, hf row hrow⟩
    · rw [hupdate]
      exact ⟨rfl, .refl _⟩
  revisions _ _ h := h

theorem deleteFiles (gone : String → Bool) : Shrinks db (db.deleteFiles gone) where
  documents _ h := h
  tasks _ row hrow := ⟨row, (Table.lookup_delete_eq_some.mp hrow).1, rfl, .refl _⟩
  revisions _ _ h := h

theorem deleteRevisions (gone : String → RevisionRow → Bool) :
    Shrinks db (db.deleteRevisions gone) where
  documents _ h := h
  tasks _ row hrow := ⟨row, hrow, rfl, .refl _⟩
  revisions _ _ h := (Table.lookup_delete_eq_some.mp h).1

theorem eraseTask (taskId : String) : Shrinks db { db with tasks := db.tasks.erase taskId } where
  documents _ h := h
  tasks id row hrow := by
    have hne : id ≠ taskId := by
      intro hid
      subst hid
      rw [AList.lookup_erase] at hrow
      cases hrow
    rw [AList.lookup_erase_ne hne] at hrow
    exact ⟨row, hrow, rfl, .refl _⟩
  revisions _ _ h := h

end Shrinks

theorem shrinks_expire (db : UploadDatabase) (taskId : String) (now : Instant) :
    Shrinks db (db.updateTask taskId fun task => expireFileTaskIfDue task now) :=
  .updateTask fun row _ => fades_expire row.task now

/-! ### The cleanup -/

theorem shrinks_deleteRevisionAndUnreferencedFile (db : UploadDatabase) (revId : String)
    (rev : RevisionRow) :
    Shrinks db (deleteRevisionAndUnreferencedFile db revId rev) := by
  unfold deleteRevisionAndUnreferencedFile
  simp only
  split
  · exact (Shrinks.deleteFiles _).trans (.deleteRevisions _)
  · exact .deleteRevisions _

theorem shrinks_purgeDocument (db : UploadDatabase) (docId : String) :
    Shrinks db (purgeDocument db docId) where
  documents _ h := mem_of_mem_filter h
  tasks _ row hrow := ⟨row, (Table.lookup_delete_eq_some.mp hrow).1, rfl, .refl _⟩
  revisions _ _ h := (Table.lookup_delete_eq_some.mp h).1

theorem shrinks_reclaimRevisions (taskId : String) (now : Instant) (db : UploadDatabase)
    (revisions : List ((_ : String) × RevisionRow)) :
    Shrinks db (reclaimRevisions taskId now db revisions) := by
  induction revisions generalizing db with
  | nil => exact .refl db
  | cons rev rest ih =>
    rw [reclaimRevisions]
    split
    · exact shrinks_purgeDocument db rev.2.documentId
    · exact (shrinks_deleteRevisionAndUnreferencedFile db _ _).trans (ih _)

theorem shrinks_reclaimUpload (db : UploadDatabase) (cand : (_ : String) × FileTaskRow) :
    Shrinks db (reclaimUpload now db cand) := by
  unfold reclaimUpload
  split
  · exact .refl db
  have hexp := shrinks_expire db cand.1 now
  simp only
  split
  · exact hexp
  split
  · exact hexp
  · exact (hexp.trans (.eraseTask cand.1)).trans (shrinks_reclaimRevisions _ _ _ _)

theorem shrinks_reclaimAbandonedUploads (db : UploadDatabase) (now : Instant)
    (scope : Option (List String)) (limit : Option ℕ) :
    Shrinks db (reclaimAbandonedUploads db now scope limit) := by
  have hloop : ∀ (candidates : List ((_ : String) × FileTaskRow)) (db : UploadDatabase),
      Shrinks db (candidates.foldl (reclaimUpload now) db) := by
    intro candidates
    induction candidates with
    | nil => exact fun db => .refl db
    | cons cand rest ih =>
      exact fun db => (shrinks_reclaimUpload now db cand).trans (ih _)
  exact hloop _ db

/-! ### Query and insert -/

section

variable {db : UploadDatabase} {docId : String} {mayWrite : Bool} {now : Instant}

theorem shrinks_queryUpload : Shrinks db (queryUpload db docId mayWrite now).2 := by
  unfold queryUpload
  split
  · exact .refl db
  split
  · exact .refl db
  split
  · exact .refl db
  split
  · exact shrinks_expire db _ now
  · exact .refl db
  · exact .refl db

theorem queryUpload_checked {known : List String}
    (h : (queryUpload db docId mayWrite now).1 = .checked known) :
    known = db.tasks.keys ∧ ∀ taskId, ¬ IsLive db docId taskId := by
  unfold queryUpload at h
  split at h
  · cases h
  split at h
  · cases h
  split at h
  · rename_i hnone
    refine ⟨(RequestPhase.checked.inj h).symm, ?_⟩
    intro taskId hlive
    have hnil : db.liveUploadRows docId = [] := largest_eq_none.mp hnone
    have hmem := mem_liveUploads.mpr hlive
    rw [UploadDatabase.liveUploads, hnil] at hmem
    cases hmem
  · split at h <;> cases h

end

theorem isLive_addUpload {doc taskId : String} {ids : DrawnIds}
    {task : FileTask} {drawn : List String} (hfresh : ids.areFresh drawn = true)
    (htasks : ∀ id row, db.tasks.lookup id = some row → row.fileId ∈ drawn)
    (hrevs : ∀ id row, db.revisions.lookup id = some row → row.fileId ∈ drawn)
    (hlive : IsLive (db.addUpload docId ids task) doc taskId) :
    IsLive db doc taskId ∨ (doc = docId ∧ taskId = ids.taskId) := by
  have hfile : ids.fileId ∉ drawn := by
    simp only [DrawnIds.areFresh, Bool.and_eq_true, Bool.not_eq_true', contains_eq_mem,
      decide_eq_false_iff_not] at hfresh
    exact hfresh.1.1
  obtain ⟨row, hrow, hmode, hact, hrev⟩ := hlive.live
  obtain ⟨id, hid⟩ := hasRevision_iff.mp hrev
  cases Table.lookup_insert_eq_some hrow with
  | inl hnew =>
    obtain ⟨rfl, rfl⟩ := hnew
    refine .inr ⟨?_, rfl⟩
    cases Table.lookup_insert_eq_some hid with
    | inl hsame => exact (RevisionRow.mk.inj hsame.2).1
    | inr hold => exact absurd (hrevs id _ hold.2) hfile
  | inr hold =>
    cases Table.lookup_insert_eq_some hid with
    | inl hsame =>
      have heq : row.fileId = ids.fileId := (RevisionRow.mk.inj hsame.2).2
      exact absurd (heq ▸ htasks taskId row hold.2) hfile
    | inr hkeep =>
      exact .inl ⟨row, hold.2, hmode, hact, hasRevision_iff.mpr ⟨id, hkeep.2⟩⟩

/-! ### The invariant -/

/-- Every document has one live upload at most, and what a request has seen before its insert is
not live. -/
structure Inv : Prop where
  single : ∀ documentId taskId taskId', IsLive s.db documentId taskId →
    IsLive s.db documentId taskId' → taskId = taskId'
  known : ∀ key request known, s.requests.lookup key = some request →
    request.phase = .checked known →
      ∀ taskId ∈ known, taskId ∈ s.drawn ∧ ¬ IsLive s.db request.documentId taskId
  documents : ∀ documentId ∈ s.db.documents, documentId ∈ s.drawn
  tasks : ∀ id row, s.db.tasks.lookup id = some row → id ∈ s.drawn ∧ row.fileId ∈ s.drawn
  revisions : ∀ id row, s.db.revisions.lookup id = some row →
    row.documentId ∈ s.drawn ∧ row.fileId ∈ s.drawn

section

variable {s s' : UploadState}

/-- Statements that shrink the rows keep the invariant; a request that is about to insert stood
there before or has just found nothing live. -/
theorem Inv.shrink (h : Inv s) (hdb : Shrinks s.db s'.db) (hdrawn : s'.drawn = s.drawn)
    (hreqs : ∀ key request known, s'.requests.lookup key = some request →
      request.phase = .checked known → s.requests.lookup key = some request ∨
        (∀ taskId ∈ known, taskId ∈ s.drawn) ∧ ∀ taskId, ¬ IsLive s.db request.documentId taskId) :
    Inv s' where
  single docId taskId taskId' hlive hlive' :=
    h.single docId taskId taskId' (hdb.isLive hlive) (hdb.isLive hlive')
  known key request known hreq hphase taskId hmem := by
    rw [hdrawn]
    cases hreqs key request known hreq hphase with
    | inl hold =>
      obtain ⟨hin, hdead⟩ := h.known key request known hold hphase taskId hmem
      exact ⟨hin, fun hlive => hdead (hdb.isLive hlive)⟩
    | inr hnew => exact ⟨hnew.1 taskId hmem, fun hlive => hnew.2 taskId (hdb.isLive hlive)⟩
  documents docId hmem := by
    rw [hdrawn]
    exact h.documents docId (hdb.documents docId hmem)
  tasks id row hrow := by
    obtain ⟨old, hold, hfile, -⟩ := hdb.tasks id row hrow
    rw [hdrawn, hfile]
    exact h.tasks id old hold
  revisions id row hrow := by
    rw [hdrawn]
    exact h.revisions id row (hdb.revisions id row hrow)

theorem Inv.shrink_db (h : Inv s) {db : UploadDatabase} (hdb : Shrinks s.db db) :
    Inv { s with db := db } :=
  h.shrink hdb rfl fun _ _ _ hreq _ => .inl hreq

variable {key : ℕ} {phase : RequestPhase} {request : UploadRequest}

theorem lookup_setPhase {key' : ℕ}
    (h : (s.setPhase key phase).requests.lookup key' = some request) :
    (key' ≠ key ∧ s.requests.lookup key' = some request) ∨
      (key' = key ∧ ∃ old, s.requests.lookup key = some old ∧
        request = { old with phase := phase }) := by
  obtain ⟨old, hold, hreq⟩ := Table.lookup_update_eq_some h
  split at hreq
  · rename_i hkey
    subst hkey
    exact .inr ⟨rfl, old, hold, hreq⟩
  · rename_i hkey
    subst hreq
    exact .inl ⟨hkey, hold⟩

theorem checked_setPhase (hphase : ∀ known, phase ≠ .checked known) {key' : ℕ} {known : List String}
    (h : (s.setPhase key phase).requests.lookup key' = some request)
    (hcheck : request.phase = .checked known) : s.requests.lookup key' = some request := by
  cases lookup_setPhase h with
  | inl hother => exact hother.2
  | inr hsame =>
    obtain ⟨-, old, -, rfl⟩ := hsame
    exact absurd hcheck (hphase known)

variable {docId : String} {ids : DrawnIds}

variable (h : Inv s)

include h

theorem Inv.addUpload (task : FileTask)
    (hfresh : ids.areFresh s.drawn = true) (hdoc : docId ∈ s.drawn)
    (hnone : ∀ taskId, ¬ IsLive s.db docId taskId) :
    Inv { s with db := s.db.addUpload docId ids task, drawn := ids.record s.drawn } := by
  have hadd : ∀ {doc taskId}, IsLive (s.db.addUpload docId ids task) doc taskId →
      IsLive s.db doc taskId ∨ (doc = docId ∧ taskId = ids.taskId) :=
    isLive_addUpload hfresh (fun id row hrow => (h.tasks id row hrow).2)
      fun id row hrow => (h.revisions id row hrow).2
  have hdrawn : ∀ {id}, id ∈ s.drawn → id ∈ ids.record s.drawn := by
    intro id hid
    simp [DrawnIds.record, hid]
  refine ⟨?_, ?_, ?_, ?_, ?_⟩
  · intro doc taskId taskId' hlive hlive'
    cases hadd hlive with
    | inl hold =>
      cases hadd hlive' with
      | inl hold' => exact h.single doc taskId taskId' hold hold'
      | inr hnew => exact absurd (hnew.1 ▸ hold) (hnone taskId)
    | inr hnew =>
      cases hadd hlive' with
      | inl hold' => exact absurd (hnew.1 ▸ hold') (hnone taskId')
      | inr hnew' => exact hnew.2.trans hnew'.2.symm
  · intro key request known hreq hphase taskId hmem
    obtain ⟨hin, hdead⟩ := h.known key request known hreq hphase taskId hmem
    refine ⟨hdrawn hin, ?_⟩
    intro hlive
    cases hadd hlive with
    | inl hold => exact hdead hold
    | inr hnew =>
      -- the id of the new task has never been drawn
      simp only [DrawnIds.areFresh, Bool.and_eq_true, Bool.not_eq_true', contains_eq_mem,
        decide_eq_false_iff_not] at hfresh
      exact hfresh.2 (hnew.2 ▸ hin)
  · intro doc hmem
    exact hdrawn (h.documents doc hmem)
  · intro id row hrow
    cases Table.lookup_insert_eq_some hrow with
    | inl hnew =>
      obtain ⟨rfl, rfl⟩ := hnew
      simp [DrawnIds.record]
    | inr hold =>
      obtain ⟨hid, hfile⟩ := h.tasks id row hold.2
      exact ⟨hdrawn hid, hdrawn hfile⟩
  · intro id row hrow
    cases Table.lookup_insert_eq_some hrow with
    | inl hnew =>
      obtain ⟨-, rfl⟩ := hnew
      exact ⟨hdrawn hdoc, mem_cons_self⟩
    | inr hold =>
      obtain ⟨hid, hfile⟩ := h.revisions id row hold.2
      exact ⟨hdrawn hid, hdrawn hfile⟩

theorem Inv.setPhase (key : ℕ)
    (hphase : ∀ known, phase ≠ .checked known) : Inv (s.setPhase key phase) :=
  h.shrink (.refl s.db) rfl fun _ _ _ hreq hcheck =>
    .inl (checked_setPhase hphase hreq hcheck)

theorem Inv.answer (key : ℕ) (response : UploadResponse) :
    Inv (s.setPhase key (.answered response)) := h.setPhase key nofun

theorem Inv.draw {drawn : List String} (hdrawn : s.drawn ⊆ drawn) :
    Inv { s with drawn := drawn } where
  single := h.single
  known key request known hreq hphase taskId hmem :=
    (h.known key request known hreq hphase taskId hmem).imp_left fun hin => hdrawn hin
  documents docId hmem := hdrawn (h.documents docId hmem)
  tasks id row hrow := (h.tasks id row hrow).imp (fun hid => hdrawn hid) fun hfile => hdrawn hfile
  revisions id row hrow :=
    (h.revisions id row hrow).imp (fun hid => hdrawn hid) fun hfile => hdrawn hfile

/-! ### One step -/

theorem Inv.not_isLive (hfresh : docId ∉ s.drawn)
    (taskId : String) : ¬ IsLive s.db docId taskId := by
  intro hlive
  obtain ⟨row, -, -, -, hrev⟩ := hlive.live
  obtain ⟨id, hid⟩ := hasRevision_iff.mp hrev
  exact hfresh (h.revisions id _ hid).1

theorem Inv.createDocument {task : FileTask}
    (hdoc : docId ∉ s.drawn) (hfresh : ids.areFresh (docId :: s.drawn) = true) :
    Inv { s with
      db := { s.db.addUpload docId ids task with documents := docId :: s.db.documents }
      drawn := ids.record (docId :: s.drawn) } := by
  have hdrawn := h.draw (subset_cons_self docId s.drawn)
  have hadd := hdrawn.addUpload task hfresh mem_cons_self (h.not_isLive hdoc)
  refine ⟨fun _ _ _ hlive hlive' => hadd.single _ _ _ ⟨hlive.live⟩ ⟨hlive'.live⟩, ?_, ?_, hadd.tasks,
    hadd.revisions⟩
  · intro key request known hreq hphase taskId hmem
    obtain ⟨hin, hdead⟩ := hadd.known key request known hreq hphase taskId hmem
    exact ⟨hin, fun hlive => hdead ⟨hlive.live⟩⟩
  · intro doc hmem
    cases mem_cons.mp hmem with
    | inl heq => simp [DrawnIds.record, heq]
    | inr hold => exact hadd.documents doc hold

theorem Inv.query {mayWrite : Bool} {now : Instant}
    (hreq : s.requests.lookup key = some request) :
    Inv { s.setPhase key (queryUpload s.db request.documentId mayWrite now).1 with
      db := (queryUpload s.db request.documentId mayWrite now).2 } := by
  refine Inv.shrink h ?_ ?_ ?_
  · exact shrinks_queryUpload
  · rfl
  intro key' request' known hreq' hphase
  cases lookup_setPhase hreq' with
  | inl hother => exact .inl hother.2
  | inr hsame =>
    obtain ⟨-, old, hold, rfl⟩ := hsame
    cases hreq.symm.trans hold
    obtain ⟨rfl, hnone⟩ := queryUpload_checked hphase
    refine .inr ⟨?_, hnone⟩
    intro taskId hmem
    obtain ⟨row, hrow⟩ := Option.isSome_iff_exists.mp (AList.lookup_isSome.mpr hmem)
    exact (h.tasks taskId row hrow).1

theorem Inv.insert {known : List String} {policy : UploadPolicy} {now : Instant}
    (hreq : s.requests.lookup key = some request) (hphase : request.phase = .checked known)
    (hfresh : ids.areFresh s.drawn = true)
    (hcur : ∀ taskId, IsLive s.db request.documentId taskId → taskId ∈ known) :
    Inv { s.setPhase key (insertUpload s.db request policy ids now).1 with
      db := (insertUpload s.db request policy ids now).2, drawn := ids.record s.drawn } := by
  have hsub : s.drawn ⊆ ids.record s.drawn := by
    intro id hid
    simp [DrawnIds.record, hid]
  have hnone : ∀ taskId, ¬ IsLive s.db request.documentId taskId := by
    intro taskId hlive
    have hmem := hcur taskId hlive
    exact (h.known key request known hreq hphase taskId hmem).2 hlive
  unfold insertUpload
  split
  · exact (h.answer key _).draw hsub
  split
  · exact (h.answer key _).draw hsub
  rename_i hdoc
  have hmem : request.documentId ∈ s.db.documents := by simpa using hdoc
  exact (h.answer key _).addUpload _ hfresh (h.documents _ hmem) hnone

theorem Inv.finalize {taskId : String} {sha256 : Option String} {size : ℕ}
    {db : UploadDatabase} (hdb : finalizeUpload s.db taskId sha256 size = some db) :
    Inv { s with db := db } := by
  simp only [finalizeUpload, Option.bind_eq_bind, Option.bind_eq_some_iff, Option.pure_def,
    Option.some.injEq] at hdb
  obtain ⟨row, hrow, file, -, rfl⟩ := hdb
  have hshr : Shrinks s.db
      (s.db.updateTask taskId fun _ => (finalizeUploadTask row.task file sha256 size).1) := by
    apply Shrinks.updateTask
    intro row' hrow'
    cases hrow.symm.trans hrow'
    exact fades_finalize row.task file sha256 size
  exact h.shrink_db ⟨hshr.documents, hshr.tasks, hshr.revisions⟩

theorem inv_step {a : UploadAction} (hcur : queryIsCurrent s a = true)
    (hstep : uploadStep s a = some s') : Inv s' := by
  cases a with
  | createDocument docId policy ids now =>
    simp only [uploadStep] at hstep
    split at hstep
    · cases hstep
    rename_i hguard
    cases hstep
    simp only [Bool.or_eq_true, Bool.not_eq_true', not_or, contains_eq_mem,
      decide_eq_true_eq, Bool.not_eq_false] at hguard
    exact h.createDocument hguard.1 hguard.2
  | receive key docId parentRevisionId =>
    simp only [uploadStep, Option.bind_eq_bind, Option.bind_eq_some_iff, Option.pure_def,
      Option.some.injEq] at hstep
    obtain ⟨requests, hins, rfl⟩ := hstep
    obtain ⟨-, rfl⟩ := Table.insertNew_eq_some hins
    refine Inv.shrink h (.refl s.db) ?_ ?_
    · rfl
    intro key' request known hreq hphase
    cases Table.lookup_insert_eq_some hreq with
    | inl hnew =>
      obtain ⟨-, rfl⟩ := hnew
      cases hphase
    | inr hold => exact .inl hold.2
  | cleanup key succeeds now =>
    simp only [uploadStep, Option.bind_eq_bind, Option.bind_eq_some_iff, Option.pure_def,
      Option.some.injEq] at hstep
    obtain ⟨request, -, -, -, rfl⟩ := hstep
    have hshr : Shrinks s.db (if succeeds = true then
        reclaimAbandonedUploads s.db now (some [request.documentId]) none else s.db) := by
      split
      · exact shrinks_reclaimAbandonedUploads _ _ _ _
      · exact .refl s.db
    have hcleaned : Inv (s.setPhase key .cleaned) := h.setPhase key nofun
    exact hcleaned.shrink_db hshr
  | query key mayWrite now =>
    simp only [uploadStep, Option.bind_eq_bind, Option.bind_eq_some_iff, Option.pure_def,
      Option.some.injEq] at hstep
    obtain ⟨request, hreq, -, -, rfl⟩ := hstep
    exact h.query hreq
  | insert key policy ids now =>
    simp only [uploadStep, Option.bind_eq_bind, Option.bind_eq_some_iff] at hstep
    obtain ⟨request, hreq, hstep⟩ := hstep
    split at hstep
    · rename_i known hphase
      simp only [Option.bind_eq_some_iff, Option.pure_def, Option.some.injEq,
        Option.guard_eq_some'] at hstep
      obtain ⟨-, hfresh, rfl⟩ := hstep
      apply h.insert hreq hphase hfresh
      intro taskId hlive
      obtain ⟨docId, parentRevisionId, phase⟩ := request
      obtain rfl : phase = .checked known := hphase
      simp only [queryIsCurrent, hreq, all_eq_true, contains_eq_mem, decide_eq_true_eq] at hcur
      exact hcur taskId (mem_liveUploads.mpr hlive)
    · cases hstep
  | reclaim scope limit now =>
    cases hstep
    exact h.shrink_db (shrinks_reclaimAbandonedUploads _ _ _ _)
  | claim taskId mode policy now =>
    cases hstep
    exact h.shrink_db (.updateTask fun row _ => fades_claim policy row.task {} mode now)
  | release taskId now =>
    cases hstep
    exact h.shrink_db (.updateTask fun row _ => fades_release row.task now)
  | finalize taskId sha256 size =>
    simp only [uploadStep, Option.bind_eq_bind, Option.bind_eq_some_iff, Option.pure_def,
      Option.some.injEq] at hstep
    obtain ⟨db, hdb, rfl⟩ := hstep
    exact h.finalize hdb
  | expire taskId now =>
    cases hstep
    exact h.shrink_db (shrinks_expire s.db taskId now)
  | cancel taskId =>
    cases hstep
    exact h.shrink_db (.updateTask fun row _ => fades_cancel row.task)

omit h

theorem inv_initial : Inv {} := by
  refine ⟨?_, ?_, nofun, ?_, ?_⟩
  · intro docId taskId taskId' hlive
    obtain ⟨row, hrow, -⟩ := hlive.live
    exact absurd hrow Table.lookup_empty_ne_some
  · intro key request known hreq
    exact absurd hreq Table.lookup_empty_ne_some
  all_goals
    intro id row hrow
    exact absurd hrow Table.lookup_empty_ne_some

end

/-! ### Whole runs -/

/-- **A document has one live upload at most**, in every run in which no request inserts its upload
while a task that has come since its query is still live. -/
theorem at_most_one_live_upload {actions : List UploadAction} {s : UploadState}
    (hmeets : Meets uploadStep (fun s a => queryIsCurrent s a = true) {} actions)
    (hrun : run uploadStep {} actions = some s) (docId : String) :
    (s.db.liveUploads docId).length ≤ 1 := by
  have hinv : Inv s := run_invariant (fun _ _ _ h hcur hstep => inv_step h hcur hstep)
    inv_initial hmeets hrun
  have hsing : ∀ taskId ∈ s.db.liveUploads docId, ∀ taskId' ∈ s.db.liveUploads docId,
      taskId = taskId' := by
    intro taskId hmem taskId' hmem'
    exact hinv.single docId taskId taskId' (mem_liveUploads.mp hmem) (mem_liveUploads.mp hmem')
  have hnodup := liveUploads_nodup s.db docId
  match hlist : s.db.liveUploads docId with
  | [] => simp
  | [_] => simp
  | first :: second :: rest =>
    rw [hlist] at hsing hnodup
    have heq := hsing first mem_cons_self second (by simp)
    simp [heq] at hnodup

/-- Two requests for a document without live upload, one after the other up to their inserts. -/
def requestsOneByOne : List UploadAction :=
  let policy : UploadPolicy := ⟨3600, 86400⟩
  [.createDocument "report" policy ⟨"file-0", "revision-0", "task-0"⟩ 0,
    .claim "task-0" .upload policy 1, .finalize "task-0" none 0,
    .receive 1 "report" none, .cleanup 1 true 10, .query 1 true 10,
    .insert 1 policy ⟨"file-1", "revision-1", "task-1"⟩ 10,
    .receive 2 "report" none, .cleanup 2 true 4000, .query 2 true 4000,
    .insert 2 policy ⟨"file-2", "revision-2", "task-2"⟩ 4000]

/-- The upload of the first request has expired when the second one comes. -/
theorem one_live_upload_after_expiry :
    Meets uploadStep (fun s a => queryIsCurrent s a = true) {} requestsOneByOne ∧
      run uploadStep {} requestsOneByOne = some ((run uploadStep {} requestsOneByOne).getD {}) ∧
      (((run uploadStep {} requestsOneByOne).getD {}).db.liveUploads "report").length ≤ 1 := by
  have hmeets : Meets uploadStep (fun s a => queryIsCurrent s a = true) {} requestsOneByOne :=
    meets_of_meetsBool (by decide +kernel)
  have hrun : run uploadStep {} requestsOneByOne =
      some ((run uploadStep {} requestsOneByOne).getD {}) :=
    run_eq_some_getD ({} : UploadState) (by decide +kernel)
  exact ⟨hmeets, hrun, at_most_one_live_upload hmeets hrun "report"⟩

/-- The same requests, the second of which makes its query before the first one inserts. -/
def requestsOverlapping : List UploadAction :=
  let policy : UploadPolicy := ⟨3600, 86400⟩
  [.createDocument "report" policy ⟨"file-0", "revision-0", "task-0"⟩ 0,
    .claim "task-0" .upload policy 1, .finalize "task-0" none 0,
    .receive 1 "report" none, .receive 2 "report" none, .cleanup 1 true 10, .cleanup 2 true 10,
    .query 1 true 10, .query 2 true 10,
    .insert 1 policy ⟨"file-1", "revision-1", "task-1"⟩ 10,
    .insert 2 policy ⟨"file-2", "revision-2", "task-2"⟩ 10]

theorem overlapping_requests_give_two_uploads : ¬ ∀ actions s, run uploadStep {} actions = some s →
      ∀ docId, (s.db.liveUploads docId).length ≤ 1 := by
  intro h
  have hrun : run uploadStep {} requestsOverlapping =
      some ((run uploadStep {} requestsOverlapping).getD {}) :=
    run_eq_some_getD ({} : UploadState) (by decide +kernel)
  have htwo : (((run uploadStep {} requestsOverlapping).getD {}).db.liveUploads "report").length = 2 := by
    decide +kernel
  have hone := h _ _ hrun "report"
  omega

end Cfms.Files.LiveUploads
