import Cfms.Files.Transfer
import Cfms.Lib.Table
import Mathlib.Algebra.Group.Int.Defs
import Mathlib.Data.List.Sort

/-!
# Deferred file deduplication

The rows that `include/extensions/builtin/file_deduplication.py` works on, with the storage
objects behind them, and everything that runs beside its workers: uploads that complete, deletions
of documents and revisions, and downloads.

A worker takes its task through up to six steps: the claim, the read of the phase, the merge, the
check before the removal, the removal of the object and the deletion of the row.  Each of them is
a transaction of its own or a call of the storage provider.  Between any two of them other steps
may happen, the worker may crash and its lease may expire.  A download is issued in two steps, the
read of the file that a revision or an avatar refers to and the insert of the task.

Rows of uploads that have not completed are left out: they are inactive and without digest, so no
step here touches them.
-/

namespace Cfms.Files

open Access (Instant)
open Lib

/-! ### Rows -/

inductive DeduplicationPhase
  | merge
  | storageDelete
  deriving DecidableEq

/-- A row of `file_deduplication_tasks`, by the id of its file. -/
structure FileDeduplicationTask where
  phase : DeduplicationPhase
  availableAt : Instant
  leaseOwner : Option String := none
  leaseExpiresAt : Option Instant := none
  attempts : ℕ := 0
  deriving DecidableEq

/-- A row of `files`. -/
structure FileRow where
  path : String
  createdTime : Instant
  stored : StoredFile
  deriving DecidableEq

/-- Who refers to a file through a foreign key without a cascade. -/
inductive Referrer
  | revision (documentId revisionId : String)
  | avatar (userId : String)
  deriving DecidableEq

/-- The file that a referrer refers to, and the digest of the content that it was given. -/
structure Reference where
  fileId : String
  digest : String
  deriving DecidableEq

/-- A row of `file_tasks` with its file, and the digest that its referrer had when the task was
issued. -/
structure TransferTask where
  fileId : String
  task : FileTask
  digest : String
  deriving DecidableEq

/-- `status IN _LIVE_TASK_STATUSES`. -/
def TransferTask.isLive (transfer : TransferTask) : Bool := transfer.task.status.isActive

/-- A pending or running download. -/
def TransferTask.isLiveDownload (transfer : TransferTask) : Bool :=
  transfer.isLive && transfer.task.mode == .download

structure Database where
  files : Table String FileRow := ∅
  references : Table Referrer Reference := ∅
  transfers : Table String TransferTask := ∅
  deduplications : Table String FileDeduplicationTask := ∅
  /-- Files whose row was deleted while a live download pointed at it. -/
  deletedInUse : List String := []

def hookRecoverySeconds : Instant := 300

def leaseSeconds : Instant := 300

def idlePollSeconds : Instant := 1

def maxRetrySeconds : Instant := 300

def fileTaskDefaultDurationSeconds : Instant := 3600

/-! ### Statements -/

variable (db : Database)

/-- `DELETE` on `files`.  The foreign keys with a cascade take the transfers and deduplication
tasks of the rows along, the others refuse the deletion. -/
def Database.deleteFiles (gone : String → Bool) : Option Database :=
  if db.references.any fun _ reference => gone reference.fileId then none
  else
    some
      { db with
        files := db.files.delete fun id _ => gone id
        transfers := db.transfers.delete fun _ transfer => gone transfer.fileId
        deduplications := db.deduplications.delete fun id _ => gone id
        deletedInUse := db.deletedInUse ++
          ((db.transfers.entries.filter fun row => row.2.isLiveDownload && gone row.2.fileId).map
            fun row => row.2.fileId) }

def Database.updateDeduplication (fileId : String)
    (f : FileDeduplicationTask → FileDeduplicationTask) : Database :=
  { db with
    deduplications := db.deduplications.update fun id task => if id = fileId then f task else task }

/-- `session.delete(task)`. -/
def Database.deleteDeduplication (fileId : String) : Database :=
  { db with deduplications := db.deduplications.delete fun id _ => id == fileId }

/-! ### Tasks and leases -/

def scheduleFileDeduplication (fileId : String) (now : Instant) : Database :=
  { db with
    deduplications := db.deduplications.insert fileId
      { phase := .merge, availableAt := now + hookRecoverySeconds } }

def releaseFileDeduplication (fileId : String) (now : Instant) : Database :=
  db.updateDeduplication fileId fun task =>
    if task.phase = .merge then { task with availableAt := now } else task

structure ClaimedDeduplicationTask where
  fileId : String
  leaseOwner : String
  recoveredLease : Bool
  deriving DecidableEq

/-- The condition of both statements of `_claim_next_task`. -/
def FileDeduplicationTask.isClaimable (task : FileDeduplicationTask) (now : Instant) : Bool :=
  task.availableAt ≤ now && task.leaseExpiresAt.all (· ≤ now)

/-- `ORDER BY available_at, file_id`. -/
def claimOrder (rows : List (Sigma fun _ : String => FileDeduplicationTask)) :
    List (Sigma fun _ : String => FileDeduplicationTask) :=
  rows.insertionSort fun a b =>
    a.2.availableAt < b.2.availableAt ∨ a.2.availableAt = b.2.availableAt ∧ a.1 ≤ b.1

/-- `_claim_next_task`; the update repeats the condition of the select, and a transaction is
atomic, so it hits the row. -/
def claimNextTask (now : Instant) (leaseOwner : String) :
    Option ClaimedDeduplicationTask × Database :=
  let candidates := db.deduplications.entries.filter fun row => row.2.isClaimable now
  match (claimOrder candidates).head? with
  | none => (none, db)
  | some candidate =>
    (some ⟨candidate.1, leaseOwner, candidate.2.leaseExpiresAt.isSome⟩,
      db.updateDeduplication candidate.1 fun task =>
        { task with
          leaseOwner := some leaseOwner
          leaseExpiresAt := some (now + leaseSeconds)
          attempts := task.attempts + 1 })

def getClaimedTask (claim : ClaimedDeduplicationTask) : Option FileDeduplicationTask :=
  (db.deduplications.lookup claim.fileId).filter fun task =>
    task.leaseOwner == some claim.leaseOwner

/-- `retry_seconds` of `_reschedule_failed_task`. -/
def retrySeconds (attempts : ℕ) : Instant := min maxRetrySeconds (2 ^ min (attempts - 1) 8)

/-- `_reschedule_failed_task`; `jitter` is what the random factor adds. -/
def rescheduleFailedTask (claim : ClaimedDeduplicationTask) (now jitter : Instant) : Database :=
  match getClaimedTask db claim with
  | none => db
  | some _ =>
    db.updateDeduplication claim.fileId fun task =>
      { task with
        availableAt := now + (retrySeconds task.attempts + jitter)
        leaseOwner := none
        leaseExpiresAt := none }

/-! ### The merge -/

/-- The active files with a digest, `ORDER BY created_time, id`. -/
def matchingFiles (sha256 : String) : List (Sigma fun _ : String => FileRow) :=
  (db.files.entries.filter fun row =>
    row.2.stored.sha256 == some sha256 && row.2.stored.active).insertionSort fun a b =>
      a.2.createdTime < b.2.createdTime ∨ a.2.createdTime = b.2.createdTime ∧ a.1 ≤ b.1

def redirectDownload (sourceId canonicalId : String) (transfer : TransferTask) : TransferTask :=
  if transfer.fileId = sourceId ∧ transfer.task.mode = .download ∧
      transfer.task.status = .pending then
    { transfer with fileId := canonicalId }
  else transfer

def redirectReference (sourceId canonicalId : String) (reference : Reference) : Reference :=
  if reference.fileId = sourceId then { reference with fileId := canonicalId } else reference

def mergedRow (sourceId canonicalId : String) (source : FileRow) (id : String) (row : FileRow) :
    FileRow :=
  if id = canonicalId then
    { row with stored := { row.stored with size := source.stored.size <|> row.stored.size } }
  else if id = sourceId then { row with stored := { row.stored with active := false } }
  else row

/-- The statements of `_process_merge` once the canonical file is found. -/
def mergeInto (sourceId canonicalId : String) (source : FileRow) (now : Instant) : Database :=
  { db with
    files := db.files.update (mergedRow sourceId canonicalId source)
    references := db.references.update fun _ => redirectReference sourceId canonicalId
    transfers := (db.transfers.update fun _ => redirectDownload sourceId canonicalId).delete
      fun _ transfer => transfer.fileId == sourceId && !transfer.isLive
    deduplications := db.deduplications.update fun id task =>
      if id = sourceId then
        { task with phase := .storageDelete, leaseExpiresAt := some (now + leaseSeconds) }
      else task }

/-- `_process_merge`: whether the storage object is to be deleted, and the database afterwards. -/
def processMerge (claim : ClaimedDeduplicationTask) (now : Instant) : Bool × Database :=
  match getClaimedTask db claim with
  | none => (false, db)
  | some task =>
    if task.phase ≠ .merge then (task.phase == .storageDelete, db)
    else
      match (db.files.lookup claim.fileId).filter fun source => source.stored.active with
      | none => (false, db.deleteDeduplication claim.fileId)
      | some source =>
        match source.stored.sha256.filter (· != "") with
        | none => (false, db.deleteDeduplication claim.fileId)
        | some sha256 =>
          match (matchingFiles db sha256).head? with
          | none => (false, db.deleteDeduplication claim.fileId)
          | some canonical =>
            if canonical.1 = claim.fileId then (false, db.deleteDeduplication claim.fileId)
            else (true, mergeInto db claim.fileId canonical.1 source now)

/-! ### The storage deletion -/

/-- `live_task is not None`. -/
def hasLiveTask (fileId : String) : Bool :=
  db.transfers.any fun _ transfer => transfer.fileId == fileId && transfer.isLive

def deferForLiveTransfer (fileId : String) (now : Instant) : Database :=
  db.updateDeduplication fileId fun task =>
    { task with availableAt := now + idlePollSeconds, leaseOwner := none, leaseExpiresAt := none }

def storageDeletion (claim : ClaimedDeduplicationTask) : Option FileDeduplicationTask :=
  (getClaimedTask db claim).filter fun task => task.phase == .storageDelete

/-- The first transaction of `_process_storage_delete`: the path to remove, if any. -/
def checkStorageDelete (claim : ClaimedDeduplicationTask) (now : Instant) :
    Option String × Database :=
  match storageDeletion db claim with
  | none => (none, db)
  | some _ =>
    match db.files.lookup claim.fileId with
    | none => (none, db.deleteDeduplication claim.fileId)
    | some source =>
      if hasLiveTask db claim.fileId then (none, deferForLiveTransfer db claim.fileId now)
      else
        (some source.path, db.updateDeduplication claim.fileId fun task =>
          { task with leaseExpiresAt := some (now + leaseSeconds) })

/-- The last transaction of `_process_storage_delete`; `none` when a foreign key refuses. -/
def finishStorageDelete (claim : ClaimedDeduplicationTask) (now : Instant) : Option Database :=
  match storageDeletion db claim with
  | none => some db
  | some _ =>
    match db.files.lookup claim.fileId with
    | none => some (db.deleteDeduplication claim.fileId)
    | some _ =>
      if hasLiveTask db claim.fileId then some (deferForLiveTransfer db claim.fileId now)
      else
        Database.deleteFiles
          { db.deleteDeduplication claim.fileId with
            transfers := db.transfers.delete fun _ transfer => transfer.fileId == claim.fileId }
          (· == claim.fileId)

/-! ### Deletions of documents and revisions -/

def cancelFileTasksForFiles (fileIds : List String) : Database :=
  { db with
    transfers := db.transfers.update fun _ transfer =>
      if transfer.fileId ∈ fileIds then { transfer with task := cancelFileTask transfer.task }
      else transfer }

def refersOnly (gone : Referrer → Bool) (fileId : String) : Bool :=
  (db.references.any fun referrer reference => gone referrer && reference.fileId == fileId) &&
    !db.references.any fun referrer reference => !gone referrer && reference.fileId == fileId

/-- The deletion of revisions with the files that nothing else refers to: tasks, revisions and
files in this order.  The paths are removed after the commit. -/
def deleteReferrers (gone : Referrer → Bool) : Option (List String × Database) :=
  let paths := (db.files.entries.filter fun row => refersOnly db gone row.1).map fun row => row.2.path
  (Database.deleteFiles
    { db with
      transfers := db.transfers.delete fun _ transfer => refersOnly db gone transfer.fileId
      references := db.references.delete fun referrer _ => gone referrer }
    (refersOnly db gone)).map fun db' => (paths, db')

def deleteRevisionAndUnreferencedFile (documentId revisionId : String) :
    Option (List String × Database) :=
  deleteReferrers db (· == .revision documentId revisionId)

def Referrer.belongsTo (documentIds : List String) : Referrer → Bool
  | .revision documentId _ => documentIds.contains documentId
  | .avatar _ => false

/-- `delete_all_document_revisions`, and the purge of several documents. -/
def deleteAllDocumentRevisions (documentIds : List String) : Option (List String × Database) :=
  deleteReferrers db (Referrer.belongsTo documentIds)

/-! ### The server -/

/-- Where a worker stands in `process_one_file_deduplication_task`. -/
inductive Stage
  | idle
  /-- The lease is taken, the phase not yet read. -/
  | claimed (claim : ClaimedDeduplicationTask)
  | merging (claim : ClaimedDeduplicationTask)
  | checking (claim : ClaimedDeduplicationTask)
  /-- No live transfer was found: the object is to be removed. -/
  | removing (claim : ClaimedDeduplicationTask) (path : String)
  | finishing (claim : ClaimedDeduplicationTask)
  /-- A step has raised. -/
  | failed (claim : ClaimedDeduplicationTask)
  deriving DecidableEq

/-- The worker is about to remove the object. -/
def Stage.removes (path : String) : Stage → Bool
  | .removing _ p => p == path
  | _ => false

structure Server where
  db : Database := {}
  objects : Table String Bytes := ∅
  /-- Objects of deleted rows, to be removed after the commit. -/
  removals : List String := []
  /-- What the connections that issue a download or set an avatar have read. -/
  issues : Table ℕ Reference := ∅
  workers : Table ℕ Stage := ∅
  /-- The ids and paths of all files so far: random tokens do not repeat. -/
  tokens : List String := []

/-- An upload whose last transaction commits. -/
structure CompletedUpload where
  fileId : String
  path : String
  createdTime : Instant
  documentId : String
  revisionId : String
  taskId : String
  task : FileTask
  content : Bytes
  /-- The client has declared a digest, and it was verified. -/
  declared : Bool

/-- What happens to the task of a download. -/
inductive TransferChange
  | claim (policy : UploadPolicy) (limitAllows : Bool)
  | release
  | complete
  | expire

def TransferChange.apply (change : TransferChange) (file : StoredFile) (now : Instant)
    (task : FileTask) : FileTask :=
  match change with
  | .claim policy limitAllows => (claimDownloadTask policy task file now limitAllows).2
  | .release => releaseFileTask task now
  | .complete => completeFileTask task
  | .expire => expireFileTaskIfDue task now

inductive ServerAction
  | completeUpload (upload : CompletedUpload) (now : Instant)
  | releaseFileDeduplication (fileId : String) (now : Instant)
  /-- The first half of an issue: the connection reads what a referrer refers to. -/
  | readReference (connection : ℕ) (referrer : Referrer)
  /-- The second half: `create_file_task`. -/
  | createFileTask (connection : ℕ) (taskId : String) (now : Instant)
  | setAvatar (connection : ℕ) (userId : String)
  | changeTransfer (taskId : String) (change : TransferChange) (now : Instant)
  /-- The document goes to the trash; the tasks of files it leaves unreachable are cancelled. -/
  | deleteDocument (unreachable : List String)
  | deleteRevision (documentId revisionId : String) (unreachable : List String)
  | purgeDocuments (documentIds : List String)
  /-- A removal that was deferred to after the commit. -/
  | removeDeferred (path : String)
  | claim (worker : ℕ) (now : Instant) (leaseOwner : String)
  | proceed (worker : ℕ) (now jitter : Instant)
  /-- The next step of a worker raises, and its transaction is rolled back. -/
  | raises (worker : ℕ)
  | crash (worker : ℕ)

def CompletedUpload.storedDigest (upload : CompletedUpload) (sha256 : Bytes → String) :
    Option String :=
  if upload.declared then some (sha256 upload.content) else none

/-- The rows of the task and the file of an upload after `finalize_upload_task`. -/
def CompletedUpload.finalized (upload : CompletedUpload) (sha256 : Bytes → String) :
    FileTask × StoredFile :=
  finalizeUploadTask upload.task {} (upload.storedDigest sha256) upload.content.length

variable (sha256 : Bytes → String)

/-- The last transaction of an upload; the object is in its place. -/
def completeUpload (s : Server) (upload : CompletedUpload) (now : Instant) : Option Server :=
  if upload.fileId ∈ s.tokens ∨ upload.path ∈ s.tokens ∨
      (upload.finalized sha256).1.status ≠ .completed then none
  else do
    let digest := sha256 upload.content
    let references ← s.db.references.insertNew (.revision upload.documentId upload.revisionId)
      ⟨upload.fileId, digest⟩
    let transfers ← s.db.transfers.insertNew upload.taskId
      ⟨upload.fileId, (upload.finalized sha256).1, digest⟩
    let db :=
      { s.db with
        files := s.db.files.insert upload.fileId
          ⟨upload.path, upload.createdTime, (upload.finalized sha256).2⟩
        references := references
        transfers := transfers }
    return { s with
      db := if upload.content ≠ [] ∧ (upload.storedDigest sha256).any (· != "") then
        scheduleFileDeduplication db upload.fileId now else db
      objects := s.objects.insert upload.path upload.content
      tokens := upload.fileId :: upload.path :: s.tokens }

variable (s : Server)

def Server.endIssue (connection : ℕ) : Server :=
  { s with issues := s.issues.delete fun c _ => c == connection }

/-- `create_file_task` for the file that the connection has read; the foreign key needs its row. -/
def createFileTask (connection : ℕ) (taskId : String) (now : Instant) :
    Option Server := do
  let issue ← s.issues.lookup connection
  if (s.db.files.lookup issue.fileId).isNone then return s.endIssue connection
  else
    let task : FileTask :=
      { mode := .download, startTime := now, endTime := some (now + fileTaskDefaultDurationSeconds) }
    let transfers ← s.db.transfers.insertNew taskId ⟨issue.fileId, task, issue.digest⟩
    return { s.endIssue connection with db := { s.db with transfers := transfers } }

/-- `user_to_update.avatar_id = latest_rev_file.id`. -/
def setAvatar (connection : ℕ) (userId : String) : Option Server := do
  let issue ← s.issues.lookup connection
  if (s.db.files.lookup issue.fileId).isNone then return s.endIssue connection
  else
    return { s.endIssue connection with
      db := { s.db with references := s.db.references.insert (.avatar userId) issue } }

def changeTransfer (taskId : String) (change : TransferChange) (now : Instant) :
    Option Server := do
  let transfer ← s.db.transfers.lookup taskId
  let file ← s.db.files.lookup transfer.fileId
  return { s with
    db := { s.db with
      transfers := s.db.transfers.update fun id transfer =>
        if id = taskId then { transfer with task := change.apply file.stored now transfer.task }
        else transfer } }

/-- A deletion that commits, and the removals it defers. -/
def Server.deleteWith (outcome : Option (List String × Database)) : Option Server :=
  outcome.map fun deleted => { s with db := deleted.2, removals := s.removals ++ deleted.1 }

def Server.stage (worker : ℕ) : Stage := (s.workers.lookup worker).getD .idle

def Server.setStage (worker : ℕ) (stage : Stage) : Server :=
  { s with workers := s.workers.insert worker stage }

/-- The next step of a worker. -/
def proceed (worker : ℕ) (now jitter : Instant) : Option Server :=
  match s.stage worker with
  | .idle => none
  | .claimed claim =>
    some (s.setStage worker
      (match getClaimedTask s.db claim with
        | none => .idle
        | some task => if task.phase = .merge then .merging claim else .checking claim))
  | .merging claim =>
    let outcome := processMerge s.db claim now
    some ({ s with db := outcome.2 }.setStage worker (if outcome.1 then .checking claim else .idle))
  | .checking claim =>
    let outcome := checkStorageDelete s.db claim now
    some ({ s with db := outcome.2 }.setStage worker
      (match outcome.1 with
        | none => .idle
        | some path => .removing claim path))
  | .removing claim path =>
    some ({ s with objects := s.objects.delete fun p _ => p == path }.setStage worker
      (.finishing claim))
  | .finishing claim =>
    match finishStorageDelete s.db claim now with
    | none => some (s.setStage worker (.failed claim))
    | some db => some ({ s with db := db }.setStage worker .idle)
  | .failed claim =>
    some ({ s with db := rescheduleFailedTask s.db claim now jitter }.setStage worker .idle)

def Stage.afterRaise : Stage → Option Stage
  | .idle => none
  | .claimed claim | .merging claim | .checking claim | .removing claim _ | .finishing claim =>
    some (.failed claim)
  | .failed _ => some .idle

def serverStep (s : Server) : ServerAction → Option Server
  | .completeUpload upload now => completeUpload sha256 s upload now
  | .releaseFileDeduplication fileId now =>
    some { s with db := releaseFileDeduplication s.db fileId now }
  | .readReference connection referrer =>
    (s.db.references.lookup referrer).map fun reference =>
      { s with issues := s.issues.insert connection reference }
  | .createFileTask connection taskId now => createFileTask s connection taskId now
  | .setAvatar connection userId => setAvatar s connection userId
  | .changeTransfer taskId change now => changeTransfer s taskId change now
  | .deleteDocument unreachable => some { s with db := cancelFileTasksForFiles s.db unreachable }
  | .deleteRevision documentId revisionId unreachable =>
    s.deleteWith (deleteRevisionAndUnreferencedFile (cancelFileTasksForFiles s.db unreachable)
      documentId revisionId)
  | .purgeDocuments documentIds => s.deleteWith (deleteAllDocumentRevisions s.db documentIds)
  | .removeDeferred path =>
    if path ∈ s.removals then
      some { s with
        objects := s.objects.delete fun p _ => p == path, removals := s.removals.erase path }
    else none
  | .claim worker now leaseOwner =>
    match s.stage worker with
    | .idle =>
      match claimNextTask s.db now leaseOwner with
      | (none, _) => none
      | (some claim, db) => some ({ s with db := db }.setStage worker (.claimed claim))
    | _ => none
  | .proceed worker now jitter => proceed s worker now jitter
  | .raises worker => (s.stage worker).afterRaise.map (s.setStage worker)
  | .crash worker => some (s.setStage worker .idle)

end Cfms.Files
