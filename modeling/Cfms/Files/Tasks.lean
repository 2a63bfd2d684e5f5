import Cfms.Access.Model

/-!
# File tasks

The row of one file task with the row of its file, and the functions of
`include/domains/documents/commands/file_tasks.py` that the transfers run in a transaction.  A
function that writes returns the row it leaves.  Identifiers and the path do not change during the
life of a task, so the model is about one task and leaves them out.

The life of a task is `PENDING`, then `IN_PROGRESS` while a connection transfers the file, then
back to `PENDING` or to one of the three final statuses.
-/

namespace Cfms.Files

open Access (Instant)

inductive FileTaskStatus
  | pending
  | completed
  | cancelled
  | inProgress
  | expired
  deriving DecidableEq

inductive TransferMode
  | download
  | upload
  deriving DecidableEq

/-- `ACTIVE_FILE_TASK_STATUSES`. -/
def FileTaskStatus.isActive : FileTaskStatus → Bool
  | .pending | .inProgress => true
  | _ => false

structure FileTask where
  mode : TransferMode
  status : FileTaskStatus := .pending
  startTime : Instant
  endTime : Option Instant
  encryptionKey : Option String := none
  chunkSize : Option ℕ := none
  uploadFileSize : Option ℕ := none
  uploadSha256 : Option String := none
  uploadSessionId : Option String := none
  uploadCheckpointSize : Option ℕ := none
  uploadCheckpointData : Option String := none
  deriving DecidableEq

/-- The columns of the `files` row that a transfer reads or writes. -/
structure StoredFile where
  sha256 : Option String := none
  size : Option ℕ := none
  active : Bool := false
  deriving DecidableEq

/-- `DocumentUploadPolicy`, as far as claims use it. -/
structure UploadPolicy where
  startTimeoutSeconds : Instant
  maxDurationSeconds : Instant
  deriving DecidableEq

structure ClaimedFileTask where
  storedFileSize : Option ℕ
  encryptionKey : Option String
  chunkSize : Option ℕ
  uploadFileSize : Option ℕ
  uploadSha256 : Option String
  uploadSessionId : Option String
  uploadCheckpointSize : Option ℕ
  uploadCheckpointData : Option String
  deriving DecidableEq

inductive FileTaskClaimFailure
  | invalid
  | inProgress
  | completed
  | cancelled
  | expired
  | conflict
  deriving DecidableEq

def claimFailureByStatus : FileTaskStatus → Option FileTaskClaimFailure
  | .inProgress => some .inProgress
  | .completed => some .completed
  | .cancelled => some .cancelled
  | .expired => some .expired
  | .pending => none

/-! ### Expiry, claim and release -/

/-- The window of the task is over. -/
def FileTask.isDue (task : FileTask) (now : Instant) : Bool := task.endTime.any (· ≤ now)

/-- `expire_file_task_if_due`; the row afterwards carries the status that the source returns. -/
def expireFileTaskIfDue (task : FileTask) (now : Instant) : FileTask :=
  if task.status.isActive && task.isDue now then { task with status := .expired } else task

variable (policy : UploadPolicy)

/-- The `values` of the claiming update. -/
def claimValues (mode : TransferMode) (now : Instant) (task : FileTask) : FileTask :=
  if mode == .upload && task.endTime.any (· - task.startTime ≤ policy.startTimeoutSeconds) then
    { task with
      status := .inProgress, startTime := now, endTime := some (now + policy.maxDurationSeconds) }
  else { task with status := .inProgress }

def claimedFileTask (mode : TransferMode) (task : FileTask) (file : StoredFile) : ClaimedFileTask :=
  { storedFileSize := if mode == .upload then none else file.size
    encryptionKey := if mode == .upload then none else task.encryptionKey
    chunkSize := task.chunkSize
    uploadFileSize := if mode == .upload then task.uploadFileSize else none
    uploadSha256 := if mode == .upload then task.uploadSha256 else none
    uploadSessionId := if mode == .upload then task.uploadSessionId else none
    uploadCheckpointSize := if mode == .upload then task.uploadCheckpointSize else none
    uploadCheckpointData := if mode == .upload then task.uploadCheckpointData else none }

/-- `claim_file_task`.  The condition of the claiming update repeats the tests before it, and a
transaction is atomic, so the update always hits the row. -/
def claimFileTask (task : FileTask) (file : StoredFile) (mode : TransferMode) (now : Instant) :
    Except FileTaskClaimFailure ClaimedFileTask × FileTask :=
  if task.mode != mode then (.error .invalid, task)
  else
    let task := expireFileTaskIfDue task now
    if task.status != .pending then
      (.error ((claimFailureByStatus task.status).getD .invalid), task)
    else if task.startTime > now then (.error .invalid, task)
    else (.ok (claimedFileTask mode task file), claimValues policy mode now task)

def releaseFileTask (task : FileTask) (now : Instant) : FileTask :=
  if task.status == .inProgress then
    { task with status := if task.isDue now then .expired else .pending }
  else task

/-- The claim of `send_file`: when the transfer limits deny it, the claim is released in the same
transaction. -/
def claimDownloadTask (task : FileTask) (file : StoredFile) (now : Instant) (limitAllows : Bool) :
    Except FileTaskClaimFailure (ClaimedFileTask × Bool) × FileTask :=
  match claimFileTask policy task file .download now with
  | (.error failure, task) => (.error failure, task)
  | (.ok claimed, task) =>
    (.ok (claimed, limitAllows), if limitAllows then task else releaseFileTask task now)

/-- `cancel_file_tasks_for_files`, for a file of the task. -/
def cancelFileTask (task : FileTask) : FileTask :=
  if task.status.isActive then { task with status := .cancelled } else task

/-! ### Completion -/

/-- `complete_file_task`; the row afterwards carries the status that the source returns. -/
def completeFileTask (task : FileTask) : FileTask :=
  if task.status == .inProgress then { task with status := .completed } else task

def finalizeUploadTask (task : FileTask) (file : StoredFile) (sha256 : Option String) (size : ℕ) :
    FileTask × StoredFile :=
  let task := completeFileTask task
  if task.status != .completed then (task, file)
  else
    ({ task with
        uploadSessionId := none, uploadCheckpointSize := none, uploadCheckpointData := none },
      { sha256 := sha256, size := some size, active := true })

/-! ### Upload progress -/

structure UploadPreparation where
  chunkSize : ℕ
  resumable : Bool
  discardExisting : Bool
  priorSessionId : Option String
  checkpointSize : Option ℕ
  checkpointData : Option String
  deriving DecidableEq

inductive PlanConflict
  | chunkSize (chunkSize : ℕ)
  | metadata (fileSize : ℕ) (sha256 : String) (chunkSize : ℕ)
  deriving DecidableEq

/-- `a or b` for a chunk size. -/
def orChunkSize (chunkSize : Option ℕ) (proposed : ℕ) : ℕ :=
  match chunkSize with
  | none => proposed
  | some size => if size = 0 then proposed else size

/-- `resumable` of `plan_upload_file_task`. -/
def isResumable (fileSize : ℕ) (sha256 : Option String) : Bool := sha256.isSome && decide (0 < fileSize)

def storedMetadata (claimed : ClaimedFileTask) : Option (ℕ × String) :=
  match claimed.uploadFileSize, claimed.uploadSha256 with
  | some fileSize, some sha256 => some (fileSize, sha256)
  | _, _ => none

def planUploadFileTask (claimed : ClaimedFileTask) (fileSize : ℕ) (sha256 : Option String)
    (proposedChunkSize clientMaxChunkSize : ℕ) (restart : Bool) :
    Except PlanConflict UploadPreparation :=
  let chunkSize := orChunkSize claimed.chunkSize proposedChunkSize
  let resumable := isResumable fileSize sha256
  let metadataMatches := claimed.uploadFileSize == some fileSize && claimed.uploadSha256 == sha256
  let discardExisting := restart || (claimed.uploadFileSize.isSome && !resumable)
  if chunkSize > clientMaxChunkSize then .error (.chunkSize chunkSize)
  else
    match (storedMetadata claimed).filter fun _ => !metadataMatches && !restart with
    | some (storedSize, storedSha256) => .error (.metadata storedSize storedSha256 chunkSize)
    | none =>
      .ok
        { chunkSize := chunkSize
          resumable := resumable
          discardExisting := discardExisting
          priorSessionId := if discardExisting then none else claimed.uploadSessionId
          checkpointSize := if discardExisting then none else claimed.uploadCheckpointSize
          checkpointData := if discardExisting then none else claimed.uploadCheckpointData }

def applyUploadFileTaskPreparation (task : FileTask) (preparation : UploadPreparation) (fileSize : ℕ)
    (sha256 : Option String) : FileTask :=
  if task.status != .inProgress then task
  else
    { task with
      chunkSize := some (task.chunkSize.getD preparation.chunkSize)
      uploadFileSize := some fileSize
      uploadSha256 := sha256
      uploadSessionId := if preparation.discardExisting then none else task.uploadSessionId
      uploadCheckpointSize := if preparation.discardExisting then none else task.uploadCheckpointSize
      uploadCheckpointData := if preparation.discardExisting then none else task.uploadCheckpointData }

def recordUploadStorageSession (task : FileTask) (sessionId : Option String)
    (checkpointSize : Option ℕ) (checkpointData : Option String) : FileTask :=
  if task.status == .inProgress then
    { task with
      uploadSessionId := sessionId
      uploadCheckpointSize := checkpointSize
      uploadCheckpointData := checkpointData }
  else task

def clearUploadProgress (task : FileTask) : FileTask :=
  { task with
    uploadFileSize := none
    uploadSha256 := none
    uploadSessionId := none
    uploadCheckpointSize := none
    uploadCheckpointData := none }

/-! ### Download settings -/

/-- `get_or_set_file_task_chunk_size`, of a task in progress. -/
def getOrSetFileTaskChunkSize (task : FileTask) (proposedChunkSize clientMaxChunkSize : ℕ) :
    Except ℕ ℕ × FileTask :=
  match task.chunkSize with
  | none => (.ok proposedChunkSize, { task with chunkSize := some proposedChunkSize })
  | some chunkSize =>
    if chunkSize > clientMaxChunkSize then (.error chunkSize, task) else (.ok chunkSize, task)

/-- `get_or_set_download_encryption_key`, of a task in progress. -/
def getOrSetDownloadEncryptionKey (task : FileTask) (proposedKey : String) : String × FileTask :=
  match task.encryptionKey with
  | none => (proposedKey, { task with encryptionKey := some proposedKey })
  | some key => (key, task)

end Cfms.Files
