import Cfms.Files.Tasks
import Cfms.Lib.Process

/-!
# The transfer programs

`receive_file` and `send_file` of `include/transport/connection.py`, as programs over the calls
they make: transactions on the task, messages to and from the client, the storage provider, the
clock.  Every call may raise, and the handlers are those of the source, around the same code.

Waiting for a frame and reading a file end in a run after finitely many rounds; the bounds `polls`
and `reads` are parameters, and every result is for all of them.
-/

namespace Cfms.Files

open Access (Instant)
open Lib.Process

abbrev Bytes := List UInt8

/-! ### Exceptions -/

/-- The exceptions the handlers tell apart.  `FileTaskEnded` is a `ConnectionError`; the
`ConnectionClosed` of the websocket library is not. -/
inductive Failure
  | fileTaskEnded (status : FileTaskStatus)
  | connectionError
  | connectionClosed
  | timeoutError
  | resumableUploadSizeError
  | other
  deriving DecidableEq

/-! ### Calls -/

inductive Message
  | conclude (code : ℕ) (message : String)
  | transferFile (fileSize chunkSize : ℕ)
  | emptyFile
  | fileChunk (index : ℕ)
  | aesKey
  | transferComplete
  deriving DecidableEq

/-- What the transfer knows of an opened `ResumableUpload`. -/
structure OpenedUpload where
  offset : ℕ
  sessionId : Option String
  checkpointSize : Option ℕ
  checkpointData : Option String
  deriving DecidableEq

inductive ChunkSizeResult
  | missing
  | ended (status : FileTaskStatus)
  | conflict (chunkSize : ℕ)
  | ok (chunkSize : ℕ)
  deriving DecidableEq

inductive KeyResult
  | missing
  | ended (status : FileTaskStatus)
  | ok (key : String)
  deriving DecidableEq

inductive Op
  -- transactions
  | claimUpload
  | claimDownload
  | release
  | status
  | applyPreparation (preparation : UploadPreparation) (fileSize : ℕ) (sha256 : Option String)
  | recordStorageSession (upload : OpenedUpload)
  | clearProgress
  /-- `finalize_upload_task`, the hook inside the transaction and the commit. -/
  | finalize (sha256 : Option String) (size : ℕ)
  | complete
  /-- The commit of a transaction that has nothing to write. -/
  | commit
  | chunkSize (proposedChunkSize clientMaxChunkSize : ℕ)
  | encryptionKey (proposedKey : String)
  | updateFileSize (size : ℕ)
  -- the client
  | send (message : Message)
  /-- One wait for a frame; `none` when it timed out. -/
  | recv
  -- the clock and the cancellation event
  | checkDue
  | deadlinePassed
  -- the storage provider
  | abortResumableUpload (sessionId : String)
  | remove
  | makedirs
  | openUpload (fileSize chunkSize : ℕ) (priorSessionId : Option String)
  | write (data : Bytes)
  | finish
  | close
  | abort
  | getsize
  | storageSha256
  | openFile
  | seekable
  | seek (offset : ℕ)
  | read (chunkSize : ℕ)
  -- extensions
  | uploadCompletedHook
  deriving DecidableEq

@[reducible] def Op.Result : Op → Type
  | .claimUpload => Except FileTaskClaimFailure ClaimedFileTask
  | .claimDownload => Except FileTaskClaimFailure (ClaimedFileTask × Bool)
  | .release => Unit
  | .status => FileTaskStatus
  | .applyPreparation _ _ _ => Option FileTaskStatus
  | .recordStorageSession _ => Option FileTaskStatus
  | .clearProgress => Unit
  | .finalize _ _ => Option FileTaskStatus
  | .complete => Option FileTaskStatus
  | .commit => Unit
  | .chunkSize _ _ => ChunkSizeResult
  | .encryptionKey _ => KeyResult
  | .updateFileSize _ => Unit
  | .send _ => Unit
  | .recv => Option Bytes
  | .checkDue => Bool
  | .deadlinePassed => Bool
  | .abortResumableUpload _ => Unit
  | .remove => Unit
  | .makedirs => Unit
  | .openUpload _ _ _ => OpenedUpload
  | .write _ => Unit
  | .finish => Unit
  | .close => Unit
  | .abort => Unit
  | .getsize => ℕ
  | .storageSha256 => String
  | .openFile => Unit
  | .seekable => Bool
  | .seek _ => Unit
  | .read _ => Bytes
  | .uploadCompletedHook => Unit

/-- The calls of a transfer. -/
def transferSignature : Signature := ⟨Op, Op.Result⟩

abbrev Transfer (α : Type) := Proc transferSignature Failure α

def call (op : Op) : Transfer op.Result := @Proc.perform transferSignature Failure op

def concludeRequest (code : ℕ) (message : String) : Transfer Unit := call (.send (.conclude code message))

/-- `report_error`, to the client. -/
def reportError (context : String) : Transfer Unit := concludeRequest 500 context

/-- The settings of the server, the hash function, the key it draws for a download, and how long
the clock lets a run go on. -/
structure TransferConfig where
  fileChunkSize : ℕ
  sha256 : Bytes → String
  newKey : String
  polls : ℕ
  reads : ℕ

def negotiateFileChunkSize (clientMaxChunkSize configuredChunkSize hardMaxChunkSize : ℕ) : ℕ :=
  min clientMaxChunkSize (min configuredChunkSize hardMaxChunkSize)

def uploadTransferMaxChunkSize : ℕ := 64 * 1024

def downloadTransferMaxChunkSize : ℕ := 2 * 1024 * 1024

/-! ### Common steps -/

def ensureFileTaskActive : Transfer Unit := do
  let due : Bool ← call .checkDue
  if due then
    let status : FileTaskStatus ← call .status
    if status ≠ .inProgress then throw (.fileTaskEnded status)

def recvFileTaskFrame : ℕ → Transfer Bytes
  | 0 => throw .timeoutError
  | polls + 1 => do
    ensureFileTaskActive
    let passed : Bool ← call .deadlinePassed
    if passed then throw .timeoutError
    else
      match ← (call .recv : Transfer (Option Bytes)) with
      | some data => pure data
      | none => recvFileTaskFrame polls

def concludeFileTaskClaimFailure : FileTaskClaimFailure → Transfer Unit
  | .invalid => concludeRequest 46000 "Task cannot be claimed"
  | .inProgress => concludeRequest 46001 "Task is already in progress"
  | .completed => concludeRequest 46002 "Task is already completed"
  | .cancelled => concludeRequest 46003 "Task is cancelled"
  | .expired => concludeRequest 46004 "Task is expired"
  | .conflict => concludeRequest 46005 "Task claim conflicted with another request"

/-! ### Receiving a file -/

/-- `abort_resumable_upload`, if a session is stored. -/
def abortStoredSession : Option String → Transfer Unit
  | some sessionId => call (.abortResumableUpload sessionId)
  | none => pure ()

def discardUploadProgress (claimed : ClaimedFileTask) : Transfer Unit := do
  abortStoredSession claimed.uploadSessionId
  call .remove

/-- Close the upload; what cannot be resumed is thrown away. -/
def settleUpload (resumable : Bool) : Transfer Unit := do
  call .close
  if resumable then pure ()
  else do
    call .abort
    call .remove
    call .clearProgress

/-- The status a transaction reports, which must be `IN_PROGRESS`. -/
def requireInProgress : Option FileTaskStatus → Transfer Unit
  | none => throw .other
  | some status => if status = .inProgress then pure () else throw (.fileTaskEnded status)

/-- The `open_resumable_upload` of `_prepare_upload_transfer` with its handler. -/
def openUpload (fileSize : ℕ) (preparation : UploadPreparation) : Transfer (Option OpenedUpload) :=
  tryCatch
    (do
      let upload : OpenedUpload ←
        call (.openUpload fileSize preparation.chunkSize preparation.priorSessionId)
      pure (some upload))
    fun
      | .resumableUploadSizeError => do
        call .release
        concludeRequest 413 "File exceeds storage upload limits"
        pure none
      | failure => throw failure

def leaveUpload (preparation : UploadPreparation) : Transfer Unit :=
  if preparation.priorSessionId.isNone then call .abort else call .close

/-- The `record_upload_storage_session` transaction with its handler. -/
def recordStorageSession (preparation : UploadPreparation) (upload : OpenedUpload) : Transfer Unit :=
  tryCatch
    (do
      let status : (Option FileTaskStatus) ← call (.recordStorageSession upload)
      requireInProgress status)
    fun failure => do
      leaveUpload preparation
      throw failure

/-- The first step of a preparation that was planned. -/
def discardExisting (preparation : UploadPreparation) (claimed : ClaimedFileTask) : Transfer Unit :=
  if preparation.discardExisting then discardUploadProgress claimed else pure ()

variable (config : TransferConfig)

def prepareUploadTransfer (claimed : ClaimedFileTask) (fileSize : ℕ) (sha256 : Option String)
    (maxChunkSize : ℕ) (restart : Bool) : Transfer (Option (UploadPreparation × OpenedUpload)) :=
  match planUploadFileTask claimed fileSize sha256
      (negotiateFileChunkSize maxChunkSize config.fileChunkSize uploadTransferMaxChunkSize)
      maxChunkSize restart with
  | .error (.chunkSize _) => do
    concludeRequest 409 "Resume chunk size exceeds the client maximum"
    call .release
    pure none
  | .error (.metadata _ _ _) => do
    concludeRequest 409 "Upload metadata does not match the resumable task"
    call .release
    pure none
  | .ok preparation => do
    discardExisting preparation claimed
    let status : Option FileTaskStatus ← call (.applyPreparation preparation fileSize sha256)
    requireInProgress status
    call .makedirs
    match ← openUpload fileSize preparation with
    | none => pure none
    | some upload => do
      recordStorageSession preparation upload
      pure (some (preparation, upload))

/-- The answer to a chunk of the wrong size. -/
def refuseChunk (resumable : Bool) : Transfer Unit := do
  concludeRequest 400 "Invalid upload chunk size"
  settleUpload resumable
  call .release

/-- The loop of `_receive_upload_contents`; `hashed` is what the hasher has been fed.  A chunk has
at least one byte, so the bytes that remain bound the rounds. -/
def receiveChunks (config : TransferConfig) (preparation : UploadPreparation) (fileSize : ℕ)
    (hashing : Bool) : ℕ → ℕ → Bytes → Transfer (Option Bytes)
  | 0, _, hashed => pure (some hashed)
  | remaining + 1, receivedSize, hashed =>
    if receivedSize < fileSize then do
      let data ← recvFileTaskFrame config.polls
      if data.length ≠ min preparation.chunkSize (fileSize - receivedSize) then do
        refuseChunk preparation.resumable
        pure none
      else do
        call (.write data)
        receiveChunks config preparation fileSize hashing remaining (receivedSize + data.length)
          (if hashing then hashed ++ data else hashed)
    else pure (some hashed)

/-- The answer to a wrong digest. -/
def refuseDigest : Transfer Unit := do
  call .remove
  call .clearProgress
  concludeRequest 400 "SHA256 mismatch"
  call .release

/-- The digest of what was received, or of what is stored when the upload was resumed. -/
def uploadedSha256 (offset : ℕ) (hashed : Bytes) : Transfer String :=
  if offset = 0 then pure (config.sha256 hashed) else call .storageSha256

def receiveUploadContents (preparation : UploadPreparation) (upload : OpenedUpload) (fileSize : ℕ)
    (sha256 : Option String) : Transfer (Option ℕ) := do
  call (.send (.transferFile fileSize preparation.chunkSize))
  match ← receiveChunks config preparation fileSize (upload.offset == 0 && sha256.isSome)
      (fileSize - upload.offset) upload.offset [] with
  | none => pure none
  | some hashed => do
    call .finish
    let actualSize : ℕ ← call .getsize
    if actualSize ≠ fileSize then throw .other
    else
      match sha256 with
      | none => pure (some actualSize)
      | some declared => do
        let actual ← uploadedSha256 config upload.offset hashed
        if actual ≠ declared then do
          refuseDigest
          pure none
        else pure (some actualSize)

def finalizeUploadTransfer (actualSize fileSize : ℕ) (sha256 : Option String) : Transfer Unit := do
  match ← (call (.finalize sha256 actualSize) : Transfer (Option FileTaskStatus)) with
  | none => throw .other
  | some .completed => do
    concludeRequest 200 "File received successfully"
    -- the hook's own failure is logged and goes nowhere
    if fileSize = 0 then pure () else tryCatch (call .uploadCompletedHook) fun _ => pure ()
  | some _ => do
    call .remove
    concludeRequest 410 "Task ended"
    call .commit

/-- The handlers of `_receive_claimed_file`. -/
def receiveFailed (resumable : Bool) : Failure → Transfer Unit
  | .fileTaskEnded _ => do
    call .abort
    call .remove
    call .clearProgress
    let _ : FileTaskStatus ← call .status
    concludeRequest 410 "Task is no longer available"
  | .connectionError => do
    settleUpload resumable
    call .release
  | .timeoutError => do
    settleUpload resumable
    call .release
    concludeRequest 408 "File upload timed out"
  | _ => do
    settleUpload resumable
    call .release
    reportError "Error receiving file for task"

def receiveClaimedFile (claimed : ClaimedFileTask) (fileSize : ℕ) (sha256 : Option String)
    (maxChunkSize : ℕ) (restart : Bool) : Transfer Unit := do
  match ← prepareUploadTransfer config claimed fileSize sha256 maxChunkSize restart with
  | none => pure ()
  | some (preparation, upload) =>
    tryCatch
      (do
        match ← receiveUploadContents config preparation upload fileSize sha256 with
        | none => pure ()
        | some actualSize => finalizeUploadTransfer actualSize fileSize sha256)
      (receiveFailed preparation.resumable)

/-- The handlers of `receive_file`. -/
def uploadFailed (claimed : ClaimedFileTask) : Failure → Transfer Unit
  | .fileTaskEnded _ => do
    discardUploadProgress claimed
    concludeRequest 410 "Task is no longer available"
  | _ => do
    call .release
    reportError "Error preparing file upload for task"

def receiveFile (fileSize : ℕ) (sha256 : Option String) (maxChunkSize : ℕ) (restart : Bool) :
    Transfer Unit := do
  match ← (call .claimUpload : Transfer (Except FileTaskClaimFailure ClaimedFileTask)) with
  | .error failure => concludeFileTaskClaimFailure failure
  | .ok claimed =>
    tryCatch (receiveClaimedFile config claimed fileSize sha256 maxChunkSize restart)
      (uploadFailed claimed)

/-! ### Sending a file -/

/-- The end of a download the server refuses to go on with. -/
def refuseDownload (code : ℕ) (message : String) : Transfer Unit := do
  concludeRequest code message
  call .release

def correctFileSize (claimed : ClaimedFileTask) (fileSize : ℕ) : Transfer Unit :=
  if claimed.storedFileSize ≠ some fileSize then call (.updateFileSize fileSize) else pure ()

/-- `_prepare_download_transfer`; the size and the chunk size, or `none` after a refusal. -/
def prepareDownloadTransfer (claimed : ClaimedFileTask) (offset maxChunkSize : ℕ) :
    Transfer (Option (ℕ × ℕ)) := do
  let fileSize : ℕ ← call .getsize
  correctFileSize claimed fileSize
  match ← (call (.chunkSize (negotiateFileChunkSize maxChunkSize config.fileChunkSize
      downloadTransferMaxChunkSize) maxChunkSize) : Transfer ChunkSizeResult) with
  | .missing => throw .other
  | .ended status => throw (.fileTaskEnded status)
  | .conflict _ => do
    refuseDownload 409 "Resume chunk size exceeds the client maximum"
    pure none
  | .ok chunkSize =>
    if offset > fileSize then do
      refuseDownload 400 "Invalid offset: exceeds file size"
      pure none
    else if offset ≠ fileSize ∧ offset % chunkSize ≠ 0 then do
      refuseDownload 400 "Invalid offset: must be a multiple of chunk_size or zero"
      pure none
    else do
      call (.send (.transferFile fileSize chunkSize))
      let received ← recvFileTaskFrame config.polls
      if received ≠ "ready".toUTF8.toList then do
        refuseDownload 400 "Client not ready for file transfer"
        pure none
      else pure (some (fileSize, chunkSize))

/-- The wait for the client's confirmation. -/
def confirmCompletion : Transfer Bool := do
  let received ← recvFileTaskFrame config.polls
  if received ≠ "complete".toUTF8.toList then do
    refuseDownload 400 "Client did not confirm file completion"
    pure false
  else pure true

/-- The loop over the chunks of the file. -/
def sendChunks (chunkSize : ℕ) : ℕ → ℕ → Transfer Unit
  | 0, _ => pure ()
  | reads + 1, chunkIndex => do
    ensureFileTaskActive
    let chunk : Bytes ← call (.read chunkSize)
    if chunk = [] then pure ()
    else do
      call (.send (.fileChunk chunkIndex))
      sendChunks chunkSize reads (chunkIndex + 1)

def downloadKey (claimed : ClaimedFileTask) : Transfer Unit :=
  if claimed.encryptionKey.any (· != "") then pure ()
  else do
    match ← (call (.encryptionKey config.newKey) : Transfer KeyResult) with
    | .missing => throw .other
    | .ended status => throw (.fileTaskEnded status)
    | .ok _ => pure ()

/-- The file goes to the client in chunks, then the key. -/
def sendEncrypted (offset chunkSize : ℕ) : Transfer Bool := do
  sendChunks chunkSize config.reads (offset / chunkSize)
  call (.send .aesKey)
  confirmCompletion config

/-- The body of the `try` in `_send_download_contents`. -/
def sendFromOffset (offset chunkSize : ℕ) : Transfer Bool := do
  call .openFile
  if 0 < offset then do
    let seekable : Bool ← call .seekable
    if !seekable then do
      refuseDownload 400 "File is not seekable, cannot resume from non-zero offset"
      pure false
    else do
      call (.seek offset)
      sendEncrypted config offset chunkSize
  else sendEncrypted config offset chunkSize

/-- The handlers of `_send_download_contents`. -/
def sendFailed : Failure → Transfer Bool
  | .connectionClosed => do
    call .release
    pure false
  | .fileTaskEnded status => throw (.fileTaskEnded status)
  | _ => do
    call .release
    reportError "Error sending file"
    pure false

def sendDownloadContents (claimed : ClaimedFileTask) (offset fileSize chunkSize : ℕ) :
    Transfer Bool :=
  if fileSize = 0 then do
    call (.send .emptyFile)
    confirmCompletion config
  else do
    downloadKey config claimed
    tryCatch (sendFromOffset config offset chunkSize) sendFailed

/-- The completion of a download and the last message. -/
def completeDownload : Transfer Unit := do
  match ← (call .complete : Transfer (Option FileTaskStatus)) with
  | none => throw .other
  | some .completed => call (.send .transferComplete)
  | some _ => do
    concludeRequest 410 "Task ended"
    call .commit

def sendClaimedFile (claimed : ClaimedFileTask) (offset maxChunkSize : ℕ) :
    Transfer Unit := do
  match ← prepareDownloadTransfer config claimed offset maxChunkSize with
  | none => pure ()
  | some (fileSize, chunkSize) => do
    let sent ← sendDownloadContents config claimed offset fileSize chunkSize
    if sent then completeDownload else pure ()

/-- The handler of `send_file`. -/
def downloadFailed : Failure → Transfer Unit
  | .fileTaskEnded _ => concludeRequest 410 "Task is no longer available"
  | failure => throw failure

/-- `send_file`; the claim and the verdict of the transfer limits come from one transaction. -/
def sendFile (offset maxChunkSize : ℕ) : Transfer Unit := do
  match ← (call .claimDownload :
      Transfer (Except FileTaskClaimFailure (ClaimedFileTask × Bool))) with
  | .error failure => concludeFileTaskClaimFailure failure
  | .ok (_, false) =>
    concludeRequest 429 "Download transfer limit exceeded. Please try again later."
  | .ok (claimed, true) =>
    tryCatch (sendClaimedFile config claimed offset maxChunkSize) downloadFailed

/-! ### The calls a program makes -/

def Op.isClaim : Op → Bool
  | .claimUpload | .claimDownload => true
  | _ => false

/-- A call that neither takes the task nor gives it up. -/
def Op.isPlain : Op → Bool
  | .claimUpload | .claimDownload | .release | .finalize _ _ => false
  | _ => true

section

variable {P : Op → Prop} {config : TransferConfig} {claimed : ClaimedFileTask}
  {preparation : UploadPreparation}

theorem onlyCalls_call {op : Op} (h : P op) : OnlyCalls P (call op) :=
  @onlyCalls_perform transferSignature Failure P op h

variable (hplain : ∀ op, op.isPlain = true → P op)

include hplain

theorem onlyCalls_concludeRequest (code : ℕ) (message : String) :
    OnlyCalls P (concludeRequest code message) :=
  onlyCalls_call (hplain (.send _) rfl)

theorem onlyCalls_ensureFileTaskActive : OnlyCalls P ensureFileTaskActive := by
  refine (onlyCalls_call (hplain .checkDue rfl)).bind ?_
  intro due
  split
  · refine (onlyCalls_call (hplain .status rfl)).bind ?_
    intro status
    split
    · exact onlyCalls_throw
    · exact onlyCalls_pure
  · exact onlyCalls_pure

theorem onlyCalls_recvFileTaskFrame (polls : ℕ) : OnlyCalls P (recvFileTaskFrame polls) := by
  induction polls with
  | zero => exact onlyCalls_throw
  | succ polls ih =>
    refine (onlyCalls_ensureFileTaskActive hplain).bind fun _ => ?_
    refine (onlyCalls_call (hplain .deadlinePassed rfl)).bind ?_
    intro passed
    split
    · exact onlyCalls_throw
    refine (onlyCalls_call (hplain .recv rfl)).bind ?_
    intro received
    cases received with
    | none => exact ih
    | some data => exact onlyCalls_pure

theorem onlyCalls_concludeFileTaskClaimFailure (err : FileTaskClaimFailure) :
    OnlyCalls P (concludeFileTaskClaimFailure err) := by
  cases err <;> exact onlyCalls_concludeRequest hplain _ _

theorem onlyCalls_discardUploadProgress : OnlyCalls P (discardUploadProgress claimed) := by
  refine OnlyCalls.bind ?_ fun _ => onlyCalls_call (hplain .remove rfl)
  cases claimed.uploadSessionId with
  | some sessionId => exact onlyCalls_call (hplain (.abortResumableUpload sessionId) rfl)
  | none => exact onlyCalls_pure

theorem onlyCalls_discardExisting : OnlyCalls P (discardExisting preparation claimed) := by
  unfold discardExisting
  split
  · exact onlyCalls_discardUploadProgress hplain
  · exact onlyCalls_pure

theorem onlyCalls_settleUpload (resumable : Bool) : OnlyCalls P (settleUpload resumable) := by
  refine (onlyCalls_call (hplain .close rfl)).bind fun _ => ?_
  split
  · exact onlyCalls_pure
  refine (onlyCalls_call (hplain .abort rfl)).bind fun _ => ?_
  refine (onlyCalls_call (hplain .remove rfl)).bind fun _ => ?_
  exact onlyCalls_call (hplain .clearProgress rfl)

omit hplain in
theorem onlyCalls_requireInProgress (status : Option FileTaskStatus) :
    OnlyCalls P (requireInProgress status) := by
  cases status with
  | none => exact onlyCalls_throw
  | some status =>
    rw [requireInProgress]
    split
    · exact onlyCalls_pure
    · exact onlyCalls_throw

theorem onlyCalls_recordStorageSession (upload : OpenedUpload) :
    OnlyCalls P (recordStorageSession preparation upload) := by
  refine OnlyCalls.tryCatch ?_ ?_
  · refine (onlyCalls_call (hplain (.recordStorageSession upload) rfl)).bind ?_
    intro status
    exact onlyCalls_requireInProgress status
  · intro err
    refine OnlyCalls.bind ?_ fun _ => onlyCalls_throw
    unfold leaveUpload
    split
    · exact onlyCalls_call (hplain .abort rfl)
    · exact onlyCalls_call (hplain .close rfl)

theorem onlyCalls_uploadedSha256 (offset : ℕ) (hashed : Bytes) :
    OnlyCalls P (uploadedSha256 config offset hashed) := by
  rw [uploadedSha256]
  split
  · exact onlyCalls_pure
  · exact onlyCalls_call (hplain .storageSha256 rfl)

theorem onlyCalls_finalizeUploadTransfer (hfinalize : ∀ sha256 size, P (.finalize sha256 size))
    (actualSize fileSize : ℕ) (sha256 : Option String) :
    OnlyCalls P (finalizeUploadTransfer actualSize fileSize sha256) := by
  refine (onlyCalls_call (hfinalize sha256 actualSize)).bind ?_
  intro status
  split
  · exact onlyCalls_throw
  · refine (onlyCalls_concludeRequest hplain _ _).bind fun _ => ?_
    split
    · exact onlyCalls_pure
    · exact (onlyCalls_call (hplain .uploadCompletedHook rfl)).tryCatch fun _ => onlyCalls_pure
  · refine (onlyCalls_call (hplain .remove rfl)).bind fun _ => ?_
    refine (onlyCalls_concludeRequest hplain _ _).bind fun _ => ?_
    exact onlyCalls_call (hplain .commit rfl)

theorem onlyCalls_correctFileSize (fileSize : ℕ) :
    OnlyCalls P (correctFileSize claimed fileSize) := by
  unfold correctFileSize
  split
  · exact onlyCalls_call (hplain (.updateFileSize fileSize) rfl)
  · exact onlyCalls_pure

theorem onlyCalls_sendChunks (chunkSize reads chunkIndex : ℕ) :
    OnlyCalls P (sendChunks chunkSize reads chunkIndex) := by
  induction reads generalizing chunkIndex with
  | zero => exact onlyCalls_pure
  | succ reads ih =>
    refine (onlyCalls_ensureFileTaskActive hplain).bind fun _ => ?_
    refine (onlyCalls_call (hplain (.read chunkSize) rfl)).bind ?_
    intro chunk
    split
    · exact onlyCalls_pure
    · exact (onlyCalls_call (hplain (.send _) rfl)).bind fun _ => ih (chunkIndex + 1)

theorem onlyCalls_downloadKey : OnlyCalls P (downloadKey config claimed) := by
  unfold downloadKey
  split
  · exact onlyCalls_pure
  refine (onlyCalls_call (hplain (.encryptionKey _) rfl)).bind ?_
  intro key
  cases key with
  | missing | ended status => exact onlyCalls_throw
  | ok key => exact onlyCalls_pure

theorem onlyCalls_completeDownload : OnlyCalls P completeDownload := by
  refine (onlyCalls_call (hplain .complete rfl)).bind ?_
  intro status
  split
  · exact onlyCalls_throw
  · exact onlyCalls_call (hplain (.send _) rfl)
  · exact (onlyCalls_concludeRequest hplain _ _).bind fun _ => onlyCalls_call (hplain .commit rfl)

section

variable (hrel : P .release)

include hrel

theorem onlyCalls_refuseChunk (resumable : Bool) : OnlyCalls P (refuseChunk resumable) := by
  refine (onlyCalls_concludeRequest hplain _ _).bind fun _ => ?_
  exact (onlyCalls_settleUpload hplain resumable).bind fun _ => onlyCalls_call hrel

theorem onlyCalls_refuseDigest : OnlyCalls P refuseDigest := by
  refine (onlyCalls_call (hplain .remove rfl)).bind fun _ => ?_
  refine (onlyCalls_call (hplain .clearProgress rfl)).bind fun _ => ?_
  exact (onlyCalls_concludeRequest hplain _ _).bind fun _ => onlyCalls_call hrel

theorem onlyCalls_receiveChunks (fileSize : ℕ) (hashing : Bool) (remaining receivedSize : ℕ)
    (hashed : Bytes) :
    OnlyCalls P
      (receiveChunks config preparation fileSize hashing remaining receivedSize hashed) := by
  induction remaining generalizing receivedSize hashed with
  | zero => exact onlyCalls_pure
  | succ remaining ih =>
    rw [receiveChunks]
    split
    · refine (onlyCalls_recvFileTaskFrame hplain config.polls).bind ?_
      intro data
      split
      · exact (onlyCalls_refuseChunk hplain hrel _).bind fun _ => onlyCalls_pure
      · exact (onlyCalls_call (hplain (.write data) rfl)).bind fun _ => ih _ _
    · exact onlyCalls_pure

theorem onlyCalls_receiveUploadContents (upload : OpenedUpload) (fileSize : ℕ)
    (sha256 : Option String) :
    OnlyCalls P (receiveUploadContents config preparation upload fileSize sha256) := by
  refine (onlyCalls_call (hplain (.send _) rfl)).bind fun _ => ?_
  refine (onlyCalls_receiveChunks hplain hrel _ _ _ _ _).bind ?_
  intro received
  cases received with
  | none => exact onlyCalls_pure
  | some hashed =>
    refine (onlyCalls_call (hplain .finish rfl)).bind fun _ => ?_
    refine (onlyCalls_call (hplain .getsize rfl)).bind ?_
    intro actualSize
    split
    · exact onlyCalls_throw
    cases sha256 with
    | none => exact onlyCalls_pure
    | some declared =>
      refine (onlyCalls_uploadedSha256 hplain _ _).bind ?_
      intro actual
      split
      · exact (onlyCalls_refuseDigest hplain hrel).bind fun _ => onlyCalls_pure
      · exact onlyCalls_pure

theorem onlyCalls_receiveFailed (resumable : Bool) (err : Failure) :
    OnlyCalls P (receiveFailed resumable err) := by
  unfold receiveFailed
  split
  · refine (onlyCalls_call (hplain .abort rfl)).bind fun _ => ?_
    refine (onlyCalls_call (hplain .remove rfl)).bind fun _ => ?_
    refine (onlyCalls_call (hplain .clearProgress rfl)).bind fun _ => ?_
    refine (onlyCalls_call (hplain .status rfl)).bind fun _ => ?_
    exact onlyCalls_concludeRequest hplain _ _
  · exact (onlyCalls_settleUpload hplain resumable).bind fun _ => onlyCalls_call hrel
  all_goals
    refine (onlyCalls_settleUpload hplain resumable).bind fun _ => ?_
    exact (onlyCalls_call hrel).bind fun _ => onlyCalls_concludeRequest hplain _ _

theorem onlyCalls_uploadFailed (err : Failure) : OnlyCalls P (uploadFailed claimed err) := by
  unfold uploadFailed
  split
  · exact (onlyCalls_discardUploadProgress hplain).bind fun _ => onlyCalls_concludeRequest hplain _ _
  · exact (onlyCalls_call hrel).bind fun _ => onlyCalls_concludeRequest hplain _ _

end

end

/-! ### What the transactions do -/

structure Rows where
  task : FileTask
  file : StoredFile
  deriving DecidableEq

/-- The moment of a transaction, the upload policy, and the verdict of the transfer limits. -/
structure Moment where
  policy : UploadPolicy
  now : Instant
  limitAllows : Bool

/-- A transaction that commits: its result and the rows it leaves. -/
def transact (moment : Moment) (rows : Rows) : (op : Op) → Option (op.Result × Rows)
  | .claimUpload =>
    let outcome := claimFileTask moment.policy rows.task rows.file .upload moment.now
    some (outcome.1, { rows with task := outcome.2 })
  | .claimDownload =>
    let outcome := claimDownloadTask moment.policy rows.task rows.file moment.now moment.limitAllows
    some (outcome.1, { rows with task := outcome.2 })
  | .release => some ((), { rows with task := releaseFileTask rows.task moment.now })
  | .status =>
    some ((expireFileTaskIfDue rows.task moment.now).status,
      { rows with task := expireFileTaskIfDue rows.task moment.now })
  | .applyPreparation preparation fileSize sha256 =>
    some (some rows.task.status,
      { rows with task := applyUploadFileTaskPreparation rows.task preparation fileSize sha256 })
  | .recordStorageSession upload =>
    some (some rows.task.status,
      { rows with
        task := recordUploadStorageSession rows.task upload.sessionId upload.checkpointSize
          upload.checkpointData })
  | .clearProgress => some ((), { rows with task := clearUploadProgress rows.task })
  | .finalize sha256 size =>
    let outcome := finalizeUploadTask rows.task rows.file sha256 size
    some (some outcome.1.status, ⟨outcome.1, outcome.2⟩)
  | .complete =>
    some (some (completeFileTask rows.task).status, { rows with task := completeFileTask rows.task })
  | .commit => some ((), rows)
  | .chunkSize proposedChunkSize clientMaxChunkSize =>
    if rows.task.status != .inProgress then some (.ended rows.task.status, rows)
    else
      match getOrSetFileTaskChunkSize rows.task proposedChunkSize clientMaxChunkSize with
      | (.ok chunkSize, task) => some (.ok chunkSize, { rows with task := task })
      | (.error chunkSize, _) => some (.conflict chunkSize, rows)
  | .encryptionKey proposedKey =>
    if rows.task.status != .inProgress then some (.ended rows.task.status, rows)
    else
      let outcome := getOrSetDownloadEncryptionKey rows.task proposedKey
      some (.ok outcome.1, { rows with task := outcome.2 })
  | .updateFileSize size => some ((), { rows with file := { rows.file with size := some size } })
  | _ => none

/-- A call that reads or writes the task. -/
def Op.isTaskTransaction : Op → Bool
  | .claimUpload | .claimDownload | .release | .status | .applyPreparation _ _ _
  | .recordStorageSession _ | .clearProgress | .finalize _ _ | .complete | .commit | .chunkSize _ _
  | .encryptionKey _ => true
  | _ => false

end Cfms.Files
