import Cfms.Files.Transfer

/-!
# The owner of a file task

Any number of connections run `send_file` or `receive_file` on one task, interleaved call by call
with each other, with expiry and with cancellation.  A claim carries no owner, so that a task has
one owner rests on the discipline of the programs: a connection releases at most once, and makes
no further transaction on the task after it.

The programs keep this discipline on every path except one.  When the message to the client after
a release raises, the outer handler of `receive_file` releases again, and by then another
connection may have claimed the task.
-/

namespace Cfms.Files

open Function

open Access (Instant)
open Lib.Process Lib.Run

/-! ### The discipline of one connection -/

/-- Where a connection stands with the task. -/
inductive Phase
  | idle
  | holding
  | released
  deriving DecidableEq

def Op.endsClaim : Op → Bool
  | .release | .complete | .finalize _ _ => true
  | _ => false

/-- The phase after an answered call. -/
def nextPhase : Phase → (op : Op) → Except Failure op.Result → Phase
  | .idle, .claimUpload, .ok (.ok _) => .holding
  | .idle, .claimDownload, .ok (.ok (_, true)) => .holding
  | .holding, .release, .ok _ => .released
  | phase, _, _ => phase

/-- What a disciplined connection may call. -/
def phaseAllows : Phase → Op → Bool
  | .idle, op => op.isClaim || !op.isTaskTransaction
  | .holding, op => !op.isClaim
  | .released, op => !op.isTaskTransaction

/-- A message after the release that raises. -/
def lateSendFails : Phase → (op : Op) → Except Failure op.Result → Bool
  | .released, .send _, .error _ => true
  | _, _, _ => false

/-- Calls are answered in any way, except that no message after the release raises. -/
def ownershipMachine : Machine transferSignature Failure Phase where
  allowed phase op := phaseAllows phase op = true
  answers phase op r phase' := phase' = nextPhase phase op r ∧ lateSendFails phase op r = false

section

variable {α β : Type} {Q : Except Failure α → Phase → Prop}

theorem wp_release_holding {Q : Except Failure Unit → Phase → Prop}
    (herror : ∀ e, Q (.error e) .holding) (hok : Q (.ok ()) .released) :
    wp ownershipMachine (call .release) Q .holding := by
  refine ⟨rfl, ?_⟩
  rintro r phase ⟨rfl, -⟩
  cases r with
  | ok _ => exact hok
  | error e => exact herror e

variable {message : Message}

theorem wp_send_released {Q : Except Failure Unit → Phase → Prop}
    (hok : Q (.ok ()) .released) : wp ownershipMachine (call (.send message)) Q .released := by
  refine ⟨rfl, ?_⟩
  rintro r phase ⟨rfl, hlate⟩
  cases r with
  | ok _ => exact hok
  | error e => cases hlate

/-- A call of the owner that is not its release. -/
def Op.keepsTask (op : Op) : Prop := op.isClaim = false ∧ op ≠ .release

theorem Op.keepsTask_of_isPlain : ∀ op : Op, op.isPlain = true → op.keepsTask := by
  intro op h
  refine ⟨?_, ?_⟩
  · cases op <;> first | rfl | cases h
  · rintro rfl
    cases h

/-- The program neither claims nor releases. -/
structure Neutral (p : Transfer α) : Prop where
  onlyCalls : OnlyCalls Op.keepsTask p

variable {p : Transfer α}

theorem wp_of_neutral (hp : Neutral p) (h : ∀ r, Q r .holding) :
    wp ownershipMachine p Q .holding := by
  refine hp.onlyCalls.wp ?_ h
  rintro op ⟨hclaim, hrel⟩
  refine ⟨?_, ?_⟩
  · show (!op.isClaim) = true
    rw [hclaim]
    rfl
  · rintro r phase ⟨rfl, -⟩
    show nextPhase .holding op r = .holding
    unfold nextPhase
    split
    · cases hclaim
    · cases hclaim
    · exact absurd rfl hrel
    · rfl

theorem neutral_pure {a : α} : Neutral (pure a : Transfer α) := ⟨onlyCalls_pure⟩

theorem neutral_throw {e : Failure} : Neutral (throw e : Transfer α) := ⟨onlyCalls_throw⟩

theorem neutral_call (op : Op) (h : op.isPlain = true) : Neutral (call op) :=
  ⟨onlyCalls_call (Op.keepsTask_of_isPlain op h)⟩

variable {f : α → Transfer β}

theorem Neutral.bind (hp : Neutral p) (hf : ∀ a, Neutral (f a)) : Neutral (p >>= f) :=
  ⟨hp.onlyCalls.bind fun a => (hf a).onlyCalls⟩

/-- Whatever happens the connection still owns the task, or it has released it and stops with the
given value. -/
def EndsWith (stop : α) (r : Except Failure α) (phase : Phase) : Prop :=
  phase = .holding ∨ (phase = .released ∧ r = .ok stop)

/-- A program that only makes plain calls keeps the task. -/
theorem Neutral.endsWith (hp : Neutral p) (stop : α) :
    wp ownershipMachine p (EndsWith stop) .holding := wp_of_neutral hp fun _ => Or.inl rfl

theorem wp_release_endsWith : wp ownershipMachine (call .release) (EndsWith ()) .holding :=
  wp_release_holding (fun _ => Or.inl rfl) (Or.inr ⟨rfl, rfl⟩)

variable {stop : α}

/-- Either the first program stops having released the task, or the second one goes on with it. -/
theorem wp_bind_endsWith {stop' : β} (hp : wp ownershipMachine p (EndsWith stop) .holding)
    (hhold : ∀ a, wp ownershipMachine (f a) (EndsWith stop') .holding)
    (hreleased : wp ownershipMachine (f stop) (EndsWith stop') .released) :
    wp ownershipMachine (p >>= f) (EndsWith stop') .holding := by
  rw [wp_bind]
  refine wp_mono ?_ hp
  rintro r phase (rfl | ⟨rfl, rfl⟩)
  · cases r with
    | ok a => exact hhold a
    | error e => exact Or.inl rfl
  · exact hreleased

theorem Neutral.bind_endsWith {stop : β} (hp : Neutral p)
    (hf : ∀ a, wp ownershipMachine (f a) (EndsWith stop) .holding) :
    wp ownershipMachine (p >>= f) (EndsWith stop) .holding := by
  rw [wp_bind]
  refine wp_of_neutral hp ?_
  intro r
  cases r with
  | ok a => exact hf a
  | error e => exact Or.inl rfl

/-- A handler takes over with the task still held. -/
theorem wp_tryCatch_endsWith {handler : Failure → Transfer α}
    (hp : wp ownershipMachine p (EndsWith stop) .holding)
    (hhand : ∀ e, wp ownershipMachine (handler e) (EndsWith stop) .holding) :
    wp ownershipMachine (tryCatch p handler) (EndsWith stop) .holding := by
  rw [wp_tryCatch]
  refine wp_mono ?_ hp
  rintro r phase (rfl | ⟨rfl, rfl⟩)
  · cases r with
    | ok a => exact Or.inl rfl
    | error e => exact hhand e
  · exact Or.inr ⟨rfl, rfl⟩

theorem wp_release_send_endsWith :
    wp ownershipMachine (call .release >>= fun _ => call (.send message)) (EndsWith ()) .holding :=
  wp_bind_endsWith wp_release_endsWith
    (fun _ => (neutral_call (.send message) rfl).endsWith ())
    (wp_send_released (Or.inr ⟨rfl, rfl⟩))

end

/-! ### The programs keep the discipline -/

section

variable {config : TransferConfig} {claimed : ClaimedFileTask} {prep : UploadPreparation}

theorem neutral_concludeRequest (code : ℕ) (message : String) :
    Neutral (concludeRequest code message) :=
  ⟨onlyCalls_concludeRequest Op.keepsTask_of_isPlain code message⟩

theorem neutral_recvFileTaskFrame (polls : ℕ) : Neutral (recvFileTaskFrame polls) :=
  ⟨onlyCalls_recvFileTaskFrame Op.keepsTask_of_isPlain polls⟩

theorem neutral_discardUploadProgress : Neutral (discardUploadProgress claimed) :=
  ⟨onlyCalls_discardUploadProgress Op.keepsTask_of_isPlain⟩

theorem neutral_settleUpload (resumable : Bool) : Neutral (settleUpload resumable) :=
  ⟨onlyCalls_settleUpload Op.keepsTask_of_isPlain resumable⟩

theorem neutral_discardExisting : Neutral (discardExisting prep claimed) :=
  ⟨onlyCalls_discardExisting Op.keepsTask_of_isPlain⟩

theorem neutral_requireInProgress (status : Option FileTaskStatus) :
    Neutral (requireInProgress status) :=
  ⟨onlyCalls_requireInProgress status⟩

theorem neutral_recordStorageSession (upload : OpenedUpload) :
    Neutral (recordStorageSession prep upload) :=
  ⟨onlyCalls_recordStorageSession Op.keepsTask_of_isPlain upload⟩

/-- An upload that cannot be opened is released and answered. -/
theorem wp_openUpload (fileSize : ℕ) :
    wp ownershipMachine (openUpload fileSize prep) (EndsWith none) .holding := by
  refine wp_tryCatch_endsWith ?_ ?_
  · exact ((neutral_call (.openUpload _ _ _) rfl).bind fun _ => neutral_pure).endsWith none
  intro err
  cases err with
  | resumableUploadSizeError =>
    refine wp_bind_endsWith wp_release_endsWith ?_ ?_
    · intro _
      exact ((neutral_concludeRequest _ _).bind fun _ => neutral_pure).endsWith none
    · rw [wp_bind]
      exact wp_send_released (Or.inr ⟨rfl, rfl⟩)
  | _ => exact neutral_throw.endsWith none

variable {α : Type}

theorem wp_conclude_release (code : ℕ) (message : String) (stop : α) :
    wp ownershipMachine (do concludeRequest code message; call .release; pure stop) (EndsWith stop)
      .holding := by
  refine (neutral_concludeRequest code message).bind_endsWith ?_
  intro _
  exact wp_bind_endsWith wp_release_endsWith (fun _ => neutral_pure.endsWith stop)
    (Or.inr ⟨rfl, rfl⟩)

/-- The preparation goes on with the task, or has released it. -/
theorem wp_prepareUploadTransfer (fileSize : ℕ) (sha256 : Option String) (maxChunkSize : ℕ)
    (restart : Bool) :
    wp ownershipMachine (prepareUploadTransfer config claimed fileSize sha256 maxChunkSize restart)
      (EndsWith none) .holding := by
  unfold prepareUploadTransfer
  split
  · exact wp_conclude_release _ _ none
  · exact wp_conclude_release _ _ none
  rename_i prep _
  refine neutral_discardExisting.bind_endsWith fun _ => ?_
  refine (neutral_call (.applyPreparation _ _ _) rfl).bind_endsWith ?_
  intro status
  refine (neutral_requireInProgress status).bind_endsWith fun _ => ?_
  refine (neutral_call .makedirs rfl).bind_endsWith fun _ => ?_
  refine wp_bind_endsWith (wp_openUpload fileSize) ?_ (Or.inr ⟨rfl, rfl⟩)
  intro opened
  cases opened with
  | none => exact neutral_pure.endsWith none
  | some upload =>
    exact ((neutral_recordStorageSession upload).bind fun _ => neutral_pure).endsWith none

theorem wp_refuseChunk (resumable : Bool) :
    wp ownershipMachine (refuseChunk resumable) (EndsWith ()) .holding := by
  refine (neutral_concludeRequest _ _).bind_endsWith fun _ => ?_
  exact (neutral_settleUpload resumable).bind_endsWith fun _ => wp_release_endsWith

theorem wp_refuseDigest : wp ownershipMachine refuseDigest (EndsWith ()) .holding := by
  refine (neutral_call .remove rfl).bind_endsWith fun _ => ?_
  refine (neutral_call .clearProgress rfl).bind_endsWith fun _ => ?_
  exact (neutral_concludeRequest _ _).bind_endsWith fun _ => wp_release_endsWith

/-- The loop of an upload, by induction on the bytes that are missing. -/
theorem wp_receiveChunks (fileSize : ℕ) (hashing : Bool) (remaining receivedSize : ℕ)
    (hashed : Bytes) :
    wp ownershipMachine (receiveChunks config prep fileSize hashing remaining receivedSize hashed)
      (EndsWith none) .holding := by
  induction remaining generalizing receivedSize hashed with
  | zero => exact neutral_pure.endsWith none
  | succ remaining ih =>
    rw [receiveChunks]
    split
    · refine (neutral_recvFileTaskFrame config.polls).bind_endsWith ?_
      intro data
      split
      · exact wp_bind_endsWith (wp_refuseChunk _) (fun _ => neutral_pure.endsWith none)
          (Or.inr ⟨rfl, rfl⟩)
      · exact (neutral_call (.write data) rfl).bind_endsWith fun _ => ih _ _
    · exact neutral_pure.endsWith none

theorem neutral_uploadedSha256 (offset : ℕ) (hashed : Bytes) :
    Neutral (uploadedSha256 config offset hashed) :=
  ⟨onlyCalls_uploadedSha256 Op.keepsTask_of_isPlain offset hashed⟩

theorem wp_receiveUploadContents (upload : OpenedUpload) (fileSize : ℕ) (sha256 : Option String) :
    wp ownershipMachine (receiveUploadContents config prep upload fileSize sha256)
      (EndsWith none) .holding := by
  refine (neutral_call (.send _) rfl).bind_endsWith fun _ => ?_
  refine wp_bind_endsWith (wp_receiveChunks _ _ _ _ _) ?_ (Or.inr ⟨rfl, rfl⟩)
  intro received
  cases received with
  | none => exact neutral_pure.endsWith none
  | some hashed =>
    refine (neutral_call .finish rfl).bind_endsWith fun _ => ?_
    refine (neutral_call .getsize rfl).bind_endsWith ?_
    intro actualSize
    split
    · exact neutral_throw.endsWith none
    cases sha256 with
    | none => exact neutral_pure.endsWith none
    | some declared =>
      refine (neutral_uploadedSha256 _ _).bind_endsWith ?_
      intro actual
      split
      · exact wp_bind_endsWith wp_refuseDigest (fun _ => neutral_pure.endsWith none)
          (Or.inr ⟨rfl, rfl⟩)
      · exact neutral_pure.endsWith none

theorem neutral_finalizeUploadTransfer (actualSize fileSize : ℕ) (sha256 : Option String) :
    Neutral (finalizeUploadTransfer actualSize fileSize sha256) :=
  ⟨onlyCalls_finalizeUploadTransfer Op.keepsTask_of_isPlain (fun _ _ => ⟨rfl, nofun⟩) actualSize
    fileSize sha256⟩

theorem wp_receiveFailed (resumable : Bool) (err : Failure) :
    wp ownershipMachine (receiveFailed resumable err) (EndsWith ()) .holding := by
  unfold receiveFailed
  split
  · refine Neutral.endsWith ?_ ()
    refine (neutral_call .abort rfl).bind fun _ => ?_
    refine (neutral_call .remove rfl).bind fun _ => ?_
    refine (neutral_call .clearProgress rfl).bind fun _ => ?_
    exact (neutral_call .status rfl).bind fun _ => neutral_concludeRequest _ _
  · exact (neutral_settleUpload resumable).bind_endsWith fun _ => wp_release_endsWith
  all_goals
    exact (neutral_settleUpload resumable).bind_endsWith fun _ => wp_release_send_endsWith

/-- A claimed upload still has its task, or has released it and stops. -/
theorem wp_receiveClaimedFile (fileSize : ℕ) (sha256 : Option String) (maxChunkSize : ℕ)
    (restart : Bool) :
    wp ownershipMachine (receiveClaimedFile config claimed fileSize sha256 maxChunkSize restart)
      (EndsWith ()) .holding := by
  refine wp_bind_endsWith (wp_prepareUploadTransfer _ _ _ _) ?_ (Or.inr ⟨rfl, rfl⟩)
  intro prepared
  cases prepared with
  | none => exact neutral_pure.endsWith ()
  | some prepared =>
    refine wp_tryCatch_endsWith ?_ (wp_receiveFailed _)
    refine wp_bind_endsWith (wp_receiveUploadContents _ _ _) ?_ (Or.inr ⟨rfl, rfl⟩)
    intro actualSize
    cases actualSize with
    | none => exact neutral_pure.endsWith ()
    | some actualSize => exact (neutral_finalizeUploadTransfer _ _ _).endsWith ()

theorem wp_refuseDownload (code : ℕ) (message : String) :
    wp ownershipMachine (refuseDownload code message) (EndsWith ()) .holding :=
  (neutral_concludeRequest code message).bind_endsWith fun _ => wp_release_endsWith

theorem wp_refuseDownload_stop (code : ℕ) (message : String) (stop : α) :
    wp ownershipMachine (do refuseDownload code message; pure stop) (EndsWith stop) .holding :=
  wp_bind_endsWith (wp_refuseDownload code message) (fun _ => neutral_pure.endsWith stop)
    (Or.inr ⟨rfl, rfl⟩)

theorem neutral_correctFileSize (fileSize : ℕ) : Neutral (correctFileSize claimed fileSize) :=
  ⟨onlyCalls_correctFileSize Op.keepsTask_of_isPlain fileSize⟩

theorem wp_prepareDownloadTransfer (offset maxChunkSize : ℕ) :
    wp ownershipMachine (prepareDownloadTransfer config claimed offset maxChunkSize)
      (EndsWith none) .holding := by
  refine (neutral_call .getsize rfl).bind_endsWith ?_
  intro fileSize
  refine (neutral_correctFileSize fileSize).bind_endsWith fun _ => ?_
  refine (neutral_call (.chunkSize _ _) rfl).bind_endsWith ?_
  intro result
  cases result with
  | missing | ended status => exact neutral_throw.endsWith none
  | conflict _ => exact wp_refuseDownload_stop _ _ none
  | ok chunkSize =>
    dsimp only
    split
    · exact wp_refuseDownload_stop _ _ none
    split
    · exact wp_refuseDownload_stop _ _ none
    refine (neutral_call (.send _) rfl).bind_endsWith fun _ => ?_
    refine (neutral_recvFileTaskFrame config.polls).bind_endsWith ?_
    intro received
    split
    · exact wp_refuseDownload_stop _ _ none
    · exact neutral_pure.endsWith none

theorem wp_confirmCompletion :
    wp ownershipMachine (confirmCompletion config) (EndsWith false) .holding := by
  refine (neutral_recvFileTaskFrame config.polls).bind_endsWith ?_
  intro received
  split
  · exact wp_refuseDownload_stop _ _ false
  · exact neutral_pure.endsWith false

theorem neutral_sendChunks (chunkSize reads chunkIndex : ℕ) :
    Neutral (sendChunks chunkSize reads chunkIndex) :=
  ⟨onlyCalls_sendChunks Op.keepsTask_of_isPlain chunkSize reads chunkIndex⟩

theorem neutral_downloadKey : Neutral (downloadKey config claimed) :=
  ⟨onlyCalls_downloadKey Op.keepsTask_of_isPlain⟩

theorem wp_sendEncrypted (offset chunkSize : ℕ) :
    wp ownershipMachine (sendEncrypted config offset chunkSize) (EndsWith false) .holding := by
  refine (neutral_sendChunks _ _ _).bind_endsWith fun _ => ?_
  exact (neutral_call (.send _) rfl).bind_endsWith fun _ => wp_confirmCompletion

theorem wp_sendFromOffset (offset chunkSize : ℕ) :
    wp ownershipMachine (sendFromOffset config offset chunkSize) (EndsWith false) .holding := by
  refine (neutral_call .openFile rfl).bind_endsWith fun _ => ?_
  split
  · refine (neutral_call .seekable rfl).bind_endsWith ?_
    intro seekable
    split
    · exact wp_refuseDownload_stop _ _ false
    · exact (neutral_call (.seek offset) rfl).bind_endsWith fun _ => wp_sendEncrypted _ _
  · exact wp_sendEncrypted _ _

theorem wp_sendFailed (err : Failure) :
    wp ownershipMachine (sendFailed err) (EndsWith false) .holding := by
  unfold sendFailed
  split
  · exact wp_bind_endsWith wp_release_endsWith (fun _ => neutral_pure.endsWith false)
      (Or.inr ⟨rfl, rfl⟩)
  · exact neutral_throw.endsWith false
  refine wp_bind_endsWith wp_release_endsWith ?_ ?_
  · intro _
    exact ((neutral_concludeRequest _ _).bind fun _ => neutral_pure).endsWith false
  · rw [wp_bind]
    exact wp_send_released (Or.inr ⟨rfl, rfl⟩)

theorem wp_sendDownloadContents (offset fileSize chunkSize : ℕ) :
    wp ownershipMachine (sendDownloadContents config claimed offset fileSize chunkSize)
      (EndsWith false) .holding := by
  unfold sendDownloadContents
  split
  · exact (neutral_call (.send _) rfl).bind_endsWith fun _ => wp_confirmCompletion
  · refine neutral_downloadKey.bind_endsWith fun _ => ?_
    exact wp_tryCatch_endsWith (wp_sendFromOffset _ _) wp_sendFailed

theorem neutral_completeDownload : Neutral completeDownload :=
  ⟨onlyCalls_completeDownload Op.keepsTask_of_isPlain⟩

/-- A claimed download still has its task, or has released it and stops. -/
theorem wp_sendClaimedFile (offset maxChunkSize : ℕ) :
    wp ownershipMachine (sendClaimedFile config claimed offset maxChunkSize) (EndsWith ())
      .holding := by
  refine wp_bind_endsWith (wp_prepareDownloadTransfer _ _) ?_ (Or.inr ⟨rfl, rfl⟩)
  intro prepared
  cases prepared with
  | none => exact neutral_pure.endsWith ()
  | some prepared =>
    refine wp_bind_endsWith (wp_sendDownloadContents _ _ _) ?_ (Or.inr ⟨rfl, rfl⟩)
    intro sent
    cases sent with
    | true => exact neutral_completeDownload.endsWith ()
    | false => exact neutral_pure.endsWith ()

theorem wp_idle_conclude (code : ℕ) (message : String) :
    wp ownershipMachine (concludeRequest code message) (fun _ _ => True) .idle :=
  ⟨rfl, fun _ _ _ => trivial⟩

theorem wp_idle_claimFailure (err : FileTaskClaimFailure) :
    wp ownershipMachine (concludeFileTaskClaimFailure err) (fun _ _ => True) .idle := by
  cases err <;> exact wp_idle_conclude _ _

/-- **An upload keeps the discipline from its claim on.** -/
theorem wp_receiveFile (fileSize : ℕ) (sha256 : Option String) (maxChunkSize : ℕ) (restart : Bool) :
    wp ownershipMachine (receiveFile config fileSize sha256 maxChunkSize restart)
      (fun _ _ => True) .idle := by
  refine ⟨rfl, ?_⟩
  rintro r phase ⟨rfl, -⟩
  match r with
  | .error e => trivial
  | .ok (.error err) => exact wp_idle_claimFailure err
  | .ok (.ok claimed) =>
    show wp ownershipMachine (tryCatch _ _) _ .holding
    refine wp_mono (fun _ _ _ => trivial) (wp_tryCatch_endsWith (wp_receiveClaimedFile _ _ _ _) ?_)
    intro err
    unfold uploadFailed
    split
    · exact (neutral_discardUploadProgress.bind fun _ => neutral_concludeRequest _ _).endsWith ()
    · exact wp_release_send_endsWith

/-- **A download keeps the discipline from its claim on.** -/
theorem wp_sendFile (offset maxChunkSize : ℕ) :
    wp ownershipMachine (sendFile config offset maxChunkSize) (fun _ _ => True) .idle := by
  refine ⟨rfl, ?_⟩
  rintro r phase ⟨rfl, -⟩
  match r with
  | .error e => trivial
  | .ok (.error err) => exact wp_idle_claimFailure err
  | .ok (.ok (_, false)) => exact wp_idle_conclude _ _
  | .ok (.ok (claimed, true)) =>
    show wp ownershipMachine (tryCatch _ _) _ .holding
    refine wp_mono (fun _ _ _ => trivial) (wp_tryCatch_endsWith (wp_sendClaimedFile _ _) ?_)
    intro err
    unfold downloadFailed
    split
    · exact (neutral_concludeRequest _ _).endsWith ()
    · exact neutral_throw.endsWith ()

end

/-! ### What a call does to the status -/

variable (policy : UploadPolicy)

section

variable {task : FileTask} {now : Instant}

theorem expireFileTaskIfDue_status : (expireFileTaskIfDue task now).status = task.status ∨
      (task.status.isActive = true ∧ (expireFileTaskIfDue task now).status = .expired) := by
  unfold expireFileTaskIfDue
  split
  · rename_i h
    rw [Bool.and_eq_true] at h
    exact Or.inr ⟨h.1, rfl⟩
  · exact Or.inl rfl

theorem releaseFileTask_of_inProgress (h : task.status = .inProgress) :
    (releaseFileTask task now).status = .expired ∨ (releaseFileTask task now).status = .pending := by
  rw [releaseFileTask, if_pos (by rw [h]; rfl)]
  cases task.isDue now
  · exact Or.inr rfl
  · exact Or.inl rfl

theorem completeFileTask_status : (completeFileTask task).status = task.status ∨
      (task.status = .inProgress ∧ (completeFileTask task).status = .completed) := by
  unfold completeFileTask
  split
  · rename_i h
    exact Or.inr ⟨by simpa using h, rfl⟩
  · exact Or.inl rfl

variable {sha256 : Option String}

theorem finalizeUploadTask_status {file : StoredFile} {size : ℕ} :
    (finalizeUploadTask task file sha256 size).1.status = (completeFileTask task).status := by
  unfold finalizeUploadTask
  dsimp only
  split <;> rfl

theorem claimValues_status {policy : UploadPolicy} {mode : TransferMode} :
    (claimValues policy mode now task).status = .inProgress := by
  unfold claimValues
  split <;> rfl

/-- A claim fails on a task that it may have expired, or puts it in progress. -/
theorem claimFileTask_cases (task : FileTask) (file : StoredFile) (mode : TransferMode)
    (now : Instant) :
    (∃ err, (claimFileTask policy task file mode now).1 = .error err ∧
        ((claimFileTask policy task file mode now).2.status = task.status ∨
          (task.status.isActive = true ∧
            (claimFileTask policy task file mode now).2.status = .expired))) ∨
      (∃ claimed, (claimFileTask policy task file mode now).1 = .ok claimed ∧
        task.status = .pending ∧
          (claimFileTask policy task file mode now).2.status = .inProgress) := by
  unfold claimFileTask
  dsimp only
  split
  · exact Or.inl ⟨_, rfl, Or.inl rfl⟩
  split
  · exact Or.inl ⟨_, rfl, expireFileTaskIfDue_status⟩
  rename_i hpend
  split
  · exact Or.inl ⟨_, rfl, expireFileTaskIfDue_status⟩
  refine Or.inr ⟨_, rfl, ?_, claimValues_status⟩
  have hst : (expireFileTaskIfDue task now).status = .pending := by simpa using hpend
  rcases expireFileTaskIfDue_status with hsame | ⟨-, hexp⟩
  · rw [← hsame, hst]
  · rw [hexp] at hst
    cases hst

theorem applyUploadFileTaskPreparation_status {prep : UploadPreparation} {fileSize : ℕ} :
    (applyUploadFileTaskPreparation task prep fileSize sha256).status = task.status := by
  unfold applyUploadFileTaskPreparation
  split <;> rfl

theorem recordUploadStorageSession_status {sessionId : Option String} {checkpointSize : Option ℕ}
    {checkpointData : Option String} :
    (recordUploadStorageSession task sessionId checkpointSize checkpointData).status =
      task.status := by
  unfold recordUploadStorageSession
  split <;> rfl

theorem getOrSetFileTaskChunkSize_status (task : FileTask)
    (proposedChunkSize clientMaxChunkSize : ℕ) :
    (getOrSetFileTaskChunkSize task proposedChunkSize clientMaxChunkSize).2.status =
      task.status := by
  unfold getOrSetFileTaskChunkSize
  split
  · rfl
  · split <;> rfl

theorem getOrSetDownloadEncryptionKey_status {proposedKey : String} :
    (getOrSetDownloadEncryptionKey task proposedKey).2.status = task.status := by
  unfold getOrSetDownloadEncryptionKey
  split <;> rfl

end

/-- What an answered call does to the status of the task. -/
inductive StatusChange (before : FileTaskStatus) (op : Op) (r : Except Failure op.Result) :
    FileTaskStatus → Prop
  | same (hidle : nextPhase .idle op r = .idle) : StatusChange before op r before
  | ends {after : FileTaskStatus} (hidle : nextPhase .idle op r = .idle)
      (hbef : before.isActive = true) (hafter : after.isActive = false) :
      StatusChange before op r after
  | claims (hclaim : op.isClaim = true) (hbef : before = .pending) :
      StatusChange before op r .inProgress
  | releases (hop : op = .release) (hhold : nextPhase .holding op r = .released)
      (hbef : before = .inProgress) : StatusChange before op r .pending

section

variable {moment : Moment} {rows rows' : Rows} {task : FileTask} {now : Instant} {op : Op}
  {r : Except Failure op.Result}

theorem StatusChange.expire (hidle : nextPhase .idle op r = .idle) :
    StatusChange task.status op r (expireFileTaskIfDue task now).status := by
  rcases expireFileTaskIfDue_status with hsame | ⟨hact, hexp⟩
  · rw [hsame]
    exact .same hidle
  · rw [hexp]
    exact .ends hidle hact rfl

theorem StatusChange.complete (hidle : nextPhase .idle op r = .idle) :
    StatusChange task.status op r (completeFileTask task).status := by
  rcases completeFileTask_status with hsame | ⟨hbef, hcompl⟩
  · rw [hsame]
    exact .same hidle
  · rw [hcompl]
    exact .ends hidle (by rw [hbef]; rfl) rfl

theorem statusChange_claim (file : StoredFile) (mode : TransferMode) (hclaim : op.isClaim = true)
    (hfails : ∀ err, (claimFileTask policy task file mode now).1 = .error err →
      nextPhase .idle op r = .idle) :
    StatusChange task.status op r (claimFileTask policy task file mode now).2.status := by
  rcases claimFileTask_cases policy task file mode now with
    ⟨err, hfail, hsame | ⟨hact, hexp⟩⟩ | ⟨claimed, -, hpend, hst⟩
  · rw [hsame]
    exact .same (hfails err hfail)
  · rw [hexp]
    exact .ends (hfails err hfail) hact rfl
  · rw [hst]
    exact .claims hclaim hpend

theorem statusChange_claimDownload (file : StoredFile) (limitAllows : Bool) :
    StatusChange task.status .claimDownload
      (.ok (claimDownloadTask policy task file now limitAllows).1)
      (claimDownloadTask policy task file now limitAllows).2.status := by
  have hcases := claimFileTask_cases policy task file .download now
  unfold claimDownloadTask
  split
  · rename_i err after hclaim
    rw [hclaim] at hcases
    rcases hcases with ⟨_, -, hsame | ⟨hact, hexp⟩⟩ | ⟨claimed, hok, -⟩
    · show StatusChange _ _ _ after.status
      rw [hsame]
      exact .same rfl
    · show StatusChange _ _ _ after.status
      rw [hexp]
      exact .ends rfl hact rfl
    · cases hok
  · rename_i claimed after hclaim
    rw [hclaim] at hcases
    rcases hcases with ⟨err, herror, -⟩ | ⟨_, -, hpend, hst⟩
    · cases herror
    cases limitAllows with
    | true =>
      show StatusChange _ _ _ after.status
      rw [hst]
      exact .claims rfl hpend
    | false =>
      -- claimed and released in one transaction
      show StatusChange _ _ _ (releaseFileTask after now).status
      rw [hpend]
      rcases releaseFileTask_of_inProgress hst with hreleased | hreleased
      · rw [hreleased]
        exact .ends rfl rfl rfl
      · rw [hreleased]
        exact .same rfl

/-- What a transaction of the connection does to the status. -/
theorem transact_statusChange {result : op.Result} (h : transact moment rows op = some (result, rows')) :
    StatusChange rows.task.status op (.ok result) rows'.task.status := by
  cases op with
  | claimUpload =>
    cases h
    refine statusChange_claim moment.policy rows.file .upload rfl ?_
    intro err hfail
    rw [hfail]
    rfl
  | claimDownload =>
    cases h
    exact statusChange_claimDownload _ _ _
  | release =>
    cases h
    by_cases hbef : rows.task.status = .inProgress
    · show StatusChange _ _ _ (releaseFileTask rows.task moment.now).status
      rcases releaseFileTask_of_inProgress hbef with hreleased | hreleased
      · rw [hreleased]
        exact .ends rfl (by rw [hbef]; rfl) rfl
      · rw [hreleased]
        exact .releases rfl rfl hbef
    · show StatusChange _ _ _ (releaseFileTask rows.task moment.now).status
      rw [releaseFileTask, if_neg (by simpa using hbef)]
      exact .same rfl
  | status =>
    cases h
    exact .expire rfl
  | applyPreparation prep fileSize sha256 =>
    cases h
    show StatusChange _ _ _ (applyUploadFileTaskPreparation _ _ _ _).status
    rw [applyUploadFileTaskPreparation_status]
    exact .same rfl
  | recordStorageSession upload =>
    cases h
    show StatusChange _ _ _ (recordUploadStorageSession _ _ _ _).status
    rw [recordUploadStorageSession_status]
    exact .same rfl
  | clearProgress | commit | updateFileSize size =>
    cases h
    exact .same rfl
  | finalize sha256 size =>
    cases h
    show StatusChange _ _ _ (finalizeUploadTask _ _ _ _).1.status
    rw [finalizeUploadTask_status]
    exact .complete rfl
  | complete =>
    cases h
    exact .complete rfl
  | chunkSize proposedChunkSize clientMaxChunkSize =>
    have hkept : rows'.task.status = rows.task.status := by
      rw [transact] at h
      split at h
      · cases h
        rfl
      · have hst := getOrSetFileTaskChunkSize_status rows.task proposedChunkSize clientMaxChunkSize
        split at h
        · rename_i chosen after hchosen
          cases h
          rw [hchosen] at hst
          exact hst
        · cases h
          rfl
    rw [hkept]
    exact .same rfl
  | encryptionKey proposedKey =>
    have hkept : rows'.task.status = rows.task.status := by
      rw [transact] at h
      split at h
      · cases h
        rfl
      · cases h
        exact getOrSetDownloadEncryptionKey_status
    rw [hkept]
    exact .same rfl
  | _ => cases h

end

/-! ### Connections side by side -/

/-- A connection: what it still has to do, and where it stands with the task. -/
structure Connection where
  proc : Transfer Unit
  phase : Phase := .idle

structure System where
  rows : Rows
  connections : ℕ → Connection

inductive TaskAction
  /-- The next call of a connection: it raises, or it is a transaction at a moment, or the world
  replies. -/
  | act (i : ℕ) (moment : Moment) (raises : Option Failure) (reply : (op : Op) → op.Result)
  | expire (now : Instant)
  | cancel

/-- The answer to a call, and the rows it leaves.  A transaction that raises is rolled back. -/
def respond (moment : Moment) (raises : Option Failure) (reply : (op : Op) → op.Result) (rows : Rows)
    (op : Op) : Except Failure op.Result × Rows :=
  match raises with
  | some failure => (.error failure, rows)
  | none =>
    match transact moment rows op with
    | some (result, rows') => (.ok result, rows')
    | none => (.ok (reply op), rows)

variable (s : System)

def taskStep : TaskAction → Option System
  | .act i moment raises reply =>
    match (s.connections i).proc with
    | .done _ => none
    | .call op next =>
      let answer := respond moment raises reply s.rows op
      some
        { rows := answer.2
          connections := Function.update s.connections i
            ⟨next answer.1, nextPhase (s.connections i).phase op answer.1⟩ }
  | .expire now =>
    some { s with rows := { s.rows with task := expireFileTaskIfDue s.rows.task now } }
  | .cancel => some { s with rows := { s.rows with task := cancelFileTask s.rows.task } }

def LateSendSucceeds : TaskAction → Prop
  | .act i _ raises _ => (s.connections i).phase = .released →
    ∀ message, (s.connections i).proc.next? = some (.send message) → raises = none
  | _ => True

/-- Every connection is about to start a transfer. -/
def AllIdle : Prop :=
  ∀ i, (s.connections i).phase = .idle ∧
    ((∃ config fileSize sha256 maxChunkSize restart,
        (s.connections i).proc = receiveFile config fileSize sha256 maxChunkSize restart) ∨
      ∃ config offset maxChunkSize, (s.connections i).proc = sendFile config offset maxChunkSize)

/-- The invariant. -/
structure SingleOwner : Prop where
  disciplined : ∀ i, wp ownershipMachine (s.connections i).proc (fun _ _ => True)
    (s.connections i).phase
  none_of_pending : s.rows.task.status = .pending → ∀ i, (s.connections i).phase ≠ .holding
  one_of_inProgress : s.rows.task.status = .inProgress → ∀ i j,
    (s.connections i).phase = .holding → (s.connections j).phase = .holding → i = j

section

variable {s s' : System}

theorem nextPhase_error (phase : Phase) (op : Op) (err : Failure) :
    nextPhase phase op (.error err) = phase := by
  cases phase <;> cases op <;> rfl

variable {op : Op}

theorem nextPhase_idle_of_not_claim (h : op.isClaim = false)
    (r : Except Failure op.Result) : nextPhase .idle op r = .idle := by
  cases op <;> first | rfl | cases h

theorem nextPhase_released (op : Op) (r : Except Failure op.Result) :
    nextPhase .released op r = .released := by
  cases op <;> rfl

/-- The same, when the call may also raise. -/
theorem respond_statusChange (moment : Moment) (raises : Option Failure)
    (reply : (op : Op) → op.Result) (rows : Rows) (op : Op) :
    StatusChange rows.task.status op (respond moment raises reply rows op).1
      (respond moment raises reply rows op).2.task.status := by
  unfold respond
  split
  · exact .same (nextPhase_error .idle op _)
  split
  · rename_i result rows' h
    exact transact_statusChange h
  · rename_i hnone
    refine .same (nextPhase_idle_of_not_claim ?_ _)
    -- a claim is a transaction
    cases op <;> first | rfl | cases hnone

variable {action : TaskAction}

/-- A step is a call of one connection, or a change from outside. -/
theorem taskStep_cases (h : taskStep s action = some s') :
    (∃ i moment raises reply op next, action = .act i moment raises reply ∧
        (s.connections i).proc = .call op next ∧
        s' = ⟨(respond moment raises reply s.rows op).2, Function.update s.connections i
          ⟨next (respond moment raises reply s.rows op).1,
            nextPhase (s.connections i).phase op (respond moment raises reply s.rows op).1⟩⟩) ∨
      (s'.connections = s.connections ∧ (s'.rows.task.status = s.rows.task.status ∨
        (s.rows.task.status.isActive = true ∧ s'.rows.task.status.isActive = false))) := by
  cases action with
  | act i moment raises reply =>
    rw [taskStep] at h
    split at h
    · cases h
    · rename_i op next hproc
      exact Or.inl ⟨i, moment, raises, reply, op, next, rfl, hproc, (Option.some.inj h).symm⟩
  | expire now =>
    cases h
    refine Or.inr ⟨rfl, ?_⟩
    rcases expireFileTaskIfDue_status with hsame | ⟨hact, hexp⟩
    · exact Or.inl hsame
    · exact Or.inr ⟨hact, by show (expireFileTaskIfDue _ _).status.isActive = false; rw [hexp]; rfl⟩
  | cancel =>
    cases h
    refine Or.inr ⟨rfl, ?_⟩
    show (cancelFileTask s.rows.task).status = _ ∨ _ ∧ (cancelFileTask s.rows.task).status.isActive = _
    rw [cancelFileTask]
    split
    · rename_i hact
      exact Or.inr ⟨hact, rfl⟩
    · exact Or.inl rfl

/-- A task that is over stays as it is. -/
theorem taskStep_final (h : taskStep s action = some s')
    (hfinal : s.rows.task.status.isActive = false) : s'.rows.task.status = s.rows.task.status := by
  rcases taskStep_cases h with ⟨i, moment, raises, reply, op, next, -, -, rfl⟩ | ⟨-, hsame | ⟨hact, -⟩⟩
  · have hchg := respond_statusChange moment raises reply s.rows op
    show (respond moment raises reply s.rows op).2.task.status = _
    generalize (respond moment raises reply s.rows op).2.task.status = after at hchg
    generalize (respond moment raises reply s.rows op).1 = r at hchg
    cases hchg with
    | same _ => rfl
    | ends _ hact _ =>
      rw [hfinal] at hact
      cases hact
    | claims _ hbef | releases _ _ hbef =>
      rw [hbef] at hfinal
      cases hfinal
  · exact hsame
  · rw [hfinal] at hact
    cases hact

variable {phase : Phase}

theorem nextPhase_eq_holding {r : Except Failure op.Result} (h : nextPhase phase op r = .holding) :
    phase = .holding ∨ (phase = .idle ∧ nextPhase .idle op r = .holding) := by
  cases phase with
  | idle => exact Or.inr ⟨rfl, h⟩
  | holding => exact Or.inl rfl
  | released =>
    cases h

theorem holding_of_allows_endsClaim (hop : op.endsClaim = true)
    (h : phaseAllows phase op = true) : phase = .holding := by
  cases phase with
  | holding => rfl
  | idle | released => cases op <;> first | (cases hop; cases h) | cases hop

variable {moment : Moment} {raises : Option Failure} {reply : (op : Op) → op.Result}

theorem lateSendFails_respond {rows : Rows}
    (h : phase = .released → ∀ message, some op = some (.send message) → raises = none) :
    lateSendFails phase op (respond moment raises reply rows op).1 = false := by
  cases phase with
  | idle | holding => rfl
  | released =>
    cases op with
    | send message =>
      rw [h rfl message rfl]
      rfl
    | _ => rfl

/-- A call keeps the invariant, unless a late send fails. -/
theorem SingleOwner.act (hs : SingleOwner s) {i : ℕ}
    {next : Except Failure op.Result → Transfer Unit} (hproc : (s.connections i).proc = .call op next)
    (hlate : LateSendSucceeds s (.act i moment raises reply)) :
    SingleOwner ⟨(respond moment raises reply s.rows op).2, Function.update s.connections i
      ⟨next (respond moment raises reply s.rows op).1,
        nextPhase (s.connections i).phase op (respond moment raises reply s.rows op).1⟩⟩ := by
  have hwp := hs.disciplined i
  rw [hproc] at hwp
  obtain ⟨hallow, hnext⟩ := hwp
  have hlateFails : lateSendFails (s.connections i).phase op
      (respond moment raises reply s.rows op).1 = false := by
    refine lateSendFails_respond ?_
    intro hreleased message hop
    refine hlate hreleased message ?_
    rw [hproc]
    exact hop
  have hchg := respond_statusChange moment raises reply s.rows op
  generalize (respond moment raises reply s.rows op).1 = r at hlateFails hchg ⊢
  generalize (respond moment raises reply s.rows op).2 = rows' at hchg ⊢
  -- a holder after the call held before, or is the caller and has just claimed
  have hholder : ∀ j, (update s.connections i
      ⟨next r, nextPhase (s.connections i).phase op r⟩ j).phase = .holding →
        (s.connections j).phase = .holding ∨ (j = i ∧ nextPhase .idle op r = .holding) := by
    intro j hj
    by_cases hji : j = i
    · rw [hji, update_self] at hj
      rcases nextPhase_eq_holding hj with hheld | ⟨-, hclm⟩
      · rw [hji]
        exact Or.inl hheld
      · exact Or.inr ⟨hji, hclm⟩
    · rw [update_of_ne hji] at hj
      exact Or.inl hj
  refine ⟨?_, ?_, ?_⟩
  · intro j
    show wp ownershipMachine (update s.connections i _ j).proc _
      (update s.connections i _ j).phase
    by_cases hji : j = i
    · rw [hji, update_self]
      exact hnext r _ ⟨rfl, hlateFails⟩
    · rw [update_of_ne hji]
      exact hs.disciplined j
  · intro hpend j hj
    have hst : rows'.task.status = .pending := hpend
    generalize rows'.task.status = after at hchg hst
    cases hchg with
    | same hidle =>
      rcases hholder j hj with hheld | ⟨-, hclm⟩
      · exact hs.none_of_pending hst j hheld
      · rw [hidle] at hclm
        cases hclm
    | ends _ _ hafter =>
      rw [hst] at hafter
      cases hafter
    | claims _ _ => cases hst
    | releases hop hreleased hbef =>
      subst hop
      have howner := holding_of_allows_endsClaim rfl hallow
      rcases hholder j hj with hheld | ⟨-, hclm⟩
      · have hji := hs.one_of_inProgress hbef j i hheld howner
        rw [hji] at hj
        change (update s.connections i _ i).phase = _ at hj
        rw [update_self, howner, hreleased] at hj
        cases hj
      · rw [nextPhase_idle_of_not_claim rfl] at hclm
        cases hclm
  · intro hprog j k hj hk
    have hst : rows'.task.status = .inProgress := hprog
    generalize rows'.task.status = after at hchg hst
    cases hchg with
    | same hidle =>
      rcases hholder j hj with hheldj | ⟨-, hclm⟩
      · rcases hholder k hk with hheldk | ⟨-, hclm⟩
        · exact hs.one_of_inProgress hst j k hheldj hheldk
        · rw [hidle] at hclm
          cases hclm
      · rw [hidle] at hclm
        cases hclm
    | ends _ _ hafter =>
      rw [hst] at hafter
      cases hafter
    | claims _ hbef =>
      rcases hholder j hj with hheld | ⟨hji, -⟩
      · exact absurd hheld (hs.none_of_pending hbef j)
      rcases hholder k hk with hheld | ⟨hki, -⟩
      · exact absurd hheld (hs.none_of_pending hbef k)
      · rw [hji, hki]
    | releases _ _ _ => cases hst

/-- **The step lemma.** -/
theorem taskStep_singleOwner (hs : SingleOwner s)
    (hlate : LateSendSucceeds s action) (h : taskStep s action = some s') : SingleOwner s' := by
  rcases taskStep_cases h with ⟨i, moment, raises, reply, op, next, rfl, hproc, rfl⟩ | ⟨hconns, hst⟩
  · exact hs.act hproc hlate
  refine ⟨?_, ?_, ?_⟩
  · rw [hconns]
    exact hs.disciplined
  · intro hpend
    rw [hconns]
    rcases hst with hsame | ⟨-, hfinal⟩
    · exact hs.none_of_pending (hsame ▸ hpend)
    · rw [hpend] at hfinal
      cases hfinal
  · intro hprog
    rw [hconns]
    rcases hst with hsame | ⟨-, hfinal⟩
    · exact hs.one_of_inProgress (hsame ▸ hprog)
    · rw [hprog] at hfinal
      cases hfinal

theorem AllIdle.singleOwner (h : AllIdle s) : SingleOwner s := by
  refine ⟨?_, ?_, ?_⟩
  · intro i
    obtain ⟨hidle, ⟨config, fileSize, sha256, maxChunkSize, restart, hproc⟩ |
      ⟨config, offset, maxChunkSize, hproc⟩⟩ := h i
    · rw [hidle, hproc]
      exact wp_receiveFile _ _ _ _
    · rw [hidle, hproc]
      exact wp_sendFile _ _
  · intro _ i hhold
    rw [(h i).1] at hhold
    cases hhold
  · intro _ i _ hhold
    rw [(h i).1] at hhold
    cases hhold

end

/-! ### Spans -/

def transactsNow (i : ℕ) : TaskAction → Bool
  | .act j _ _ _ => j == i && ((s.connections i).proc.next?).any Op.isTaskTransaction
  | _ => false

/-- The connection makes a transaction on the task in the rest of the run. -/
def TransactsIn : System → List TaskAction → ℕ → Prop
  | _, [], _ => False
  | s, action :: rest, i =>
    transactsNow s i action = true ∨ ∃ s', taskStep s action = some s' ∧ TransactsIn s' rest i

/-- The connection has claimed the task, and has not released it or still makes a transaction on
it in the rest of the run. -/
def InSpan (rest : List TaskAction) (i : ℕ) : Prop :=
  (s.connections i).phase ≠ .idle ∧ ((s.connections i).phase = .holding ∨ TransactsIn s rest i)

section

variable {s t : System} {i : ℕ} {rest : List TaskAction}

theorem not_transactsIn_of_released (hs : SingleOwner s)
    (hmeets : Meets taskStep LateSendSucceeds s rest)
    (hreleased : (s.connections i).phase = .released) : ¬ TransactsIn s rest i := by
  induction rest generalizing s with
  | nil => exact id
  | cons action rest ih =>
    rintro (hnow | ⟨s', hstep, hlater⟩)
    · cases action with
      | act j moment raises reply =>
        rw [transactsNow, Bool.and_eq_true] at hnow
        have hwp := hs.disciplined i
        rw [hreleased] at hwp
        cases hproc : (s.connections i).proc with
        | done r =>
          rw [hproc] at hnow
          cases hnow.2
        | call op next =>
          rw [hproc] at hwp hnow
          have hallow : (!op.isTaskTransaction) = true := hwp.1
          have htrans : op.isTaskTransaction = true := hnow.2
          rw [htrans] at hallow
          cases hallow
      | expire now | cancel => cases hnow
    · refine ih (taskStep_singleOwner hs hmeets.1 hstep) (hmeets.2 s' hstep) ?_ hlater
      rcases taskStep_cases hstep with ⟨j, moment, raises, reply, op, next, -, -, rfl⟩ | ⟨hconns, -⟩
      · show (update s.connections j _ i).phase = .released
        by_cases hij : i = j
        · rw [← hij, update_self, hreleased]
          exact nextPhase_released op (respond moment raises reply s.rows op).1
        · rw [update_of_ne hij]
          exact hreleased
      · rw [hconns]
        exact hreleased

/-- Between its claim and its release a connection holds the task. -/
theorem InSpan.holding (hs : SingleOwner s)
    (hmeets : Meets taskStep LateSendSucceeds s rest) (h : InSpan s rest i) :
    (s.connections i).phase = .holding := by
  obtain ⟨hclm, hheld | hlater⟩ := h
  · exact hheld
  cases hphase : (s.connections i).phase with
  | holding => rfl
  | idle => exact absurd hphase hclm
  | released => exact absurd hlater (not_transactsIn_of_released hs hmeets hphase)

theorem SingleOwner.holding_of_endsClaim (hs : SingleOwner s) {op : Op}
    (hop : op.endsClaim = true) (hnext : (s.connections i).proc.next? = some op) :
    (s.connections i).phase = .holding := by
  have hwp := hs.disciplined i
  cases hproc : (s.connections i).proc with
  | done r =>
    rw [hproc] at hnext
    cases hnext
  | call op' next =>
    rw [hproc] at hwp hnext
    have hsame : op' = op := Option.some.inj hnext
    have hallow : phaseAllows (s.connections i).phase op = true := hsame ▸ hwp.1
    exact holding_of_allows_endsClaim hop hallow

/-- A task that is over is so for the rest of the run. -/
theorem run_final {actions : List TaskAction} (hrun : run taskStep s actions = some t)
    (hfinal : s.rows.task.status.isActive = false) : t.rows.task.status = s.rows.task.status := by
  induction actions generalizing s with
  | nil =>
    cases hrun
    rfl
  | cons action rest ih =>
    obtain ⟨s', hstep, hrest⟩ := run_cons_eq_some.mp hrun
    have hkept := taskStep_final hstep hfinal
    rw [← hkept]
    exact ih hrest (by rw [hkept]; exact hfinal)

/-- **A file task has at most one owner and its final statuses are final**, in every run in which
no message that a connection sends after its own release raises. -/
theorem file_task_has_one_owner {initial : System} {front back : List TaskAction}
    (hinit : AllIdle initial)
    (hmeets : Meets taskStep LateSendSucceeds initial (front ++ back))
    (hfront : run taskStep initial front = some s) (hback : run taskStep s back = some t) :
    (s.rows.task.status = .inProgress → ∀ i j, InSpan s back i → InSpan s back j → i = j) ∧
      (∀ i op, op.endsClaim = true → (s.connections i).proc.next? = some op →
        (s.connections i).phase = .holding) ∧
      (s.rows.task.status.isActive = false → t.rows.task.status = s.rows.task.status) := by
  obtain ⟨hmeetsFront, hmeetsBack⟩ := meets_append.mp hmeets
  have hs : SingleOwner s := by
    refine run_invariant ?_ hinit.singleOwner hmeetsFront hfront
    intro before action after hbef hlate hstep
    exact taskStep_singleOwner hbef hlate hstep
  have hrest := hmeetsBack s hfront
  refine ⟨?_, ?_, run_final hback⟩
  · intro hprog i j hi hj
    exact hs.one_of_inProgress hprog i j (hi.holding hs hrest) (hj.holding hs hrest)
  · intro i op hop hnext
    exact hs.holding_of_endsClaim hop hnext

end

/-! ### A release that comes too late -/

/-- The replies of a silent client: its deadline has passed. -/
def silentReply : (op : Op) → op.Result
  | .claimUpload => .error .invalid
  | .claimDownload => .error .invalid
  | .release => ()
  | .status => .inProgress
  | .applyPreparation _ _ _ => none
  | .recordStorageSession _ => none
  | .clearProgress => ()
  | .finalize _ _ => none
  | .complete => none
  | .commit => ()
  | .chunkSize _ _ => .missing
  | .encryptionKey _ => .missing
  | .updateFileSize _ => ()
  | .send _ => ()
  | .recv => none
  | .checkDue => false
  | .deadlinePassed => true
  | .abortResumableUpload _ => ()
  | .remove => ()
  | .makedirs => ()
  | .openUpload _ chunkSize _ => ⟨0, none, some chunkSize, none⟩
  | .write _ => ()
  | .finish => ()
  | .close => ()
  | .abort => ()
  | .getsize => 0
  | .storageSha256 => ""
  | .openFile => ()
  | .seekable => true
  | .seek _ => ()
  | .read _ => []
  | .uploadCompletedHook => ()

def calmMoment : Moment := ⟨⟨0, 0⟩, 0, true⟩

/-- A call that is answered. -/
def proceeds (i : ℕ) : TaskAction := .act i calmMoment none silentReply

/-- A digest as clients send it. -/
def someDigest : String := "0000000000000000000000000000000000000000000000000000000000000000"

def threeUploads : System where
  rows := ⟨{ mode := .upload, startTime := 0, endTime := none }, {}⟩
  connections := fun _ =>
    ⟨receiveFile ⟨65536, fun _ => "", "", 1, 0⟩ 1 (some someDigest) 512 false, .idle⟩

/-- Connection 0 waits in vain and releases the task; connection 1 claims it; the message to the
client of connection 0 raises and its outer handler releases again; connection 2 claims. -/
def lateRelease : List TaskAction :=
  List.replicate 10 (proceeds 0) ++
    [proceeds 1, .act 0 calmMoment (some .connectionError) silentReply, proceeds 0, proceeds 2]

theorem run_lateRelease : (run taskStep threeUploads lateRelease).map (fun s =>
      (s.rows.task.status, (s.connections 1).phase, (s.connections 2).phase)) =
        some (.inProgress, .holding, .holding) := by
  decide

/-- Connections 1 and 2 both lie in their spans while the task is in progress. -/
theorem late_release_ends_foreign_claim :
    AllIdle threeUploads ∧ ∃ s, run taskStep threeUploads lateRelease = some s ∧
      s.rows.task.status = .inProgress ∧ InSpan s [] 1 ∧ InSpan s [] 2 := by
  refine ⟨fun _ => ⟨rfl, Or.inl ⟨_, _, _, _, _, rfl⟩⟩, ?_⟩
  obtain ⟨s, hrun, hs⟩ := Option.map_eq_some_iff.mp run_lateRelease
  obtain ⟨hst, hone, htwo⟩ := by simpa only [Prod.mk.injEq] using hs
  exact ⟨s, hrun, hst, ⟨by rw [hone]; decide, Or.inl hone⟩, ⟨by rw [htwo]; decide, Or.inl htwo⟩⟩

/-- Connection 0 releases and tells its client, then connection 1 claims. -/
def timelyRelease : List TaskAction := List.replicate 11 (proceeds 0) ++ [proceeds 1]

theorem run_timelyRelease : (run taskStep threeUploads timelyRelease).map (fun s =>
      (s.rows.task.status, (s.connections 0).phase, (s.connections 1).phase)) =
        some (.inProgress, .released, .holding) := by
  decide

theorem meets_of_proceeds {s : System} {actions : List TaskAction}
    (h : ∀ action ∈ actions, ∃ i, action = proceeds i) :
    Meets taskStep LateSendSucceeds s actions := by
  induction actions generalizing s with
  | nil => trivial
  | cons action rest ih =>
    obtain ⟨i, rfl⟩ := h action List.mem_cons_self
    exact ⟨fun _ _ _ => rfl, fun _ _ => ih fun a ha => h a (List.mem_cons_of_mem _ ha)⟩

/-- The task passes from connection 0 to connection 1, which owns it alone. -/
theorem file_task_has_one_owner_after_timely_release :
    ∃ s, run taskStep threeUploads timelyRelease = some s ∧ s.rows.task.status = .inProgress ∧
      (s.connections 0).phase = .released ∧ (s.connections 1).phase = .holding ∧
      ((s.rows.task.status = .inProgress → ∀ i j, InSpan s [] i → InSpan s [] j → i = j) ∧
        (∀ i op, op.endsClaim = true → (s.connections i).proc.next? = some op →
          (s.connections i).phase = .holding) ∧
        (s.rows.task.status.isActive = false → s.rows.task.status = s.rows.task.status)) := by
  obtain ⟨s, hrun, hs⟩ := Option.map_eq_some_iff.mp run_timelyRelease
  obtain ⟨hst, hzero, hone⟩ := by simpa only [Prod.mk.injEq] using hs
  refine ⟨s, hrun, hst, hzero, hone, ?_⟩
  refine file_task_has_one_owner (fun _ => ⟨rfl, Or.inl ⟨_, _, _, _, _, rfl⟩⟩) ?_ hrun rfl
  refine meets_of_proceeds ?_
  intro action haction
  rw [List.append_nil, timelyRelease, List.mem_append, List.mem_replicate, List.mem_singleton] at haction
  rcases haction with ⟨-, rfl⟩ | rfl
  · exact ⟨0, rfl⟩
  · exact ⟨1, rfl⟩

end Cfms.Files
