import Cfms.Files.LocalStorage

/-!
# Resumed uploads

Any number of uploads of one task follow one another on the local storage provider.  What an
attempt leaves behind is the object at the path and the row of the task, and the next attempt
decides from the row whether it goes on from the object or starts anew.

The abstract state of an attempt is a shelf: the object, whether the upload is open, the bytes that
have arrived from the client, and whether the row holds upload metadata.  A shelf is tidy when an
object lies there only together with metadata.  The programs keep shelves tidy, which is why an
upload without a digest never starts from bytes of an earlier one.
-/

namespace Cfms.Files

open Option

open Access (Instant)
open Lib.Process Lib.Run

/-! ### Shelves -/

structure Shelf where
  object : Option Bytes
  uploadOpen : Bool
  received : Bytes
  hasMetadata : Bool

def World.shelf (w : World) : Shelf :=
  ⟨w.object, w.uploadOpen, w.received, w.rows.task.uploadFileSize.isSome⟩

/-- What lies on the shelf. -/
def Shelf.bytes (s : Shelf) : Bytes := s.object.getD []

/-- An object lies there, or an upload is open, only together with metadata. -/
def Shelf.Tidy (s : Shelf) : Prop :=
  s.hasMetadata = false → s.object = none ∧ s.uploadOpen = false

variable (sha256 : Bytes → String)

/-- What a call that returns does to the shelf. -/
def shelfReturns (s : Shelf) : (op : Op) → op.Result → Shelf → Prop
  | .claimUpload, .ok claimed, s' => s' = s ∧ claimed.uploadFileSize.isSome = s.hasMetadata
  | .applyPreparation _ _ _, status, s' =>
    s' = { s with hasMetadata := s.hasMetadata || status == some .inProgress }
  | .clearProgress, _, s' => s' = { s with hasMetadata := false }
  | .recv, frame, s' => s' = { s with received := s.received ++ frame.getD [] }
  | .openUpload fileSize _ _, upload, s' =>
    s.bytes.length ≤ fileSize ∧ upload.offset ≤ s.bytes.length ∧
      s' = { s with object := some (s.bytes.take upload.offset), uploadOpen := true }
  | .write data, _, s' => s' = { s with object := s.object.map (· ++ data) }
  | .finish, _, s' => s' = { s with uploadOpen := false }
  | .close, _, s' => s' = { s with uploadOpen := false }
  | .abort, _, s' => s' = { s with object := none, uploadOpen := false }
  | .remove, _, s' => s' = { s with object := none }
  | .getsize, size, s' => s' = s ∧ ∃ bytes, s.object = some bytes ∧ size = bytes.length
  | .storageSha256, digest, s' => s' = s ∧ ∃ bytes, s.object = some bytes ∧ digest = sha256 bytes
  | _, _, s' => s' = s

/-- One `receive_file` request. -/
structure Attempt where
  fileSize : ℕ
  sha256 : Option String
  maxChunkSize : ℕ
  restart : Bool
  deriving DecidableEq

/-- The object is what the attempt declared: its size, its digest, and without a digest exactly
what the client has sent. -/
def Delivered (attempt : Attempt) (s : Shelf) : Prop :=
  ∃ bytes, s.object = some bytes ∧ bytes.length = attempt.fileSize ∧
    (attempt.sha256 = none → bytes = s.received) ∧
    ∀ declared, attempt.sha256 = some declared → sha256 bytes = declared

/-- The calls that must find the shelf in order. -/
def shelfAllows (attempt : Attempt) (s : Shelf) : Op → Prop
  | .openUpload _ _ _ | .write _ => s.hasMetadata = true
  | .clearProgress => s.object = none ∧ s.uploadOpen = false
  | .finalize digest size =>
    digest = attempt.sha256 ∧ size = attempt.fileSize ∧ Delivered sha256 attempt s
  | _ => True

def shelfMachine (attempt : Attempt) : Machine transferSignature Failure Shelf where
  allowed := shelfAllows sha256 attempt
  answers s op := OnOk (shelfReturns sha256 s op)

/-! ### What outlives an attempt in the row -/

/-- The columns that an upload leaves for the next one. -/
structure UploadProgress where
  chunkSize : Option ℕ
  fileSize : Option ℕ
  sha256 : Option String
  sessionId : Option String
  checkpointSize : Option ℕ
  checkpointData : Option String
  deriving DecidableEq

def FileTask.progress (task : FileTask) : UploadProgress :=
  ⟨task.chunkSize, task.uploadFileSize, task.uploadSha256, task.uploadSessionId,
    task.uploadCheckpointSize, task.uploadCheckpointData⟩

variable (policy : UploadPolicy)

section

variable {task : FileTask} {now : Instant}

@[simp] theorem expireFileTaskIfDue_progress :
    (expireFileTaskIfDue task now).progress = task.progress := by
  unfold expireFileTaskIfDue
  split <;> rfl

@[simp] theorem releaseFileTask_progress : (releaseFileTask task now).progress = task.progress := by
  unfold releaseFileTask
  split <;> rfl

@[simp] theorem completeFileTask_progress : (completeFileTask task).progress = task.progress := by
  unfold completeFileTask
  split <;> rfl

@[simp] theorem claimValues_progress {policy : UploadPolicy} {mode : TransferMode} :
    (claimValues policy mode now task).progress = task.progress := by
  unfold claimValues
  split <;> rfl

theorem claimFileTask_progress (task : FileTask) (file : StoredFile) (mode : TransferMode)
    (now : Instant) :
    (claimFileTask policy task file mode now).2.progress = task.progress ∧
      ∀ claimed, (claimFileTask policy task file mode now).1 = .ok claimed →
        claimed = claimedFileTask mode (expireFileTaskIfDue task now) file := by
  unfold claimFileTask
  split
  · exact ⟨rfl, fun _ hclm => by cases hclm⟩
  dsimp only
  split
  · exact ⟨expireFileTaskIfDue_progress, fun _ hclm => by cases hclm⟩
  split
  · exact ⟨expireFileTaskIfDue_progress, fun _ hclm => by cases hclm⟩
  refine ⟨?_, ?_⟩
  · rw [claimValues_progress, expireFileTaskIfDue_progress]
  intro claimed h
  cases h
  rfl

theorem claimDownloadTask_progress (file : StoredFile) (limitAllows : Bool) :
    (claimDownloadTask policy task file now limitAllows).2.progress = task.progress := by
  have hclaim := (claimFileTask_progress policy task file .download now).1
  unfold claimDownloadTask
  split
  · rename_i heq
    rw [heq] at hclaim
    exact hclaim
  · rename_i heq
    rw [heq] at hclaim
    split
    · exact hclaim
    · rw [releaseFileTask_progress]
      exact hclaim

theorem getOrSetFileTaskChunkSize_fileSize (task : FileTask) (proposed clientMax : ℕ) :
    (getOrSetFileTaskChunkSize task proposed clientMax).2.uploadFileSize = task.uploadFileSize := by
  unfold getOrSetFileTaskChunkSize
  split
  · rfl
  · split <;> rfl

theorem getOrSetFileTaskChunkSize_of_some {chunkSize : ℕ} (proposed clientMax : ℕ)
    (h : task.chunkSize = some chunkSize) :
    (getOrSetFileTaskChunkSize task proposed clientMax).2 = task := by
  unfold getOrSetFileTaskChunkSize
  rw [h]
  dsimp only
  split <;> rfl

end

/-! ### The local storage provider refines the shelf -/

section

variable {sha256 : Bytes → String} {w w' : World}

theorem resumeOffset_le_existing (existingSize fileSize chunkSize : ℕ) :
    resumeOffset existingSize fileSize chunkSize ≤ existingSize := by
  unfold resumeOffset
  split
  · rename_i h
    exact Nat.le_of_eq h.symm
  · exact Nat.sub_le _ _

/-- The calls that write the progress of an upload. -/
def Op.writesProgress : Op → Bool
  | .applyPreparation _ _ _ | .recordStorageSession _ | .clearProgress | .finalize _ _
  | .chunkSize _ _ => true
  | _ => false

variable {moment : Moment} {rows : Rows} {op : Op} {v : op.Result} {rows' : Rows}

theorem transact_progress
    (hop : op.writesProgress = false) (h : transact moment rows op = some (v, rows')) :
    rows'.task.progress = rows.task.progress := by
  cases op
  case claimUpload =>
    cases h
    exact (claimFileTask_progress _ _ _ _ _).1
  case claimDownload =>
    cases h
    exact claimDownloadTask_progress _ _ _
  case release =>
    cases h
    exact releaseFileTask_progress
  case status =>
    cases h
    exact expireFileTaskIfDue_progress
  case complete =>
    cases h
    exact completeFileTask_progress
  case encryptionKey proposedKey =>
    dsimp only [transact] at h
    split at h
    · cases h
      rfl
    · cases h
      show (getOrSetDownloadEncryptionKey rows.task proposedKey).2.progress = _
      unfold getOrSetDownloadEncryptionKey
      split <;> rfl
  case commit | updateFileSize size =>
    cases h
    rfl
  all_goals
    first
    | (cases h; done)
    | cases hop

/-- The calls that write whether there is metadata. -/
def Op.writesMetadata : Op → Bool
  | .applyPreparation _ _ _ | .clearProgress => true
  | _ => false

theorem transact_fileSize
    (h : transact moment rows op = some (v, rows')) (hop : op.writesMetadata = false) :
    rows'.task.uploadFileSize = rows.task.uploadFileSize := by
  by_cases hprog : op.writesProgress = false
  · exact congrArg UploadProgress.fileSize (transact_progress hprog h)
  cases op
  case recordStorageSession upload =>
    cases h
    show (recordUploadStorageSession rows.task _ _ _).uploadFileSize = _
    unfold recordUploadStorageSession
    split <;> rfl
  case finalize sha256 size =>
    cases h
    show (finalizeUploadTask rows.task rows.file sha256 size).1.uploadFileSize = _
    have hkept : (completeFileTask rows.task).uploadFileSize = rows.task.uploadFileSize :=
      congrArg UploadProgress.fileSize completeFileTask_progress
    unfold finalizeUploadTask
    dsimp only
    split <;> exact hkept
  case chunkSize proposed clientMax =>
    dsimp only [transact] at h
    split at h
    · cases h
      rfl
    · have hkept := getOrSetFileTaskChunkSize_fileSize rows.task proposed clientMax
      split at h
      · rename_i heq
        cases h
        rw [heq] at hkept
        exact hkept
      · cases h
        rfl
  all_goals
    first
    | (cases hop; done)
    | exact absurd rfl hprog

theorem interrupted_progress (w : World) (interrupt : Option Interrupt) :
    (w.interrupted interrupt).rows.task.progress = w.rows.task.progress := by
  obtain ⟨status, h⟩ := interrupted_task w interrupt
  rw [h]
  rfl

@[simp] theorem interrupted_shelf (interrupt : Option Interrupt) :
    (w.interrupted interrupt).shelf = w.shelf := by
  have hfileSize : (w.interrupted interrupt).rows.task.uploadFileSize = w.rows.task.uploadFileSize :=
    congrArg UploadProgress.fileSize (interrupted_progress w interrupt)
  unfold World.shelf
  rw [interrupted_object, interrupted_uploadOpen, interrupted_received, hfileSize]

variable {committed : Bool}

theorem shelf_of_rows (h : rows.task.uploadFileSize = w.rows.task.uploadFileSize) :
    World.shelf { w with rows := rows, committed := committed } = w.shelf := by
  unfold World.shelf
  rw [h]

/-- What a transaction returns, in terms of the stored object and the open upload. -/
theorem transact_shelf (h : transact moment w.rows op = some (v, rows)) :
    shelfReturns sha256 w.shelf op v (World.shelf { w with rows := rows, committed := committed }) := by
  cases op
  case claimUpload =>
    have hkept : World.shelf { w with rows := rows, committed := committed } = w.shelf :=
      shelf_of_rows (transact_fileSize h rfl)
    cases v with
    | error err => exact hkept
    | ok claimed =>
      refine ⟨hkept, ?_⟩
      have hclm := (claimFileTask_progress moment.policy w.rows.task w.rows.file .upload
        moment.now).2 claimed (congrArg Prod.fst (some.inj h))
      rw [hclm]
      exact congrArg (fun progress => progress.fileSize.isSome) expireFileTaskIfDue_progress
  case applyPreparation prep fileSize digest =>
    cases h
    show World.shelf { w with rows := { w.rows with
      task := applyUploadFileTaskPreparation w.rows.task prep fileSize digest } } = _
    cases hst : w.rows.task.status <;>
      simp [applyUploadFileTaskPreparation, World.shelf, hst]
  case clearProgress =>
    cases h
    rfl
  all_goals
    first
    | (cases h; done)
    | exact shelf_of_rows (transact_fileSize h rfl)

variable {a : Answer} {r : Except Failure op.Result}

theorem answerLocal_shelf (h : answerLocal sha256 w a op = some (r, w')) :
    OnOk (shelfReturns sha256 w.shelf op) r w'.shelf := by
  cases htrans : op.isTransaction with
  | true =>
    obtain ⟨v, rows, htransact, rfl, rfl⟩ := answerLocal_transaction htrans h
    exact transact_shelf htransact
  | false =>
    cases op
    case openUpload fileSize chunkSize prior =>
      dsimp only [answerLocal] at h
      split at h
      · cases h
        trivial
      · rename_i hsize
        cases h
        exact ⟨Nat.le_of_not_lt hsize, resumeOffset_le_existing _ _ _, rfl⟩
    case getsize | storageSha256 =>
      dsimp only [answerLocal] at h
      split at h
      · rename_i bytes hbytes
        cases h
        exact ⟨rfl, bytes, hbytes, rfl⟩
      · cases h
        trivial
    all_goals
      first
      | (cases htrans; done)
      | (cases h; rfl)
      | cases h

/-- **The local storage provider refines the shelf.** -/
theorem respondLocal_shelf (h : respondLocal sha256 w op a = some (r, w')) :
    OnOk (shelfReturns sha256 w.shelf op) r w'.shelf := by
  rcases respondLocal_cases h with ⟨err, -, rfl, -⟩ | hans
  · trivial
  have hshelf := answerLocal_shelf hans
  rw [interrupted_shelf] at hshelf
  exact hshelf

theorem canRaise_interrupted (interrupt : Option Interrupt) (op : Op) (err : Failure) :
    canRaise (w.interrupted interrupt) op err = canRaise w op err := by
  unfold canRaise
  rw [interrupted_uploadOpen]

variable {err : Failure}

/-- Only an open upload fails to be finished or closed. -/
theorem open_of_canRaise (hop : op = .finish ∨ op = .close)
    (h : canRaise w op err = true) : w.shelf.uploadOpen = true := by
  rcases hop with rfl | rfl <;> cases err <;> first | exact h | cases h

variable {attempt : Attempt}

theorem disturbed_tidy (left : Option Bytes)
    (hallow : shelfAllows sha256 attempt w.shelf op) (hraise : canRaise w op err = true)
    (h : w.shelf.Tidy) : (disturbed w left op).shelf.Tidy := by
  intro hnone
  have hmeta : w.shelf.hasMetadata = false := by
    rw [← hnone]
    show _ = (disturbed w left op).rows.task.uploadFileSize.isSome
    rw [disturbed_rows]
    rfl
  obtain ⟨hobj, hcl⟩ := h hmeta
  have hrem : (if left.isSome then { w with object := none } else w).object = none ∧
      (if left.isSome then { w with object := none } else w).uploadOpen = false := by
    split
    · exact ⟨rfl, hcl⟩
    · exact ⟨hobj, hcl⟩
  cases op
  case openUpload fileSize chunkSize prior | write data =>
    rw [show w.shelf.hasMetadata = true from hallow] at hmeta
    cases hmeta
  case finish =>
    rw [open_of_canRaise (Or.inl rfl) hraise] at hcl
    cases hcl
  case close =>
    rw [open_of_canRaise (Or.inr rfl) hraise] at hcl
    cases hcl
  case remove | abort => exact hrem
  all_goals exact ⟨hobj, hcl⟩

theorem shelfReturns_tidy {s s' : Shelf}
    (hallow : shelfAllows sha256 attempt s op) (hret : shelfReturns sha256 s op v s')
    (h : s.Tidy) : s'.Tidy := by
  cases op
  case claimUpload =>
    cases v with
    | error err =>
      rw [show s' = s from hret]
      exact h
    | ok claimed =>
      rw [hret.1]
      exact h
  case applyPreparation prep fileSize digest =>
    rw [show s' = _ from hret]
    intro hnone
    exact h (Bool.or_eq_false_iff.mp hnone).1
  case clearProgress =>
    rw [show s' = _ from hret]
    exact fun _ => hallow
  case openUpload fileSize chunkSize prior =>
    rw [hret.2.2]
    intro hnone
    rw [show s.hasMetadata = true from hallow] at hnone
    cases hnone
  case write data =>
    rw [show s' = _ from hret]
    intro hnone
    rw [show s.hasMetadata = true from hallow] at hnone
    cases hnone
  case finish | close =>
    rw [show s' = _ from hret]
    exact fun hnone => ⟨(h hnone).1, rfl⟩
  case abort =>
    rw [show s' = _ from hret]
    exact fun _ => ⟨rfl, rfl⟩
  case remove =>
    rw [show s' = _ from hret]
    exact fun hnone => ⟨rfl, (h hnone).2⟩
  case recv =>
    rw [show s' = _ from hret]
    exact h
  case getsize | storageSha256 =>
    rw [hret.1]
    exact h
  all_goals
    rw [show s' = s from hret]
    exact h

/-- **Allowed calls keep a shelf tidy.** -/
theorem respondLocal_tidy
    (hallow : shelfAllows sha256 attempt w.shelf op) (h : respondLocal sha256 w op a = some (r, w'))
    (htidy : w.shelf.Tidy) : w'.shelf.Tidy := by
  rw [← interrupted_shelf a.interrupt] at hallow htidy
  rcases respondLocal_cases h with ⟨err, hraise, -, rfl⟩ | hans
  · rw [← canRaise_interrupted a.interrupt] at hraise
    exact disturbed_tidy a.left hallow hraise htidy
  · cases r with
    | ok v => exact shelfReturns_tidy hallow (answerLocal_shelf hans) htidy
    | error err =>
      rw [answerLocal_error hans]
      exact htidy

end

/-! ### The programs keep the shelf in order -/

section

variable {config : TransferConfig} {attempt : Attempt} {claimed : ClaimedFileTask}
  {prep : UploadPreparation} {s : Shelf}

variable {op : Op}

theorem wp_call_onOk {R : op.Result → Shelf → Prop}
    (hallow : shelfAllows config.sha256 attempt s op)
    (h : ∀ v s', shelfReturns config.sha256 s op v s' → R v s') :
    wp (shelfMachine config.sha256 attempt) (call op) (OnOk R) s :=
  @wp_perform_onOk transferSignature Failure Shelf (shelfMachine config.sha256 attempt) s op R
    hallow h

/-- The program makes no call out of order. -/
def Orderly {α : Type} (config : TransferConfig) (attempt : Attempt) (p : Transfer α) (s : Shelf) :
    Prop :=
  wp (shelfMachine config.sha256 attempt) p (OnOk fun _ _ => True) s

theorem orderly_call (h : shelfAllows config.sha256 attempt s op) :
    Orderly config attempt (call op) s :=
  wp_call_onOk h fun _ _ _ => trivial

variable {α : Type}

theorem orderly_pure {a : α} : Orderly config attempt (pure a) s := trivial

theorem Orderly.bind {β : Type} {p : Transfer α} {f : α → Transfer β}
    (hp : Orderly config attempt p s) (hf : ∀ a s', Orderly config attempt (f a) s') :
    Orderly config attempt (p >>= f) s :=
  wp_bind_onOk hp fun a s' _ => hf a s'

def Shelf.Cleared (s : Shelf) : Prop := s.object = none ∧ s.uploadOpen = false

theorem wp_abort :
    wp (shelfMachine config.sha256 attempt) (call .abort) (OnOk fun _ s' => s'.Cleared) s := by
  refine wp_call_onOk trivial ?_
  intro _ s' h
  rw [show s' = _ from h]
  exact ⟨rfl, rfl⟩

theorem wp_remove_closed (h : s.uploadOpen = false) :
    wp (shelfMachine config.sha256 attempt) (call .remove) (OnOk fun _ s' => s'.Cleared) s := by
  refine wp_call_onOk trivial ?_
  intro _ s' hs'
  rw [show s' = _ from hs']
  exact ⟨rfl, h⟩

/-- To discard what is stored is in order at any time. -/
theorem orderly_discard {p : Transfer Unit} (hp : ∀ s', Orderly config attempt p s') :
    Orderly config attempt (do call .abort; call .remove; call .clearProgress; p) s := by
  refine wp_bind_onOk wp_abort ?_
  intro _ s₁ h₁
  refine wp_bind_onOk (wp_remove_closed h₁.2) ?_
  intro _ s₂ h₂
  exact Orderly.bind (orderly_call h₂) fun _ => hp

theorem orderly_settleUpload (resumable : Bool) :
    Orderly config attempt (settleUpload resumable) s := by
  refine Orderly.bind (orderly_call trivial) ?_
  intro _ s₁
  split
  · exact orderly_pure
  refine wp_bind_onOk wp_abort ?_
  intro _ s₂ h₂
  refine wp_bind_onOk (wp_remove_closed h₂.2) ?_
  intro _ s₃ h₃
  exact orderly_call h₃

theorem orderly_conclude (code : ℕ) (message : String) :
    Orderly config attempt (concludeRequest code message) s :=
  orderly_call trivial

theorem orderly_release_conclude (code : ℕ) (message : String) :
    Orderly config attempt (do call .release; concludeRequest code message) s :=
  Orderly.bind (orderly_call trivial) fun _ _ => orderly_conclude code message

theorem orderly_receiveFailed (resumable : Bool) (err : Failure) :
    Orderly config attempt (receiveFailed resumable err) s := by
  unfold receiveFailed
  split
  · refine orderly_discard ?_
    intro s₁
    exact Orderly.bind (orderly_call trivial) fun _ _ => orderly_conclude _ _
  · exact (orderly_settleUpload resumable).bind fun _ _ => orderly_call trivial
  all_goals
    exact (orderly_settleUpload resumable).bind fun _ _ => orderly_release_conclude _ _

theorem wp_discardUploadProgress :
    wp (shelfMachine config.sha256 attempt) (discardUploadProgress claimed)
      (OnOk fun _ s' => s' = { s with object := none }) s := by
  have habort : wp (shelfMachine config.sha256 attempt) (abortStoredSession claimed.uploadSessionId)
      (OnOk fun _ s' => s' = s) s := by
    cases claimed.uploadSessionId with
    | none => rfl
    | some sessionId => exact wp_call_onOk trivial fun _ _ h => h
  refine wp_bind_onOk habort ?_
  rintro _ s' rfl
  exact wp_call_onOk trivial fun _ _ h => h

theorem orderly_uploadFailed (err : Failure) :
    Orderly config attempt (uploadFailed claimed err) s := by
  unfold uploadFailed
  split
  · exact wp_bind_onOk wp_discardUploadProgress fun _ _ _ => orderly_conclude _ _
  · exact orderly_release_conclude _ _

theorem wp_requireInProgress (status : Option FileTaskStatus) :
    wp (shelfMachine config.sha256 attempt) (requireInProgress status)
      (OnOk fun _ s' => s' = s ∧ status = some .inProgress) s := by
  cases status with
  | none => trivial
  | some status =>
    rw [requireInProgress]
    split
    · rename_i h
      rw [h]
      exact ⟨rfl, rfl⟩
    · trivial

def Opened (s : Shelf) (upload : OpenedUpload) (s' : Shelf) : Prop :=
  upload.offset ≤ s.bytes.length ∧
    s' = { s with object := some (s.bytes.take upload.offset), uploadOpen := true }

/-- An opened upload goes on at the end of what is stored. -/
theorem wp_openUpload_opened (fileSize : ℕ) (h : s.hasMetadata = true) :
    wp (shelfMachine config.sha256 attempt) (openUpload fileSize prep)
      (OnOk fun r s' => ∀ upload, r = some upload → Opened s upload s') s := by
  refine wp_tryCatch_onOk ?_ ?_
  · refine wp_bind_onOk (wp_call_onOk h fun upload s' hret => hret.2) ?_
    intro upload s' hopen opened hsome
    cases hsome
    exact hopen
  · intro err s₁
    cases err with
    | resumableUploadSizeError =>
      refine wp_bind_onOk (orderly_call trivial) fun _ s₂ _ => ?_
      refine wp_bind_onOk (orderly_conclude _ _) fun _ s₃ _ => ?_
      exact fun _ hnone => by cases hnone
    | _ => trivial

theorem wp_recordStorageSession (upload : OpenedUpload) :
    wp (shelfMachine config.sha256 attempt) (recordStorageSession prep upload)
      (OnOk fun _ s' => s' = s) s := by
  refine wp_tryCatch_onOk ?_ ?_
  · refine wp_bind_onOk (wp_call_onOk trivial fun _ _ h => h) ?_
    rintro status s' rfl
    exact wp_mono (OnOk.mono fun _ _ h => h.1) (wp_requireInProgress status)
  · intro err s₁
    have hleave : Orderly config attempt (leaveUpload prep) s₁ := by
      unfold leaveUpload
      split
      · exact orderly_call trivial
      · exact orderly_call trivial
    exact wp_bind_onOk hleave fun _ _ _ => trivial

theorem planUploadFileTask_discards {fileSize proposedChunkSize clientMaxChunkSize : ℕ}
    {restart : Bool} (hclm : claimed.uploadFileSize.isSome = true)
    (h : planUploadFileTask claimed fileSize none proposedChunkSize clientMaxChunkSize restart =
      .ok prep) : prep.discardExisting = true := by
  unfold planUploadFileTask at h
  dsimp only at h
  split at h
  · cases h
  split at h
  · cases h
  cases h
  show (restart || (claimed.uploadFileSize.isSome && true)) = true
  rw [hclm]
  exact Bool.or_true restart

theorem wp_discardExisting (hdiscards : attempt.sha256 = none → s.object ≠ none →
      prep.discardExisting = true) :
    wp (shelfMachine config.sha256 attempt) (discardExisting prep claimed)
      (OnOk fun _ s' => s'.received = s.received ∧ (attempt.sha256 = none → s'.object = none)) s := by
  unfold discardExisting
  split
  · refine wp_mono (OnOk.mono ?_) wp_discardUploadProgress
    rintro _ s' rfl
    exact ⟨rfl, fun _ => rfl⟩
  · rename_i hkeep
    refine ⟨rfl, ?_⟩
    intro hnone
    by_contra hobj
    exact hkeep (hdiscards hnone hobj)

structure Ready (attempt : Attempt) (upload : OpenedUpload) (s : Shelf) : Prop where
  hasMetadata : s.hasMetadata = true
  received : s.received = []
  object : ∃ base, s.object = some base ∧ base.length = upload.offset
  anew : attempt.sha256 = none → upload.offset = 0

/-- After the preparation the offset is where the stored bytes end. -/
theorem wp_prepareUploadTransfer_ready (htidy : s.Tidy) (hrecv : s.received = [])
    (hclm : claimed.uploadFileSize.isSome = s.hasMetadata) :
    wp (shelfMachine config.sha256 attempt)
      (prepareUploadTransfer config claimed attempt.fileSize attempt.sha256 attempt.maxChunkSize
        attempt.restart)
      (OnOk fun r s' => ∀ prepared, r = some prepared → Ready attempt prepared.2 s') s := by
  unfold prepareUploadTransfer
  split
  · refine wp_bind_onOk (orderly_conclude _ _) fun _ s₁ _ => ?_
    refine wp_bind_onOk (orderly_call trivial) fun _ s₂ _ => ?_
    exact fun _ hnone => by cases hnone
  · refine wp_bind_onOk (orderly_conclude _ _) fun _ s₁ _ => ?_
    refine wp_bind_onOk (orderly_call trivial) fun _ s₂ _ => ?_
    exact fun _ hnone => by cases hnone
  · rename_i prep hplan
    have hdiscards : attempt.sha256 = none → s.object ≠ none → prep.discardExisting = true := by
      intro hnone hobj
      rw [hnone] at hplan
      refine planUploadFileTask_discards ?_ hplan
      rw [hclm]
      by_contra hmeta
      exact hobj (htidy (Bool.eq_false_iff.mpr hmeta)).1
    refine wp_bind_onOk (wp_discardExisting hdiscards) ?_
    rintro _ s₁ ⟨hrecv₁, hblank⟩
    refine wp_bind_onOk (wp_call_onOk trivial fun _ _ h => h) ?_
    rintro status s₂ hs₂
    refine wp_bind_onOk (wp_requireInProgress status) ?_
    rintro _ s₃ ⟨rfl, rfl⟩
    refine wp_bind_onOk (wp_call_onOk trivial fun _ _ h => h) ?_
    rintro _ s₄ hs₄
    have hmeta : s₄.hasMetadata = true := by
      rw [show s₄ = s₃ from hs₄, show s₃ = _ from hs₂]
      exact Bool.or_true s₁.hasMetadata
    refine wp_bind_onOk (wp_openUpload_opened attempt.fileSize hmeta) ?_
    intro opened s₅ hopen
    cases opened with
    | none => exact fun _ hnone => by cases hnone
    | some upload =>
      refine wp_bind_onOk (wp_recordStorageSession upload) ?_
      rintro _ s₆ rfl prepared hprep
      cases hprep
      obtain ⟨hoff, hs₆⟩ := hopen upload rfl
      refine ⟨?_, ?_, ?_, ?_⟩
      · rw [hs₆]
        exact hmeta
      · rw [hs₆]
        show s₄.received = []
        rw [show s₄ = s₃ from hs₄, show s₃ = _ from hs₂]
        exact hrecv₁.trans hrecv
      · rw [hs₆]
        exact ⟨_, rfl, List.length_take_of_le hoff⟩
      · intro hnone
        have hobj : s₄.object = none := by
          rw [show s₄ = s₃ from hs₄, show s₃ = _ from hs₂]
          exact hblank hnone
        rw [Shelf.bytes, hobj] at hoff
        exact Nat.le_zero.mp hoff

theorem wp_ensureFileTaskActive :
    wp (shelfMachine config.sha256 attempt) ensureFileTaskActive (OnOk fun _ s' => s' = s) s := by
  refine wp_bind_onOk (wp_call_onOk trivial fun _ _ h => h) ?_
  rintro due s₁ rfl
  split
  · refine wp_bind_onOk (wp_call_onOk trivial fun _ _ h => h) ?_
    rintro status s₂ rfl
    split
    · trivial
    · rfl
  · rfl

theorem wp_recvFileTaskFrame (polls : ℕ) :
    wp (shelfMachine config.sha256 attempt) (recvFileTaskFrame polls)
      (OnOk fun data s' => s' = { s with received := s.received ++ data }) s := by
  induction polls with
  | zero => trivial
  | succ polls ih =>
    refine wp_bind_onOk wp_ensureFileTaskActive ?_
    rintro _ s₁ rfl
    refine wp_bind_onOk (wp_call_onOk trivial fun _ _ h => h) ?_
    rintro passed s₂ rfl
    split
    · trivial
    refine wp_bind_onOk (wp_call_onOk trivial fun _ _ h => h) ?_
    rintro received s₃ hs₃
    cases received with
    | some data => exact hs₃
    | none =>
      have hsame : s₃ = s₂ := by
        rw [show s₃ = _ from hs₃]
        show Shelf.mk _ _ (s₂.received ++ []) _ = _
        rw [List.append_nil]
      rw [hsame]
      exact ih

/-- The invariant of the loop: the object is what was there before and what has arrived. -/
structure Receiving (base : Bytes) (s : Shelf) : Prop where
  hasMetadata : s.hasMetadata = true
  object : s.object = some (base ++ s.received)

/-- The loop: what is stored and what was hashed grow by the frames received. -/
theorem wp_receiveChunks_receiving (fileSize : ℕ) (hashing : Bool) (base : Bytes)
    (remaining receivedSize : ℕ) (hashed : Bytes) (hs : Receiving base s)
    (hhash : hashing = true → hashed = s.received) :
    wp (shelfMachine config.sha256 attempt)
      (receiveChunks config prep fileSize hashing remaining receivedSize hashed)
      (OnOk fun r s' => ∀ final, r = some final →
        Receiving base s' ∧ (hashing = true → final = s'.received)) s := by
  induction remaining generalizing receivedSize hashed s with
  | zero =>
    intro final hfinal
    cases hfinal
    exact ⟨hs, hhash⟩
  | succ remaining ih =>
    rw [receiveChunks]
    split
    · refine wp_bind_onOk (wp_recvFileTaskFrame config.polls) ?_
      rintro data s₁ rfl
      split
      · have hrefuse : Orderly config attempt (refuseChunk prep.resumable)
            { s with received := s.received ++ data } := by
          refine (orderly_conclude _ _).bind fun _ _ => ?_
          exact (orderly_settleUpload _).bind fun _ _ => orderly_call trivial
        refine wp_bind_onOk hrefuse fun _ _ _ => ?_
        exact fun _ hnone => by cases hnone
      · refine wp_bind_onOk (wp_call_onOk hs.hasMetadata fun _ _ h => h) ?_
        rintro _ s₂ hs₂
        have hobj : s₂.object = some (base ++ s₂.received) := by
          rw [show s₂ = _ from hs₂]
          show s.object.map (· ++ data) = some (base ++ (s.received ++ data))
          rw [hs.object, ← List.append_assoc]
          rfl
        have hrecv : s₂.received = s.received ++ data := by
          rw [show s₂ = _ from hs₂]
        refine ih _ _ ⟨?_, hobj⟩ ?_
        · rw [show s₂ = _ from hs₂]
          exact hs.hasMetadata
        · intro hhashing
          rw [if_pos hhashing, hhash hhashing, hrecv]
    · intro final hfinal
      cases hfinal
      exact ⟨hs, hhash⟩

/-- The digest is that of the stored object. -/
theorem wp_uploadedSha256 {bytes : Bytes} (offset : ℕ) (hashed : Bytes)
    (hobj : s.object = some bytes) (hhash : offset = 0 → hashed = bytes) :
    wp (shelfMachine config.sha256 attempt) (uploadedSha256 config offset hashed)
      (OnOk fun digest s' => s' = s ∧ digest = config.sha256 bytes) s := by
  rw [uploadedSha256]
  split
  · rename_i hoff
    rw [hhash hoff]
    exact ⟨rfl, rfl⟩
  · refine wp_call_onOk trivial ?_
    rintro digest s' ⟨rfl, stored, hstor, rfl⟩
    rw [hobj] at hstor
    cases hstor
    exact ⟨rfl, rfl⟩

theorem orderly_refuseDigest (h : s.uploadOpen = false) :
    Orderly config attempt refuseDigest s := by
  refine wp_bind_onOk (wp_remove_closed h) ?_
  intro _ s₁ h₁
  refine Orderly.bind (orderly_call h₁) fun _ s₂ => ?_
  exact (orderly_conclude _ _).bind fun _ _ => orderly_call trivial

/-- **An upload that gets as far as the finalization has delivered.** -/
theorem wp_receiveUploadContents_delivered {upload : OpenedUpload} (hs : Ready attempt upload s) :
    wp (shelfMachine config.sha256 attempt)
      (receiveUploadContents config prep upload attempt.fileSize attempt.sha256)
      (OnOk fun r s' => ∀ size, r = some size →
        size = attempt.fileSize ∧ Delivered config.sha256 attempt s') s := by
  obtain ⟨base, hbase, hlen⟩ := hs.object
  refine wp_bind_onOk (wp_call_onOk trivial fun _ _ h => h) ?_
  rintro _ s₁ rfl
  have hreceiving : Receiving base s₁ := by
    refine ⟨hs.hasMetadata, ?_⟩
    rw [hbase, hs.received, List.append_nil]
  refine wp_bind_onOk (wp_receiveChunks_receiving attempt.fileSize _ base _ _ [] hreceiving
    fun _ => hs.received.symm) ?_
  intro received s₂ hrecv
  cases received with
  | none => exact fun _ hnone => by cases hnone
  | some hashed =>
    obtain ⟨hreceiving₂, hhash⟩ := hrecv hashed rfl
    refine wp_bind_onOk (wp_call_onOk trivial fun _ _ h => h) ?_
    rintro _ s₃ hs₃
    have hobj : s₃.object = some (base ++ s₃.received) := by
      rw [show s₃ = _ from hs₃]
      exact hreceiving₂.object
    have hcl : s₃.uploadOpen = false := by
      rw [show s₃ = _ from hs₃]
    have hhash₃ : upload.offset = 0 → attempt.sha256.isSome = true →
        hashed = base ++ s₃.received := by
      intro hoff hdig
      rw [List.eq_nil_of_length_eq_zero (hlen.trans hoff), show s₃ = _ from hs₃]
      refine hhash ?_
      rw [hoff, hdig]
      rfl
    refine wp_bind_onOk (wp_call_onOk trivial fun _ _ h => h) ?_
    rintro actualSize s₄ ⟨rfl, bytes, hbytes, hsize⟩
    rw [hobj] at hbytes
    cases hbytes
    split
    · trivial
    rename_i hequal
    have hactual : actualSize = attempt.fileSize := not_not.mp hequal
    cases hdig : attempt.sha256 with
    | none =>
      intro size hsome
      cases hsome
      refine ⟨hactual, _, hobj, hsize.symm.trans hactual, ?_, ?_⟩
      · intro _
        rw [List.eq_nil_of_length_eq_zero (hlen.trans (hs.anew hdig))]
        rfl
      · intro declared hdecl
        rw [hdig] at hdecl
        cases hdecl
    | some declared =>
      refine wp_bind_onOk (wp_uploadedSha256 _ _ hobj fun hoff =>
        hhash₃ hoff (by rw [hdig]; rfl)) ?_
      rintro actual s₅ ⟨rfl, rfl⟩
      split
      · refine wp_bind_onOk (orderly_refuseDigest hcl) fun _ _ _ => ?_
        exact fun _ hnone => by cases hnone
      · rename_i hmatch
        intro size hsome
        cases hsome
        refine ⟨hactual, _, hobj, hsize.symm.trans hactual, ?_, ?_⟩
        · intro hnone
          rw [hdig] at hnone
          cases hnone
        · intro declared' hdecl
          rw [hdig] at hdecl
          cases hdecl
          exact not_not.mp hmatch

/-- The file is finalized with the size and the digest it has. -/
theorem orderly_finalizeUploadTransfer (h : Delivered config.sha256 attempt s) :
    Orderly config attempt
      (finalizeUploadTransfer attempt.fileSize attempt.fileSize attempt.sha256) s := by
  refine Orderly.bind (orderly_call ⟨rfl, rfl, h⟩) ?_
  intro status s₁
  split
  · trivial
  · refine (orderly_conclude _ _).bind fun _ s₂ => ?_
    split
    · exact orderly_pure
    · exact wp_tryCatch_onOk (orderly_call trivial) fun _ _ => orderly_pure
  · refine Orderly.bind (orderly_call trivial) fun _ _ => ?_
    exact (orderly_conclude _ _).bind fun _ _ => orderly_call trivial

/-- **Every upload that starts from a tidy shelf keeps it in order.** -/
theorem orderly_receiveFile (htidy : s.Tidy) (hrecv : s.received = []) :
    Orderly config attempt (receiveFile config attempt.fileSize attempt.sha256 attempt.maxChunkSize
      attempt.restart) s := by
  refine wp_bind_onOk (wp_call_onOk trivial fun _ _ h => h) ?_
  intro outcome s₁ hs₁
  cases outcome with
  | error err => cases err <;> exact orderly_conclude _ _
  | ok claimed =>
    obtain ⟨rfl, hclm⟩ := hs₁
    refine wp_tryCatch_onOk ?_ fun err _ => orderly_uploadFailed err
    refine wp_bind_onOk (wp_prepareUploadTransfer_ready htidy hrecv hclm) ?_
    intro prepared s₂ hprep
    cases prepared with
    | none => trivial
    | some prepared =>
      refine wp_tryCatch_onOk ?_ fun err _ => orderly_receiveFailed _ err
      refine wp_bind_onOk (wp_receiveUploadContents_delivered (hprep prepared rfl)) ?_
      intro actualSize s₃ hdeliv
      cases actualSize with
      | none => trivial
      | some actualSize =>
        obtain ⟨rfl, hfinal⟩ := hdeliv actualSize rfl
        exact orderly_finalizeUploadTransfer hfinal

end

/-! ### Attempt after attempt -/

/-- The attempt that runs or has run last, its program, and the world. -/
structure Uploads where
  attempt : Attempt
  proc : Transfer Unit
  world : World

inductive UploadAction
  | start (attempt : Attempt)
  | answer (a : Answer)

variable (config : TransferConfig)

/-- The request of an attempt. -/
def Attempt.program (attempt : Attempt) : Transfer Unit :=
  receiveFile config attempt.fileSize attempt.sha256 attempt.maxChunkSize attempt.restart

variable (s : Uploads)

/-- An attempt starts when the one before has ended, and goes on call by call. -/
def uploadStep : UploadAction → Option Uploads
  | .start attempt =>
    match s.proc with
    | .done _ =>
      some ⟨attempt, attempt.program config,
        { s.world with uploadOpen := false, received := [], committed := false }⟩
    | .call _ _ => none
  | .answer a =>
    (advance (respondLocal config.sha256) (s.proc, s.world) a).map fun c => ⟨s.attempt, c.1, c.2⟩

theorem uploadStep_cases {config : TransferConfig} {s s' : Uploads} {action : UploadAction}
    (h : uploadStep config s action = some s') :
    (∃ attempt r, action = .start attempt ∧ s.proc = .done r ∧
        s' = ⟨attempt, attempt.program config,
          { s.world with uploadOpen := false, received := [], committed := false }⟩) ∨
      (∃ a op next r w, action = .answer a ∧ s.proc = .call op next ∧
        respondLocal config.sha256 s.world op a = some (r, w) ∧ s' = ⟨s.attempt, next r, w⟩) := by
  cases action with
  | start attempt =>
    cases hproc : s.proc with
    | done r =>
      simp only [uploadStep, hproc] at h
      exact Or.inl ⟨attempt, r, rfl, rfl, (some.inj h).symm⟩
    | call op next =>
      simp only [uploadStep, hproc] at h
      cases h
  | answer a =>
    obtain ⟨c, hadv, rfl⟩ := map_eq_some_iff.mp h
    obtain ⟨op, next, r, w, hproc, hr, rfl⟩ := advance_eq_some.mp hadv
    exact Or.inr ⟨a, op, next, r, w, rfl, hproc, hr, rfl⟩

structure Untouched : Prop where
  ended : ∃ r, s.proc = .done r
  noMetadata : s.world.rows.task.uploadFileSize = none
  noObject : s.world.object = none
  closed : s.world.uploadOpen = false

/-- The shelf is tidy, and what is left of the current attempt keeps it in order. -/
structure InOrder : Prop where
  tidy : s.world.shelf.Tidy
  orderly : Orderly config s.attempt s.proc s.world.shelf

section

variable {config : TransferConfig} {s s' t : Uploads}

theorem Untouched.inOrder (h : Untouched s) : InOrder config s := by
  refine ⟨fun _ => ⟨h.noObject, h.closed⟩, ?_⟩
  obtain ⟨r, hr⟩ := h.ended
  rw [hr]
  cases r <;> trivial

variable {action : UploadAction}

/-- **The step lemma.** -/
theorem uploadStep_inOrder (hs : InOrder config s)
    (h : uploadStep config s action = some s') : InOrder config s' := by
  rcases uploadStep_cases h with ⟨attempt, r, -, -, rfl⟩ | ⟨a, op, next, r, w, -, hproc, hr, rfl⟩
  · have htidy : World.shelf { s.world with
        uploadOpen := false, received := [], committed := false } |>.Tidy :=
      fun hnone => ⟨(hs.tidy hnone).1, rfl⟩
    exact ⟨htidy, orderly_receiveFile htidy rfl⟩
  · have horderly := hs.orderly
    rw [hproc] at horderly
    exact ⟨respondLocal_tidy horderly.1 hr hs.tidy, horderly.2 r w.shelf (respondLocal_shelf hr)⟩

variable {actions : List UploadAction}

/-- **The run lemma.** -/
theorem run_inOrder (hs : InOrder config s)
    (h : run (uploadStep config) s actions = some t) : InOrder config t :=
  run_invariant (C := fun _ _ => True) (fun _ _ _ hbef _ hstep => uploadStep_inOrder hbef hstep)
    hs (meets_true actions) h

/-- The file row of a delivered upload. -/
def Attempt.storedFile (attempt : Attempt) : StoredFile :=
  ⟨attempt.sha256, some attempt.fileSize, true⟩

variable {task : FileTask} {digest : Option String} {size : ℕ}

theorem finalizeUploadTask_completed {file : StoredFile}
    (h : (finalizeUploadTask task file digest size).1.status = .completed) :
    (finalizeUploadTask task file digest size).2 = ⟨digest, some size, true⟩ := by
  unfold finalizeUploadTask at h ⊢
  dsimp only at h ⊢
  split
  · rename_i hst
    rw [if_pos hst] at h
    rw [h] at hst
    cases hst
  · rfl

theorem eq_completed_of_commits {v : Option FileTaskStatus}
    (h : commits (.finalize digest size) v = true) : v = some .completed := by
  cases v with
  | none => cases h
  | some status => cases status <;> first | rfl | cases h

variable {sha256 : Bytes → String} {w w' : World} {op : Op} {a : Answer}

variable {r : Except Failure op.Result}

/-- An upload commits by finalizing it. -/
theorem respondLocal_commit (h : respondLocal sha256 w op a = some (r, w'))
    (hbef : w.committed = false) (hafter : w'.committed = true) :
    ∃ digest size, op = .finalize digest size ∧ w'.shelf = w.shelf ∧
      w'.rows.file = ⟨digest, some size, true⟩ := by
  have hcomm := respondLocal_committed h
  rw [hbef, hafter] at hcomm
  cases r with
  | error err => cases hcomm
  | ok v =>
    have hcommits : commits op v = true := hcomm.symm
    cases op
    case finalize digest size =>
      have hfinal := Prod.mk.inj (some.inj (respondLocal_transaction rfl h))
      have hst := hfinal.1.trans (eq_completed_of_commits hcommits)
      refine ⟨digest, size, rfl, respondLocal_shelf h, ?_⟩
      rw [← hfinal.2]
      exact finalizeUploadTask_completed (some.inj hst)
    all_goals cases hcommits

/-- **The step that commits finds the object the attempt declared.** -/
theorem InOrder.delivered (hs : InOrder config s)
    (hstep : uploadStep config s action = some s') (hbef : s.world.committed = false)
    (hafter : s'.world.committed = true) :
    Delivered config.sha256 s'.attempt s'.world.shelf ∧
      s'.world.rows.file = s'.attempt.storedFile := by
  rcases uploadStep_cases hstep with ⟨attempt, r, -, -, rfl⟩ | ⟨a, op, next, r, w, -, hproc, hr, rfl⟩
  · cases hafter
  obtain ⟨digest, size, rfl, hshelf, hfile⟩ := respondLocal_commit hr hbef hafter
  have horderly := hs.orderly
  rw [hproc] at horderly
  obtain ⟨⟨rfl, rfl, hdeliv⟩, -⟩ := horderly
  rw [← hshelf] at hdeliv
  exact ⟨hdeliv, hfile⟩

/-! ### The chunk size -/

variable {chunkSize : ℕ}

theorem transact_chunkSize {moment : Moment} {rows rows' : Rows} {v : op.Result}
    (h : transact moment rows op = some (v, rows'))
    (hset : rows.task.chunkSize = some chunkSize) : rows'.task.chunkSize = some chunkSize := by
  by_cases hprog : op.writesProgress = false
  · exact (congrArg UploadProgress.chunkSize (transact_progress hprog h)).trans hset
  cases op
  case applyPreparation prep fileSize sha256 =>
    cases h
    show (applyUploadFileTaskPreparation rows.task prep fileSize sha256).chunkSize = _
    unfold applyUploadFileTaskPreparation
    split
    · exact hset
    show some (rows.task.chunkSize.getD prep.chunkSize) = _
    rw [hset]
    rfl
  case recordStorageSession upload =>
    cases h
    show (recordUploadStorageSession rows.task _ _ _).chunkSize = _
    unfold recordUploadStorageSession
    split <;> exact hset
  case clearProgress =>
    cases h
    exact hset
  case finalize sha256 size =>
    cases h
    show (finalizeUploadTask rows.task rows.file sha256 size).1.chunkSize = _
    have hkept : (completeFileTask rows.task).chunkSize = some chunkSize :=
      (congrArg UploadProgress.chunkSize completeFileTask_progress).trans hset
    unfold finalizeUploadTask
    dsimp only
    split <;> exact hkept
  case chunkSize proposed clientMax =>
    dsimp only [transact] at h
    split at h
    · cases h
      exact hset
    · have hkept := getOrSetFileTaskChunkSize_of_some proposed clientMax hset
      split at h
      · rename_i heq
        cases h
        rw [heq] at hkept
        exact (congrArg FileTask.chunkSize hkept).trans hset
      · cases h
        exact hset
  all_goals exact absurd rfl hprog

/-- A chunk size that is set stays. -/
theorem uploadStep_chunkSize
    (h : uploadStep config s action = some s') (hset : s.world.rows.task.chunkSize = some chunkSize) :
    s'.world.rows.task.chunkSize = some chunkSize := by
  rcases uploadStep_cases h with ⟨attempt, r, -, -, rfl⟩ | ⟨a, op, next, r, w, -, hproc, hr, rfl⟩
  · exact hset
  have hintr : (s.world.interrupted a.interrupt).rows.task.chunkSize = some chunkSize :=
    (congrArg UploadProgress.chunkSize (interrupted_progress s.world a.interrupt)).trans hset
  rcases respondLocal_rows hr with hrows | ⟨v, -, htransact⟩
  · show w.rows.task.chunkSize = _
    rw [hrows]
    exact hintr
  · exact transact_chunkSize htransact hintr

theorem run_chunkSize (h : run (uploadStep config) s actions = some t)
    (hset : s.world.rows.task.chunkSize = some chunkSize) :
    t.world.rows.task.chunkSize = some chunkSize :=
  run_invariant (C := fun _ _ => True)
    (I := fun s : Uploads => s.world.rows.task.chunkSize = some chunkSize)
    (fun _ _ _ hbef _ hstep => uploadStep_chunkSize hstep hbef) hset (meets_true actions) h

/-! ### Conflicts -/

def Attempt.plan (config : TransferConfig) (attempt : Attempt) (task : FileTask) (file : StoredFile) :
    Except PlanConflict UploadPreparation :=
  planUploadFileTask (claimedFileTask .upload task file) attempt.fileSize attempt.sha256
    (negotiateFileChunkSize attempt.maxChunkSize config.fileChunkSize uploadTransferMaxChunkSize)
    attempt.maxChunkSize attempt.restart

theorem claimedFileTask_congr {task' : FileTask} (file file' : StoredFile)
    (h : task.progress = task'.progress) :
    claimedFileTask .upload task file = claimedFileTask .upload task' file' := by
  have hclm : ∀ (task : FileTask) (file : StoredFile), claimedFileTask .upload task file =
      ⟨none, none, task.progress.chunkSize, task.progress.fileSize, task.progress.sha256,
        task.progress.sessionId, task.progress.checkpointSize, task.progress.checkpointData⟩ :=
    fun _ _ => rfl
  rw [hclm, hclm, h]

variable {claimed : ClaimedFileTask}

theorem respondLocal_claimed
    (h : respondLocal sha256 w .claimUpload a = some (.ok (.ok claimed), w')) :
    claimed = claimedFileTask .upload w.rows.task w.rows.file := by
  have hclaim := Prod.mk.inj (some.inj (respondLocal_transaction rfl h))
  have hclm := (claimFileTask_progress _ _ _ _ _).2 claimed hclaim.1
  rw [hclm]
  refine claimedFileTask_congr _ _ ?_
  rw [expireFileTaskIfDue_progress, interrupted_progress]

/-- The calls of an attempt that ends in a conflict. -/
def Op.isHarmless : Op → Bool
  | .claimUpload | .release | .send _ => true
  | _ => false

theorem respondLocal_harmless (hop : op.isHarmless = true)
    (h : respondLocal sha256 w op a = some (r, w')) :
    w'.object = w.object ∧ w'.rows.task.progress = w.rows.task.progress := by
  refine ⟨?_, ?_⟩
  · cases r with
    | error err =>
      rcases respondLocal_cases h with ⟨err, -, -, rfl⟩ | hans
      · cases op <;> first | (cases hop; done) | exact interrupted_object
      · rw [answerLocal_error hans]
        exact interrupted_object
    | ok v =>
      have hshelf := respondLocal_shelf h
      cases op
      case claimUpload =>
        cases v with
        | error err => exact congrArg Shelf.object hshelf
        | ok claimed => exact congrArg Shelf.object hshelf.1
      case release | send message => exact congrArg Shelf.object hshelf
      all_goals cases hop
  · rw [← interrupted_progress w a.interrupt]
    rcases respondLocal_rows h with hrows | ⟨v, -, htransact⟩
    · rw [hrows]
    · refine transact_progress ?_ htransact
      cases op <;> first | rfl | cases hop

/-- A machine that answers as the local storage provider does and allows harmless calls. -/
def harmlessMachine (sha256 : Bytes → String) : Machine transferSignature Failure World where
  allowed _ op := Op.isHarmless op = true
  answers w op r w' := ∃ a, respondLocal sha256 w op a = some (r, w')

/-- No exception that comes out is `FileTaskEnded`. -/
def NotEnded {α : Type} (r : Except Failure α) (_ : World) : Prop :=
  ∀ status, r ≠ .error (.fileTaskEnded status)

theorem wp_call_harmless (hop : op.isHarmless = true) :
    wp (harmlessMachine config.sha256) (call op) NotEnded w := by
  refine ⟨hop, ?_⟩
  rintro r w' ⟨a, hr⟩ status rfl
  exact respondLocal_not_ended hr status rfl

variable {α : Type}

theorem wp_bind_harmless {β : Type} {p : Transfer α} {f : α → Transfer β}
    {Q : Except Failure β → World → Prop} (hp : wp (harmlessMachine config.sha256) p NotEnded w)
    (herror : ∀ err w', (∀ status, err ≠ .fileTaskEnded status) → Q (.error err) w')
    (hf : ∀ a w', wp (harmlessMachine config.sha256) (f a) Q w') :
    wp (harmlessMachine config.sha256) (p >>= f) Q w := by
  rw [wp_bind]
  refine wp_mono ?_ hp
  intro r w' hr
  cases r with
  | ok a => exact hf a w'
  | error err =>
    refine herror err w' ?_
    rintro status rfl
    exact hr status rfl

theorem notEnded_error (err : Failure) (w : World)
    (h : ∀ status, err ≠ .fileTaskEnded status) : NotEnded (α := α) (.error err) w := by
  intro status hfail
  cases hfail
  exact h status rfl

theorem wp_refuse_conflict {value : α} {Q : Except Failure α → World → Prop}
    (code : ℕ) (message : String)
    (herror : ∀ err w', (∀ status, err ≠ .fileTaskEnded status) → Q (.error err) w')
    (hvalue : ∀ w', Q (.ok value) w') :
    wp (harmlessMachine config.sha256)
      (do concludeRequest code message; call .release; pure value) Q w :=
  wp_bind_harmless (wp_call_harmless rfl) herror fun _ _ =>
    wp_bind_harmless (wp_call_harmless rfl) herror fun _ => hvalue

variable {attempt : Attempt} {conflict : PlanConflict}

/-- Metadata that conflict are answered before anything is written. -/
theorem wp_receiveClaimedFile_conflict
    (h : planUploadFileTask claimed attempt.fileSize attempt.sha256
      (negotiateFileChunkSize attempt.maxChunkSize config.fileChunkSize uploadTransferMaxChunkSize)
      attempt.maxChunkSize attempt.restart = .error conflict) :
    wp (harmlessMachine config.sha256) (receiveClaimedFile config claimed attempt.fileSize
      attempt.sha256 attempt.maxChunkSize attempt.restart) NotEnded w := by
  rw [receiveClaimedFile, wp_bind, prepareUploadTransfer, h]
  cases conflict with
  | chunkSize stored | metadata fileSize sha256 stored =>
    exact wp_refuse_conflict _ _ notEnded_error fun _ => nofun

theorem wp_program_conflict (h : attempt.plan config w.rows.task w.rows.file = .error conflict) :
    wp (harmlessMachine config.sha256) (attempt.program config) (fun _ _ => True) w := by
  refine ⟨rfl, ?_⟩
  rintro r w₁ ⟨a, hr⟩
  match r with
  | .error err => trivial
  | .ok (.error err) =>
    show wp (harmlessMachine config.sha256) (concludeFileTaskClaimFailure err) _ w₁
    cases err <;> exact wp_mono (fun _ _ _ => trivial) (wp_call_harmless rfl)
  | .ok (.ok claimed) =>
    rw [Attempt.plan, ← respondLocal_claimed hr] at h
    show wp (harmlessMachine config.sha256) (tryCatch _ _) _ w₁
    rw [wp_tryCatch]
    refine wp_mono ?_ (wp_receiveClaimedFile_conflict h)
    intro r w₂ hended
    cases r with
    | ok _ => trivial
    | error err =>
      cases err with
      | fileTaskEnded status => exact absurd rfl (hended status)
      | _ =>
        refine wp_bind_harmless (wp_call_harmless rfl) (fun _ _ _ => trivial) fun _ _ => ?_
        exact wp_mono (fun _ _ _ => trivial) (wp_call_harmless rfl)

/-- The rest of the attempt makes harmless calls only, and nothing has changed. -/
structure Conflicting (config : TransferConfig) (w : World) (s : Uploads) : Prop where
  harmless : wp (harmlessMachine config.sha256) s.proc (fun _ _ => True) s.world
  object : s.world.object = w.object
  progress : s.world.rows.task.progress = w.rows.task.progress

theorem uploadStep_conflicting (hs : Conflicting config w s)
    (h : uploadStep config s (.answer a) = some s') : Conflicting config w s' := by
  rcases uploadStep_cases h with ⟨attempt, r, hact, -, -⟩ | ⟨a', op, next, r, w', hact, hproc,
    hr, rfl⟩
  · cases hact
  have hharm := hs.harmless
  rw [hproc] at hharm
  obtain ⟨hobj, hprog⟩ := respondLocal_harmless hharm.1 hr
  exact ⟨hharm.2 r w' ⟨a', hr⟩, hobj.trans hs.object, hprog.trans hs.progress⟩

variable {answers : List Answer}

/-- While the conflict is answered nothing changes. -/
theorem run_conflicting (hs : Conflicting config w s)
    (h : run (uploadStep config) s (answers.map .answer) = some t) : Conflicting config w t := by
  induction answers generalizing s with
  | nil =>
    cases h
    exact hs
  | cons a rest ih =>
    obtain ⟨s₁, hstep, hrest⟩ := run_cons_eq_some.mp h
    exact ih (uploadStep_conflicting hs hstep) hrest

/-- **An attempt that ends in a conflict leaves everything as it was.** -/
theorem run_conflict
    (hplan : attempt.plan config s.world.rows.task s.world.rows.file = .error conflict)
    (h : run (uploadStep config) s (.start attempt :: answers.map .answer) = some t) :
    t.world.object = s.world.object ∧ t.world.rows.task.progress = s.world.rows.task.progress := by
  obtain ⟨s₁, hstep, hrest⟩ := run_cons_eq_some.mp h
  have hs₁ : Conflicting config s.world s₁ := by
    rcases uploadStep_cases hstep with ⟨attempt', r, hact, -, rfl⟩ |
      ⟨a, op, next, r, w, hact, -, -, -⟩
    · cases hact
      exact ⟨wp_program_conflict hplan, rfl, rfl⟩
    · cases hact
  have ht := run_conflicting hs₁ hrest
  exact ⟨ht.object, ht.progress⟩

/-- **Resumed uploads deliver exactly the declared bytes.** An attempt that commits finds the object
with the size and the digest it declared, or, without a digest, the bytes it received; the chunk
size stays; and a conflict changes neither the stored bytes nor the metadata nor the checkpoint. -/
theorem resumed_uploads_deliver_declared_bytes {initial : Uploads} {actions : List UploadAction}
    (hinit : Untouched initial) (hrun : run (uploadStep config) initial actions = some s) :
    (∀ action s', uploadStep config s action = some s' → s.world.committed = false →
        s'.world.committed = true → Delivered config.sha256 s'.attempt s'.world.shelf ∧
          s'.world.rows.file = s'.attempt.storedFile) ∧
      (∀ rest t chunkSize, run (uploadStep config) s rest = some t →
        s.world.rows.task.chunkSize = some chunkSize →
          t.world.rows.task.chunkSize = some chunkSize) ∧
      (∀ (attempt : Attempt) (conflict : PlanConflict) (answers : List Answer) (t : Uploads),
        attempt.plan config s.world.rows.task s.world.rows.file = .error conflict →
        run (uploadStep config) s (.start attempt :: answers.map .answer) = some t →
          t.world.object = s.world.object ∧
            t.world.rows.task.progress = s.world.rows.task.progress) := by
  have hs : InOrder config s := run_inOrder hinit.inOrder hrun
  refine ⟨?_, ?_, ?_⟩
  · intro action s' hstep hbef hafter
    exact hs.delivered hstep hbef hafter
  · intro rest t chunkSize hrest hset
    exact run_chunkSize hrest hset
  · intro attempt conflict answers t hplan hatt
    exact run_conflict hplan hatt

end

/-! ### An upload in two attempts -/

def twoByteDigest : String := "96a296d224f285c67bee93c30f8a309157f0daa35dc5b87e410b78630a09cfc7"

/-- A server that hashes only two zero bytes. -/
def twoByteServer : TransferConfig := ⟨65536, fun _ => twoByteDigest, "", 1, 0⟩

def newUploads : Uploads := ⟨⟨0, none, 0, false⟩, .done (.ok ()), newUpload⟩

def twoBytes : Attempt := ⟨2, some twoByteDigest, 1, false⟩

/-- One byte arrives before the client is gone; the second attempt goes on from it. -/
def resumedUpload : List UploadAction :=
  .start twoBytes :: (List.replicate 8 calm ++ [frameOf 1] ++ List.replicate 3 calm ++
    [disconnected, calm, calm]).map .answer ++
  .start twoBytes :: (List.replicate 8 calm ++ [frameOf 1] ++ List.replicate 4 calm).map .answer

theorem run_resumedUpload : (run (uploadStep twoByteServer) newUploads resumedUpload).map (fun s =>
      (s.world.committed, (uploadStep twoByteServer s (.answer calm)).map fun s' =>
        (s'.world.committed, s'.world.received, s'.world.object))) =
      some (false, some (true, [0], some [0, 0])) := rfl

theorem resumed_upload_delivers_two_bytes :
    ∃ s s', run (uploadStep twoByteServer) newUploads resumedUpload = some s ∧
      uploadStep twoByteServer s (.answer calm) = some s' ∧ s'.world.received = [0] ∧
      s'.world.object = some [0, 0] ∧
      Delivered twoByteServer.sha256 s'.attempt s'.world.shelf ∧
      s'.world.rows.file = s'.attempt.storedFile := by
  obtain ⟨s, hrun, hs⟩ := map_eq_some_iff.mp run_resumedUpload
  obtain ⟨hbef, hnext⟩ := by simpa only [Prod.mk.injEq] using hs
  obtain ⟨s', hstep, hs'⟩ := map_eq_some_iff.mp hnext
  obtain ⟨hafter, hrecv, hobj⟩ := by simpa only [Prod.mk.injEq] using hs'
  have hinit : Untouched newUploads := ⟨⟨_, rfl⟩, rfl, rfl, rfl⟩
  exact ⟨s, s', hrun, hstep, hrecv, hobj,
    (resumed_uploads_deliver_declared_bytes hinit hrun).1 _ s' hstep hbef hafter⟩

end Cfms.Files
