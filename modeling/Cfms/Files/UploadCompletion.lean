import Cfms.Files.LocalStorage

/-!
# The object of a completed upload

Once the finalization has committed, the task is completed, the file is active, and the object at
its path must stay.  The message that tells the client stands in the `try` block whose handlers
clean up after a failed upload.  They ask whether the upload can be resumed and not whether it is
complete: when that message raises, an upload that cannot be resumed loses its object.
-/

namespace Cfms.Files

open Lib.Process Lib.Run List

/-- The calls that remove or abort the stored object. -/
def Op.discards : Op → Bool
  | .remove | .abort | .abortResumableUpload _ => true
  | _ => false

/-- An opened upload starts within the file, and only the transfer itself raises
`FileTaskEnded`. -/
def answerFits : (op : Op) → Except Failure op.Result → Prop
  | _, .error (.fileTaskEnded _) => False
  | .openUpload fileSize _ _, .ok upload => upload.offset ≤ fileSize
  | _, _ => True

/-- The state says whether the finalization has committed; after it no call may discard the
object. -/
def completionMachine : Machine transferSignature Failure Bool where
  allowed committed op := committed = true → Op.discards op = false
  answers committed op r committed' := committed' = committedAfter committed op r ∧ answerFits op r

section

variable {sha256 : Bytes → String} {w w' : World} {fileSize chunkSize : ℕ}

theorem resumeOffset_le {existingSize : ℕ} (h : existingSize ≤ fileSize) :
    resumeOffset existingSize fileSize chunkSize ≤ fileSize := by
  unfold resumeOffset
  split
  · exact Nat.le_refl fileSize
  · exact Nat.le_trans (Nat.sub_le _ _) h

variable {a : Answer}

theorem respondLocal_openUpload_within {prior : Option String} {upload : OpenedUpload}
    (h : respondLocal sha256 w (.openUpload fileSize chunkSize prior) a = some (.ok upload, w')) :
    upload.offset ≤ fileSize := by
  rcases respondLocal_cases h with ⟨err, -, hr, -⟩ | hans
  · cases hr
  dsimp only [answerLocal] at hans
  split at hans
  · cases hans
  rename_i hsize
  cases hans
  exact resumeOffset_le (Nat.le_of_not_lt hsize)

theorem respondLocal_completion {op : Op} {r : Except Failure op.Result}
    (h : respondLocal sha256 w op a = some (r, w')) :
    completionMachine.answers w.committed op r w'.committed := by
  refine ⟨respondLocal_committed h, ?_⟩
  cases r with
  | error err =>
    cases err with
    | fileTaskEnded status => exact respondLocal_not_ended h status rfl
    | _ => cases op <;> trivial
  | ok v =>
    cases op
    case openUpload fileSize chunkSize prior => exact respondLocal_openUpload_within h
    all_goals trivial

end

/-! ### Before and after the commit -/

section

variable {α β : Type}

/-- A call that does not finalize. -/
def Op.leavesOpen (op : Op) : Prop := ∀ sha256 size, op ≠ .finalize sha256 size

theorem Op.leavesOpen_of_isPlain : ∀ op : Op, op.isPlain = true → op.leavesOpen := by
  intro op h sha256 size hop
  subst hop
  cases h

theorem Op.leavesOpen_release : Op.leavesOpen .release := nofun

variable {op : Op}

theorem committedAfter_of_leavesOpen (h : op.leavesOpen) (committed : Bool)
    (r : Except Failure op.Result) : committedAfter committed op r = committed := by
  cases r with
  | error err => rfl
  | ok result =>
    show (committed || commits op result) = committed
    cases op with
    | finalize sha256 size => exact absurd rfl (h sha256 size)
    | _ => exact Bool.or_false committed

variable {p : Transfer α}

theorem wp_before (hp : OnlyCalls Op.leavesOpen p) :
    wp completionMachine p (fun _ committed => committed = false) false := by
  refine hp.wp ?_ (fun _ => rfl)
  intro op hop
  refine ⟨nofun, ?_⟩
  rintro r committed ⟨rfl, -⟩
  exact committedAfter_of_leavesOpen hop false r

/-- After the commit: no exception that comes out is `FileTaskEnded`. -/
def Kept (r : Except Failure α) (committed : Bool) : Prop :=
  committed = true → ∀ status, r ≠ .error (.fileTaskEnded status)

theorem wp_before_kept (hp : OnlyCalls Op.leavesOpen p) : wp completionMachine p Kept false := by
  refine wp_mono ?_ (wp_before hp)
  intro r committed hfalse htrue
  rw [hfalse] at htrue
  cases htrue

/-- What a program after the commit comes to. -/
def After (r : Except Failure α) (committed : Bool) : Prop :=
  committed = true ∧ ∀ status, r ≠ .error (.fileTaskEnded status)

theorem After.kept {r : Except Failure α} {committed : Bool} (h : After r committed) :
    Kept r committed := fun _ => h.2

theorem after_pure (a : α) : wp completionMachine (pure a) After true := ⟨rfl, nofun⟩

theorem wp_call_after (hop : op.discards = false) : wp completionMachine (call op) After true := by
  refine ⟨fun _ => hop, ?_⟩
  rintro r committed ⟨rfl, hfits⟩
  refine ⟨?_, ?_⟩
  · cases r with
    | ok result => rfl
    | error err => rfl
  · rintro status rfl
    exact hfits

variable {f : α → Transfer β}

theorem wp_bind_after (hp : wp completionMachine p After true)
    (hf : ∀ a, wp completionMachine (f a) After true) :
    wp completionMachine (p >>= f) After true := by
  rw [wp_bind]
  refine wp_mono ?_ hp
  rintro r committed ⟨rfl, hended⟩
  cases r with
  | ok a => exact hf a
  | error err =>
    refine ⟨rfl, ?_⟩
    intro status h
    cases h
    exact hended status rfl

theorem wp_bind_before {Q : Except Failure β → Bool → Prop}
    (hp : OnlyCalls Op.leavesOpen p) (herror : ∀ e, Q (.error e) false)
    (hf : ∀ a, wp completionMachine (f a) Q false) : wp completionMachine (p >>= f) Q false := by
  rw [wp_bind]
  refine wp_mono ?_ (wp_before hp)
  rintro r committed rfl
  cases r with
  | ok a => exact hf a
  | error e => exact herror e

end

section

variable {config : TransferConfig} {claimed : ClaimedFileTask} {fileSize maxChunkSize : ℕ}
  {sha256 : Option String} {restart : Bool}

variable {preparation : UploadPreparation}

theorem planUploadFileTask_resumable {proposedChunkSize clientMaxChunkSize : ℕ}
    (h : planUploadFileTask claimed fileSize sha256 proposedChunkSize clientMaxChunkSize restart =
      .ok preparation) : preparation.resumable = isResumable fileSize sha256 := by
  unfold planUploadFileTask at h
  dsimp only at h
  split at h
  · cases h
  split at h
  · cases h
  · cases h
    rfl

/-- What a preparation returns: the plan and an upload within the file. -/
def Prepared (fileSize : ℕ) (sha256 : Option String)
    (r : Except Failure (Option (UploadPreparation × OpenedUpload))) (committed : Bool) : Prop :=
  committed = false ∧ ∀ preparation upload, r = .ok (some (preparation, upload)) →
    preparation.resumable = isResumable fileSize sha256 ∧ upload.offset ≤ fileSize

theorem prepared_error (e : Failure) : Prepared fileSize sha256 (.error e) false :=
  ⟨rfl, fun _ _ hprep => by cases hprep⟩

theorem prepared_none : Prepared fileSize sha256 (.ok none) false :=
  ⟨rfl, fun _ _ hprep => by cases hprep⟩

variable {p : Transfer Unit}

theorem wp_refusal (hp : OnlyCalls Op.leavesOpen p) :
    wp completionMachine (p >>= fun _ => pure none) (Prepared fileSize sha256) false :=
  wp_bind_before hp prepared_error fun _ => prepared_none

theorem wp_openUpload_within (preparation : UploadPreparation) :
    wp completionMachine (openUpload fileSize preparation)
      (fun r committed => committed = false ∧ ∀ upload, r = .ok (some upload) →
        upload.offset ≤ fileSize) false := by
  refine ⟨nofun, ?_⟩
  rintro r committed ⟨rfl, hfits⟩
  cases r with
  | ok upload =>
    refine ⟨rfl, ?_⟩
    intro _ h
    cases h
    exact hfits
  | error err =>
    cases err with
    | resumableUploadSizeError =>
      refine wp_bind_before (onlyCalls_call Op.leavesOpen_release) (fun _ => ⟨rfl, nofun⟩) ?_
      intro _
      refine wp_bind_before (onlyCalls_concludeRequest Op.leavesOpen_of_isPlain _ _)
        (fun _ => ⟨rfl, nofun⟩) ?_
      intro _
      exact ⟨rfl, nofun⟩
    | _ => exact ⟨rfl, nofun⟩

theorem wp_prepareUploadTransfer_prepared :
    wp completionMachine (prepareUploadTransfer config claimed fileSize sha256 maxChunkSize restart)
      (Prepared fileSize sha256) false := by
  unfold prepareUploadTransfer
  split
  · refine wp_bind_before (onlyCalls_concludeRequest Op.leavesOpen_of_isPlain _ _) prepared_error ?_
    intro _
    exact wp_refusal (onlyCalls_call Op.leavesOpen_release)
  · refine wp_bind_before (onlyCalls_concludeRequest Op.leavesOpen_of_isPlain _ _) prepared_error ?_
    intro _
    exact wp_refusal (onlyCalls_call Op.leavesOpen_release)
  · rename_i preparation hplan
    refine wp_bind_before (onlyCalls_discardExisting Op.leavesOpen_of_isPlain) prepared_error ?_
    intro _
    refine wp_bind_before (onlyCalls_call (Op.leavesOpen_of_isPlain (.applyPreparation _ _ _) rfl))
      prepared_error ?_
    intro status
    refine wp_bind_before (onlyCalls_requireInProgress status) prepared_error ?_
    intro _
    refine wp_bind_before (onlyCalls_call (Op.leavesOpen_of_isPlain .makedirs rfl))
      prepared_error ?_
    intro _
    rw [wp_bind]
    refine wp_mono ?_ (wp_openUpload_within preparation)
    rintro r committed ⟨rfl, hwithin⟩
    match r with
    | .error e => exact prepared_error e
    | .ok none => exact prepared_none
    | .ok (some upload) =>
      refine wp_bind_before (onlyCalls_recordStorageSession Op.leavesOpen_of_isPlain upload)
        prepared_error ?_
      intro _
      refine ⟨rfl, ?_⟩
      rintro _ _ h
      cases h
      exact ⟨planUploadFileTask_resumable hplan, hwithin upload rfl⟩

theorem wp_finalizeUploadTransfer_kept (actualSize : ℕ) :
    wp completionMachine (finalizeUploadTransfer actualSize fileSize sha256) Kept false := by
  refine ⟨nofun, ?_⟩
  rintro r committed ⟨rfl, -⟩
  match r with
  | .error e => exact nofun
  | .ok none => exact nofun
  | .ok (some .completed) =>
    show wp completionMachine (concludeRequest 200 _ >>= _) Kept true
    refine wp_mono (fun _ _ => After.kept) (wp_bind_after (wp_call_after rfl) ?_)
    intro _
    split
    · exact after_pure ()
    rw [wp_tryCatch]
    refine wp_mono ?_ (wp_call_after rfl)
    rintro r committed ⟨rfl, hended⟩
    cases r with
    | ok _ => exact ⟨rfl, hended⟩
    | error e => exact after_pure ()
  | .ok (some .pending) | .ok (some .cancelled) | .ok (some .inProgress) | .ok (some .expired) =>
    refine wp_before_kept ?_
    refine (onlyCalls_call (Op.leavesOpen_of_isPlain .remove rfl)).bind fun _ => ?_
    refine (onlyCalls_concludeRequest Op.leavesOpen_of_isPlain _ _).bind fun _ => ?_
    exact onlyCalls_call (Op.leavesOpen_of_isPlain .commit rfl)

theorem wp_settleUpload_after : wp completionMachine (settleUpload true) After true :=
  wp_bind_after (wp_call_after rfl) fun _ => after_pure ()

variable {err : Failure}

theorem wp_receiveFailed_after (h : ∀ status, err ≠ .fileTaskEnded status) :
    wp completionMachine (receiveFailed true err) After true := by
  cases err with
  | fileTaskEnded status => exact absurd rfl (h status)
  | connectionError => exact wp_bind_after wp_settleUpload_after fun _ => wp_call_after rfl
  | timeoutError | connectionClosed | resumableUploadSizeError | other =>
    refine wp_bind_after wp_settleUpload_after fun _ => ?_
    exact wp_bind_after (wp_call_after rfl) fun _ => wp_call_after rfl

theorem wp_uploadFailed_after (h : ∀ status, err ≠ .fileTaskEnded status) :
    wp completionMachine (uploadFailed claimed err) After true := by
  cases err with
  | fileTaskEnded status => exact absurd rfl (h status)
  | _ => exact wp_bind_after (wp_call_after rfl) fun _ => wp_call_after rfl

theorem wp_tryCatch_kept {handler : Failure → Transfer Unit}
    (hp : wp completionMachine p Kept false)
    (hbef : ∀ e, OnlyCalls Op.leavesOpen (handler e))
    (hafter : ∀ e, (∀ status, e ≠ .fileTaskEnded status) →
      wp completionMachine (handler e) After true) :
    wp completionMachine (tryCatch p handler) Kept false := by
  rw [wp_tryCatch]
  refine wp_mono ?_ hp
  intro r committed hkept
  cases r with
  | ok a => exact hkept
  | error e =>
    cases committed with
    | false => exact wp_before_kept (hbef e)
    | true =>
      refine wp_mono (fun _ _ => After.kept) (hafter e ?_)
      rintro status rfl
      exact hkept rfl status rfl

theorem wp_receiveFile_kept
    (hreceive : ∀ preparation upload, preparation.resumable = isResumable fileSize sha256 →
      upload.offset ≤ fileSize → wp completionMachine (tryCatch (do
            match ← receiveUploadContents config preparation upload fileSize sha256 with
            | none => pure ()
            | some actualSize => finalizeUploadTransfer actualSize fileSize sha256)
          (receiveFailed preparation.resumable)) Kept false) :
    wp completionMachine (receiveFile config fileSize sha256 maxChunkSize restart) Kept false := by
  refine ⟨nofun, ?_⟩
  rintro r committed ⟨rfl, -⟩
  match r with
  | .error e => exact nofun
  | .ok (.error err) =>
    exact wp_before_kept (onlyCalls_concludeFileTaskClaimFailure Op.leavesOpen_of_isPlain err)
  | .ok (.ok claimed) =>
    refine wp_tryCatch_kept ?_ (onlyCalls_uploadFailed Op.leavesOpen_of_isPlain
      Op.leavesOpen_release) fun _ => wp_uploadFailed_after
    rw [receiveClaimedFile, wp_bind]
    refine wp_mono ?_ wp_prepareUploadTransfer_prepared
    rintro r committed ⟨rfl, hprep⟩
    match r with
    | .error e => exact nofun
    | .ok none => exact nofun
    | .ok (some (preparation, upload)) =>
      obtain ⟨hresum, hoff⟩ := hprep preparation upload rfl
      exact hreceive preparation upload hresum hoff

/-- **A resumable upload keeps its object after the commit.** -/
theorem wp_receiveFile_resumable (h : isResumable fileSize sha256 = true) :
    wp completionMachine (receiveFile config fileSize sha256 maxChunkSize restart) Kept false := by
  refine wp_receiveFile_kept ?_
  intro preparation upload hresum _
  rw [hresum, h]
  refine wp_tryCatch_kept ?_ (onlyCalls_receiveFailed Op.leavesOpen_of_isPlain
    Op.leavesOpen_release true) fun _ => wp_receiveFailed_after
  refine wp_bind_before (onlyCalls_receiveUploadContents Op.leavesOpen_of_isPlain
    Op.leavesOpen_release upload fileSize sha256) (fun _ => nofun) ?_
  intro actualSize
  cases actualSize with
  | none => exact nofun
  | some actualSize => exact wp_finalizeUploadTransfer_kept actualSize

variable {declared : String}

theorem wp_receiveUploadContents_empty {upload : OpenedUpload} (hoff : upload.offset = 0)
    (h : declared ≠ config.sha256 []) :
    wp completionMachine (receiveUploadContents config preparation upload 0 (some declared))
      (fun r committed => committed = false ∧ ∀ size, r ≠ .ok (some size)) false := by
  refine wp_bind_before (onlyCalls_call (Op.leavesOpen_of_isPlain (.send _) rfl))
    (fun _ => ⟨rfl, nofun⟩) ?_
  intro _
  rw [hoff, wp_bind]
  -- no rounds: nothing has been hashed
  refine (andThen_ok (a := some [])).mpr ?_
  refine wp_bind_before (onlyCalls_call (Op.leavesOpen_of_isPlain .finish rfl))
    (fun _ => ⟨rfl, nofun⟩) ?_
  intro _
  refine wp_bind_before (onlyCalls_call (Op.leavesOpen_of_isPlain .getsize rfl))
    (fun _ => ⟨rfl, nofun⟩) ?_
  intro actualSize
  split
  · exact ⟨rfl, nofun⟩
  show wp completionMachine (if config.sha256 [] ≠ declared then _ else _) _ false
  rw [if_pos (Ne.symm h)]
  refine wp_bind_before (onlyCalls_refuseDigest Op.leavesOpen_of_isPlain Op.leavesOpen_release)
    (fun _ => ⟨rfl, nofun⟩) ?_
  intro _
  exact ⟨rfl, nofun⟩

/-- **An empty upload with a wrong digest never commits.** -/
theorem wp_receiveFile_empty (h : declared ≠ config.sha256 []) :
    wp completionMachine (receiveFile config 0 (some declared) maxChunkSize restart) Kept false := by
  refine wp_receiveFile_kept ?_
  intro preparation upload hresum hoff
  rw [wp_tryCatch, wp_bind]
  refine wp_mono ?_ (wp_receiveUploadContents_empty (Nat.le_zero.mp hoff) h)
  rintro r committed ⟨rfl, hnone⟩
  match r with
  | .error e =>
    exact wp_before_kept (onlyCalls_receiveFailed Op.leavesOpen_of_isPlain Op.leavesOpen_release
      _ e)
  | .ok none => exact nofun
  | .ok (some size) => exact absurd rfl (hnone size)

end

/-! ### A run that loses the object -/

/-- The task is in progress and so many bytes lie at the path. -/
structure InTransfer (w : World) (size : ℕ) : Prop where
  status : w.rows.task.status = .inProgress
  object : ∃ bytes, w.object = some bytes ∧ bytes.length = size

section

variable {config : TransferConfig} {fileSize maxChunkSize : ℕ} {sha256 : Option String}
  {restart : Bool} {w : World}

theorem reaches_call_bind {β : Type} {op : Op} {f : op.Result → Transfer β} {w' : World} (a : Answer)
    (v : op.Result) (h : respondLocal config.sha256 w op a = some (.ok v, w')) :
    Reaches (respondLocal config.sha256) (call op >>= f, w) (f v, w') :=
  @reaches_perform_bind transferSignature Failure β World Answer _ w w' op f a v h

theorem reaches_recvFileTaskFrame {polls : ℕ} (hpolls : 0 < polls) (n : ℕ) :
    Reaches (respondLocal config.sha256) (recvFileTaskFrame polls, w)
      (pure (List.replicate n 0), { w with received := w.received ++ replicate n 0 }) := by
  obtain ⟨polls, rfl⟩ := Nat.exists_eq_succ_of_ne_zero (Nat.pos_iff_ne_zero.mp hpolls)
  refine (reaches_bind (reaches_call_bind calm false rfl)).trans ?_
  refine (reaches_call_bind calm false rfl).trans ?_
  exact (reaches_call_bind (frameOf n) (some (replicate n 0)) rfl).trans (Reaches.refl _)

variable {preparation : UploadPreparation}

theorem reaches_receiveChunks (hpolls : 0 < config.polls)
    (hchunk : 0 < preparation.chunkSize) (hashing : Bool) (remaining receivedSize : ℕ)
    (hashed : Bytes) (hw : InTransfer w receivedSize) (hsize : receivedSize ≤ fileSize)
    (hrem : fileSize - receivedSize ≤ remaining) :
    ∃ hashed' w', InTransfer w' fileSize ∧ (receivedSize = fileSize → hashed' = hashed) ∧
      Reaches (respondLocal config.sha256)
        (receiveChunks config preparation fileSize hashing remaining receivedSize hashed, w)
        (pure (some hashed'), w') := by
  induction remaining generalizing receivedSize hashed w with
  | zero =>
    have hdone : receivedSize = fileSize := by omega
    exact ⟨hashed, w, hdone ▸ hw, fun _ => rfl, Reaches.refl _⟩
  | succ remaining ih =>
    rw [receiveChunks]
    by_cases hlt : receivedSize < fileSize
    · rw [if_pos hlt]
      set n := min preparation.chunkSize (fileSize - receivedSize) with hn
      have hlength : (replicate n (0 : UInt8)).length = n := length_replicate
      obtain ⟨bytes, hbytes, hlen⟩ := hw.object
      have hwrit : InTransfer { w with
          received := w.received ++ replicate n 0
          object := w.object.map (· ++ replicate n 0) }
          (receivedSize + (replicate n (0 : UInt8)).length) := by
        refine ⟨hw.status, bytes ++ replicate n 0, ?_, ?_⟩
        · rw [hbytes]
          rfl
        · rw [length_append, hlen]
      obtain ⟨hashed', w', hw', -, hrest⟩ := ih _ (if hashing then hashed ++ replicate n 0
        else hashed) hwrit (by rw [hlength]; omega) (by rw [hlength]; omega)
      refine ⟨hashed', w', hw', by omega, ?_⟩
      refine (reaches_bind (reaches_recvFileTaskFrame hpolls n)).trans ?_
      show Reaches _ (if (replicate n (0 : UInt8)).length ≠ n then _ else _, _) _
      rw [if_neg (by rw [hlength]; exact fun h => h rfl)]
      exact (reaches_call_bind calm () rfl).trans hrest
    · rw [if_neg hlt]
      have hdone : receivedSize = fileSize := by omega
      exact ⟨hashed, w, hdone ▸ hw, fun _ => rfl, Reaches.refl _⟩

def newClaim : ClaimedFileTask := claimedFileTask .upload newUpload.rows.task newUpload.rows.file

/-- A new task once it is claimed. -/
def claimedUpload : World where
  rows := ⟨{ mode := .upload, status := .inProgress, startTime := 0, endTime := none }, {}⟩

/-- The plan for a new task. -/
def newPreparation (fileSize : ℕ) (sha256 : Option String) (chunkSize : ℕ) (restart : Bool) :
    UploadPreparation :=
  ⟨chunkSize, isResumable fileSize sha256, restart, none, none, none⟩

theorem plan_newClaim {proposedChunkSize : ℕ} (h : proposedChunkSize ≤ maxChunkSize) :
    planUploadFileTask newClaim fileSize sha256 proposedChunkSize maxChunkSize restart =
      .ok (newPreparation fileSize sha256 proposedChunkSize restart) := by
  have hfits : ¬ orChunkSize newClaim.chunkSize proposedChunkSize > maxChunkSize := Nat.not_lt.mpr h
  unfold planUploadFileTask
  rw [if_neg hfits]
  cases restart <;> rfl

variable {chunkSize : ℕ}

theorem reaches_discardExisting : Reaches (respondLocal config.sha256)
      (discardExisting (newPreparation fileSize sha256 chunkSize restart) newClaim, claimedUpload)
      (pure (), claimedUpload) := by
  cases restart with
  | true => exact ⟨[calm], rfl⟩
  | false => exact Reaches.refl _

theorem resumeOffset_new (fileSize chunkSize : ℕ) : resumeOffset 0 fileSize chunkSize = 0 := by
  unfold resumeOffset
  split
  · rename_i h
    exact h.symm
  · exact Nat.zero_sub _

theorem respondLocal_openUpload {prior : Option String} (h : w.object = none) :
    respondLocal config.sha256 w (.openUpload fileSize chunkSize prior) calm =
      some (.ok ⟨0, none, some chunkSize, none⟩, { w with object := some [], uploadOpen := true }) := by
  simp [respondLocal, calm, World.interrupted, answerLocal, h, resumeOffset_new]

/-- The row of a new task after the preparation, and after its storage session is recorded. -/
def preparedTask (fileSize : ℕ) (sha256 : Option String) (chunkSize : ℕ) (restart : Bool) : FileTask :=
  applyUploadFileTaskPreparation claimedUpload.rows.task
    (newPreparation fileSize sha256 chunkSize restart) fileSize sha256

variable (config fileSize sha256 restart) in
theorem reaches_prepareUploadTransfer (hchunk : 0 < config.fileChunkSize) (hmax : 0 < maxChunkSize) :
    ∃ preparation upload w, preparation.resumable = isResumable fileSize sha256 ∧
      0 < preparation.chunkSize ∧ upload.offset = 0 ∧ InTransfer w 0 ∧
      Reaches (respondLocal config.sha256)
        (prepareUploadTransfer config newClaim fileSize sha256 maxChunkSize restart, claimedUpload)
        (pure (some (preparation, upload)), w) := by
  set proposed := negotiateFileChunkSize maxChunkSize config.fileChunkSize
    uploadTransferMaxChunkSize with hproposed
  have hpos : 0 < proposed := by
    simp only [hproposed, negotiateFileChunkSize, uploadTransferMaxChunkSize]
    omega
  have hle : proposed ≤ maxChunkSize := Nat.min_le_left _ _
  let upload : OpenedUpload := ⟨0, none, some proposed, none⟩
  let task := preparedTask fileSize sha256 proposed restart
  refine ⟨newPreparation fileSize sha256 proposed restart, upload,
    { rows := ⟨recordUploadStorageSession task none (some proposed) none, {}⟩
      object := some []
      uploadOpen := true }, rfl, hpos, rfl, ⟨rfl, [], rfl, rfl⟩, ?_⟩
  unfold prepareUploadTransfer
  rw [plan_newClaim hle]
  refine (reaches_bind reaches_discardExisting).trans ?_
  refine (reaches_call_bind calm (some .inProgress) rfl).trans ?_
  refine (reaches_call_bind calm () rfl).trans ?_
  refine (reaches_bind (reaches_tryCatch (reaches_call_bind calm upload
    (respondLocal_openUpload rfl)))).trans ?_
  exact (reaches_bind (reaches_tryCatch (reaches_call_bind calm (some .inProgress) rfl))).trans
    (Reaches.refl _)

theorem reaches_receiveUploadContents {upload : OpenedUpload}
    (hpolls : 0 < config.polls) (hchunk : 0 < preparation.chunkSize) (hoff : upload.offset = 0)
    (hw : InTransfer w 0)
    (hdig : ∀ declared, sha256 = some declared → fileSize = 0 ∧ declared = config.sha256 []) :
    ∃ w', InTransfer w' fileSize ∧ Reaches (respondLocal config.sha256)
      (receiveUploadContents config preparation upload fileSize sha256, w)
      (pure (some fileSize), w') := by
  obtain ⟨hashed, w', hw', hhash, hchunks⟩ := reaches_receiveChunks hpolls hchunk
    (upload.offset == 0 && sha256.isSome) (fileSize - upload.offset) upload.offset [] (hoff ▸ hw)
    (hoff ▸ Nat.zero_le fileSize) (Nat.le_refl _)
  obtain ⟨bytes, hbytes, hlength⟩ := hw'.object
  refine ⟨{ w' with uploadOpen := false }, ⟨hw'.status, hw'.object⟩, ?_⟩
  have hsize : respondLocal config.sha256 { w' with uploadOpen := false } .getsize calm =
      some (.ok fileSize, { w' with uploadOpen := false }) := by
    simp [respondLocal, calm, World.interrupted, answerLocal, hbytes, hlength]
  refine (reaches_call_bind calm () rfl).trans ?_
  refine (reaches_bind hchunks).trans ?_
  refine (reaches_call_bind calm () rfl).trans ?_
  refine (reaches_call_bind calm fileSize hsize).trans ?_
  rw [if_neg (fun h => h rfl)]
  cases sha256 with
  | none => exact Reaches.refl _
  | some declared =>
    obtain ⟨hempty, hdecl⟩ := hdig declared rfl
    rw [hhash (hoff.trans hempty.symm), hoff]
    show Reaches _ (if config.sha256 [] ≠ declared then _ else _, _) _
    rw [hdecl, if_neg (fun h => h rfl)]
    exact Reaches.refl _

variable (config sha256) in
theorem respondLocal_finalize (size : ℕ) (h : w.rows.task.status = .inProgress) :
    ∃ w', w'.committed = true ∧ respondLocal config.sha256 w (.finalize sha256 size) calm =
      some (.ok (some .completed), w') := by
  let outcome := finalizeUploadTask w.rows.task w.rows.file sha256 size
  have hst : outcome.1.status = .completed := by
    simp [outcome, finalizeUploadTask, completeFileTask, h]
  refine ⟨{ w with rows := ⟨outcome.1, outcome.2⟩, committed := true }, rfl, ?_⟩
  show some (Except.ok (some outcome.1.status), { w with
    rows := ⟨outcome.1, outcome.2⟩
    committed := w.committed || commits (.finalize sha256 size) (some outcome.1.status) }) = _
  rw [hst]
  show some (Except.ok (some FileTaskStatus.completed), { w with
    rows := ⟨outcome.1, outcome.2⟩
    committed := w.committed || true }) = _
  rw [Bool.or_true]

variable (restart) in
/-- The client is gone when it is told of the completed upload, and the handler is about to abort
the upload. -/
theorem reaches_discard (hchunk : 0 < config.fileChunkSize) (hpolls : 0 < config.polls)
    (hmax : 0 < maxChunkSize) (hresum : isResumable fileSize sha256 = false)
    (hdig : ∀ declared, sha256 = some declared → fileSize = 0 ∧ declared = config.sha256 []) :
    ∃ s, Reaches (respondLocal config.sha256)
        (receiveFile config fileSize sha256 maxChunkSize restart, newUpload) s ∧
      s.2.committed = true ∧ s.1.next? = some .abort := by
  obtain ⟨preparation, upload, w, hprep, hsize, hoff, hw, hprepare⟩ :=
    reaches_prepareUploadTransfer config fileSize sha256 restart hchunk hmax
  obtain ⟨w', hw', hcontents⟩ := reaches_receiveUploadContents hpolls hsize hoff hw hdig
  obtain ⟨w'', hcomm, hfinalize⟩ := respondLocal_finalize config sha256 fileSize hw'.status
  rw [hresum] at hprep
  have hfail : Reaches (respondLocal config.sha256)
      (receiveClaimedFile config newClaim fileSize sha256 maxChunkSize restart, claimedUpload)
      (receiveFailed preparation.resumable .connectionError, w'') := by
    refine (reaches_bind hprepare).trans ?_
    refine (reaches_tryCatch (reaches_bind hcontents)).trans ?_
    refine (reaches_tryCatch (reaches_call_bind calm (some .completed) hfinalize)).trans ?_
    exact reaches_raise disconnected Failure.connectionError rfl
  rw [hprep] at hfail
  have hclose : Reaches (respondLocal config.sha256) (receiveFailed false .connectionError, w'')
      ((do call .abort; call .remove; call .clearProgress) >>= fun _ => call .release,
        { w'' with uploadOpen := false }) :=
    reaches_bind (reaches_call_bind calm () rfl)
  have hclm : Reaches (respondLocal config.sha256)
      (receiveFile config fileSize sha256 maxChunkSize restart, newUpload)
      (tryCatch (receiveClaimedFile config newClaim fileSize sha256 maxChunkSize restart)
        (uploadFailed newClaim), claimedUpload) :=
    (reaches_call_bind calm (Except.ok newClaim) rfl).trans (Reaches.refl _)
  exact ⟨_, hclm.trans (reaches_tryCatch (hfail.trans hclose)), hcomm, rfl⟩

end

/-! ### When the object stays -/

/-- In every run of `receive_file` with these arguments, from every world, no call after the commit
removes or aborts the stored object. -/
def KeepsObject (config : TransferConfig) (fileSize : ℕ) (sha256 : Option String)
    (maxChunkSize : ℕ) (restart : Bool) : Prop :=
  ∀ (w : World) (actions : List Answer) (s : Transfer Unit × World) (op : Op),
    w.committed = false →
    run (advance (respondLocal config.sha256))
      (receiveFile config fileSize sha256 maxChunkSize restart, w) actions = some s →
    s.2.committed = true → s.1.next? = some op → op.discards = false

section

variable {config : TransferConfig} {fileSize maxChunkSize : ℕ} {sha256 : Option String}
  {restart : Bool}

theorem keepsObject_of_wp
    (h : wp completionMachine (receiveFile config fileSize sha256 maxChunkSize restart) Kept false) :
    KeepsObject config fileSize sha256 maxChunkSize restart := by
  intro w actions s op hfresh hrun hcomm hnext
  have hwp : wp completionMachine s.1 Kept s.2.committed := by
    refine wp_run World.committed (fun _ _ _ _ _ => respondLocal_completion) ?_ hrun
    rw [hfresh]
    exact h
  exact allowed_of_next? hwp hnext hcomm

/-- **A completed upload keeps its object exactly when a digest is declared**, for a file with
bytes; an upload without bytes never completes when the declared digest is not that of no bytes. -/
theorem completed_upload_keeps_object (hchunk : 0 < config.fileChunkSize)
    (hpolls : 0 < config.polls) (hmax : 0 < maxChunkSize) :
    KeepsObject config fileSize sha256 maxChunkSize restart ↔
      ∃ declared, sha256 = some declared ∧ (0 < fileSize ∨ declared ≠ config.sha256 []) := by
  constructor
  · intro hkeeps
    by_contra hnone
    have hdig : ∀ declared, sha256 = some declared →
        fileSize = 0 ∧ declared = config.sha256 [] := by
      intro declared hdecl
      refine ⟨?_, ?_⟩
      · by_contra hsize
        exact hnone ⟨declared, hdecl, Or.inl (Nat.pos_of_ne_zero hsize)⟩
      · by_contra hwrong
        exact hnone ⟨declared, hdecl, Or.inr hwrong⟩
    have hresum : isResumable fileSize sha256 = false := by
      cases sha256 with
      | none => rfl
      | some declared =>
        rw [(hdig declared rfl).1]
        rfl
    obtain ⟨s, ⟨actions, hrun⟩, hcomm, hnext⟩ :=
      reaches_discard restart hchunk hpolls hmax hresum hdig
    cases hkeeps newUpload actions s .abort rfl hrun hcomm hnext
  · rintro ⟨declared, rfl, hbytes⟩
    refine keepsObject_of_wp ?_
    by_cases hsize : 0 < fileSize
    · refine wp_receiveFile_resumable ?_
      rw [isResumable, decide_eq_true hsize]
      rfl
    · obtain rfl : fileSize = 0 := by omega
      rcases hbytes with hpos | hwrong
      · exact absurd hpos hsize
      · exact wp_receiveFile_empty hwrong

end

def zeroByteDigest : String := "6e340b9cffb37a989ca544e6bb780a2c78901d3fb33738768511a30617afa01d"

def zeroByteServer : TransferConfig := ⟨65536, fun _ => zeroByteDigest, "", 1, 0⟩

/-- One byte arrives, the upload is finalized, and the client is gone when it is told. -/
def lostCompletion : List Answer :=
  List.replicate 8 calm ++ [frameOf 1] ++ List.replicate 4 calm ++ [disconnected, calm]

theorem run_lostCompletion : (run (advance (respondLocal zeroByteServer.sha256))
      (receiveFile zeroByteServer 1 none 512 false, newUpload) lostCompletion).map (fun s =>
        (s.2.committed, s.2.rows.task.status, s.2.rows.file.active, s.1.next?)) =
      some (true, .completed, true, some .abort) := rfl

/-- The handler aborts a completed upload of one byte without a digest. -/
theorem completed_upload_is_aborted : ¬ KeepsObject zeroByteServer 1 none 512 false := by
  intro hkeeps
  obtain ⟨s, hrun, hs⟩ := Option.map_eq_some_iff.mp run_lostCompletion
  obtain ⟨hcomm, -, -, hnext⟩ := by simpa only [Prod.mk.injEq] using hs
  cases hkeeps newUpload lostCompletion s .abort rfl hrun hcomm hnext

theorem run_lostCompletion_digest : (run (advance (respondLocal zeroByteServer.sha256))
      (receiveFile zeroByteServer 1 (some zeroByteDigest) 512 false, newUpload) lostCompletion).map
        (fun s => (s.2.committed, s.2.object, s.1.next?)) =
      some (true, some [0], some .release) := rfl

/-- The same run with a digest commits, and the object stays in it and in every other run. -/
theorem completed_upload_keeps_object_with_digest :
    (∃ s, run (advance (respondLocal zeroByteServer.sha256))
        (receiveFile zeroByteServer 1 (some zeroByteDigest) 512 false, newUpload) lostCompletion =
          some s ∧ s.2.committed = true ∧ s.2.object = some [0]) ∧
      KeepsObject zeroByteServer 1 (some zeroByteDigest) 512 false := by
  refine ⟨?_, ?_⟩
  · obtain ⟨s, hrun, hs⟩ := Option.map_eq_some_iff.mp run_lostCompletion_digest
    obtain ⟨hcomm, hobj, -⟩ := by simpa only [Prod.mk.injEq] using hs
    exact ⟨s, hrun, hcomm, hobj⟩
  · refine (completed_upload_keeps_object ?_ ?_ ?_).mpr ⟨zeroByteDigest, rfl, Or.inl ?_⟩
    · decide
    · decide
    · decide
    · decide

end Cfms.Files
