import Cfms.Files.TaskOwnership

/-!
# The claim of a download

A download attempt claims its task and has to give it back, however the transfer ends.  The
releases stand in the branches that refuse to go on and in the handlers around the loop over the
file.  What comes before the file is opened, the confirmation of an empty file and the completing
transaction stand outside of these handlers: when a call raises there, or the client does not
answer in time, `send_file` ends with the task in progress.

While the attempt runs, the task may be cancelled or expire between any two of its calls.  Once
the claim has ended other connections may do anything with the task.
-/

namespace Cfms.Files

open Access (Instant)
open Lib.Process Lib.Run

/-! ### An attempt in its world -/

/-- What became of the claim of the attempt. -/
inductive Claim
  | unclaimed
  | live
  | ended (status : FileTaskStatus)
  deriving DecidableEq

/-- The claim ends with the status `IN_PROGRESS`. -/
def Claim.settle (claim : Claim) (status : FileTaskStatus) : Claim :=
  match claim with
  | .live => if status = .inProgress then .live else .ended status
  | _ => claim

structure Sending where
  rows : Rows
  claim : Claim := .unclaimed
  /-- The file was opened: the calls are inside the `try` of `_send_download_contents`. -/
  guarded : Bool := false
  /-- How often the current wait for a frame has timed out. -/
  waits : ℕ := 0
  /-- The client has sent `complete`. -/
  confirmed : Bool := false
  deriving DecidableEq

/-- What happens to the task between two calls. -/
inductive Interference
  | cancel
  | expire (now : Instant)
  /-- Other connections, once the claim is over. -/
  | others (rows : Rows)

def Sending.settle (attempt : Sending) (rows : Rows) : Sending :=
  { attempt with rows := rows, claim := attempt.claim.settle rows.task.status }

def Sending.interfere (attempt : Sending) : Interference → Sending
  | .cancel => attempt.settle { attempt.rows with task := cancelFileTask attempt.rows.task }
  | .expire now =>
    attempt.settle { attempt.rows with task := expireFileTaskIfDue attempt.rows.task now }
  | .others rows => if attempt.claim = .live then attempt else { attempt with rows := rows }

/-- The claim after an answered call that leaves the status. -/
def nextClaim (status : FileTaskStatus) : Claim → (op : Op) → Except Failure op.Result → Claim
  | .unclaimed, .claimDownload, .ok (.ok (_, true)) => .live
  | .unclaimed, .claimDownload, .ok (.ok (_, false)) => .ended status
  | claim, _, _ => claim.settle status

def nextWaits (waits : ℕ) : (op : Op) → Except Failure op.Result → ℕ
  | .recv, .ok none => waits + 1
  | .recv, .ok (some _) => 0
  | _, _ => waits

/-- The call has received the frame `complete`. -/
def receivesComplete : (op : Op) → Except Failure op.Result → Bool
  | .recv, .ok (some data) => data == "complete".toUTF8.toList
  | _, _ => false

def Sending.answered (attempt : Sending) (op : Op) (r : Except Failure op.Result) (rows : Rows) :
    Sending where
  rows := rows
  claim := nextClaim rows.task.status attempt.claim op r
  guarded := attempt.guarded || op == .openFile
  waits := nextWaits attempt.waits op r
  confirmed := attempt.confirmed || receivesComplete op r

/-- How the world answers a call, and what has happened to the task just before. -/
structure DownloadAnswer where
  before : List Interference := []
  moment : Moment
  raises : Option Failure := none
  reply : (op : Op) → op.Result

def Sending.disturbed (attempt : Sending) (answer : DownloadAnswer) : Sending :=
  answer.before.foldl Sending.interfere attempt

/-- The release transaction does not raise, and only the transfer itself raises
`FileTaskEnded`. -/
def raisable (op : Op) : Option Failure → Bool
  | none => true
  | some (.fileTaskEnded _) => false
  | some _ => op != .release

/-- The answer to a call. -/
def respondDownload (attempt : Sending) (op : Op) (answer : DownloadAnswer) :
    Option (Except Failure op.Result × Sending) :=
  if raisable op answer.raises then
    let disturbed := attempt.disturbed answer
    let answered := respond answer.moment answer.raises answer.reply disturbed.rows op
    some (answered.1, disturbed.answered op answered.1 answered.2)
  else none

def Sending.GivenBack (attempt : Sending) : Prop :=
  ∃ status, attempt.claim = .ended status ∧
    (status = .pending ∨ status = .expired ∨ status = .cancelled ∨
      (status = .completed ∧ attempt.confirmed = true))

/-- The handlers of `_send_download_contents` cover the call. -/
def Sending.protects (attempt : Sending) (op : Op) : Bool :=
  op != .complete && (attempt.guarded || op == .openFile)

/-- The client's silence does not outlast the idle timeout in this call. -/
def inTime (polls waits : ℕ) : (op : Op) → op.Result → Bool
  | .deadlinePassed, passed => !passed
  | .recv, received => received.isSome || waits + 1 < polls
  | _, _ => true

/-- The condition on a call: where no handler releases the live claim, the call does not raise and
the client answers in time. -/
def calmDownload (polls : ℕ) (attempt : Sending) (op : Op) (answer : DownloadAnswer) : Bool :=
  (attempt.disturbed answer).claim != .live || attempt.protects op ||
    (answer.raises.isNone && inTime polls attempt.waits op (answer.reply op))

def calmStep (polls : ℕ) : Transfer Unit × Sending → DownloadAnswer → Bool
  | (.done _, _), _ => true
  | (.call op _, attempt), answer => calmDownload polls attempt op answer

/-- The world, as long as it is calm. -/
def downloadMachine (polls : ℕ) : Machine transferSignature Failure Sending where
  allowed _ _ := True
  answers attempt op r attempt' :=
    ∃ answer, calmDownload polls attempt op answer = true ∧
      respondDownload attempt op answer = some (r, attempt')

/-! ### A claim that was given back -/

variable {polls : ℕ} {attempt attempt' : Sending} {op : Op} {answer : DownloadAnswer}
  {r : Except Failure op.Result} {α β : Type}

variable {status : FileTaskStatus}

/-- A task that is over stays so, whoever interferes. -/
theorem interfere_ended (h : attempt.claim = .ended status)
    (interference : Interference) : (attempt.interfere interference).claim = .ended status := by
  cases interference with
  | cancel | expire now =>
    simp only [Sending.interfere, Sending.settle, h]
    rfl
  | others rows =>
    simp only [Sending.interfere]
    rw [if_neg (by rw [h]; nofun)]
    exact h

/-- What interference leaves alone. -/
structure SameFlags (attempt attempt' : Sending) : Prop where
  guarded : attempt'.guarded = attempt.guarded
  waits : attempt'.waits = attempt.waits
  confirmed : attempt'.confirmed = attempt.confirmed

theorem SameFlags.refl (attempt : Sending) : SameFlags attempt attempt := ⟨rfl, rfl, rfl⟩

theorem SameFlags.trans {attempt'' : Sending} (h : SameFlags attempt attempt')
    (h' : SameFlags attempt' attempt'') : SameFlags attempt attempt'' :=
  ⟨h'.guarded.trans h.guarded, h'.waits.trans h.waits, h'.confirmed.trans h.confirmed⟩

theorem interfere_flags (attempt : Sending) (interference : Interference) :
    SameFlags attempt (attempt.interfere interference) := by
  cases interference with
  | cancel | expire now => exact ⟨rfl, rfl, rfl⟩
  | others rows =>
    simp only [Sending.interfere]
    split_ifs
    · exact .refl attempt
    · exact ⟨rfl, rfl, rfl⟩

theorem disturbed_flags (attempt : Sending) (answer : DownloadAnswer) :
    SameFlags attempt (attempt.disturbed answer) := by
  unfold Sending.disturbed
  generalize answer.before = before
  induction before generalizing attempt with
  | nil => exact .refl attempt
  | cons interference rest ih => exact (interfere_flags attempt interference).trans (ih _)

theorem Sending.GivenBack.interfere (h : attempt.GivenBack) (interference : Interference) :
    (attempt.interfere interference).GivenBack := by
  obtain ⟨status, hclaim, hst⟩ := h
  refine ⟨status, interfere_ended hclaim interference, ?_⟩
  rw [(interfere_flags attempt interference).confirmed]
  exact hst

theorem Sending.GivenBack.disturbed (h : attempt.GivenBack) (answer : DownloadAnswer) :
    (attempt.disturbed answer).GivenBack := by
  unfold Sending.disturbed
  generalize answer.before = before
  induction before generalizing attempt with
  | nil => exact h
  | cons interference rest ih => exact ih (h.interfere interference)

theorem respondDownload_eq_some (h : respondDownload attempt op answer = some (r, attempt')) :
    raisable op answer.raises = true ∧ ∃ rows',
      respond answer.moment answer.raises answer.reply (attempt.disturbed answer).rows op =
        (r, rows') ∧ attempt' = (attempt.disturbed answer).answered op r rows' := by
  simp only [respondDownload] at h
  split_ifs at h with hraise
  rw [Option.some.injEq] at h
  cases h
  exact ⟨hraise, _, rfl, rfl⟩

theorem nextClaim_ended {after : FileTaskStatus} (r : Except Failure op.Result) :
    nextClaim after (.ended status) op r = .ended status := by
  cases op <;> rfl

theorem Sending.GivenBack.answered (h : attempt.GivenBack) (r : Except Failure op.Result)
    (rows : Rows) : (attempt.answered op r rows).GivenBack := by
  obtain ⟨status, hclaim, hst⟩ := h
  refine ⟨status, ?_, ?_⟩
  · simp only [Sending.answered, hclaim, nextClaim_ended]
  rcases hst with h | h | h | ⟨h, hconf⟩
  · exact .inl h
  · exact .inr (.inl h)
  · exact .inr (.inr (.inl h))
  · refine .inr (.inr (.inr ⟨h, ?_⟩))
    simp only [Sending.answered, hconf, Bool.true_or]

/-- A claim that was given back stays given back. -/
theorem wp_givenBack {Q : Except Failure α → Sending → Prop} (p : Transfer α)
    (h : attempt.GivenBack) (hQ : ∀ r attempt', attempt'.GivenBack → Q r attempt') :
    wp (downloadMachine polls) p Q attempt := by
  induction p generalizing attempt with
  | done r => exact hQ r attempt h
  | call op next ih =>
    refine ⟨trivial, ?_⟩
    rintro r attempt' ⟨answer, -, hresp⟩
    obtain ⟨-, rows', -, rfl⟩ := respondDownload_eq_some hresp
    exact ih r ((h.disturbed answer).answered r rows')

/-! ### A live claim -/

structure Sending.Held (attempt : Sending) : Prop where
  claim : attempt.claim = .live
  status : attempt.rows.task.status = .inProgress

theorem cancelFileTask_status (task : FileTask) :
    (cancelFileTask task).status = task.status ∨ (cancelFileTask task).status = .cancelled := by
  unfold cancelFileTask
  split_ifs
  · exact .inr rfl
  · exact .inl rfl

variable {rows : Rows}

theorem Sending.Held.settle (h : attempt.Held)
    (hst : rows.task.status = .inProgress ∨ rows.task.status = .cancelled ∨
      rows.task.status = .expired) :
    (attempt.settle rows).Held ∨ (attempt.settle rows).GivenBack := by
  have hclaim := h.claim
  rcases hst with hst | hst | hst
  · left
    refine ⟨?_, hst⟩
    simp only [Sending.settle, hclaim, hst, Claim.settle, if_true]
  · right
    refine ⟨.cancelled, ?_, .inr (.inr (.inl rfl))⟩
    simp only [Sending.settle, hclaim, hst]
    rfl
  · right
    refine ⟨.expired, ?_, .inr (.inl rfl)⟩
    simp only [Sending.settle, hclaim, hst]
    rfl

/-- Interference leaves the claim, or ends the task. -/
theorem Sending.Held.interfere (h : attempt.Held) (interference : Interference) :
    (attempt.interfere interference).Held ∨ (attempt.interfere interference).GivenBack := by
  cases interference with
  | cancel =>
    apply h.settle
    rcases cancelFileTask_status attempt.rows.task with hsame | hcanc
    · exact .inl (hsame.trans h.status)
    · exact .inr (.inl hcanc)
  | expire now =>
    apply h.settle
    have hcases : (expireFileTaskIfDue attempt.rows.task now).status = attempt.rows.task.status ∨
        _ := expireFileTaskIfDue_status
    rcases hcases with hsame | ⟨-, hexp⟩
    · exact .inl (hsame.trans h.status)
    · exact .inr (.inr hexp)
  | others rows =>
    simp only [Sending.interfere, if_pos h.claim]
    exact .inl h

theorem Sending.Held.disturbed (h : attempt.Held) (answer : DownloadAnswer) :
    (attempt.disturbed answer).Held ∨ (attempt.disturbed answer).GivenBack := by
  unfold Sending.disturbed
  generalize answer.before = before
  have hmoves : ∀ attempt : Sending, attempt.Held ∨ attempt.GivenBack →
      (before.foldl Sending.interfere attempt).Held ∨
        (before.foldl Sending.interfere attempt).GivenBack := by
    induction before with
    | nil => exact fun _ h => h
    | cons interference rest ih =>
      intro attempt h
      apply ih
      rcases h with h | h
      · exact h.interfere interference
      · exact .inr (h.interfere interference)
  exact hmoves attempt (.inl h)

theorem Sending.Held.answered (h : attempt.Held)
    (hst : rows.task.status = .inProgress) (r : Except Failure op.Result) :
    (attempt.answered op r rows).Held := by
  refine ⟨?_, hst⟩
  have hclaim := h.claim
  simp only [Sending.answered, hclaim]
  cases op <;> simp only [nextClaim, Claim.settle, hst, if_true]

/-- A call that returned to the owner of a live claim. -/
structure Returned (polls : ℕ) (attempt : Sending) (op : Op) (r : Except Failure op.Result)
    (attempt' owner : Sending) (moment : Moment) (reply : (op : Op) → op.Result) (rows' : Rows) :
    Prop where
  held : owner.Held
  flags : SameFlags attempt owner
  respond : respond moment none reply owner.rows op = (r, rows')
  result : attempt' = owner.answered op r rows'
  inTime : attempt.protects op = true ∨ inTime polls attempt.waits op (reply op) = true

/-- What a calm answer to a call of the owner is: the claim has ended, or the call raised under the
handlers, or it returned. -/
theorem held_answers (h : attempt.Held)
    (hans : (downloadMachine polls).answers attempt op r attempt') :
    attempt'.GivenBack ∨ (∃ err, r = .error err ∧ attempt'.Held ∧ attempt'.guarded = true ∧
        (∀ status, err ≠ .fileTaskEnded status) ∧ attempt.protects op = true ∧
        op ≠ .release) ∨
      ∃ owner moment reply rows', Returned polls attempt op r attempt' owner moment reply rows' := by
  obtain ⟨answer, hcalm, hresp⟩ := hans
  obtain ⟨hraise, rows', heq, rfl⟩ := respondDownload_eq_some hresp
  have hflags := disturbed_flags attempt answer
  rcases h.disturbed answer with hheld | hback
  · right
    rw [calmDownload, hheld.claim] at hcalm
    simp only [bne_self_eq_false, Bool.false_or, Bool.or_eq_true, Bool.and_eq_true] at hcalm
    cases hraises : answer.raises with
    | some err =>
      left
      rw [hraises] at hraise heq hcalm
      cases heq
      have hprot : attempt.protects op = true := by
        rcases hcalm with hprot | ⟨hnone, -⟩
        · exact hprot
        · cases hnone
      refine ⟨err, rfl, hheld.answered hheld.status _, ?_, ?_, hprot, ?_⟩
      · rw [Sending.protects, Bool.and_eq_true] at hprot
        show ((attempt.disturbed answer).guarded || op == .openFile) = true
        rw [hflags.guarded]
        exact hprot.2
      · rintro status rfl
        cases hraise
      · rintro rfl
        cases err <;> cases hraise
    | none =>
      right
      rw [hraises] at heq
      refine ⟨attempt.disturbed answer, answer.moment, answer.reply, rows', hheld, hflags, heq, rfl, ?_⟩
      rcases hcalm with hprot | ⟨-, hintime⟩
      · exact .inl hprot
      · exact .inr hintime
  · exact .inl (hback.answered r rows')

/-- The transactions that may move the status of a task in progress. -/
def Op.movesTask : Op → Bool
  | .claimUpload | .claimDownload | .release | .status | .finalize _ _ | .complete => true
  | _ => false

/-- What the settings of a task in progress answer. -/
def settingFits : (op : Op) → op.Result → Prop
  | .chunkSize _ _, result => (∃ size, result = .ok size) ∨ ∃ size, result = .conflict size
  | .encryptionKey _, result => ∃ key, result = .ok key
  | _, _ => True

variable {moment : Moment} {rows' : Rows}

/-- A transaction that does not move the task leaves it in progress. -/
theorem transact_steady {result : op.Result}
    (hop : op.movesTask = false) (hst : rows.task.status = .inProgress)
    (h : transact moment rows op = some (result, rows')) :
    rows'.task.status = .inProgress ∧ settingFits op result := by
  cases op with
  | claimUpload | claimDownload | release | status | finalize | complete => cases hop
  | applyPreparation prep fileSize sha256 =>
    cases h
    exact ⟨applyUploadFileTaskPreparation_status.trans hst, trivial⟩
  | recordStorageSession upload =>
    cases h
    exact ⟨recordUploadStorageSession_status.trans hst, trivial⟩
  | clearProgress | commit | updateFileSize size =>
    cases h
    exact ⟨hst, trivial⟩
  | chunkSize proposed clientMax =>
    simp only [transact, hst, bne_self_eq_false, Bool.false_eq_true, if_false] at h
    have hkeeps := getOrSetFileTaskChunkSize_status rows.task proposed clientMax
    split at h
    · rename_i size task heq
      cases h
      rw [heq] at hkeeps
      exact ⟨hkeeps.trans hst, .inl ⟨size, rfl⟩⟩
    · rename_i size task heq
      cases h
      exact ⟨hst, .inr ⟨size, rfl⟩⟩
  | encryptionKey proposed =>
    simp only [transact, hst] at h
    cases h
    exact ⟨getOrSetDownloadEncryptionKey_status.trans hst, _, rfl⟩
  | _ => cases h

theorem respond_steady {reply : (op : Op) → op.Result}
    (hop : op.movesTask = false) (hst : rows.task.status = .inProgress)
    (h : respond moment none reply rows op = (r, rows')) (polls waits : ℕ) :
    ∃ v, r = .ok v ∧ rows'.task.status = .inProgress ∧ settingFits op v ∧
      (inTime polls waits op (reply op) = true → inTime polls waits op v = true) := by
  simp only [respond] at h
  split at h
  · rename_i result rows₁ htrans
    cases h
    obtain ⟨hkept, hfits⟩ := transact_steady hop hst htrans
    refine ⟨result, rfl, hkept, hfits, fun _ => ?_⟩
    -- the calls that may be late are no transactions
    cases op <;> first | rfl | cases htrans
  · rename_i htrans
    cases h
    refine ⟨reply op, rfl, hst, ?_, fun hintime => hintime⟩
    cases op with
    | chunkSize proposed clientMax =>
      simp only [transact, hst, bne_self_eq_false, Bool.false_eq_true, if_false] at htrans
      split at htrans <;> cases htrans
    | encryptionKey proposed =>
      simp only [transact, hst] at htrans
      cases htrans
    | _ => trivial

/-- **A call that does not move the task.** -/
theorem wp_steady {Q : Except Failure op.Result → Sending → Prop} (h : attempt.Held)
    (hop : op.movesTask = false) (hback : ∀ r attempt', attempt'.GivenBack → Q r attempt')
    (hok : ∀ v attempt', attempt'.Held → attempt'.guarded = (attempt.guarded || op == .openFile) →
      attempt'.waits = nextWaits attempt.waits op (.ok v) →
      attempt'.confirmed = (attempt.confirmed || receivesComplete op (.ok v)) →
      settingFits op v → (attempt.protects op = true ∨ inTime polls attempt.waits op v = true) →
      Q (.ok v) attempt')
    (herror : attempt.protects op = true → ∀ err attempt', attempt'.Held →
      attempt'.guarded = true → (∀ status, err ≠ .fileTaskEnded status) →
      Q (.error err) attempt') :
    wp (downloadMachine polls) (call op) Q attempt := by
  refine ⟨trivial, ?_⟩
  intro r attempt' hans
  rcases held_answers h hans with
    hgiven | ⟨err, rfl, hheld, hguard, hended, hprot, -⟩ |
      ⟨owner, moment, reply, rows', hret⟩
  · exact hback r attempt' hgiven
  · exact herror hprot err attempt' hheld hguard hended
  obtain ⟨howner, hflags, hresp, rfl, hintime⟩ := hret
  obtain ⟨v, rfl, hst, hfits, hlate⟩ :=
    respond_steady hop howner.status hresp polls attempt.waits
  refine hok v _ (howner.answered hst _) ?_ ?_ ?_ hfits (hintime.imp_right hlate)
  · rw [← hflags.guarded]
    rfl
  · rw [← hflags.waits]
    rfl
  · rw [← hflags.confirmed]
    rfl

/-! ### The transactions that move the task -/

theorem wp_status {Q : Except Failure FileTaskStatus → Sending → Prop} (h : attempt.Held)
    (hback : ∀ r attempt', attempt'.GivenBack → Q r attempt')
    (hok : ∀ attempt', attempt'.Held → SameFlags attempt attempt' → Q (.ok .inProgress) attempt')
    (herror : attempt.protects .status = true → ∀ err attempt', attempt'.Held →
      attempt'.guarded = true → (∀ status, err ≠ .fileTaskEnded status) →
      Q (.error err) attempt') :
    wp (downloadMachine polls) (call .status) Q attempt := by
  refine ⟨trivial, ?_⟩
  intro r attempt' hans
  rcases held_answers h hans with
    hgiven | ⟨err, rfl, hheld, hguard, hended, hprot, -⟩ |
      ⟨owner, moment, reply, rows', hret⟩
  · exact hback r attempt' hgiven
  · exact herror hprot err attempt' hheld hguard hended
  obtain ⟨howner, hflags, hresp, rfl, -⟩ := hret
  cases hresp
  have hcases : (expireFileTaskIfDue owner.rows.task moment.now).status =
      owner.rows.task.status ∨ _ := expireFileTaskIfDue_status
  rcases hcases with hsame | ⟨-, hexp⟩
  · have hst := hsame.trans howner.status
    rw [hst]
    refine hok _ (howner.answered hst _) ⟨?_, hflags.waits, ?_⟩
    · show (owner.guarded || false) = attempt.guarded
      rw [Bool.or_false, hflags.guarded]
    · show (owner.confirmed || false) = attempt.confirmed
      rw [Bool.or_false, hflags.confirmed]
  · apply hback
    refine ⟨.expired, ?_, .inr (.inl rfl)⟩
    show nextClaim (expireFileTaskIfDue owner.rows.task moment.now).status owner.claim .status _ = _
    rw [howner.claim, hexp]
    rfl

variable {Q : Except Failure Unit → Sending → Prop}

/-- A release gives the claim back. -/
theorem wp_release (h : attempt.Held) (hback : ∀ attempt', attempt'.GivenBack → ∀ r, Q r attempt') :
    wp (downloadMachine polls) (call .release) Q attempt := by
  refine ⟨trivial, ?_⟩
  intro r attempt' hans
  rcases held_answers h hans with
    hgiven | ⟨_, -, -, -, -, -, hrel⟩ | ⟨owner, moment, reply, rows', hret⟩
  · exact hback attempt' hgiven r
  · exact absurd rfl hrel
  obtain ⟨howner, hflags, hresp, rfl, -⟩ := hret
  cases hresp
  apply hback
  rcases releaseFileTask_of_inProgress howner.status with hst | hst
  · refine ⟨.expired, ?_, .inr (.inl rfl)⟩
    show nextClaim (releaseFileTask owner.rows.task moment.now).status owner.claim .release _ = _
    rw [howner.claim, hst]
    rfl
  · refine ⟨.pending, ?_, .inl rfl⟩
    show nextClaim (releaseFileTask owner.rows.task moment.now).status owner.claim .release _ = _
    rw [howner.claim, hst]
    rfl

/-- To complete a confirmed download gives the claim back. -/
theorem wp_complete {Q : Except Failure (Option FileTaskStatus) → Sending → Prop}
    (h : attempt.Held) (hconf : attempt.confirmed = true)
    (hback : ∀ attempt', attempt'.GivenBack → ∀ r, Q r attempt') :
    wp (downloadMachine polls) (call .complete) Q attempt := by
  refine ⟨trivial, ?_⟩
  intro r attempt' hans
  rcases held_answers h hans with
    hgiven | ⟨_, -, -, -, -, hprot, -⟩ | ⟨owner, moment, reply, rows', hret⟩
  · exact hback attempt' hgiven r
  · cases hprot
  obtain ⟨howner, hflags, hresp, rfl, -⟩ := hret
  cases hresp
  apply hback
  refine ⟨.completed, ?_, .inr (.inr (.inr ⟨rfl, ?_⟩))⟩
  · show nextClaim (completeFileTask owner.rows.task).status owner.claim .complete _ = _
    rw [howner.claim, completeFileTask, howner.status]
    rfl
  · show (owner.confirmed || false) = true
    rw [hflags.confirmed, hconf]
    rfl

/-! ### Outside of the handlers -/

section

variable {config : TransferConfig} {claimed : ClaimedFileTask}

/-- The claim was given back, or the program returned a value. -/
def OrBack (R : α → Sending → Prop) (r : Except Failure α) (attempt : Sending) : Prop :=
  attempt.GivenBack ∨ ∃ a, r = .ok a ∧ R a attempt

variable {R : α → Sending → Prop} {p : Transfer α} {f : α → Transfer β} {R' : β → Sending → Prop}

theorem wp_bind_orBack (hp : wp (downloadMachine polls) p (OrBack R) attempt)
    (hf : ∀ a attempt', R a attempt' → wp (downloadMachine polls) (f a) (OrBack R') attempt') :
    wp (downloadMachine polls) (p >>= f) (OrBack R') attempt := by
  rw [wp_bind]
  refine wp_mono ?_ hp
  rintro r attempt' (hback | ⟨a, rfl, ha⟩)
  · cases r with
    | ok a => exact wp_givenBack (f a) hback fun _ _ h => .inl h
    | error err => exact .inl hback
  · exact hf a attempt' ha

theorem wp_release_then (h : attempt.Held) (f : Unit → Transfer α) :
    wp (downloadMachine polls) (call .release >>= f) (OrBack R) attempt :=
  wp_bind_orBack (R := fun _ _ => False) (wp_release h fun _ hback _ => .inl hback)
    fun _ _ hfalse => hfalse.elim

/-- The owner is outside of the handlers, and the current wait has timed out so often. -/
structure Waiting (waits : ℕ) (attempt : Sending) : Prop where
  held : attempt.Held
  guarded : attempt.guarded = false
  waits : attempt.waits = waits

variable {waits : ℕ}

theorem Waiting.not_protects (h : Waiting waits attempt) (op : Op) (hop : op ≠ .openFile) :
    attempt.protects op = false := by
  rw [Sending.protects, h.guarded, beq_eq_false_iff_ne.mpr hop, Bool.or_false, Bool.and_false]

theorem wp_waiting (h : Waiting waits attempt) (op : Op) (hop : op.movesTask = false)
    (hopen : op ≠ .openFile) :
    wp (downloadMachine polls) (call op) (OrBack fun v attempt' =>
      Waiting (nextWaits waits op (.ok v)) attempt' ∧
        attempt'.confirmed = (attempt.confirmed || receivesComplete op (.ok v)) ∧
        settingFits op v ∧ inTime polls waits op v = true) attempt := by
  have hprot := h.not_protects op hopen
  refine wp_steady h.held hop (fun _ _ hback => .inl hback) ?_ ?_
  · intro v attempt' hheld hguard hwaits hconf hfits hintime
    rw [h.waits] at hwaits hintime
    refine .inr ⟨v, rfl, ⟨hheld, ?_, hwaits⟩, hconf, hfits, ?_⟩
    · rw [hguard, h.guarded, beq_eq_false_iff_ne.mpr hopen]
      rfl
    · rcases hintime with hprotected | hintime
      · rw [hprot] at hprotected
        cases hprotected
      · exact hintime
  · intro hprotected
    rw [hprot] at hprotected
    cases hprotected

theorem wp_waiting_ensure (h : Waiting waits attempt) :
    wp (downloadMachine polls) ensureFileTaskActive
      (OrBack fun _ attempt' => Waiting waits attempt') attempt := by
  refine wp_bind_orBack (wp_waiting h .checkDue rfl nofun) ?_
  rintro due attempt' ⟨hwait, -⟩
  split
  · rw [wp_bind]
    refine wp_status hwait.held ?_ ?_ ?_
    · intro r attempt'' hback
      cases r with
      | ok status => exact wp_givenBack _ hback fun _ _ h => .inl h
      | error err => exact .inl hback
    · intro attempt'' hheld hflags
      exact .inr ⟨(), rfl, hheld, hflags.guarded.trans hwait.guarded,
        hflags.waits.trans hwait.waits⟩
    · intro hprotected
      rw [hwait.not_protects .status nofun] at hprotected
      cases hprotected
  · exact .inr ⟨(), rfl, hwait⟩

/-- Waiting for a frame, by induction on the polls that are left. -/
theorem wp_waiting_recv (rest waits : ℕ) (h : Waiting waits attempt) (hpolls : waits + rest = polls)
    (hpos : 0 < rest) :
    wp (downloadMachine polls) (recvFileTaskFrame rest) (OrBack fun data attempt' =>
      Waiting 0 attempt' ∧ (data = "complete".toUTF8.toList → attempt'.confirmed = true))
      attempt := by
  induction rest generalizing waits attempt with
  | zero => cases hpos
  | succ rest ih =>
    refine wp_bind_orBack (wp_waiting_ensure h) ?_
    intro _ attempt₁ h₁
    refine wp_bind_orBack (wp_waiting h₁ .deadlinePassed rfl nofun) ?_
    rintro passed attempt₂ ⟨h₂, -, -, hintime⟩
    have hpass : passed = false := by simpa [inTime] using hintime
    subst hpass
    refine wp_bind_orBack (wp_waiting h₂ .recv rfl nofun) ?_
    rintro received attempt₃ ⟨h₃, hconf, -, hintime⟩
    cases received with
    | none =>
      have hlater : waits + 1 < polls := of_decide_eq_true hintime
      exact ih (waits + 1) h₃ (by omega) (by omega)
    | some data =>
      refine .inr ⟨data, rfl, h₃, ?_⟩
      rintro rfl
      rw [hconf]
      simp [receivesComplete]

theorem wp_waiting_refuse (h : Waiting waits attempt) (code : ℕ) (message : String) (stop : α) :
    wp (downloadMachine polls) (refuseDownload code message >>= fun _ => pure stop) (OrBack R)
      attempt := by
  refine wp_bind_orBack (R := fun _ _ => False) ?_ fun _ _ hfalse => hfalse.elim
  refine wp_bind_orBack (wp_waiting h (.send _) rfl nofun) ?_
  rintro _ attempt' ⟨hwait, -⟩
  exact wp_release hwait.held fun _ hback _ => .inl hback

theorem wp_waiting_fileSize (h : Waiting 0 attempt) (fileSize : ℕ) :
    wp (downloadMachine polls) (correctFileSize claimed fileSize)
      (OrBack fun _ attempt' => Waiting 0 attempt') attempt := by
  unfold correctFileSize
  split
  · refine wp_mono ?_ (wp_waiting h (.updateFileSize fileSize) rfl nofun)
    rintro r attempt' (hback | ⟨v, rfl, hwait, -⟩)
    · exact .inl hback
    · exact .inr ⟨v, rfl, hwait⟩
  · exact .inr ⟨(), rfl, h⟩

theorem wp_waiting_prepare (h : Waiting 0 attempt) (hpolls : 0 < config.polls)
    (offset maxChunkSize : ℕ) :
    wp (downloadMachine config.polls) (prepareDownloadTransfer config claimed offset maxChunkSize)
      (OrBack fun prepared attempt' => prepared.isSome = true ∧ Waiting 0 attempt') attempt := by
  refine wp_bind_orBack (wp_waiting h .getsize rfl nofun) ?_
  rintro fileSize attempt₁ ⟨h₁, -⟩
  refine wp_bind_orBack (wp_waiting_fileSize h₁ fileSize) ?_
  intro _ attempt₂ h₂
  refine wp_bind_orBack (wp_waiting h₂ (.chunkSize _ _) rfl nofun) ?_
  rintro result attempt₃ ⟨h₃, -, hfits, -⟩
  rcases hfits with ⟨chunkSize, rfl⟩ | ⟨chunkSize, rfl⟩
  · show wp (downloadMachine config.polls) (if offset > fileSize then _ else _) _ attempt₃
    split
    · exact wp_waiting_refuse h₃ _ _ none
    split
    · exact wp_waiting_refuse h₃ _ _ none
    refine wp_bind_orBack (wp_waiting h₃ (.send _) rfl nofun) ?_
    rintro _ attempt₄ ⟨h₄, -⟩
    refine wp_bind_orBack (wp_waiting_recv config.polls 0 h₄ (Nat.zero_add _) hpolls) ?_
    rintro received attempt₅ ⟨h₅, -⟩
    split
    · exact wp_waiting_refuse h₅ _ _ none
    · exact .inr ⟨_, rfl, rfl, h₅⟩
  · exact wp_waiting_refuse h₃ _ _ none

/-- Waiting for the confirmation of an empty file. -/
theorem wp_waiting_confirm (h : Waiting 0 attempt) (hpolls : 0 < config.polls) :
    wp (downloadMachine config.polls) (confirmCompletion config)
      (OrBack fun sent attempt' => sent = true ∧ attempt'.Held ∧ attempt'.confirmed = true)
      attempt := by
  refine wp_bind_orBack (wp_waiting_recv config.polls 0 h (Nat.zero_add _) hpolls) ?_
  rintro received attempt' ⟨hwait, hconf⟩
  split
  · exact wp_waiting_refuse hwait _ _ false
  · rename_i hcompl
    exact .inr ⟨true, rfl, rfl, hwait.held, hconf (not_not.mp hcompl)⟩

theorem wp_waiting_key (h : Waiting 0 attempt) :
    wp (downloadMachine polls) (downloadKey config claimed)
      (OrBack fun _ attempt' => Waiting 0 attempt') attempt := by
  unfold downloadKey
  split
  · exact .inr ⟨(), rfl, h⟩
  refine wp_bind_orBack (wp_waiting h (.encryptionKey _) rfl nofun) ?_
  rintro result attempt' ⟨hwait, -, ⟨key, rfl⟩, -⟩
  exact .inr ⟨(), rfl, hwait⟩

/-! ### Under the handlers -/

/-- A value in `R`, or an exception for which the handlers release the task. -/
def Handled (R : α → Sending → Prop) : Except Failure α → Sending → Prop
  | .ok a, attempt => R a attempt
  | .error failure, _ => ∀ status, failure ≠ .fileTaskEnded status

/-- The claim was given back, or the owner still holds it under the handlers. -/
def UnderTry (R : α → Sending → Prop) (r : Except Failure α) (attempt : Sending) : Prop :=
  attempt.GivenBack ∨ (attempt.Held ∧ attempt.guarded = true ∧ Handled R r attempt)

theorem wp_bind_underTry (hp : wp (downloadMachine polls) p (UnderTry R) attempt)
    (hf : ∀ a attempt', attempt'.Held → attempt'.guarded = true → R a attempt' →
      wp (downloadMachine polls) (f a) (UnderTry R') attempt') :
    wp (downloadMachine polls) (p >>= f) (UnderTry R') attempt := by
  rw [wp_bind]
  refine wp_mono ?_ hp
  intro r attempt' hr
  cases r with
  | ok a =>
    rcases hr with hback | ⟨hheld, hguard, ha⟩
    · exact wp_givenBack (f a) hback fun _ _ h => .inl h
    · exact hf a attempt' hheld hguard ha
  | error err =>
    rcases hr with hback | hr
    · exact .inl hback
    · exact .inr hr

theorem wp_guarded (h : attempt.Held) (op : Op) (hop : op.movesTask = false)
    (hguard : attempt.guarded = true ∨ op = .openFile) :
    wp (downloadMachine polls) (call op) (UnderTry fun v attempt' =>
      receivesComplete op (.ok v) = true → attempt'.confirmed = true) attempt := by
  refine wp_steady h hop (fun _ _ hback => .inl hback) ?_ ?_
  · intro v attempt' hheld hnow _ hconf _ _
    refine .inr ⟨hheld, ?_, ?_⟩
    · rcases hguard with hguard | rfl
      · rw [hnow, hguard, Bool.true_or]
      · rw [hnow, beq_self_eq_true, Bool.or_true]
    · intro hcompl
      rw [hconf, hcompl, Bool.or_true]
  · intro _ err attempt' hheld hnow hended
    exact .inr ⟨hheld, hnow, hended⟩

variable (hheld : attempt.Held) (hguard : attempt.guarded = true)
include hheld hguard

theorem wp_guarded_ensure :
    wp (downloadMachine polls) ensureFileTaskActive (UnderTry fun _ _ => True) attempt := by
  refine wp_bind_underTry (wp_guarded hheld .checkDue rfl (.inl hguard)) ?_
  intro due attempt₁ hheld₁ hguard₁ _
  split
  · rw [wp_bind]
    refine wp_status hheld₁ ?_ ?_ ?_
    · intro r attempt₂ hback
      cases r with
      | ok status => exact wp_givenBack _ hback fun _ _ h => .inl h
      | error err => exact .inl hback
    · intro attempt₂ hheld₂ hflags
      exact .inr ⟨hheld₂, hflags.guarded.trans hguard₁, trivial⟩
    · intro _ err attempt₂ hheld₂ hguard₂ hended
      exact .inr ⟨hheld₂, hguard₂, hended⟩
  · exact .inr ⟨hheld₁, hguard₁, trivial⟩

theorem wp_guarded_recv (rest : ℕ) :
    wp (downloadMachine polls) (recvFileTaskFrame rest) (UnderTry fun data attempt' =>
      data = "complete".toUTF8.toList → attempt'.confirmed = true) attempt := by
  induction rest generalizing attempt with
  | zero => exact .inr ⟨hheld, hguard, nofun⟩
  | succ rest ih =>
    refine wp_bind_underTry (wp_guarded_ensure hheld hguard) ?_
    intro _ attempt₁ hheld₁ hguard₁ _
    refine wp_bind_underTry (wp_guarded hheld₁ .deadlinePassed rfl (.inl hguard₁)) ?_
    intro passed attempt₂ hheld₂ hguard₂ _
    split
    · exact .inr ⟨hheld₂, hguard₂, nofun⟩
    refine wp_bind_underTry (wp_guarded hheld₂ .recv rfl (.inl hguard₂)) ?_
    intro received attempt₃ hheld₃ hguard₃ hconf
    cases received with
    | none => exact ih hheld₃ hguard₃
    | some data =>
      refine .inr ⟨hheld₃, hguard₃, ?_⟩
      rintro rfl
      exact hconf (beq_self_eq_true _)

theorem wp_guarded_refuse (code : ℕ) (message : String) (stop : α) :
    wp (downloadMachine polls) (refuseDownload code message >>= fun _ => pure stop) (UnderTry R)
      attempt := by
  refine wp_bind_underTry (R := fun _ _ => False) ?_ fun _ _ _ _ hfalse => hfalse.elim
  refine wp_bind_underTry (wp_guarded hheld (.send _) rfl (.inl hguard)) ?_
  intro _ attempt' hheld' _ _
  exact wp_release hheld' fun _ hback _ => .inl hback

theorem wp_guarded_confirm : wp (downloadMachine polls) (confirmCompletion config)
      (UnderTry fun sent attempt' => sent = true ∧ attempt'.confirmed = true) attempt := by
  refine wp_bind_underTry (wp_guarded_recv hheld hguard config.polls) ?_
  intro received attempt' hheld' hguard' hconf
  split
  · exact wp_guarded_refuse hheld' hguard' _ _ false
  · rename_i hcompl
    exact .inr ⟨hheld', hguard', rfl, hconf (not_not.mp hcompl)⟩

/-- The loop of the chunks, under the `try`. -/
theorem wp_guarded_chunks (chunkSize reads chunkIndex : ℕ) :
    wp (downloadMachine polls) (sendChunks chunkSize reads chunkIndex)
      (UnderTry fun _ _ => True) attempt := by
  induction reads generalizing attempt chunkIndex with
  | zero => exact .inr ⟨hheld, hguard, trivial⟩
  | succ reads ih =>
    refine wp_bind_underTry (wp_guarded_ensure hheld hguard) ?_
    intro _ attempt₁ hheld₁ hguard₁ _
    refine wp_bind_underTry (wp_guarded hheld₁ (.read chunkSize) rfl (.inl hguard₁)) ?_
    intro chunk attempt₂ hheld₂ hguard₂ _
    split
    · exact .inr ⟨hheld₂, hguard₂, trivial⟩
    refine wp_bind_underTry (wp_guarded hheld₂ (.send _) rfl (.inl hguard₂)) ?_
    intro _ attempt₃ hheld₃ hguard₃ _
    exact ih hheld₃ hguard₃ (chunkIndex + 1)

theorem wp_guarded_encrypted (offset chunkSize : ℕ) :
    wp (downloadMachine polls) (sendEncrypted config offset chunkSize)
      (UnderTry fun sent attempt' => sent = true ∧ attempt'.confirmed = true) attempt := by
  refine wp_bind_underTry (wp_guarded_chunks hheld hguard chunkSize config.reads _) ?_
  intro _ attempt₁ hheld₁ hguard₁ _
  refine wp_bind_underTry (wp_guarded hheld₁ (.send .aesKey) rfl (.inl hguard₁)) ?_
  intro _ attempt₂ hheld₂ hguard₂ _
  exact wp_guarded_confirm hheld₂ hguard₂

omit hguard in
/-- A failed transfer is answered under the `try`. -/
theorem wp_guarded_failed {err : Failure} (hended : ∀ status, err ≠ .fileTaskEnded status)
    {R : Bool → Sending → Prop} :
    wp (downloadMachine polls) (sendFailed err) (OrBack R) attempt := by
  unfold sendFailed
  split
  · exact wp_release_then hheld _
  · exact absurd rfl (hended _)
  · exact wp_release_then hheld _

omit hguard in
theorem wp_guarded_contents (offset chunkSize : ℕ) :
    wp (downloadMachine polls) (sendFromOffset config offset chunkSize)
      (UnderTry fun sent attempt' => sent = true ∧ attempt'.confirmed = true) attempt := by
  refine wp_bind_underTry (wp_guarded hheld .openFile rfl (.inr rfl)) ?_
  intro _ attempt₁ hheld₁ hguard₁ _
  split
  · refine wp_bind_underTry (wp_guarded hheld₁ .seekable rfl (.inl hguard₁)) ?_
    intro seekable attempt₂ hheld₂ hguard₂ _
    split
    · exact wp_guarded_refuse hheld₂ hguard₂ _ _ false
    refine wp_bind_underTry (wp_guarded hheld₂ (.seek offset) rfl (.inl hguard₂)) ?_
    intro _ attempt₃ hheld₃ hguard₃ _
    exact wp_guarded_encrypted hheld₃ hguard₃ offset chunkSize
  · exact wp_guarded_encrypted hheld₁ hguard₁ offset chunkSize

omit hheld hguard

theorem wp_waiting_contents (h : Waiting 0 attempt) (hpolls : 0 < config.polls)
    (offset fileSize chunkSize : ℕ) :
    wp (downloadMachine config.polls)
      (sendDownloadContents config claimed offset fileSize chunkSize)
      (OrBack fun sent attempt' => sent = true ∧ attempt'.Held ∧ attempt'.confirmed = true)
      attempt := by
  unfold sendDownloadContents
  split
  · refine wp_bind_orBack (wp_waiting h (.send .emptyFile) rfl nofun) ?_
    rintro _ attempt' ⟨hwait, -⟩
    exact wp_waiting_confirm hwait hpolls
  · refine wp_bind_orBack (wp_waiting_key h) ?_
    intro _ attempt' hwait
    rw [wp_tryCatch]
    refine wp_mono ?_ (wp_guarded_contents hwait.held offset chunkSize)
    intro r attempt'' hr
    cases r with
    | ok sent =>
      rcases hr with hback | ⟨hheld, -, hsent, hconf⟩
      · exact .inl hback
      · exact .inr ⟨sent, rfl, hsent, hheld, hconf⟩
    | error err =>
      rcases hr with hback | ⟨hheld, hguard, hended⟩
      · exact wp_givenBack _ hback fun _ _ h => .inl h
      · exact wp_guarded_failed hheld hended

theorem wp_confirmed_complete (hheld : attempt.Held) (hconf : attempt.confirmed = true) :
    wp (downloadMachine polls) completeDownload (fun _ attempt' => attempt'.GivenBack) attempt := by
  unfold completeDownload
  refine wp_complete hheld hconf ?_
  intro attempt' hback r
  cases r with
  | ok status => exact wp_givenBack _ hback fun _ _ h => h
  | error err => exact hback

/-- **The transfer of a claimed file gives the claim back.** -/
theorem wp_waiting_claimedFile (h : Waiting 0 attempt) (hpolls : 0 < config.polls)
    (offset maxChunkSize : ℕ) :
    wp (downloadMachine config.polls) (sendClaimedFile config claimed offset maxChunkSize)
      (fun _ attempt' => attempt'.GivenBack) attempt := by
  have horBack : wp (downloadMachine config.polls)
      (sendClaimedFile config claimed offset maxChunkSize) (OrBack fun _ _ => False) attempt := by
    refine wp_bind_orBack (wp_waiting_prepare h hpolls offset maxChunkSize) ?_
    rintro prepared attempt₁ ⟨hprep, h₁⟩
    obtain ⟨⟨fileSize, chunkSize⟩, rfl⟩ := Option.isSome_iff_exists.mp hprep
    refine wp_bind_orBack (wp_waiting_contents h₁ hpolls offset fileSize chunkSize) ?_
    rintro sent attempt₂ ⟨rfl, hheld, hconf⟩
    exact wp_mono (fun _ _ hback => .inl hback) (wp_confirmed_complete hheld hconf)
  refine wp_mono ?_ horBack
  rintro r attempt' (hback | ⟨_, -, hfalse⟩)
  · exact hback
  · exact hfalse.elim

end

/-! ### The whole attempt -/

/-- An attempt before its claim. -/
def startAttempt (rows : Rows) : Sending := { rows := rows }

theorem interfere_unclaimed (h : attempt.claim = .unclaimed) (interference : Interference) :
    (attempt.interfere interference).claim = .unclaimed := by
  cases interference with
  | cancel | expire now =>
    simp only [Sending.interfere, Sending.settle, h]
    rfl
  | others rows =>
    simp only [Sending.interfere]
    rw [if_neg (by rw [h]; nofun)]
    exact h

theorem disturbed_unclaimed (h : attempt.claim = .unclaimed) (answer : DownloadAnswer) :
    (attempt.disturbed answer).claim = .unclaimed := by
  unfold Sending.disturbed
  generalize answer.before = before
  induction before generalizing attempt with
  | nil => exact h
  | cons interference rest ih => exact ih (interfere_unclaimed h interference)

/-- The attempt never held the task, or has given it back. -/
def Sending.Over (attempt : Sending) : Prop := attempt.claim = .unclaimed ∨ attempt.GivenBack

theorem wp_unclaimed_conclude (h : attempt.claim = .unclaimed) (code : ℕ) (message : String) :
    wp (downloadMachine polls) (concludeRequest code message) (fun _ attempt' => attempt'.Over)
      attempt := by
  refine ⟨trivial, ?_⟩
  rintro r attempt' ⟨answer, -, hresp⟩
  obtain ⟨-, rows', -, rfl⟩ := respondDownload_eq_some hresp
  left
  show nextClaim rows'.task.status (attempt.disturbed answer).claim (.send _) r = .unclaimed
  rw [disturbed_unclaimed h answer]
  rfl

/-- A claim fails, is given back at the limit, or puts the task in progress. -/
theorem claimDownloadTask_cases (policy : UploadPolicy) (task : FileTask) (file : StoredFile)
    (now : Instant) (limitAllows : Bool) :
    (∃ err, (claimDownloadTask policy task file now limitAllows).1 = .error err) ∨
      (∃ claimed, (claimDownloadTask policy task file now limitAllows).1 = .ok (claimed, false) ∧
        ((claimDownloadTask policy task file now limitAllows).2.status = .expired ∨
          (claimDownloadTask policy task file now limitAllows).2.status = .pending)) ∨
      ∃ claimed, (claimDownloadTask policy task file now limitAllows).1 = .ok (claimed, true) ∧
        (claimDownloadTask policy task file now limitAllows).2.status = .inProgress := by
  have hcases := claimFileTask_cases policy task file .download now
  unfold claimDownloadTask
  split
  · exact .inl ⟨_, rfl⟩
  rename_i claimed after hclaim
  rw [hclaim] at hcases
  rcases hcases with ⟨err, herror, -⟩ | ⟨_, -, -, hst⟩
  · cases herror
  right
  cases limitAllows with
  | false => exact .inl ⟨claimed, rfl, releaseFileTask_of_inProgress hst⟩
  | true => exact .inr ⟨claimed, rfl, hst⟩

theorem claim_answers {r : Except Failure (Except FileTaskClaimFailure (ClaimedFileTask × Bool))}
    (h : attempt.claim = .unclaimed)
    (hans : (downloadMachine polls).answers attempt .claimDownload r attempt') :
    (attempt'.claim = .unclaimed ∧
        ((∃ err, r = .error err) ∨ ∃ err, r = .ok (.error err))) ∨
      (attempt'.GivenBack ∧ ∃ claimed, r = .ok (.ok (claimed, false))) ∨
      (attempt'.Held ∧ SameFlags attempt attempt' ∧ ∃ claimed, r = .ok (.ok (claimed, true))) := by
  obtain ⟨answer, -, hresp⟩ := hans
  obtain ⟨-, rows', heq, rfl⟩ := respondDownload_eq_some hresp
  have hunclaimed := disturbed_unclaimed h answer
  have hflags := disturbed_flags attempt answer
  generalize attempt.disturbed answer = disturbed at heq hunclaimed hflags
  cases hraises : answer.raises with
  | some err =>
    rw [hraises] at heq
    cases heq
    left
    refine ⟨?_, .inl ⟨err, rfl⟩⟩
    simp only [Sending.answered, hunclaimed]
    rfl
  | none =>
    rw [hraises] at heq
    cases heq
    have hcases := claimDownloadTask_cases answer.moment.policy disturbed.rows.task
      disturbed.rows.file answer.moment.now answer.moment.limitAllows
    generalize claimDownloadTask answer.moment.policy disturbed.rows.task
      disturbed.rows.file answer.moment.now answer.moment.limitAllows = outcome at hcases ⊢
    obtain ⟨result, task⟩ := outcome
    rcases hcases with ⟨err, rfl⟩ | ⟨claimed, rfl, hst⟩ | ⟨claimed, rfl, hst⟩
    · left
      refine ⟨?_, .inr ⟨err, rfl⟩⟩
      simp only [Sending.answered, hunclaimed]
      rfl
    · right; left
      refine ⟨⟨task.status, ?_, ?_⟩, claimed, rfl⟩
      · simp only [Sending.answered, hunclaimed]
        rfl
      · rcases hst with hexp | hpend
        · exact .inr (.inl hexp)
        · exact .inl hpend
    · right; right
      refine ⟨⟨?_, hst⟩, ⟨?_, hflags.waits, ?_⟩, claimed, rfl⟩
      · simp only [Sending.answered, hunclaimed]
        rfl
      · show (disturbed.guarded || false) = attempt.guarded
        rw [Bool.or_false, hflags.guarded]
      · show (disturbed.confirmed || false) = attempt.confirmed
        rw [Bool.or_false, hflags.confirmed]

/-- **A download that ends has given its claim back.** -/
theorem wp_sendFile_over {config : TransferConfig} (hpolls : 0 < config.polls) (rows : Rows)
    (offset maxChunkSize : ℕ) :
    wp (downloadMachine config.polls) (sendFile config offset maxChunkSize)
      (fun _ attempt' => attempt'.Over) (startAttempt rows) := by
  unfold sendFile
  refine ⟨trivial, ?_⟩
  intro r attempt' hans
  rcases claim_answers rfl hans with
    ⟨hunclaimed, ⟨err, rfl⟩ | ⟨err, rfl⟩⟩ | ⟨hback, claimed, rfl⟩ |
      ⟨hheld, hflags, claimed, rfl⟩
  · exact .inl hunclaimed
  · show wp _ (concludeFileTaskClaimFailure err) _ attempt'
    cases err <;> exact wp_unclaimed_conclude hunclaimed _ _
  · show wp _ (concludeRequest 429 _) _ attempt'
    exact wp_givenBack _ hback fun _ _ h => .inr h
  · show wp _ (tryCatch (sendClaimedFile config claimed offset maxChunkSize) downloadFailed) _ attempt'
    rw [wp_tryCatch]
    have hwait : Waiting 0 attempt' := ⟨hheld, hflags.guarded, hflags.waits⟩
    refine wp_mono ?_ (wp_waiting_claimedFile hwait hpolls offset maxChunkSize)
    intro r attempt'' hback
    cases r with
    | ok _ => exact .inr hback
    | error err => exact wp_givenBack _ hback fun _ _ h => .inr h

theorem wp_download_advance {p : Transfer Unit}
    {c : Transfer Unit × Sending} (hwp : wp (downloadMachine polls) p Q attempt)
    (hcalm : calmStep polls (p, attempt) answer = true)
    (h : advance respondDownload (p, attempt) answer = some c) :
    wp (downloadMachine polls) c.1 Q c.2 := by
  obtain ⟨op, next, r, attempt', rfl, hr, rfl⟩ := advance_eq_some.mp h
  exact hwp.2 r attempt' ⟨answer, hcalm, hr⟩

/-- **A download attempt gives its claim back** when every call outside of the handlers returns and
the client answers in time, and it completes the task only if the client has confirmed. -/
theorem download_gives_claim_back {config : TransferConfig} (hpolls : 0 < config.polls)
    (rows : Rows) (offset maxChunkSize : ℕ) (answers : List DownloadAnswer)
    (hcalm : Meets (advance respondDownload) (fun c answer => calmStep config.polls c answer = true)
      (sendFile config offset maxChunkSize, startAttempt rows) answers)
    {result : Except Failure Unit} {attempt : Sending}
    (hrun : run (advance respondDownload) (sendFile config offset maxChunkSize, startAttempt rows)
      answers = some (.done result, attempt)) :
    attempt.claim = .unclaimed ∨ attempt.GivenBack :=
  run_invariant (C := fun c answer => calmStep config.polls c answer = true)
    (I := fun c => wp (downloadMachine config.polls) c.1 (fun _ attempt' => attempt'.Over) c.2)
    (fun _ _ _ hwp hcalm h => wp_download_advance hwp hcalm h)
    (wp_sendFile_over hpolls rows offset maxChunkSize) hcalm hrun

/-- A client that sends the frame, and a stored file of one byte. -/
def downloadReply (frame : String) (chunk : Bytes) : (op : Op) → op.Result
  | .recv => some frame.toUTF8.toList
  | .read _ => chunk
  | .getsize => 1
  | .deadlinePassed => false
  | op => silentReply op

/-- A call that returns. -/
def returns (frame : String) (chunk : Bytes) : DownloadAnswer where
  moment := calmMoment
  reply := downloadReply frame chunk

def pendingDownload : Rows :=
  ⟨{ mode := .download, startTime := 0, endTime := none }, { size := some 1 }⟩

def downloadConfig : TransferConfig := ⟨65536, fun _ => "", "key", 1, 2⟩

/-- The claim, the preparation up to `ready`, the file with its key, the confirmation and the
completion. -/
def confirmedDownload : List DownloadAnswer :=
  List.replicate 7 (returns "ready" []) ++ List.replicate 5 (returns "" [0]) ++
    List.replicate 8 (returns "complete" [])

def confirmedAttempt : Sending where
  rows := { pendingDownload with
    task := { pendingDownload.task with
      status := .completed, encryptionKey := some "key", chunkSize := some 512 } }
  claim := .ended .completed
  guarded := true
  confirmed := true

theorem confirmedDownload_gives_back :
    run (advance respondDownload) (sendFile downloadConfig 0 512, startAttempt pendingDownload)
        confirmedDownload = some (.done (.ok ()), confirmedAttempt) ∧
      (confirmedAttempt.claim = .unclaimed ∨ confirmedAttempt.GivenBack) := by
  have hrun : run (advance respondDownload)
      (sendFile downloadConfig 0 512, startAttempt pendingDownload) confirmedDownload =
        some (.done (.ok ()), confirmedAttempt) := run_eq_done (by decide +kernel)
  have hpolls : 0 < downloadConfig.polls := by decide
  exact ⟨hrun, download_gives_claim_back hpolls pendingDownload 0 512 confirmedDownload
    (meets_of_meetsBool (by decide +kernel)) hrun⟩

/-- The client disconnects while the server waits for `ready`. -/
def lostBeforeReady : List DownloadAnswer :=
  List.replicate 6 (returns "" []) ++ [{ returns "" [] with raises := some .connectionClosed }]

/-- The attempt ends with the exception and with the task in progress. -/
theorem lostBeforeReady_keeps_claim : ∃ attempt : Sending,
      run (advance respondDownload) (sendFile downloadConfig 0 512, startAttempt pendingDownload)
          lostBeforeReady = some (.done (.error .connectionClosed), attempt) ∧
        attempt.claim = .live ∧ attempt.rows.task.status = .inProgress ∧
        ¬(attempt.claim = .unclaimed ∨ attempt.GivenBack) := by
  refine ⟨{ startAttempt pendingDownload with
    rows := { pendingDownload with
      task := { pendingDownload.task with status := .inProgress, chunkSize := some 512 } }
    claim := .live }, run_eq_done (by decide +kernel), rfl, rfl, ?_⟩
  rintro (hunclaimed | ⟨status, hended, -⟩)
  · cases hunclaimed
  · cases hended

end Cfms.Files
