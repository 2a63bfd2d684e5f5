import Cfms.Files.LiveUploads

/-!
# The deadline of an upload

A new upload task ends after the time in which its transfer has to start.  The first successful
claim replaces this window by the time that the transfer may take.  Whether a claim is the first one
is not recorded: `claim_file_task` takes it for the first when the window of the task is at most
`start_timeout_seconds` of the upload policy in force, and the policy can change between two claims.

`deadline_set_once_iff` says in which runs the deadline is set once.
-/

namespace Cfms.Files.UploadDeadline

open Option

open Access (Instant)
open Files.LiveUploads Lib.Run

/-- A `DocumentUploadPolicy` that passes the validation of the configuration. -/
structure ValidUploadPolicy extends UploadPolicy where
  start_pos : 0 < startTimeoutSeconds
  start_lt_max : startTimeoutSeconds < maxDurationSeconds

/-! ### Operations on one upload task -/

structure FirstClaim where
  claimedAt : Instant
  maxDurationSeconds : Instant
  startTime : Instant
  endTime : Option Instant
  deriving DecidableEq

/-- The task must not be in progress or claimable after this. -/
def FirstClaim.bound (first : FirstClaim) : Instant := first.claimedAt + first.maxDurationSeconds

/-- A task with the instant of the last operation and the first claim, which the code does not
keep. -/
structure DeadlineState where
  task : FileTask
  clock : Instant
  firstClaim : Option FirstClaim := none
  deriving DecidableEq

/-- An operation on the task with its instant.  Claims are those of uploads; one that asks for a
download is refused before it reads the row. -/
inductive TaskOperation
  | claim (policy : ValidUploadPolicy) (file : StoredFile) (now : Instant)
  | release (now : Instant)
  | expire (now : Instant)
  | cancel (now : Instant)

def TaskOperation.now : TaskOperation → Instant
  | .claim _ _ now | .release now | .expire now | .cancel now => now

/-- A task that `upload_document` has just created. -/
def DeadlineState.created (policy : ValidUploadPolicy) (now : Instant) : DeadlineState where
  task := createUploadTask policy.toUploadPolicy now
  clock := now

variable (s : DeadlineState)

def claimed (policy : ValidUploadPolicy) (file : StoredFile) (now : Instant) : DeadlineState :=
  match claimFileTask policy.toUploadPolicy s.task file .upload now with
  | (.ok _, task) =>
    { task
      clock := now
      firstClaim := s.firstClaim.or
        (some ⟨now, policy.maxDurationSeconds, task.startTime, task.endTime⟩) }
  | (.error _, task) => { s with task, clock := now }

/-- One operation, at an instant that is not before the last one. -/
def step (operation : TaskOperation) : Option DeadlineState :=
  if operation.now < s.clock then none
  else
    match operation with
    | .claim policy file now => some (claimed s policy file now)
    | .release now => some { s with task := releaseFileTask s.task now, clock := now }
    | .expire now => some { s with task := expireFileTaskIfDue s.task now, clock := now }
    | .cancel now => some { s with task := cancelFileTask s.task, clock := now }

/-! ### What a claim does -/

def claims (now : Instant) : Bool :=
  s.task.status == .pending && !s.task.isDue now && decide (s.task.startTime ≤ now)

/-- The claim is taken for the first one. -/
def resetsWindow (policy : ValidUploadPolicy) : Bool :=
  s.task.endTime.any fun endTime => endTime - s.task.startTime ≤ policy.startTimeoutSeconds

/-- What a claim must meet for the deadline to be set once: the first successful one is taken for the
first or finds a deadline that is early enough, and no later one is taken for the first. -/
def SetsOnce : TaskOperation → Prop
  | .claim policy _ now =>
    claims s now = true →
      match s.firstClaim with
      | none => resetsWindow s policy = true ∨
          ∀ endTime, s.task.endTime = some endTime → endTime ≤ now + policy.maxDurationSeconds
      | some _ => resetsWindow s policy = false
  | _ => True

/-- The property of a state: only the first successful claim has changed the times of the task, and
the task is over with the duration that was allowed then. -/
structure DeadlineSetOnce (created : FileTask) (s : DeadlineState) : Prop where
  unclaimed : s.firstClaim = none →
    s.task.startTime = created.startTime ∧ s.task.endTime = created.endTime
  times : ∀ first, s.firstClaim = some first →
    s.task.startTime = first.startTime ∧ s.task.endTime = first.endTime
  deadline : ∀ first, s.firstClaim = some first →
    ∃ endTime, s.task.endTime = some endTime ∧ endTime ≤ first.bound
  ended : ∀ first, s.firstClaim = some first → first.bound < s.clock → s.task.status ≠ .inProgress
  unclaimable : ∀ first, s.firstClaim = some first → ∀ policy mode file now, first.bound < now →
    ∃ failure, (claimFileTask policy s.task file mode now).1 = .error failure

/-! ### The operations, step by step -/

variable {s s' : DeadlineState} {operation : TaskOperation} {now : Instant}

theorem expireFileTaskIfDue_of_not_isDue {task : FileTask}
    (h : task.isDue now = false) : expireFileTaskIfDue task now = task := by
  rw [expireFileTaskIfDue, h, Bool.and_false, if_neg Bool.false_ne_true]

theorem expireFileTaskIfDue_spec (task : FileTask) (now : Instant) :
    (expireFileTaskIfDue task now).mode = task.mode ∧
      (expireFileTaskIfDue task now).startTime = task.startTime ∧
      (expireFileTaskIfDue task now).endTime = task.endTime ∧
      ((expireFileTaskIfDue task now).status.isActive = true → task.isDue now = false) := by
  unfold expireFileTaskIfDue
  split
  · exact ⟨rfl, rfl, rfl, fun h => by cases h⟩
  rename_i hdue
  refine ⟨rfl, rfl, rfl, ?_⟩
  intro h
  rw [h, Bool.not_eq_true] at hdue
  exact hdue

theorem claimFileTask_of_claims (hmode : s.task.mode = .upload) (policy : ValidUploadPolicy)
    (file : StoredFile) (h : claims s now = true) :
    claimFileTask policy.toUploadPolicy s.task file .upload now =
      (.ok (claimedFileTask .upload s.task file),
        claimValues policy.toUploadPolicy .upload now s.task) := by
  simp only [claims, Bool.and_eq_true, beq_iff_eq, Bool.not_eq_true', decide_eq_true_eq] at h
  obtain ⟨⟨hpend, hdue⟩, hstart⟩ := h
  simp [claimFileTask, hmode, expireFileTaskIfDue_of_not_isDue hdue, hpend, hstart]

theorem claimFileTask_of_not_claims (hmode : s.task.mode = .upload) (policy : UploadPolicy)
    (file : StoredFile) (h : claims s now = false) :
    ∃ err, claimFileTask policy s.task file .upload now =
      (.error err, expireFileTaskIfDue s.task now) := by
  unfold claimFileTask
  rw [hmode]
  simp only [bne_self_eq_false, Bool.false_eq_true, if_false]
  split
  · exact ⟨_, rfl⟩
  rename_i hpend
  rw [bne_iff_ne, Decidable.not_not] at hpend
  have hdue : s.task.isDue now = false :=
    (expireFileTaskIfDue_spec s.task now).2.2.2 (by rw [hpend]; rfl)
  rw [expireFileTaskIfDue_of_not_isDue hdue] at hpend ⊢
  split
  · exact ⟨_, rfl⟩
  · rename_i hstart
    simp [claims, hpend, hdue, not_lt.mp hstart] at h

/-- What claims rest on: the row is that of an upload with a deadline, which has not passed while the
task is in progress. -/
structure Sound (s : DeadlineState) : Prop where
  mode : s.task.mode = .upload
  endTime : ∃ endTime, s.task.endTime = some endTime
  running : s.task.status = .inProgress → s.task.isDue s.clock = false

theorem sound_created (policy : ValidUploadPolicy) (now : Instant) :
    Sound (.created policy now) where
  mode := rfl
  endTime := ⟨_, rfl⟩
  running := fun h => by cases h

/-- The row after a successful claim. -/
def taken (s : DeadlineState) (policy : ValidUploadPolicy) (now : Instant) : DeadlineState where
  task := claimValues policy.toUploadPolicy .upload now s.task
  clock := now
  firstClaim := s.firstClaim.or (some ⟨now, policy.maxDurationSeconds,
    (claimValues policy.toUploadPolicy .upload now s.task).startTime,
    (claimValues policy.toUploadPolicy .upload now s.task).endTime⟩)

/-- Every operation but a successful claim leaves the times. -/
structure Keeps (s : DeadlineState) (now : Instant) (s' : DeadlineState) : Prop where
  clock : s'.clock = now
  firstClaim : s'.firstClaim = s.firstClaim
  mode : s'.task.mode = s.task.mode
  startTime : s'.task.startTime = s.task.startTime
  endTime : s'.task.endTime = s.task.endTime
  running : s'.task.status = .inProgress → s.task.isDue now = false

theorem keeps_expire (s : DeadlineState) (now : Instant) :
    Keeps s now { s with task := expireFileTaskIfDue s.task now, clock := now } :=
  have h := expireFileTaskIfDue_spec s.task now
  ⟨rfl, rfl, h.1, h.2.1, h.2.2.1, fun hrunning => h.2.2.2 (by rw [hrunning]; rfl)⟩

theorem keeps_release (s : DeadlineState) (now : Instant) :
    Keeps s now { s with task := releaseFileTask s.task now, clock := now } := by
  unfold releaseFileTask
  split
  · refine ⟨rfl, rfl, rfl, rfl, rfl, ?_⟩
    intro h
    split at h <;> cases h
  · rename_i hst
    exact ⟨rfl, rfl, rfl, rfl, rfl, fun h => absurd (beq_iff_eq.mpr h) hst⟩

theorem keeps_cancel (s : DeadlineState) (now : Instant) :
    Keeps s now { s with task := cancelFileTask s.task, clock := now } := by
  unfold cancelFileTask
  split
  · exact ⟨rfl, rfl, rfl, rfl, rfl, fun h => by cases h⟩
  rename_i hact
  refine ⟨rfl, rfl, rfl, rfl, rfl, ?_⟩
  intro h
  rw [h] at hact
  exact absurd rfl hact

theorem step_cases (hsound : Sound s) (h : step s operation = some s') :
    s.clock ≤ operation.now ∧
      ((∃ policy file now, operation = .claim policy file now ∧ claims s now = true ∧
          s' = taken s policy now) ∨
        ((∀ policy file now, operation = .claim policy file now → claims s now = false) ∧
          Keeps s operation.now s')) := by
  unfold step at h
  split at h
  · cases h
  rename_i hclock
  refine ⟨not_lt.mp hclock, ?_⟩
  cases operation with
  | claim policy file now =>
    simp only [some.injEq] at h
    subst h
    cases hclaims : claims s now with
    | true =>
      refine Or.inl ⟨policy, file, now, rfl, hclaims, ?_⟩
      rw [claimed, claimFileTask_of_claims hsound.mode policy file hclaims]
      rfl
    | false =>
      refine Or.inr ⟨fun _ _ _ hsame => by cases hsame; exact hclaims, ?_⟩
      obtain ⟨err, hfail⟩ :=
        claimFileTask_of_not_claims hsound.mode policy.toUploadPolicy file hclaims
      rw [claimed, hfail]
      exact keeps_expire s now
  | release now =>
    simp only [some.injEq] at h
    subst h
    exact Or.inr ⟨fun _ _ _ hsame => (by cases hsame), keeps_release s now⟩
  | expire now =>
    simp only [some.injEq] at h
    subst h
    exact Or.inr ⟨fun _ _ _ hsame => (by cases hsame), keeps_expire s now⟩
  | cancel now =>
    simp only [some.injEq] at h
    subst h
    exact Or.inr ⟨fun _ _ _ hsame => (by cases hsame), keeps_cancel s now⟩

/-! ### A successful claim -/

variable {policy : ValidUploadPolicy}

theorem taken_of_resets (now : Instant) (h : resetsWindow s policy = true) :
    (taken s policy now).task = { s.task with
      status := .inProgress, startTime := now, endTime := some (now + policy.maxDurationSeconds) } := by
  unfold resetsWindow at h
  simp only [taken, claimValues, beq_self_eq_true, Bool.true_and, h, if_true]

theorem taken_of_not_resets (now : Instant) (h : resetsWindow s policy = false) :
    (taken s policy now).task = { s.task with status := .inProgress } := by
  unfold resetsWindow at h
  simp only [taken, claimValues, beq_self_eq_true, Bool.true_and, h, Bool.false_eq_true, if_false]

variable (hsound : Sound s)

include hsound

theorem Sound.taken (policy : ValidUploadPolicy)
    (hclaims : claims s now = true) : Sound (taken s policy now) := by
  cases hreset : resetsWindow s policy with
  | true =>
    have htask := taken_of_resets now hreset
    refine ⟨by rw [htask]; exact hsound.mode, ⟨_, by rw [htask]⟩, ?_⟩
    intro _
    rw [htask]
    show decide (now + policy.maxDurationSeconds ≤ now) = false
    have hpos := policy.start_pos
    have hlt := policy.start_lt_max
    rw [decide_eq_false_iff_not, not_le]
    exact lt_add_of_pos_right now (hpos.trans hlt)
  | false =>
    have htask := taken_of_not_resets now hreset
    refine ⟨by rw [htask]; exact hsound.mode, by rw [htask]; exact hsound.endTime, ?_⟩
    intro _
    rw [htask]
    simp only [claims, Bool.and_eq_true, Bool.not_eq_true'] at hclaims
    exact hclaims.1.2

theorem Keeps.sound (h : Keeps s now s') : Sound s' where
  mode := by rw [h.mode, hsound.mode]
  endTime := by rw [h.endTime]; exact hsound.endTime
  running := by
    intro hrunning
    have hdue := h.running hrunning
    rw [h.clock]
    rw [FileTask.isDue] at hdue ⊢
    rw [h.endTime, hdue]

theorem Sound.step (h : step s operation = some s') : Sound s' := by
  obtain ⟨-, ⟨policy, file, now, -, hclaims, rfl⟩ | ⟨-, hkeeps⟩⟩ := step_cases hsound h
  · exact hsound.taken policy hclaims
  · exact hkeeps.sound hsound

/-! ### One step -/

variable {created : FileTask} {first : FirstClaim}

theorem DeadlineSetOnce.of_times
    (hfirst : s.firstClaim = some first) (hstart : s.task.startTime = first.startTime)
    (hend : s.task.endTime = first.endTime) {endTime : Instant}
    (hdl : s.task.endTime = some endTime) (hbound : endTime ≤ first.bound) :
    DeadlineSetOnce created s := by
  have hdue : ∀ now, first.bound < now → s.task.isDue now = true := by
    intro now hnow
    rw [FileTask.isDue, hdl]
    exact decide_eq_true ((hbound.trans_lt hnow).le)
  refine ⟨fun hnone => ?_, ?_, ?_, ?_, ?_⟩
  · rw [hfirst] at hnone
    cases hnone
  · intro other hother
    rw [hfirst, some.injEq] at hother
    subst hother
    exact ⟨hstart, hend⟩
  · intro other hother
    rw [hfirst, some.injEq] at hother
    subst hother
    exact ⟨endTime, hdl, hbound⟩
  · intro other hother hlate hrunning
    rw [hfirst, some.injEq] at hother
    subst hother
    have hover := hdue s.clock hlate
    rw [hsound.running hrunning] at hover
    cases hover
  · intro other hother policy mode file now hlate
    rw [hfirst, some.injEq] at hother
    subst hother
    have hnot : claims s now = false := by
      rw [claims, hdue now hlate]
      simp
    cases mode with
    | upload =>
      obtain ⟨err, hfail⟩ := claimFileTask_of_not_claims hsound.mode policy file hnot
      exact ⟨err, by rw [hfail]⟩
    | download =>
      refine ⟨.invalid, ?_⟩
      rw [claimFileTask, hsound.mode]
      rfl

theorem DeadlineSetOnce.keep (h : DeadlineSetOnce created s)
    (hkeeps : Keeps s now s') : DeadlineSetOnce created s' := by
  cases hfirst : s.firstClaim with
  | none =>
    have hnone : s'.firstClaim = none := by rw [hkeeps.firstClaim, hfirst]
    refine ⟨?_, ?_, ?_, ?_, ?_⟩
    · intro _
      rw [hkeeps.startTime, hkeeps.endTime]
      exact h.unclaimed hfirst
    all_goals
      intro first hsome
      rw [hnone] at hsome
      cases hsome
  | some first =>
    obtain ⟨hstart, hend⟩ := h.times first hfirst
    obtain ⟨endTime, hdl, hbound⟩ := h.deadline first hfirst
    exact .of_times (hkeeps.sound hsound) (by rw [hkeeps.firstClaim, hfirst])
      (by rw [hkeeps.startTime, hstart]) (by rw [hkeeps.endTime, hend])
      (by rw [hkeeps.endTime, hdl]) hbound

theorem first_claim_iff (policy : ValidUploadPolicy) (file : StoredFile)
    (hclaims : claims s now = true) (hnone : s.firstClaim = none) :
    DeadlineSetOnce created (taken s policy now) ↔ SetsOnce s (.claim policy file now) := by
  have hfirst : (taken s policy now).firstClaim = some ⟨now, policy.maxDurationSeconds,
      (taken s policy now).task.startTime, (taken s policy now).task.endTime⟩ := by
    show s.firstClaim.or _ = _
    rw [hnone]
    rfl
  have hcond : SetsOnce s (.claim policy file now) ↔ resetsWindow s policy = true ∨
      ∀ endTime, s.task.endTime = some endTime → endTime ≤ now + policy.maxDurationSeconds := by
    simp only [SetsOnce, hclaims, hnone, true_imp_iff]
  rw [hcond]
  constructor
  · intro honce
    obtain ⟨endTime, hend, hbound⟩ := honce.deadline _ hfirst
    cases hreset : resetsWindow s policy with
    | true => exact Or.inl rfl
    | false =>
      refine Or.inr fun other hother => ?_
      rw [taken_of_not_resets now hreset, hother, some.injEq] at hend
      rw [hend]
      exact hbound
  · intro hset
    have hsound' := hsound.taken policy hclaims
    cases hreset : resetsWindow s policy with
    | true =>
      have hend : (taken s policy now).task.endTime = some (now + policy.maxDurationSeconds) := by
        rw [taken_of_resets now hreset]
      exact .of_times hsound' hfirst rfl rfl hend le_rfl
    | false =>
      obtain ⟨endTime, hend⟩ := hsound.endTime
      rw [hreset] at hset
      have hbound := (hset.resolve_left Bool.false_ne_true) endTime hend
      exact .of_times hsound' hfirst rfl rfl (by rw [taken_of_not_resets now hreset, hend]) hbound

theorem later_claim_iff (h : DeadlineSetOnce created s)
    (policy : ValidUploadPolicy) (file : StoredFile) (hclaims : claims s now = true)
    (hfirst : s.firstClaim = some first) :
    DeadlineSetOnce created (taken s policy now) ↔ SetsOnce s (.claim policy file now) := by
  have hfirst' : (taken s policy now).firstClaim = some first := by
    show s.firstClaim.or _ = _
    rw [hfirst]
    rfl
  have hcond : SetsOnce s (.claim policy file now) ↔ resetsWindow s policy = false := by
    simp only [SetsOnce, hclaims, hfirst, true_imp_iff]
  obtain ⟨hstart, hend⟩ := h.times first hfirst
  rw [hcond]
  constructor
  · intro honce
    rw [← Bool.not_eq_true]
    intro hreset
    -- the new window would have to be the old one, which is then longer than the start timeout
    obtain ⟨hstart', hend'⟩ := honce.times first hfirst'
    rw [taken_of_resets now hreset] at hstart' hend'
    rw [resetsWindow, hend, ← hend', hstart, ← hstart', any_some, decide_eq_true_eq,
      add_sub_cancel_left] at hreset
    exact absurd policy.start_lt_max (not_lt.mpr hreset)
  · intro hreset
    obtain ⟨endTime, hdl, hbound⟩ := h.deadline first hfirst
    have htask := taken_of_not_resets now hreset
    exact .of_times (hsound.taken policy hclaims) hfirst' (by rw [htask, ← hstart])
      (by rw [htask, ← hend]) (by rw [htask, hdl]) hbound

/-- **One step** keeps the property exactly when it meets the condition. -/
theorem deadlineSetOnce_step_iff (h : DeadlineSetOnce created s)
    (hstep : step s operation = some s') : DeadlineSetOnce created s' ↔ SetsOnce s operation := by
  obtain ⟨-, ⟨policy, file, now, rfl, hclaims, rfl⟩ | ⟨hnot, hkeeps⟩⟩ := step_cases hsound hstep
  · cases hfirst : s.firstClaim with
    | none => exact first_claim_iff hsound policy file hclaims hfirst
    | some first => exact later_claim_iff hsound h policy file hclaims hfirst
  · constructor
    · intro _
      cases operation with
      | claim policy file now =>
        intro hclaims
        rw [hnot policy file now rfl] at hclaims
        cases hclaims
      | release now | expire now | cancel now => trivial
    · intro _
      exact h.keep hsound hkeeps

omit hsound

/-! ### Runs -/

/-- The property holds in every state of a run. -/
def AlwaysSetOnce (created : FileTask) (s : DeadlineState) (operations : List TaskOperation) : Prop :=
  ∀ front back t, operations = front ++ back → run step s front = some t → DeadlineSetOnce created t

theorem alwaysSetOnce_cons {rest : List TaskOperation} (hstep : step s operation = some s') :
    AlwaysSetOnce created s (operation :: rest) ↔
      DeadlineSetOnce created s ∧ AlwaysSetOnce created s' rest := by
  constructor
  · intro h
    refine ⟨h [] _ s rfl rfl, ?_⟩
    intro front back t hlist hrun
    exact h (operation :: front) back t (by rw [hlist]; rfl)
      (run_cons_eq_some.mpr ⟨s', hstep, hrun⟩)
  · rintro ⟨hnow, hrest⟩ front back t hlist hrun
    cases front with
    | nil =>
      cases hrun
      exact hnow
    | cons first front =>
      obtain ⟨rfl, hrest'⟩ := List.cons.inj hlist
      obtain ⟨s'', hs'', hrun'⟩ := run_cons_eq_some.mp hrun
      rw [hstep, some.injEq] at hs''
      subst hs''
      exact hrest front back t hrest' hrun'

theorem alwaysSetOnce_iff (operations : List TaskOperation) (hsound : Sound s)
    (h : DeadlineSetOnce created s) {t : DeadlineState} (hrun : run step s operations = some t) :
    AlwaysSetOnce created s operations ↔ Meets step SetsOnce s operations := by
  induction operations generalizing s with
  | nil =>
    refine ⟨fun _ => trivial, ?_⟩
    intro _ front back t' hlist hrun'
    obtain ⟨rfl, -⟩ := List.append_eq_nil_iff.mp hlist.symm
    cases hrun'
    exact h
  | cons operation rest ih =>
    obtain ⟨s', hs', hrest⟩ := run_cons_eq_some.mp hrun
    have hone := deadlineSetOnce_step_iff hsound h hs'
    rw [alwaysSetOnce_cons hs']
    constructor
    · rintro ⟨-, halways⟩
      have honce' : DeadlineSetOnce created s' := halways [] rest s' rfl rfl
      refine meets_cons hs' (hone.mp honce') ?_
      exact (ih (hsound.step hs') honce' hrest).mp halways
    · rintro ⟨hset, hmeets⟩
      refine ⟨h, ?_⟩
      exact (ih (hsound.step hs') (hone.mpr hset) hrest).mpr (hmeets s' hs')

/-- **The deadline of an upload is set once**, in every state of a run, exactly when every
successful claim meets its condition. -/
theorem deadline_set_once_iff (policy : ValidUploadPolicy) (start : Instant)
    (operations : List TaskOperation) {t : DeadlineState}
    (hrun : run step (.created policy start) operations = some t) :
    AlwaysSetOnce (createUploadTask policy.toUploadPolicy start) (.created policy start) operations ↔
      Meets step SetsOnce (.created policy start) operations := by
  refine alwaysSetOnce_iff operations (sound_created policy start) ?_ hrun
  refine ⟨fun _ => ⟨rfl, rfl⟩, ?_, ?_, ?_, ?_⟩
  all_goals
    intro first hfirst
    cases hfirst

/-! ### A policy that changes between two claims -/

/-- A minute to start and two minutes to finish. -/
def shortUploads : ValidUploadPolicy where
  startTimeoutSeconds := 60
  maxDurationSeconds := 120
  start_pos := by decide
  start_lt_max := by decide

/-- Two minutes to start and an hour to finish. -/
def longUploads : ValidUploadPolicy where
  startTimeoutSeconds := 120
  maxDurationSeconds := 3600
  start_pos := by decide
  start_lt_max := by decide

/-- A claim under the short policy, an interruption, and a claim under the long one. -/
def reclaimed : List TaskOperation :=
  [.claim shortUploads {} 0, .release 10, .claim longUploads {} 20]

/-- The upload after a claim at 0 under the short policy. -/
def takenOnce (status : FileTaskStatus) (clock : Instant) : DeadlineState where
  task := { mode := .upload, status, startTime := 0, endTime := some 120 }
  clock
  firstClaim := some ⟨0, 120, 0, some 120⟩

theorem unchanged_policy_sets_once :
    AlwaysSetOnce (createUploadTask shortUploads.toUploadPolicy 0) (.created shortUploads 0)
      [.claim shortUploads {} 0, .release 10, .claim shortUploads {} 20] := by
  have hclaim : step (.created shortUploads 0) (.claim shortUploads {} 0) =
      some (takenOnce .inProgress 0) := by decide +kernel
  have hrel : step (takenOnce .inProgress 0) (.release 10) = some (takenOnce .pending 10) := by
    decide +kernel
  have hrun : run step (.created shortUploads 0)
      [.claim shortUploads {} 0, .release 10, .claim shortUploads {} 20] =
        some (takenOnce .inProgress 20) := by decide +kernel
  refine (deadline_set_once_iff shortUploads 0 _ hrun).mpr ?_
  refine meets_cons hclaim (fun _ => Or.inl (by decide +kernel)) ?_
  refine meets_cons hrel trivial ?_
  refine ⟨fun _ => ?_, fun _ _ => trivial⟩
  show resetsWindow (takenOnce .pending 10) shortUploads = false
  decide +kernel

theorem second_claim_moves_deadline :
    ¬ AlwaysSetOnce (createUploadTask shortUploads.toUploadPolicy 0) (.created shortUploads 0)
      reclaimed := by
  intro h
  have hrun : run step (.created shortUploads 0) reclaimed = some
      { task :=
          { mode := .upload, status := .inProgress, startTime := 20, endTime := some 3620 }
        clock := 20
        firstClaim := some ⟨0, 120, 0, some 120⟩ } := by decide +kernel
  have hdl := (h reclaimed [] _ (List.append_nil _).symm hrun).times _ rfl
  exact absurd hdl.2 (by decide)

end Cfms.Files.UploadDeadline
