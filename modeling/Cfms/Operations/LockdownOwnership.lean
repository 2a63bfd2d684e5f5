import Cfms.Lib.Run
import Cfms.Operations.Lockdown

/-!
# Lockdown ownership

Every committed transition adds one to the revision of the lockdown row, so an attempt whose first
compare-and-set succeeds has read the two rows as they still are.  The revision of the activation
row starts again at 1 after each deletion and proves nothing by itself; the order of the two writes
does.  From this the rows are a function of the committed transitions: the lockdown row is what the
last one wrote, and there is an activation exactly when the last one was scheduled.
-/

namespace Cfms.Operations

open Database

open Access (Instant)
open Files (FileTask cancelFileTask)
open Lib Lib.Optimistic Lib.Run

/-! ### The writes -/

variable {reads : Reads} {db db' : Database} {now : Instant}

theorem revision_current : (reads.current.elim 0 StoredLockdownState.revision) =
    revisionOf reads.lockdown := by
  obtain ⟨lockdown, activation⟩ := reads
  cases lockdown with
  | none => rfl
  | some stored =>
    obtain ⟨rev, value⟩ := stored
    cases value <;> rfl

/-- The row that a transition writes. -/
structure Wrote (state : LockdownState) (source : Option LockdownSource) (revision : ℕ)
    (row : Option (Revisioned LockdownPayload)) : Prop where
  row : ∃ lastDisabledAt persisted,
    row = some ⟨revision, .v2 state.enabled state.reason lastDisabledAt persisted⟩ ∧
      persisted.map PersistedSource.source = source
  enabled : source.isSome = state.enabled

/-- The stored source is the given one, and it is there exactly when lockdown is on. -/
theorem persistedSource_ok {enabled : Bool} {source : Option LockdownSource}
    {persisted : Option PersistedSource} (h : persistedSource enabled source = .ok persisted) :
    persisted.map PersistedSource.source = source ∧ source.isSome = enabled := by
  cases source with
  | none =>
    cases enabled with
    | true => cases h
    | false =>
      cases h
      exact ⟨rfl, rfl⟩
  | some source =>
    cases enabled with
    | false => cases source <;> cases h
    | true =>
      cases source with
      | unknown => cases h
      | manual | scheduled | automatic =>
        cases h
        exact ⟨rfl, rfl⟩

variable {state : LockdownState} {lastDisabledAt : Instant}

theorem lockdownPayload_ok {source : Option LockdownSource} {payload : LockdownPayload}
    (h : lockdownPayload state source lastDisabledAt = .ok payload) :
    ∃ persisted, payload = .v2 state.enabled state.reason lastDisabledAt persisted ∧
      persisted.map PersistedSource.source = source ∧ source.isSome = state.enabled := by
  simp only [lockdownPayload] at h
  split at h
  · cases h
  rename_i persisted hpersisted
  split_ifs at h
  cases h
  exact ⟨persisted, rfl, persistedSource_ok hpersisted⟩

/-- A state is written over the revision that was read, and gets the next. -/
theorem persistLockdownState_ok {source : Option LockdownSource} {rev : ℕ}
    (h : persistLockdownState db reads.current state source lastDisabledAt = .ok (rev, db')) :
    revisionOf reads.lockdown = revisionOf db.lockdown ∧ rev = revisionOf db.lockdown + 1 ∧
      Wrote state source rev db'.lockdown ∧
      db'.activation = db.activation ∧ db'.fileTasks = db.fileTasks := by
  simp only [persistLockdownState] at h
  split at h
  · cases h
  rename_i payload hpayload
  obtain ⟨persisted, rfl, hsrc, hen⟩ := lockdownPayload_ok hpayload
  have hrev : reads.current.elim 0 StoredLockdownState.revision =
      revisionOf reads.lockdown := revision_current
  split at h
  · rename_i hcur
    rw [hcur] at hrev
    split at h
    · cases h
    rename_i row hins
    cases h
    obtain ⟨hmiss, rfl⟩ := insertAbsent_eq_some hins
    rw [hmiss]
    exact ⟨hrev.symm, rfl, ⟨⟨lastDisabledAt, persisted, rfl, hsrc⟩, hen⟩, rfl, rfl⟩
  · rename_i current hcur
    rw [hcur] at hrev
    split at h
    · cases h
    rename_i row hrepl
    cases h
    obtain ⟨hexpected, rfl⟩ := replaceAt_eq_some hrepl
    rw [← hrev, hexpected]
    exact ⟨rfl, rfl, ⟨⟨lastDisabledAt, persisted, rfl, hsrc⟩, hen⟩, rfl, rfl⟩

/-- The activation goes if it is still the one that was read. -/
theorem deleteLockdownActivation_ok (h : deleteLockdownActivation db reads.activation = .ok db') :
    (reads.activation = db.activation → db'.activation = none) ∧
      db'.lockdown = db.lockdown ∧ db'.fileTasks = db.fileTasks := by
  simp only [deleteLockdownActivation] at h
  split at h
  · rename_i hnone
    cases h
    refine ⟨?_, rfl, rfl⟩
    intro hfresh
    rw [← hfresh, hnone]
  · split_ifs at h
    cases h
    exact ⟨fun _ => rfl, rfl, rfl⟩

def Database.activated (db : Database) : Option LockdownActivation :=
  db.activation.map fun stored => parseLockdownActivation stored.value

theorem persistLockdownActivation_ok {activation : LockdownActivation}
    (h : persistLockdownActivation db reads.activation activation = .ok db') :
    db'.activated = some activation ∧ db'.lockdown = db.lockdown ∧ db'.fileTasks = db.fileTasks := by
  simp only [persistLockdownActivation] at h
  split at h
  · split at h
    · cases h
    · rename_i row hins
      cases h
      obtain ⟨-, rfl⟩ := insertAbsent_eq_some hins
      exact ⟨rfl, rfl, rfl⟩
  · split at h
    · cases h
    · rename_i row hrepl
      cases h
      obtain ⟨-, rfl⟩ := replaceAt_eq_some hrepl
      exact ⟨rfl, rfl, rfl⟩

theorem cancelPendingFileTasks_fileTasks : (cancelPendingFileTasks db).2.fileTasks =
    db.fileTasks.update fun _ task => cancelFileTask task := rfl

/-! ### What a command may do -/

def Command.activation (command : Command) (revision : ℕ) : Option LockdownActivation :=
  match command with
  | .schedule activationId expiresAt _ => some ⟨activationId, revision, expiresAt⟩
  | _ => none

inductive Decides (reads : Reads) (now : Instant) :
    Command → LockdownState → Option LockdownSource → Prop
  | release {reason : Option (Option String)} {onlyIfInactive takeOverScheduled : Bool}
      {state : LockdownState} (hstate : state.enabled = false) :
      Decides reads now (.apply false reason onlyIfInactive takeOverScheduled) state none
  | enable {reason : Option (Option String)} {onlyIfInactive takeOverScheduled : Bool}
      {state : LockdownState} (hstate : state.enabled = true)
      (hsrc : reads.previousSource ≠ some .automatic) :
      Decides reads now (.apply true reason onlyIfInactive takeOverScheduled) state (some .manual)
  | protect {reason : Option (Option String)} {onlyIfInactive takeOverScheduled : Bool}
      {state : LockdownState} (hstate : state.enabled = true) :
      Decides reads now (.apply true reason onlyIfInactive takeOverScheduled) state (some .automatic)
  | automatic {reason : String} {state : LockdownState} (hstate : state.enabled = true) :
      Decides reads now (.automatic reason) state (some .automatic)
  | schedule {activationId : String} {expiresAt : Option Instant} {reason : Option String}
      {state : LockdownState} (hstate : state.enabled = true)
      (hdis : reads.previousState.enabled = false) :
      Decides reads now (.schedule activationId expiresAt reason) state (some .scheduled)
  | disable (hsrc : reads.previousSource = some .manual ∨ reads.previousSource = some .scheduled) :
      Decides reads now .disable {} none
  | expire {activationId : String} {activation : LockdownActivation} {expiresAt : Instant}
      (hactiv : reads.currentActivation = some activation)
      (hid : activation.activationId = activationId)
      (hexpires : activation.expiresAt = some expiresAt) (hdue : expiresAt ≤ now) :
      Decides reads now (.expire activationId) {} none

structure Commits (reads : Reads) (now : Instant) (command : Command) (db db' : Database)
    (transition : LockdownTransition) : Prop where
  outcome : transition.outcome = .applied
  previousState : transition.previousState = reads.previousState
  decides : Decides reads now command transition.state transition.source
  revision : revisionOf reads.lockdown = revisionOf db.lockdown
  lockdown : Wrote transition.state transition.source (revisionOf db.lockdown + 1) db'.lockdown
  activation : reads.activation = db.activation →
    db'.activated = command.activation (revisionOf db.lockdown + 1)
  fileTasks : db'.fileTasks =
    if transition.state.enabled && !reads.previousState.enabled then
      db.fileTasks.update fun _ task => cancelFileTask task
    else db.fileTasks

variable {command : Command} {transition : LockdownTransition}

/-- A state is written, and no activation stays. -/
theorem supersede_commits {source : Option LockdownSource} {turnsOn : Bool}
    (h : supersede reads db state source lastDisabledAt turnsOn = .ok (transition, db'))
    (hdec : Decides reads now command state source)
    (hactiv : ∀ rev, command.activation rev = none)
    (hturns : turnsOn = (state.enabled && !reads.previousState.enabled)) :
    Commits reads now command db db' transition := by
  simp only [supersede] at h
  split at h
  · cases h
  rename_i rev db₁ hpersist
  obtain ⟨hrev, rfl, hwrote, hactiv₁, htasks₁⟩ := persistLockdownState_ok hpersist
  split at h
  · cases h
  rename_i db₂ hdelete
  obtain ⟨hdel, hlock₂, htasks₂⟩ := deleteLockdownActivation_ok hdelete
  cases h
  refine ⟨rfl, rfl, hdec, hrev, ?_, ?_, ?_⟩
  · cases turnsOn
    all_goals
      show Wrote _ _ _ db₂.lockdown
      rw [hlock₂]
      exact hwrote
  · intro hfresh
    have hnone : db₂.activation = none := hdel (hfresh.trans hactiv₁.symm)
    rw [hactiv]
    cases turnsOn
    all_goals
      show db₂.activation.map _ = none
      rw [hnone]
      rfl
  · show (if turnsOn then cancelPendingFileTasks db₂ else (0, db₂)).2.fileTasks = _
    rw [← hturns]
    cases turnsOn
    · exact htasks₂.trans htasks₁
    · rw [if_pos rfl, if_pos rfl, cancelPendingFileTasks_fileTasks, htasks₂, htasks₁]

theorem lockdownState_ok {enabled : Bool} {reason : Option String}
    (h : lockdownState enabled reason = .ok state) : state = ⟨enabled, reason⟩ := by
  simp only [lockdownState] at h
  split_ifs at h
  cases h
  rfl

theorem kept_outcome {outcome : Outcome} (h : outcome ≠ .applied) :
    (reads.kept outcome).outcome ≠ .applied := h

/-- An attempt writes nothing or commits a transition that its command decided on. -/
def Attempts (reads : Reads) (now : Instant) (command : Command) (db db' : Database)
    (transition : LockdownTransition) : Prop :=
  (transition.outcome ≠ .applied ∧ db' = db) ∨ Commits reads now command db db' transition

theorem applyLockdown_attempts {status : Bool} {reason : Option (Option String)}
    {onlyIfInactive takeOverScheduled : Bool}
    (h : applyLockdown reads db now status reason onlyIfInactive takeOverScheduled =
      .ok (transition, db')) :
    Attempts reads now (.apply status reason onlyIfInactive takeOverScheduled) db db'
      transition := by
  simp only [applyLockdown] at h
  by_cases hinact₁ : (!status && onlyIfInactive) = true
  · rw [if_pos hinact₁] at h
    cases h
  rw [if_neg hinact₁] at h
  by_cases htakeover₁ : (takeOverScheduled && (!status || !onlyIfInactive)) = true
  · rw [if_pos htakeover₁] at h
    cases h
  rw [if_neg htakeover₁] at h
  by_cases hreason : (!status && reason.isSome) = true
  · rw [if_pos hreason] at h
    cases h
  rw [if_neg hreason] at h
  by_cases hinact : (status && onlyIfInactive && reads.previousState.enabled) = true
  · rw [if_pos hinact] at h
    by_cases htakeover : (takeOverScheduled && reads.currentActivation.isSome) = true
    · rw [if_pos htakeover] at h
      right
      simp only [Bool.and_eq_true] at hinact
      obtain ⟨⟨rfl, -⟩, hen⟩ := hinact
      refine supersede_commits h (.protect hen) (fun _ => rfl) ?_
      rw [hen]
      rfl
    · rw [if_neg htakeover] at h
      cases h
      exact .inl ⟨kept_outcome (by decide), rfl⟩
  · rw [if_neg hinact] at h
    split at h
    · cases h
    rename_i state hstate
    have hen : state.enabled = status := by rw [lockdownState_ok hstate]
    by_cases hsame : state = reads.previousState
    · rw [if_pos hsame] at h
      cases h
      exact .inl ⟨kept_outcome (by decide), rfl⟩
    · rw [if_neg hsame] at h
      right
      rw [hen] at h
      cases status with
      | false =>
        refine supersede_commits h (.release hen) (fun _ => rfl) ?_
        rw [hen, Bool.and_false, Bool.false_and]
      | true =>
        have hturns : ((true != reads.previousState.enabled) && true) =
            (state.enabled && !reads.previousState.enabled) := by
          rw [hen]
          cases reads.previousState.enabled <;> rfl
        by_cases hauto : reads.previousSource = some .automatic
        · rw [if_pos hauto] at h
          exact supersede_commits h (.protect hen) (fun _ => rfl) hturns
        · rw [if_neg hauto] at h
          exact supersede_commits h (.enable hen hauto) (fun _ => rfl) hturns

theorem applyAutomaticLockdown_attempts {reason : String}
    (h : applyAutomaticLockdown reads db reason = .ok (transition, db')) :
    Attempts reads now (.automatic reason) db db' transition := by
  simp only [applyAutomaticLockdown] at h
  split_ifs at h with hsrc hen
  · cases h
    exact .inl ⟨kept_outcome (by decide), rfl⟩
  · right
    refine supersede_commits h (.automatic hen) (fun _ => rfl) ?_
    rw [hen]
    rfl
  · split at h
    · cases h
    · rename_i state hstate
      right
      have hon : state.enabled = true := by rw [lockdownState_ok hstate]
      refine supersede_commits h (.automatic hon) (fun _ => rfl) ?_
      rw [hon, Bool.eq_false_iff.mpr hen]
      rfl

variable {activationId : String}

theorem applyScheduledLockdown_attempts {expiresAt : Option Instant} {reason : Option String}
    (h : applyScheduledLockdown reads db now activationId expiresAt reason =
      .ok (transition, db')) :
    Attempts reads now (.schedule activationId expiresAt reason) db db' transition := by
  simp only [applyScheduledLockdown] at h
  split_ifs at h with hcand hexp hen hsame
  · cases h
    exact .inl ⟨kept_outcome (by decide), rfl⟩
  · cases h
    exact .inl ⟨kept_outcome (by decide), rfl⟩
  · cases h
    exact .inl ⟨kept_outcome (by decide), rfl⟩
  · right
    have hdis : reads.previousState.enabled = false := Bool.eq_false_iff.mpr hen
    split at h
    · cases h
    rename_i state hstate
    have hon : state.enabled = true := by rw [lockdownState_ok hstate]
    split at h
    · cases h
    rename_i rev db₁ hpersist
    obtain ⟨hrev, rfl, hwrote, hactiv₁, htasks₁⟩ := persistLockdownState_ok hpersist
    split at h
    · cases h
    rename_i db₂ hactivate
    obtain ⟨hactivated, hlock₂, htasks₂⟩ := persistLockdownActivation_ok hactivate
    cases h
    refine ⟨rfl, rfl, .schedule hon hdis, hrev, ?_, fun _ => hactivated, ?_⟩
    · show Wrote _ _ _ db₂.lockdown
      rw [hlock₂]
      exact hwrote
    · rw [cancelPendingFileTasks_fileTasks, htasks₂, htasks₁]
      exact (if_pos (by rw [hon, hdis]; rfl)).symm

theorem disableScheduledLockdown_attempts
    (h : disableScheduledLockdown reads db now = .ok (transition, db')) :
    Attempts reads now .disable db db' transition := by
  simp only [disableScheduledLockdown] at h
  split_ifs at h with hdis hsrc
  · cases h
    exact .inl ⟨kept_outcome (by decide), rfl⟩
  · exact .inr (supersede_commits h (.disable hsrc) (fun _ => rfl) rfl)
  · cases h
    exact .inl ⟨kept_outcome (by decide), rfl⟩

theorem expireScheduledLockdown_attempts
    (h : expireScheduledLockdown reads db now activationId = .ok (transition, db')) :
    Attempts reads now (.expire activationId) db db' transition := by
  simp only [expireScheduledLockdown] at h
  split_ifs at h with hdue
  · right
    rw [Option.any_eq_true] at hdue
    obtain ⟨activation, hactiv, hdue⟩ := hdue
    rw [Bool.and_eq_true, beq_iff_eq, Option.any_eq_true] at hdue
    obtain ⟨hid, expiresAt, hexpires, hdue⟩ := hdue
    exact supersede_commits h
      (.expire hactiv hid hexpires (decide_eq_true_iff.mp hdue)) (fun _ => rfl) rfl
  · cases h
    exact .inl ⟨kept_outcome (by decide), rfl⟩

/-- Every attempt of a command decides on what it has read. -/
theorem attempt_attempts (h : command.attempt reads db now = .ok (transition, db')) :
    Attempts reads now command db db' transition := by
  cases command with
  | apply status reason onlyIfInactive takeOverScheduled => exact applyLockdown_attempts h
  | automatic reason => exact applyAutomaticLockdown_attempts h
  | schedule activationId expiresAt reason => exact applyScheduledLockdown_attempts h
  | disable => exact disableScheduledLockdown_attempts h
  | expire activationId => exact expireScheduledLockdown_attempts h

/-! ### The rows as a function of the history -/

/-- The rows that the committed transitions leave. -/
def Recorded (history : List Record) (db : Database) : Prop :=
  match history with
  | [] => db.lockdown = none ∧ db.activation = none
  | record :: rest =>
    Wrote record.transition.state record.transition.source (rest.length + 1) db.lockdown ∧
      db.activated = record.command.activation (rest.length + 1)

variable {history : List Record}

theorem Recorded.revision (h : Recorded history db) : revisionOf db.lockdown = history.length := by
  cases history with
  | nil => rw [h.1, revisionOf, List.length_nil]
  | cons record rest =>
    obtain ⟨_, _, hrow, -⟩ := h.1.row
    rw [hrow, revisionOf, List.length_cons]

theorem Recorded.of_reads (h : Recorded history db)
    (hreads : db'.reads = db.reads) : Recorded history db' := by
  injection hreads with hlock hactiv
  cases history with
  | nil => exact ⟨hlock.trans h.1, hactiv.trans h.2⟩
  | cons record rest =>
    refine ⟨hlock ▸ h.1, ?_⟩
    rw [activated, hactiv]
    exact h.2

/-- The attempt has read the rows as they are, or its version is gone. -/
def Call.Fresh (call : Call) (db : Database) : Prop :=
  match call.phase with
  | .begun => True
  | .stateRead lockdown =>
    Snapshot.Holds (fun db : Database => revisionOf db.lockdown) Database.lockdown
      ⟨revisionOf lockdown, lockdown⟩ db
  | .read reads =>
    Snapshot.Holds (fun db : Database => revisionOf db.lockdown) Database.reads
      ⟨revisionOf reads.lockdown, reads⟩ db

variable {call : Call}

theorem Call.Fresh.step (h : call.Fresh db) (hle : revisionOf db.lockdown ≤ revisionOf db'.lockdown)
    (hreads : revisionOf db'.lockdown = revisionOf db.lockdown → db'.reads = db.reads) :
    call.Fresh db' := by
  unfold Call.Fresh at h ⊢
  split
  · trivial
  · rename_i lockdown hphase
    rw [hphase] at h
    exact Snapshot.Holds.step h hle fun hsame => congrArg Reads.lockdown (hreads hsame)
  · rename_i reads hphase
    rw [hphase] at h
    exact Snapshot.Holds.step h hle hreads

/-- What holds of every reachable system. -/
structure Owned (system : System) : Prop where
  recorded : Recorded system.history system.db
  fresh : ∀ id call, system.calls id = some call → call.Fresh system.db

variable {system system' : System} {action : Action}

/-- What a step is: it leaves the rows alone, or it commits a transition that was decided on the
rows as they are. -/
inductive Step (system system' : System) : Action → Prop
  | quiet {action : Action} (hreads : system'.db.reads = system.db.reads)
      (hhist : system'.history = system.history) : Step system system' action
  | commit {id : CallId} {now : Instant} {call : Call} {transition : LockdownTransition}
      (hcall : system.calls id = some call)
      (hphase : call.phase = .read system.db.reads)
      (hcomm : Commits system.db.reads now call.command system.db system'.db transition)
      (hhist : system'.history = ⟨call.command, now, transition⟩ :: system.history) :
      Step system system' (.commit id now)

variable {id : CallId}

theorem setCall_calls {other : CallId} {call : Option Call} {call' : Call}
    (h : (system.setCall id call).calls other = some call') :
    (other = id ∧ call = some call') ∨ (other ≠ id ∧ system.calls other = some call') := by
  by_cases hother : other = id
  · subst hother
    left
    exact ⟨rfl, by simpa [System.setCall] using h⟩
  · right
    exact ⟨hother, by simpa [System.setCall, Function.update_of_ne hother] using h⟩

theorem Owned.setCall (h : Owned system) {call : Option Call}
    (hfresh : ∀ call', call = some call' → call'.Fresh system.db) : Owned (system.setCall id call) := by
  refine ⟨h.recorded, ?_⟩
  intro other call' hcall'
  rcases setCall_calls hcall' with ⟨-, hsame⟩ | ⟨-, hbef⟩
  · exact hfresh call' hsame
  · exact h.fresh other call' hbef

theorem Owned.endCall (h : Owned system) (id : CallId) : Owned (system.setCall id none) := by
  refine h.setCall ?_
  intro call' hnone
  cases hnone

/-- A commit keeps the invariant: the history grows by the command, with its decision. -/
theorem Owned.commit (h : Owned system)
    (hcomm : Commits system.db.reads now command system.db db' transition) :
    Owned { system.setCall id none with
      db := db', history := ⟨command, now, transition⟩ :: system.history } := by
  have hrev := h.recorded.revision
  have hwrote := hcomm.lockdown
  have hactiv := hcomm.activation rfl
  rw [hrev] at hwrote hactiv
  refine ⟨⟨hwrote, hactiv⟩, ?_⟩
  intro other call' hcall'
  rcases setCall_calls hcall' with ⟨-, hnone⟩ | ⟨-, hbef⟩
  · cases hnone
  obtain ⟨_, _, hrow, -⟩ := hwrote.row
  have hmoved : revisionOf db'.lockdown = revisionOf system.db.lockdown + 1 := by
    rw [hrow, hrev]
    rfl
  refine (h.fresh other call' hbef).step ?_ ?_
  · rw [hmoved]
    exact Nat.le_succ _
  · intro hsame
    rw [hmoved] at hsame
    exact absurd hsame (Nat.succ_ne_self _)

theorem retryLockdownCas_begun {call' : Call} (h : retryLockdownCas call = some call') :
    call'.phase = .begun := by
  unfold retryLockdownCas at h
  split_ifs at h
  cases h
  rfl

/-- The end of an attempt: a commit, a refusal or another try. -/
theorem Owned.finish (h : Owned system) {reads : Reads}
    (hcall : system.calls id = some call) (hphase : call.phase = .read reads) :
    Owned (system.finish id call now (call.command.attempt reads system.db now)) ∧
      Step system (system.finish id call now (call.command.attempt reads system.db now))
        (.commit id now) := by
  have hbegun : ∀ call' : Call, call'.phase = .begun → call'.Fresh system.db := by
    intro call' hbegun
    rw [Call.Fresh, hbegun]
    trivial
  cases hatt : call.command.attempt reads system.db now with
  | error err =>
    cases err with
    | casConflict =>
      refine ⟨h.setCall fun call' hcall' => hbegun call' (retryLockdownCas_begun hcall'),
        .quiet rfl rfl⟩
    | valueError | validationError => exact ⟨h.endCall id, .quiet rfl rfl⟩
  | ok result =>
    rcases attempt_attempts hatt with ⟨hkept, hsame⟩ | hcomm
    · rw [System.finish, if_neg hkept, hsame]
      exact ⟨h.endCall id, .quiet rfl rfl⟩
    · -- the first compare-and-set has found the rev that was read
      have hfresh := h.fresh id call hcall
      rw [Call.Fresh, hphase] at hfresh
      obtain rfl : system.db.reads = reads := hfresh.2 hcomm.revision
      rw [System.finish, if_pos hcomm.outcome]
      exact ⟨h.commit hcomm, .commit hcall hphase hcomm rfl⟩

/-- **The step lemma.** -/
theorem Owned.step (h : Owned system) (hstep : step system action = some system') :
    Owned system' ∧ Step system system' action := by
  cases action with
  | call id command =>
    simp only [Operations.step] at hstep
    split at hstep
    · cases hstep
    cases hstep
    refine ⟨h.setCall ?_, .quiet rfl rfl⟩
    intro call' hcall'
    cases hcall'
    trivial
  | readState id =>
    simp only [Operations.step] at hstep
    split at hstep
    · cases hstep
      refine ⟨h.setCall ?_, .quiet rfl rfl⟩
      intro call' hcall'
      cases hcall'
      have hread : Snapshot.Holds (fun db : Database => revisionOf db.lockdown) lockdown
          ⟨revisionOf system.db.lockdown, system.db.lockdown⟩ system.db := .read system.db
      exact hread
    · cases hstep
  | readActivation id =>
    simp only [Operations.step] at hstep
    split at hstep
    · rename_i command lockdown attempt hcall
      cases hstep
      refine ⟨h.setCall ?_, .quiet rfl rfl⟩
      intro call' hcall'
      cases hcall'
      obtain ⟨hle, hsame⟩ := h.fresh id _ hcall
      refine ⟨hle, ?_⟩
      intro hversion
      rw [reads, hsame hversion]
    · cases hstep
  | commit id now =>
    simp only [Operations.step] at hstep
    split at hstep
    · rename_i command reads attempt hcall
      cases hstep
      exact h.finish hcall rfl
    · cases hstep
  | changeFileTasks fileTasks =>
    cases hstep
    refine ⟨⟨h.recorded.of_reads rfl, ?_⟩, .quiet rfl rfl⟩
    intro id call hcall
    exact (h.fresh id call hcall).step (Nat.le_refl _) fun _ => rfl

theorem owned_initial : Owned .initial := by
  refine ⟨⟨rfl, rfl⟩, ?_⟩
  intro id call hnone
  cases hnone

/-- **The run lemma.** -/
theorem owned_of_run {actions : List Action} (hrun : run step .initial actions = some system) :
    Owned system :=
  run_invariant (fun _ _ _ h _ hstep => (h.step hstep).1) owned_initial (meets_true actions) hrun

/-! ### Ownership -/

/-- `LockdownStateManager.get_state().enabled`. -/
def Database.enabled (db : Database) : Bool := db.reads.previousState.enabled

/-- `LockdownStateManager.get_source`. -/
def Database.source (db : Database) : Option LockdownSource := db.reads.previousSource

theorem Wrote.current {source : Option LockdownSource} {rev : ℕ}
    (h : Wrote state source rev db.lockdown) :
    ∃ lastDisabledAt, db.reads.current = some ⟨state, source, lastDisabledAt, rev⟩ := by
  obtain ⟨lastDisabledAt, persisted, hrow, hsrc⟩ := h.row
  refine ⟨lastDisabledAt, ?_⟩
  rw [reads, hrow, ← hsrc]
  rfl

theorem Wrote.enabled_eq {source : Option LockdownSource} {rev : ℕ}
    (h : Wrote state source rev db.lockdown) : db.enabled = state.enabled := by
  obtain ⟨lastDisabledAt, hcur⟩ := h.current
  rw [Database.enabled, Reads.previousState, hcur]
  rfl

theorem Wrote.source_automatic {rev : ℕ}
    (h : Wrote state (some .automatic) rev db.lockdown) : db.source = some .automatic := by
  obtain ⟨lastDisabledAt, hcur⟩ := h.current
  have hen : state.enabled = true := h.enabled.symm
  rw [source, Reads.previousSource, hcur]
  simp [lockdownSource, hen]

theorem previousSource_of_currentActivation {activation : LockdownActivation}
    (h : reads.currentActivation = some activation) : reads.previousSource = some .scheduled := by
  rw [Reads.previousSource, h]
  simp only [Reads.currentActivation, validLockdownActivation] at h
  split at h
  · rename_i state stored hstate hstor
    split_ifs at h with hvalid
    obtain ⟨hen, -, hsrc⟩ := hvalid
    rw [hstate, lockdownSource]
    rcases hsrc with hsrc | hsrc
    · simp [hen, hsrc]
    · simp [hen, hsrc]
  · cases h

theorem currentActivation_stored {activation : LockdownActivation}
    (h : db.reads.currentActivation = some activation) : db.activated = some activation := by
  simp only [Reads.currentActivation, validLockdownActivation] at h
  split at h
  · rename_i state stored hstate hstor
    split_ifs at h
    rw [← h]
    exact hstor
  · cases h

/-- From an automatic lockdown only `apply` leads to another source. -/
theorem Decides.of_automatic
    {source : Option LockdownSource} (h : Decides reads now command state source)
    (hauto : reads.previousSource = some .automatic)
    (hen : reads.previousState.enabled = true) :
    source = some .automatic ∨ ∃ reason onlyIfInactive takeOverScheduled,
      command = .apply false reason onlyIfInactive takeOverScheduled := by
  cases h with
  | release => exact .inr ⟨_, _, _, rfl⟩
  | enable hstate hsrc => exact absurd hauto hsrc
  | protect | automatic => exact .inl rfl
  | schedule hstate hdis =>
    rw [hen] at hdis
    cases hdis
  | disable hsrc =>
    rw [hauto] at hsrc
    rcases hsrc with hsrc | hsrc
    · cases hsrc
    · cases hsrc
  | expire hactiv =>
    rw [previousSource_of_currentActivation hactiv] at hauto
    cases hauto

theorem enabled_of_source {source : LockdownSource} (h : db.source = some source) :
    db.enabled = true := by
  rw [Database.source, Reads.previousSource] at h
  rw [enabled, Reads.previousState]
  cases hcur : db.reads.current with
  | none =>
    rw [hcur] at h
    cases h
  | some current =>
    rw [hcur, lockdownSource] at h
    by_contra hdis
    rw [if_pos (by simpa using hdis)] at h
    cases h

/-- An activation that is stored is that of the last command. -/
theorem Recorded.schedule {activation : LockdownActivation}
    (h : Recorded history db) (hactivated : db.activated = some activation) :
    ∃ reason now transition rest,
      history = ⟨.schedule activation.activationId activation.expiresAt reason, now, transition⟩ ::
        rest ∧ activation.lockdownRevision = history.length := by
  cases history with
  | nil =>
    rw [activated, h.2] at hactivated
    cases hactivated
  | cons record rest =>
    obtain ⟨command, now, transition⟩ := record
    have hcmd := h.2.symm.trans hactivated
    cases command with
    | schedule activationId expiresAt reason =>
      rw [Command.activation, Option.some.injEq] at hcmd
      subst hcmd
      exact ⟨reason, now, transition, rest, rfl, rfl⟩
    | apply | automatic | disable | expire => cases hcmd

theorem cancelFileTask_isActive (task : FileTask) : (cancelFileTask task).status.isActive = false := by
  unfold cancelFileTask
  split_ifs with h
  · rfl
  · exact Bool.eq_false_iff.mpr h

/-- Expiry decides on its own activation, and only when that is over. -/
theorem Decides.of_expire
    {source : Option LockdownSource} (h : Decides reads now (.expire activationId) state source) :
    ∃ activation expiresAt, reads.currentActivation = some activation ∧
      activation.activationId = activationId ∧ activation.expiresAt = some expiresAt ∧
      expiresAt ≤ now := by
  cases h with
  | expire hactiv hid hexpires hdue => exact ⟨_, _, hactiv, hid, hexpires, hdue⟩

variable (h : Step system system' action)

include h

theorem Step.reads_eq (hhist : system'.history = system.history) :
    system'.db.reads = system.db.reads := by
  cases h with
  | quiet hreads => exact hreads
  | commit hcall hphase hcomm hrec =>
    rw [hrec] at hhist
    exact absurd hhist (List.cons_ne_self _ _)

/-- An automatic lockdown ends by `apply` only. -/
theorem Step.automatic
    (hauto : system.db.source = some .automatic) :
    system'.db.source = some .automatic ∨ ∃ reason onlyIfInactive takeOverScheduled now transition,
        system'.history = ⟨.apply false reason onlyIfInactive takeOverScheduled, now, transition⟩ ::
          system.history := by
  cases h with
  | quiet hreads =>
    left
    rw [source, hreads]
    exact hauto
  | commit hcall hphase hcomm hrec =>
    rename_i call transition
    rcases hcomm.decides.of_automatic hauto (enabled_of_source hauto) with
      hsrc | ⟨reason, onlyIfInactive, takeOverScheduled, hcmd⟩
    · left
      have hwrote := hcomm.lockdown
      rw [hsrc] at hwrote
      exact hwrote.source_automatic
    · right
      rw [hcmd] at hrec
      exact ⟨reason, onlyIfInactive, takeOverScheduled, _, transition, hrec⟩

/-- An activation is ended by the expiry of its own id. -/
theorem Step.expire (howned : Owned system)
    (hexp : system'.history = ⟨.expire activationId, now, transition⟩ :: system.history) :
    ∃ expiresAt reason enabledAt enabling earlier,
      system.history = ⟨.schedule activationId (some expiresAt) reason, enabledAt, enabling⟩ ::
        earlier ∧ system.db.enabled = true ∧ expiresAt ≤ now := by
  cases h with
  | quiet hreads hhist =>
    rw [hhist] at hexp
    exact absurd hexp.symm (List.cons_ne_self _ _)
  | commit hcall hphase hcomm hrec =>
    rw [hrec] at hexp
    injection hexp with hhead _
    injection hhead with hcmd hnow _
    have hdec := hcomm.decides
    rw [hcmd, hnow] at hdec
    obtain ⟨activation, expiresAt, hactiv, hid, hexpires, hdue⟩ := hdec.of_expire
    obtain ⟨reason, enabledAt, enabling, earlier, hhist, -⟩ :=
      howned.recorded.schedule (currentActivation_stored hactiv)
    rw [hid, hexpires] at hhist
    refine ⟨expiresAt, reason, enabledAt, enabling, earlier, hhist, ?_, hdue⟩
    exact enabled_of_source (previousSource_of_currentActivation hactiv)

/-- An activation is removed by the commit of a command that has read it. -/
theorem Step.removes (howned : Owned system)
    {stored : Revisioned ActivationPayload} (hstor : system.db.activation = some stored)
    (hrem : system'.db.activation ≠ some stored) :
    ∃ id now call record, action = .commit id now ∧ system.calls id = some call ∧
      call.phase = .read system.db.reads ∧ system'.history = record :: system.history ∧
      (parseLockdownActivation stored.value).lockdownRevision = revisionOf system.db.lockdown ∧
      revisionOf system'.db.lockdown = revisionOf system.db.lockdown + 1 := by
  cases h with
  | quiet hreads =>
    refine absurd ?_ hrem
    rw [← hstor]
    exact congrArg Reads.activation hreads
  | commit hcall hphase hcomm hrec =>
    have hactivated : system.db.activated = some (parseLockdownActivation stored.value) := by
      rw [activated, hstor]
      rfl
    obtain ⟨-, -, -, -, -, hrev⟩ := howned.recorded.schedule hactivated
    obtain ⟨_, _, hrow, -⟩ := hcomm.lockdown.row
    refine ⟨_, _, _, _, rfl, hcall, hphase, hrec, ?_, ?_⟩
    · rw [hrev, howned.recorded.revision]
    · rw [hrow]
      rfl

/-- Turning lockdown on cancels the file tasks in the same commit. -/
theorem Step.turnsOn (hoff : system.db.enabled = false)
    (hon : system'.db.enabled = true) :
    system'.db.fileTasks = system.db.fileTasks.update fun _ task => cancelFileTask task := by
  cases h with
  | quiet hreads =>
    rw [enabled, hreads] at hon
    rw [enabled, hon] at hoff
    cases hoff
  | commit hcall hphase hcomm hrec =>
    rw [hcomm.lockdown.enabled_eq] at hon
    rw [hcomm.fileTasks]
    apply if_pos
    rw [hon, show system.db.reads.previousState.enabled = false from hoff]
    rfl

omit h

/-- A conflict changes no row. -/
theorem step_conflict (hstep : step system (.commit id now) = some system')
    (hcall : system.calls id = some call) (hphase : call.phase = .read reads)
    (hconf : call.command.attempt reads system.db now = .error .casConflict) :
    system'.db = system.db ∧ system'.history = system.history := by
  obtain ⟨command, phase, attempt⟩ := call
  obtain rfl : phase = .read reads := hphase
  simp only [step, hcall] at hstep
  rw [show command.attempt reads system.db now = .error .casConflict from hconf,
    Option.some.injEq] at hstep
  rw [← hstep]
  exact ⟨rfl, rfl⟩

/-- **Lockdown ownership.** In every run of the commands, a step leaves the rows as they are unless
it records a transition, ends an automatic lockdown only by `apply_lockdown(False)`, expires an
activation only right after its application and its deadline, removes one only by an attempt that
has read it, cancels every active file task when it turns the lockdown on, and changes nothing on a
conflict. -/
theorem lockdown_ownership {actions : List Action} (hrun : run step .initial actions = some system)
    (hstep : step system action = some system') :
    (system'.history = system.history → system'.db.reads = system.db.reads) ∧
    (system.db.source = some .automatic → system'.db.source = some .automatic ∨
        ∃ reason onlyIfInactive takeOverScheduled now transition, system'.history =
            ⟨.apply false reason onlyIfInactive takeOverScheduled, now, transition⟩ ::
              system.history) ∧
    (∀ activationId now transition,
      system'.history = ⟨.expire activationId, now, transition⟩ :: system.history →
      ∃ expiresAt reason enabledAt enabling earlier,
        system.history = ⟨.schedule activationId (some expiresAt) reason, enabledAt, enabling⟩ ::
          earlier ∧ system.db.enabled = true ∧ expiresAt ≤ now) ∧
    (∀ stored, system.db.activation = some stored → system'.db.activation ≠ some stored →
      ∃ id now call record, action = .commit id now ∧ system.calls id = some call ∧
        call.phase = .read system.db.reads ∧ system'.history = record :: system.history ∧
        (parseLockdownActivation stored.value).lockdownRevision = revisionOf system.db.lockdown ∧
        revisionOf system'.db.lockdown = revisionOf system.db.lockdown + 1) ∧
    (system.db.enabled = false → system'.db.enabled = true →
      (∀ id, system'.db.fileTasks.lookup id = (system.db.fileTasks.lookup id).map cancelFileTask) ∧
      ∀ id task, system'.db.fileTasks.lookup id = some task → task.status.isActive = false) ∧
    ∀ id now call reads, action = .commit id now → system.calls id = some call →
      call.phase = .read reads → call.command.attempt reads system.db now = .error .casConflict →
      system'.db = system.db ∧ system'.history = system.history := by
  have howned := owned_of_run hrun
  have hsteps := (howned.step hstep).2
  refine ⟨hsteps.reads_eq, hsteps.automatic,
    fun activationId now transition hexp => hsteps.expire howned hexp,
    fun stored hstor hrem => hsteps.removes howned hstor hrem, ?_, ?_⟩
  · intro hoff hon
    rw [hsteps.turnsOn hoff hon]
    refine ⟨fun id => Table.lookup_update _ _ _, ?_⟩
    intro id task htask
    obtain ⟨old, -, rfl⟩ := Table.lookup_update_eq_some htask
    exact cancelFileTask_isActive old
  · rintro id now call reads rfl hcall hphase hconf
    exact step_conflict hstep hcall hphase hconf

/-- A scheduled lockdown is enabled at 50, and the attempt of its expiry has read both rows. -/
def expiringRun : List Action :=
  [.changeFileTasks (AList.insert 7 { mode := .upload, startTime := 0, endTime := none } ∅),
    .call 1 (.schedule "window" (some 100) none), .readState 1, .readActivation 1, .commit 1 50,
    .call 2 (.expire "window"), .readState 2, .readActivation 2]

def expiringSystem : System := (run step .initial expiringRun).getD .initial

def expiredSystem : System := (step expiringSystem (.commit 2 150)).getD .initial

theorem expiringRun_ownership : run step .initial expiringRun = some expiringSystem ∧
      step expiringSystem (.commit 2 150) = some expiredSystem ∧
      expiredSystem.db.enabled = false ∧
      expiringSystem.db.fileTasks.lookup 7 =
        some { mode := .upload, status := .cancelled, startTime := 0, endTime := none } ∧
      ∃ expiresAt reason enabledAt enabling earlier,
        expiringSystem.history = ⟨.schedule "window" (some expiresAt) reason, enabledAt, enabling⟩ ::
          earlier ∧ expiringSystem.db.enabled = true ∧ expiresAt ≤ 150 := by
  have hrun : run step .initial expiringRun = some expiringSystem :=
    run_eq_some_getD _ (by decide +kernel)
  have hstep : step expiringSystem (.commit 2 150) = some expiredSystem := by
    obtain ⟨system, hsystem⟩ := Option.isSome_iff_exists.mp
      (show (step expiringSystem (.commit 2 150)).isSome = true by decide +kernel)
    rfl
  obtain ⟨-, -, hexpire, -⟩ := lockdown_ownership hrun hstep
  refine ⟨hrun, hstep, by decide +kernel, by decide +kernel, ?_⟩
  exact hexpire "window" 150 ⟨⟨true, none⟩, {}, some .scheduled, none, .applied, 0⟩
    (by decide +kernel)

end Cfms.Operations
