import Cfms.Scheduling.Slot
import Cfms.Lib.Run

/-!
# The runtime generation

A process obtains the runtime generation from `ensure_runtime_state` when it starts, and every
transaction of the process that touches an execution compares it with the generation of the row.
Processes of different providers or namespaces do not overlap in time, so a switch of the provider
happens while no process lives, and it moves the active executions to the new generation.

The switch moves the executions of schedules that are not deleted.  A retired system schedule may
still hold a crashed running execution, which stays behind; when a later registration revives the
schedule before `cancel_expired_deleted_executions` has seen that execution, the schedule is kept
again and its slot names an execution that no process can claim, cancel or dispatch.
-/

namespace Cfms.Scheduling

open Lib Lib.Run Option Database

/-! ### Processes -/

structure Process where
  provider : Provider
  redisNamespace : Option String
  generation : ℕ
  deriving DecidableEq

structure Cluster where
  db : Database
  processes : List Process

def Cluster.initial : Cluster := ⟨.empty, []⟩

instance : Inhabited Cluster := ⟨.initial⟩

/-- The transaction takes the generation of the process, and is not the start of a process. -/
def Action.runsUnder (action : Action) (generation : ℕ) : Bool :=
  match action with
  | .ensureRuntimeState _ _ _ => false
  | action => action.generation.all (· == generation)

inductive ClusterAction
  /-- A process starts with `ensure_runtime_state`. -/
  | start (provider : Provider) (redisNamespace : Option String) (now : Instant)
  /-- A process ends, in whatever way. -/
  | stop (process : Process)
  /-- A transaction of a running process. -/
  | act (process : Process) (action : Action)

def desiredNamespace (provider : Provider) (redisNamespace : Option String) : Option String :=
  if provider = .redisProvider then redisNamespace else none

/-- A process starts only while every running process has its provider and namespace, as the
documentation requires; a start that raises leaves no process behind. -/
def clusterStep (env : Environment) (cluster : Cluster) : ClusterAction → Option Cluster
  | .start provider redisNamespace now =>
    if cluster.processes.all fun process => process.provider == provider &&
        process.redisNamespace == desiredNamespace provider redisNamespace then
      match ensureRuntimeState cluster.db provider redisNamespace now with
      | .error _ => some cluster
      | .ok (generation, db) =>
        some ⟨db, ⟨provider, desiredNamespace provider redisNamespace, generation⟩ ::
          cluster.processes⟩
    else none
  | .stop process => some ⟨cluster.db, cluster.processes.erase process⟩
  | .act process action =>
    if process ∈ cluster.processes ∧ action.runsUnder process.generation = true then
      some ⟨commit env cluster.db action, cluster.processes⟩
    else none

/-! ### Stranded schedules -/

/-- The stored generation. -/
def Database.generation (db : Database) : Option ℕ := db.runtime.map RuntimeState.generation

/-- The slot names an active execution of another generation than the stored one. -/
def Schedule.isStranded (schedule : Schedule) (db : Database) : Bool :=
  schedule.activeExecutionId.any fun key =>
    (db.executions.lookup key).any fun execution =>
      execution.state.isActive && db.generation != some execution.providerGeneration

def Current (db : Database) : Prop :=
  ∀ id sched, db.schedules.lookup id = some sched → sched.status ≠ .deleted →
    sched.isStranded db = false

/-- The execution is finished or of the stored generation. -/
def OnGeneration (db : Database) (key : ExecutionId) : Prop :=
  ∀ e, db.executions.lookup key = some e → e.state.isActive = true →
    db.generation = some e.providerGeneration

variable {env : Environment} {allowed : Database → Write → Prop} {current : Option ℕ}
  {now : Instant} {db db' : Database}

variable {sched : Schedule}

theorem isStranded_eq_false : sched.isStranded db = false ↔
      ∀ key, sched.activeExecutionId = some key → OnGeneration db key := by
  unfold Schedule.isStranded
  cases hslot : sched.activeExecutionId with
  | none => simp
  | some key =>
    rw [any_some]
    cases hexec : db.executions.lookup key with
    | none =>
      simp only [any_none, true_iff]
      intro k hk e he
      rw [← some.inj hk, hexec] at he
      cases he
    | some e =>
      simp [OnGeneration, hexec]

variable {id : ScheduleId} {key : ExecutionId}

theorem Current.onGeneration (h : Current db) (hsched : db.schedules.lookup id = some sched)
    (hkept : sched.status ≠ .deleted) (hslot : sched.activeExecutionId = some key) :
    OnGeneration db key :=
  isStranded_eq_false.mp (h id sched hsched hkept) key hslot

variable {new : Schedule}

theorem Current.setSchedule (h : Current db)
    (hnew : new.status ≠ .deleted → new.isStranded db = false) : Current (db.setSchedule id new) := by
  intro k sched hsched hkept
  rcases Table.lookup_insert_eq_some hsched with ⟨rfl, rfl⟩ | ⟨-, hk⟩
  · exact hnew hkept
  · exact h k sched hk hkept

theorem Current.setSchedule_of_kept {old : Schedule} (h : Current db)
    (hold : db.schedules.lookup id = some old) (hkept : old.status ≠ .deleted)
    (hslot : new.activeExecutionId = old.activeExecutionId) : Current (db.setSchedule id new) := by
  refine h.setSchedule fun _ => ?_
  have hstr := h id old hold hkept
  unfold Schedule.isStranded at hstr ⊢
  rw [hslot]
  exact hstr

theorem isStranded_of_empty (hslot : sched.activeExecutionId = none) :
    sched.isStranded db = false := by
  unfold Schedule.isStranded
  rw [hslot]
  rfl

variable {e' : Execution}

/-- A write to an execution: in the slot of a kept schedule it is finished or of the stored
generation. -/
theorem Current.setExecution (h : Current db) (hgen : e'.state.isActive = true → ∀ id sched,
      db.schedules.lookup id = some sched → sched.status ≠ .deleted →
      sched.activeExecutionId = some key → db.generation = some e'.providerGeneration) :
    Current (db.setExecution key e') := by
  intro id sched hsched hkept
  rw [isStranded_eq_false]
  intro k hk e he hactive
  rcases Table.lookup_insert_eq_some he with ⟨rfl, rfl⟩ | ⟨-, he⟩
  · exact hgen hactive id sched hsched hkept hk
  · exact h.onGeneration hsched hkept hk e he hactive

theorem Current.setExecution_ended (h : Current db)
    (hended : e'.state.isActive = false) : Current (db.setExecution key e') := by
  apply h.setExecution
  intro hactive
  rw [hended] at hactive
  cases hactive

variable {gen : ℕ}

theorem Current.addOccurrence {due : Instant} (hone : OneSlot db) (h : Current db)
    (hfree : db.executions.lookup (executionId env id due) = none)
    (hgen : db.generation = some gen) :
    Current (db.addOccurrence env id new due gen now) := by
  have hset : Current (db.setExecution (executionId env id due)
      (newExecution id new due gen now)) := by
    apply h.setExecution
    intro _ k sched hsched hkept hslot
    obtain ⟨e, he, -, -⟩ := hone.slot k sched _ hsched hslot
    rw [hfree] at he
    cases he
  apply hset.setSchedule
  intro _
  rw [isStranded_eq_false]
  intro key hkey e he hactive
  rw [some.injEq] at hkey
  rw [← hkey] at he
  rw [show (db.setExecution (executionId env id due)
      (newExecution id new due gen now)).executions.lookup (executionId env id due) =
        some (newExecution id new due gen now) from AList.lookup_insert _,
    some.injEq] at he
  rw [← he]
  exact hgen

/-- What a revival needs. -/
def RevivesCurrent (db : Database) : Write → Prop
  | .reconcile desired => ∀ sched, db.schedules.lookup desired.id = some sched →
    sched.status = .deleted → sched.isStranded db = false
  | .scan _ => True

theorem Current.change (hone : OneSlot db) (h : Current db)
    (hcurrent : ∀ gen, current = some gen → db.generation = some gen)
    (hchg : Change env RevivesCurrent current now db db') : Current db' := by
  cases hchg with
  | create hfree hslot | update hold hkept huser hempty hslot =>
    exact h.setSchedule fun _ => isStranded_of_empty hslot
  | retire hold => exact h.setSchedule fun hkept => absurd rfl hkept
  | reconcile hman hvals hchanged hallow =>
    rename_i desired values
    cases hlook : db.schedules.lookup desired.id with
    | none => exact h.setSchedule fun _ => isStranded_of_empty rfl
    | some old =>
      by_cases hdel : old.status = .deleted
      · exact h.setSchedule fun _ => hallow old hlook hdel
      · exact h.setSchedule_of_kept hlook hdel rfl
  | skip hold hactive hdue hst hnew =>
    refine h.setSchedule_of_kept hold (by rw [hactive]; decide) ?_
    rw [hnew]
  | coalesce hold hactive => exact h.setSchedule_of_kept hold (by rw [hactive]; decide) rfl
  | occur hold hgen hactive hdue hslot hfree =>
    exact Current.addOccurrence hone h hfree (hcurrent _ hgen)
  | finish hold hslot hexec hends hst hnew =>
    refine (h.setExecution_ended hends.isActive).setSchedule fun _ => isStranded_of_empty ?_
    rw [hnew]
  | promote hold hslot hkept hexec hgen hends hpend hfree =>
    rename_i id key old e e' pending gen
    have hfin : OneSlot
        ((db.setExecution key e').setSchedule id { old with activeExecutionId := none }) :=
      hone.finish hold hslot hends.isActive rfl
    rw [← addOccurrence_setSchedule]
    refine Current.addOccurrence hfin
      ((h.setExecution_ended hends.isActive).setSchedule fun _ => isStranded_of_empty rfl) hfree ?_
    rw [← hgen]
    exact h.onGeneration hold hkept hslot e hexec hends.wasActive
  | stray hexec hold hslot hends => exact h.setExecution_ended hends.isActive
  | dropSlot hold hslot => exact h.setSchedule fun _ => isStranded_of_empty rfl
  | move hexec hmoves =>
    apply h.setExecution
    intro hactive id sched hsched hkept hslot
    rw [hmoves.providerGeneration]
    exact h.onGeneration hsched hkept hslot _ hexec (hmoves.isActive ▸ hactive)
  | moveAll hmoves =>
    intro id sched hsched hkept
    rw [isStranded_eq_false]
    intro key hkey e he hactive
    obtain ⟨old, hold, rfl⟩ := Table.lookup_update_eq_some he
    rw [(hmoves key old).isActive] at hactive
    rw [(hmoves key old).providerGeneration]
    exact h.onGeneration hsched hkept hkey old hold hactive

theorem Change.runtime (hchg : Change env allowed current now db db') :
    db'.runtime = db.runtime := by
  cases hchg <;> rfl

theorem Current.changes (hone : OneSlot db) (h : Current db)
    (hcurrent : ∀ gen, current = some gen → db.generation = some gen)
    (hchgs : Changes env RevivesCurrent current now db db') :
    OneSlot db' ∧ Current db' ∧ db'.runtime = db.runtime := by
  induction hchgs with
  | refl => exact ⟨hone, h, rfl⟩
  | tail _ hlast ih =>
    obtain ⟨hone₁, h₁, hrunt₁⟩ := ih
    refine ⟨hone₁.change hlast, Current.change hone₁ h₁ ?_ hlast, hlast.runtime.trans hrunt₁⟩
    intro gen hgen
    rw [generation, hrunt₁]
    exact hcurrent gen hgen

theorem Current.claims {policy : SchedulingPolicy} {owner : LeaseOwner}
    {claim : ClaimedExecution} {e : Execution} (h : Current db)
    (hclaims : Claims db db' policy gen owner now claim e) : Current db' := by
  rw [hclaims.result]
  apply h.setExecution
  intro _ id sched hsched hkept hslot
  exact h.onGeneration hsched hkept hslot e hclaims.execution hclaims.isActive

theorem Current.purge {gone : ExecutionId → Execution → Bool} (h : Current db) :
    Current { db with executions := db.executions.delete gone } := by
  intro id sched hsched hkept
  rw [isStranded_eq_false]
  intro key hkey e he hactive
  exact h.onGeneration hsched hkept hkey e (Table.lookup_delete_eq_some.mp he).1 hactive

variable {state : RuntimeState}

theorem Current.switch (hone : OneSlot db) : Current { db with
      runtime := some state
      executions := db.executions.update fun _ e => e.migrated db state.generation } := by
  intro id sched hsched hkept
  rw [isStranded_eq_false]
  intro key hkey e he hactive
  obtain ⟨old, hold, rfl⟩ := Table.lookup_update_eq_some he
  obtain ⟨e₀, he₀, hid, hactive₀⟩ := hone.slot id sched key hsched hkey
  rw [hold, some.injEq] at he₀
  subst he₀
  have hisKept : db.isKept old.scheduleId = true := by
    rw [isKept, hid, show db.schedules.lookup id = some sched from hsched]
    simpa using hkept
  show some state.generation = some (old.migrated db state.generation).providerGeneration
  rw [Execution.migrated, if_pos ⟨hactive₀, hisKept⟩]

theorem Current.boot (h : Current db) (hrunt : db.runtime = none) :
    Current { db with runtime := some state } := by
  intro id sched hsched hkept
  rw [isStranded_eq_false]
  intro key hkey e he hactive
  have hgen := h.onGeneration hsched hkept hkey e he hactive
  rw [generation, hrunt] at hgen
  cases hgen

/-! ### Runs -/

/-- The generation of every running process is the stored one. -/
structure Healthy (cluster : Cluster) : Prop where
  oneSlot : OneSlot cluster.db
  current : Current cluster.db
  processes : ∀ process ∈ cluster.processes, cluster.db.runtime =
    some ⟨process.provider, process.redisNamespace, process.generation⟩

/-- The condition on a reconciliation: a definition of its registry names no deleted schedule whose
slot holds an active execution of another generation. -/
def revivesCurrent (db : Database) (registry : Registry) : Bool :=
  match desiredSchedules registry registry [] with
  | .error _ => true
  | .ok desired =>
    desired.all fun item => (db.schedules.lookup item.id).all fun schedule =>
      schedule.status != .deleted || !schedule.isStranded db

/-- A step that meets the condition. -/
def reconcilesCurrent (cluster : Cluster) : ClusterAction → Bool
  | .act _ (.synchronize registry _) => revivesCurrent cluster.db registry
  | _ => true

theorem permits_of_revivesCurrent {registry : Registry}
    (h : revivesCurrent db registry = true) : Permits RevivesCurrent db registry := by
  intro desired hdes item hitem db₁ haside sched hsched hdel
  rw [haside.schedule] at hsched
  simp only [revivesCurrent, hdes, List.all_eq_true] at h
  have hitem' := h item hitem
  rw [hsched, all_some, hdel] at hitem'
  have hstr : sched.isStranded db = false := by simpa using hitem'
  rw [isStranded_eq_false] at hstr ⊢
  intro key hkey e he hactive
  obtain ⟨e₀, he₀, -, -, hgen, hactive₀⟩ := haside.executions key e he
  rw [generation, haside.runtime, hgen]
  exact hstr key hkey e₀ he₀ (hactive₀ hactive)

variable {cluster : Cluster} {cluster' : Cluster}

theorem Healthy.start {provider : Provider} {redisNamespace : Option String} (h : Healthy cluster)
    (hstep : clusterStep env cluster (.start provider redisNamespace now) = some cluster') :
    Healthy cluster' := by
  simp only [clusterStep] at hstep
  split at hstep
  · rename_i hall
    simp only [List.all_eq_true, Bool.and_eq_true, beq_iff_eq] at hall
    split at hstep
    · cases hstep
      exact h
    · rename_i gen db hensure
      cases hstep
      obtain ⟨desired, state, hdes, hstate, hprov, hnamespace, hgen, hcases⟩ :=
        ensureRuntimeState_cases hensure
      have hrunt : db.runtime = some ⟨provider, desiredNamespace provider redisNamespace, gen⟩ := by
        rw [hstate, ← hprov, ← hgen, desiredNamespace, hprov, ← hdes, ← hnamespace, ← hprov]
      rcases hcases with ⟨hnone, rfl⟩ | ⟨-, rfl⟩ | ⟨old, hold, hne, rfl⟩
      · refine ⟨⟨h.oneSlot.slot, h.oneSlot.active⟩, h.current.boot hnone, ?_⟩
        intro process hproc
        rcases List.mem_cons.mp hproc with rfl | hproc
        · exact hrunt
        have hsome := h.processes process hproc
        rw [hnone] at hsome
        cases hsome
      · refine ⟨h.oneSlot, h.current, ?_⟩
        intro process hproc
        rcases List.mem_cons.mp hproc with rfl | hproc
        · exact hrunt
        · exact h.processes process hproc
      · refine ⟨h.oneSlot.update (fun _ e => (isActive_migrated e _ _).1)
          (fun _ e => (isActive_migrated e _ _).2), Current.switch h.oneSlot, ?_⟩
        intro process hproc
        rcases List.mem_cons.mp hproc with rfl | hproc
        · exact hrunt
        -- a process of the old provider would still be running
        have hsome := h.processes process hproc
        rw [hold, some.injEq] at hsome
        obtain ⟨hprov', hnamespace'⟩ := hall process hproc
        apply absurd _ hne
        rw [hsome, hprov', hnamespace', hdes]
        rfl
  · cases hstep

variable {action : Action}

theorem generation_of_runsUnder {own : ℕ}
    (h : action.runsUnder own = true) (hgen : action.generation = some gen) :
    gen = own := by
  have hall : action.generation.all (· == own) = true := by
    cases action <;> first | exact h | cases h
  rw [hgen] at hall
  simpa using hall

theorem Healthy.act {process : Process} (h : Healthy cluster)
    (hmeets : reconcilesCurrent cluster (.act process action) = true)
    (hproc : process ∈ cluster.processes)
    (hunder : action.runsUnder process.generation = true) :
    Healthy ⟨commit env cluster.db action, cluster.processes⟩ := by
  unfold commit
  split
  · rename_i db' hcommit
    have hperm : ActionPermits RevivesCurrent cluster.db action := by
      cases action with
      | synchronize registry now => exact permits_of_revivesCurrent hmeets
      | _ => trivial
    have hcomm := transact_committed hperm hcommit
    have hone := h.oneSlot.committed hcomm
    cases hcomm with
    | idle => exact h
    | claim hclaims | claimById hclaims =>
      refine ⟨hone, h.current.claims hclaims, ?_⟩
      rw [hclaims.result]
      exact h.processes
    | purge hgone => exact ⟨hone, h.current.purge, h.processes⟩
    | boot hrunt | switch hrunt => cases hunder
    | changes hchgs =>
      have hcurrent : ∀ gen, action.generation = some gen → cluster.db.generation = some gen := by
        intro gen hgen
        rw [generation, h.processes process hproc, generation_of_runsUnder hunder hgen]
        rfl
      obtain ⟨-, hcur, hrunt⟩ := Current.changes h.oneSlot h.current hcurrent hchgs
      refine ⟨hone, hcur, ?_⟩
      intro other hother
      rw [show (Cluster.mk db' cluster.processes).db.runtime = cluster.db.runtime from hrunt]
      exact h.processes other hother
  · exact h

theorem Healthy.step {action : ClusterAction} (h : Healthy cluster)
    (hmeets : reconcilesCurrent cluster action = true)
    (hstep : clusterStep env cluster action = some cluster') : Healthy cluster' := by
  cases action with
  | start provider redisNamespace now => exact h.start hstep
  | stop process =>
    cases hstep
    exact ⟨h.oneSlot, h.current, fun other hother => h.processes other (List.mem_of_mem_erase hother)⟩
  | act process action =>
    simp only [clusterStep] at hstep
    split_ifs at hstep with hact
    cases hstep
    exact h.act hmeets hact.1 hact.2

theorem healthy_initial : Healthy .initial := by
  refine ⟨oneSlot_empty, ?_, fun _ h => by cases h⟩
  intro id sched hsched
  cases hsched

/-- **No kept schedule is stranded on an old generation** in any run whose reconciliations never
revive a deleted schedule with an active execution of an old generation in its slot. -/
theorem current_of_run (env : Environment) {actions : List ClusterAction} {cluster : Cluster}
    (hrun : run (clusterStep env) .initial actions = some cluster)
    (hmeets : Meets (clusterStep env) (fun cluster action => reconcilesCurrent cluster action = true)
      .initial actions) :
    Current cluster.db := by
  have hhealthy : Healthy cluster := by
    refine run_invariant (C := fun cluster action => reconcilesCurrent cluster action = true) ?_
      healthy_initial hmeets hrun
    intro _ _ _ h hC hstep
    exact h.step hC hstep
  exact hhealthy.current

/-! ### A schedule that is stranded -/

/-- Every date is the instant 10, and there are no recurring triggers. -/
def dateEnvironment : Environment where
  library :=
    { knownTimezone := fun _ => true
      cronTrigger := fun _ _ => none
      intervalTrigger := fun _ _ _ => none
      awareDatetime := fun _ => some 10
      isoformat := fun _ => "" }
  digest := fun _ occurrence => occurrence.toNat

def dateRegistry : Registry :=
  [{ name := "files.cleanup"
     contractVersion := 1
     validatePayload := some
     userSchedulable := false
     systemSchedule := some
      { id := "cleanup"
        payload := .object []
        triggerType := .date
        triggerData := [("run_at", .string "1970-01-01T00:00:00.00001+00:00")]
        runImmediately := false } }]

def localProcess : Process := ⟨.localProvider, none, 1⟩

def redisProcess : Process := ⟨.redisProvider, some "files", 2⟩

/-- The execution of the system schedule is claimed, the schedule is retired and the process
crashes; after a switch of the provider the schedule is registered again. -/
def strandingRun : List ClusterAction :=
  [.start .localProvider none 0,
    .act localProcess (.synchronize dateRegistry 0),
    .act localProcess (.enqueue {} 1 "cleanup" 10),
    .act localProcess (.claim {} 1 7 10 10),
    .act localProcess (.synchronize [] 20),
    .stop localProcess,
    .start .redisProvider (some "files") 100000000,
    .act redisProcess (.synchronize dateRegistry 100000000)]

def strandedCluster : Cluster :=
  (run (clusterStep dateEnvironment) .initial strandingRun).getD .initial

/-- A kept schedule holds a running execution of the generation before. -/
theorem stranding_run :
    run (clusterStep dateEnvironment) .initial strandingRun = some strandedCluster ∧
      ¬Current strandedCluster.db := by
  refine ⟨run_eq_some_getD _ (by decide +kernel), ?_⟩
  intro h
  have hstr : (strandedCluster.db.schedules.lookup "cleanup").any (fun sched =>
      sched.status != .deleted && sched.isStranded strandedCluster.db) = true := by
    decide +kernel
  obtain ⟨sched, hlook, hboth⟩ := (any_eq_true _ _).mp hstr
  obtain ⟨hst, hstr⟩ := (Bool.and_eq_true _ _).mp hboth
  rw [h _ _ hlook (bne_iff_ne.mp hst)] at hstr
  cases hstr

/-- The same run without the retirement. -/
def keepingRun : List ClusterAction :=
  [.start .localProvider none 0,
    .act localProcess (.synchronize dateRegistry 0),
    .act localProcess (.enqueue {} 1 "cleanup" 10),
    .act localProcess (.claim {} 1 7 10 10),
    .stop localProcess,
    .start .redisProvider (some "files") 100000000,
    .act redisProcess (.synchronize dateRegistry 100000000)]

def keptCluster : Cluster := (run (clusterStep dateEnvironment) .initial keepingRun).getD .initial

theorem current_of_keepingRun :
    run (clusterStep dateEnvironment) .initial keepingRun = some keptCluster ∧
      ((keptCluster.db.schedules.lookup "cleanup").bind Schedule.activeExecutionId).isSome = true ∧
      Current keptCluster.db := by
  have hrun : run (clusterStep dateEnvironment) .initial keepingRun = some keptCluster :=
    run_eq_some_getD _ (by decide +kernel)
  have hmeets : meetsBool (clusterStep dateEnvironment) reconcilesCurrent .initial keepingRun =
      true := by
    decide +kernel
  exact ⟨hrun, by decide +kernel, current_of_run dateEnvironment hrun (meets_of_meetsBool hmeets)⟩

end Cfms.Scheduling
