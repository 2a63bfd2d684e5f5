import Cfms.Scheduling.Model

/-!
# What a transaction can do

Every committed transaction is a claim, a purge, or a chain of a few kinds of change to the rows
of a schedule, its slot and its executions.  `Change` lists the kinds with what the code has
checked before each of them; the invariants of the scheduler are proved change by change.

A reconciliation rewrites many schedules.  The parameter `allowed` of a change records what is
known when a schedule is written, so that a condition on the state before the transaction reaches
the single write.  The parameter `current` is the runtime generation that the transaction is given.
-/

namespace Cfms.Scheduling

open Lib List

variable (env : Environment)

namespace Database

variable {db : Database} {id : ScheduleId} {a b sched : Schedule}

@[simp] theorem setSchedule_executions : (db.setSchedule id a).executions = db.executions := rfl

theorem setSchedule_setSchedule : (db.setSchedule id a).setSchedule id b = db.setSchedule id b := by
  simp only [setSchedule, AList.insert_insert]

theorem setExecution_setSchedule_setSchedule {key : ExecutionId} {e : Execution} :
    ((db.setSchedule id a).setExecution key e).setSchedule id b =
      (db.setExecution key e).setSchedule id b := by
  simp only [setSchedule, setExecution, AList.insert_insert]

def addOccurrence (db : Database) (id : ScheduleId) (schedule : Schedule) (scheduledFor : Instant)
    (generation : ℕ) (now : Instant) : Database :=
  (db.setExecution (executionId env id scheduledFor)
    (newExecution id schedule scheduledFor generation now)).setSchedule id
      { schedule with activeExecutionId := some (executionId env id scheduledFor) }

end Database

def Execution.heldBy (execution : Execution) (owner : LeaseOwner) : Prop :=
  execution.state = .running ∧ execution.leaseOwner = some owner

/-- An update that keeps an execution what it is: the same occurrence, active or not as before, no
new attempt, no new owner. -/
structure Moves (before after : Execution) : Prop where
  scheduleId : after.scheduleId = before.scheduleId
  scheduledFor : after.scheduledFor = before.scheduledFor
  providerGeneration : after.providerGeneration = before.providerGeneration
  isActive : after.state.isActive = before.state.isActive
  attempt : after.attempt = before.attempt
  heldBy : ∀ owner, after.heldBy owner → before.heldBy owner
  final : before.state.isActive = false → after = before

/-- An active execution reaches its final state. -/
structure Ends (before after : Execution) : Prop where
  scheduleId : after.scheduleId = before.scheduleId
  scheduledFor : after.scheduledFor = before.scheduledFor
  providerGeneration : after.providerGeneration = before.providerGeneration
  wasActive : before.state.isActive = true
  isActive : after.state.isActive = false
  attempt : after.attempt = before.attempt

theorem Ends.not_heldBy {before after : Execution} (h : Ends before after) (owner : LeaseOwner) :
    ¬after.heldBy owner := by
  rintro ⟨hstate, -⟩
  have hend := h.isActive
  rw [hstate] at hend
  cases hend

/-- The writes whose effect depends on more than the code checks. -/
inductive Write
  /-- Reconciliation stores a definition. -/
  | reconcile (desired : DesiredSchedule)
  /-- A scan advances a due schedule. -/
  | scan (id : ScheduleId)

/-- The changes that transactions other than claims and purges are made of. -/
inductive Change (env : Environment) (allowed : Database → Write → Prop)
    (current : Option ℕ) (now : Instant) : Database → Database → Prop
  | create {db : Database} {id : ScheduleId} {new : Schedule} {trigger : Trigger}
      (hfree : db.schedules.lookup id = none)
      (hslot : new.activeExecutionId = none)
      (hpend : new.pendingScheduledFor = none)
      (huser : new.systemManaged = false)
      (hbuild : buildTrigger env.library new.triggerType new.triggerData new.timezone = some trigger)
      (hnext : new.nextRunAt = firstRunAt trigger now) :
      Change env allowed current now db (db.setSchedule id new)
  | update {db : Database} {id : ScheduleId} {old new : Schedule} {trigger : Trigger}
      (hold : db.schedules.lookup id = some old)
      (hkept : old.status ≠ .deleted)
      (huser : old.systemManaged = false)
      (hfree : old.activeExecutionId = none)
      (hslot : new.activeExecutionId = none)
      (hpend : new.pendingScheduledFor = none)
      (huser' : new.systemManaged = false)
      (hbuild : buildTrigger env.library new.triggerType new.triggerData new.timezone = some trigger)
      (hnext : new.nextRunAt = firstRunAt trigger now)
      (hrec : ∀ fire : ℤ, new.nextRunAt = some fire → db.recorded id fire = false) :
      Change env allowed current now db (db.setSchedule id new)
  | retire {db : Database} {id : ScheduleId} {old : Schedule}
      (hold : db.schedules.lookup id = some old) :
      Change env allowed current now db (db.setSchedule id old.retired)
  | reconcile {db : Database} {desired : DesiredSchedule} {values : SystemScheduleValues}
      (hman : ∀ old, db.schedules.lookup desired.id = some old → old.systemManaged = true)
      (hvals : systemScheduleValues env desired (db.schedules.lookup desired.id) now = .ok values)
      (hchanged : ∀ old, db.schedules.lookup desired.id = some old →
        matchesSystemSchedule old desired values = false)
      (hallow : allowed db (.reconcile desired)) :
      Change env allowed current now db
        (db.setSchedule desired.id
          (systemSchedule (db.schedules.lookup desired.id) desired values))
  | skip {db : Database} {id : ScheduleId} {old new : Schedule} {policy : SchedulingPolicy}
      {nextRunAt : Option ℤ}
      (hold : db.schedules.lookup id = some old)
      (hactive : old.status = .active)
      (hdue : dueOccurrence env policy old now = .ok (none, nextRunAt))
      (hst : new.status ≠ .deleted)
      (hnew : new = { old with nextRunAt := nextRunAt, status := new.status })
      (hallow : allowed db (.scan id)) :
      Change env allowed current now db (db.setSchedule id new)
  | coalesce {db : Database} {id : ScheduleId} {old : Schedule} {policy : SchedulingPolicy}
      {due : Instant} {nextRunAt : Option ℤ}
      (hold : db.schedules.lookup id = some old)
      (hactive : old.status = .active)
      (hdue : dueOccurrence env policy old now = .ok (some due, nextRunAt))
      (hslot : old.activeExecutionId ≠ none)
      (hallow : allowed db (.scan id)) :
      Change env allowed current now db
        (db.setSchedule id { old with nextRunAt := nextRunAt, pendingScheduledFor := some due })
  | occur {db : Database} {id : ScheduleId} {old : Schedule} {policy : SchedulingPolicy}
      {due : Instant} {nextRunAt : Option ℤ} {generation : ℕ}
      (hold : db.schedules.lookup id = some old)
      (hgen : current = some generation)
      (hactive : old.status = .active)
      (hdue : dueOccurrence env policy old now = .ok (some due, nextRunAt))
      (hslot : old.activeExecutionId = none)
      (hfree : db.executions.lookup (executionId env id due) = none)
      (hallow : allowed db (.scan id)) :
      Change env allowed current now db
        (db.addOccurrence env id
          { old with nextRunAt := nextRunAt, pendingScheduledFor := none } due generation now)
  | finish {db : Database} {id : ScheduleId} {key : ExecutionId} {old new : Schedule}
      {e e' : Execution}
      (hold : db.schedules.lookup id = some old)
      (hslot : old.activeExecutionId = some key)
      (hexec : db.executions.lookup key = some e)
      (hends : Ends e e')
      (hst : new.status = .deleted → old.status = .deleted)
      (hnew : new = { old with activeExecutionId := none, status := new.status }) :
      Change env allowed current now db ((db.setExecution key e').setSchedule id new)
  | promote {db : Database} {id : ScheduleId} {key : ExecutionId} {old : Schedule}
      {e e' : Execution} {pending : Instant} {generation : ℕ}
      (hold : db.schedules.lookup id = some old)
      (hslot : old.activeExecutionId = some key)
      (hkept : old.status ≠ .deleted)
      (hexec : db.executions.lookup key = some e)
      (hgen : e.providerGeneration = generation)
      (hends : Ends e e')
      (hpend : old.pendingScheduledFor = some pending)
      (hfree : (db.executions.insert key e').lookup (executionId env id pending) = none) :
      Change env allowed current now db
        ((db.setExecution key e').addOccurrence env id
          { old with activeExecutionId := none, pendingScheduledFor := none } pending generation now)
  | stray {db : Database} {key : ExecutionId} {old : Schedule} {e e' : Execution}
      (hexec : db.executions.lookup key = some e)
      (hold : db.schedules.lookup e.scheduleId = some old)
      (hslot : old.activeExecutionId ≠ some key)
      (hends : Ends e e') :
      Change env allowed current now db (db.setExecution key e')
  | dropSlot {db : Database} {id : ScheduleId} {key : ExecutionId} {old : Schedule}
      (hold : db.schedules.lookup id = some old)
      (hslot : old.activeExecutionId = some key)
      (hended : ∀ e, db.executions.lookup key = some e → e.state.isActive = false) :
      Change env allowed current now db (db.setSchedule id { old with activeExecutionId := none })
  | move {db : Database} {key : ExecutionId} {e e' : Execution}
      (hexec : db.executions.lookup key = some e)
      (hmoves : Moves e e') :
      Change env allowed current now db (db.setExecution key e')
  | moveAll {db : Database} {f : ExecutionId → Execution → Execution}
      (hmoves : ∀ key e, Moves e (f key e)) :
      Change env allowed current now db { db with executions := db.executions.update f }

/-- A chain of changes. -/
abbrev Changes (allowed : Database → Write → Prop) (current : Option ℕ) (now : Instant) :
    Database → Database → Prop :=
  Relation.ReflTransGen (Change env allowed current now)

variable {env : Environment} {allowed : Database → Write → Prop} {current : Option ℕ}
  {now : Instant} {db db' : Database}

/-! ### Occurrences -/

variable {id : ScheduleId} {sched : Schedule} {gen : ℕ} {scheduledFor : Instant}

/-- An occurrence is only created where it had no row, and its row is all that is new. -/
theorem createExecution_ok (h : createExecution env db id sched scheduledFor gen now = .ok db') :
    db.executions.lookup (executionId env id scheduledFor) = none ∧
      db' = db.addOccurrence env id sched scheduledFor gen now := by
  simp only [createExecution] at h
  split at h
  · cases h
  rename_i executions hins
  obtain ⟨hfree, rfl⟩ := Table.insertNew_eq_some hins
  cases h
  exact ⟨hfree, rfl⟩

theorem createExecution_error {err : Failure}
    (h : createExecution env db id sched scheduledFor gen now = .error err) :
    err = .duplicateOccurrence id scheduledFor ∧
      ∃ e, db.executions.lookup (executionId env id scheduledFor) = some e := by
  simp only [createExecution] at h
  split at h
  · rename_i hins
    cases h
    exact ⟨rfl, Table.insertNew_eq_none hins⟩
  · cases h

/-! ### Commands -/

variable {registry : Registry} {request : ScheduleRequest}

/-- An accepted request has a trigger that can be built. -/
theorem checkRequest_ok {task : TaskSnapshot}
    {trigger : Trigger} (h : checkRequest env registry request = .ok (task, trigger)) :
    buildTrigger env.library request.triggerType request.triggerData request.timezone =
      some trigger := by
  simp only [checkRequest] at h
  split at h
  · cases h
  split at h
  · cases h
  split at h
  · cases h
  split at h
  · cases h
  rename_i hbuild
  cases h
  exact hbuild

/-- Creating a schedule is one change. -/
theorem createSchedule_changes (h : createSchedule env db registry id request now = .ok db') :
    Change env allowed current now db db' := by
  simp only [createSchedule] at h
  split at h
  · cases h
  rename_i task trigger hcheck
  split at h
  · cases h
  rename_i schedules hins
  obtain ⟨hfree, rfl⟩ := Table.insertNew_eq_some hins
  cases h
  exact .create hfree rfl rfl rfl (checkRequest_ok hcheck) rfl

variable {expectedRevision : ℕ}

/-- An update is one change, to the schedule it names. -/
theorem updateSchedule_changes {changes : ScheduleChanges}
    (h : updateSchedule env db registry id expectedRevision changes now = .ok db') :
    Change env allowed current now db db' := by
  simp only [updateSchedule] at h
  split at h
  · cases h
  rename_i old hold
  split_ifs at h with hkept hsystem hrev hactive
  · split at h
    · cases h
    · rename_i task trigger hcheck
      split at h
      · cases h
      rename_i hrec
      cases h
      have hfree : old.activeExecutionId = none := Option.not_isSome_iff_eq_none.mp hactive
      refine .update hold hkept (Bool.eq_false_iff.mpr hsystem) hfree hfree rfl
        (Bool.eq_false_iff.mpr hsystem) (checkRequest_ok hcheck) rfl ?_
      intro fire hfire
      rw [show firstRunAt trigger now = some fire from hfire] at hrec
      simpa using hrec

theorem isActive_of_isUnstarted {state : ExecutionState} (h : state.isUnstarted = true) :
    state.isActive = true := by
  cases state <;> first | rfl | cases h

variable {old : Schedule}

/-- What has not started is canceled with its schedule. -/
theorem cancelUnstarted_changes (hold : db.schedules.lookup id = some old) :
    Changes env allowed current now db (cancelUnstartedScheduleExecution db id old.retired now) := by
  have hretire : Changes env allowed current now db (db.setSchedule id old.retired) :=
    .single (.retire hold)
  have hret : (db.setSchedule id old.retired).schedules.lookup id = some old.retired :=
    AList.lookup_insert _
  have hdrop : ∀ key, old.activeExecutionId = some key →
      (∀ e, db.executions.lookup key = some e → e.state.isActive = false) →
      Changes env allowed current now db
        (db.setSchedule id { old.retired with activeExecutionId := none }) := by
    intro key hkey hended
    have h := hretire.tail (.dropSlot hret hkey hended)
    rwa [Database.setSchedule_setSchedule] at h
  simp only [cancelUnstartedScheduleExecution]
  split
  · exact hretire
  rename_i key hkey
  split
  · rename_i hnone
    refine hdrop key hkey ?_
    intro e he
    rw [hnone] at he
    cases he
  · rename_i e he
    split_ifs with hunst hactive
    · have hends : Ends e (e.cancel now) :=
        ⟨rfl, rfl, rfl, isActive_of_isUnstarted hunst, rfl, rfl⟩
      have hfin : Change env allowed current now (db.setSchedule id old.retired)
          (((db.setSchedule id old.retired).setExecution key (e.cancel now)).setSchedule id
            { old.retired with activeExecutionId := none }) :=
        .finish hret hkey he hends (fun h => h) rfl
      have h := hretire.tail hfin
      rwa [Database.setExecution_setSchedule_setSchedule] at h
    · exact hretire
    refine hdrop key hkey ?_
    intro e' he'
    rw [he, Option.some.injEq] at he'
    rw [← he']
    exact Bool.eq_false_iff.mpr hactive

/-- A deletion retires the schedule and cancels what waits. -/
theorem deleteSchedule_changes
    (h : deleteSchedule db id expectedRevision now = .ok db') :
    Changes env allowed current now db db' := by
  simp only [deleteSchedule] at h
  split at h
  · cases h
  rename_i old hold
  split_ifs at h
  cases h
  exact cancelUnstarted_changes hold

/-! ### Reconciliation -/

/-- What the rest of a reconciliation leaves of a schedule and of the executions before it. -/
structure Aside (id : ScheduleId) (db db₁ : Database) : Prop where
  schedule : db₁.schedules.lookup id = db.schedules.lookup id
  runtime : db₁.runtime = db.runtime
  executions : ∀ key e₁, db₁.executions.lookup key = some e₁ →
    ∃ e, db.executions.lookup key = some e ∧ e₁.scheduleId = e.scheduleId ∧
      e₁.scheduledFor = e.scheduledFor ∧ e₁.providerGeneration = e.providerGeneration ∧
      (e₁.state.isActive = true → e.state.isActive = true)

theorem Aside.refl (id : ScheduleId) (db : Database) : Aside id db db :=
  ⟨rfl, rfl, fun _ e he => ⟨e, he, rfl, rfl, rfl, fun h => h⟩⟩

theorem Aside.trans {db₁ db₂ : Database} (h : Aside id db db₁)
    (h' : Aside id db₁ db₂) : Aside id db db₂ := by
  refine ⟨h'.schedule.trans h.schedule, h'.runtime.trans h.runtime, ?_⟩
  intro key e₂ he₂
  obtain ⟨e₁, he₁, hsched₁, hfor₁, hgen₁, hactive₁⟩ := h'.executions key e₂ he₂
  obtain ⟨e, he, hsched, hfor, hgen, hactive⟩ := h.executions key e₁ he₁
  exact ⟨e, he, hsched₁.trans hsched, hfor₁.trans hfor, hgen₁.trans hgen,
    fun hact => hactive (hactive₁ hact)⟩

variable {other : ScheduleId}

theorem Aside.setSchedule (hne : id ≠ other) : Aside id db (db.setSchedule other sched) :=
  ⟨AList.lookup_insert_ne hne, rfl, fun _ e he => ⟨e, he, rfl, rfl, rfl, fun h => h⟩⟩

variable {e : Execution}

theorem Aside.cancel {key : ExecutionId}
    (he : db.executions.lookup key = some e) : Aside id db (db.setExecution key (e.cancel now)) := by
  refine ⟨rfl, rfl, ?_⟩
  intro k e₁ he₁
  rcases Table.lookup_insert_eq_some he₁ with ⟨rfl, rfl⟩ | ⟨-, hk⟩
  · exact ⟨e, he, rfl, rfl, rfl, fun h => by cases h⟩
  · exact ⟨e₁, hk, rfl, rfl, rfl, fun h => h⟩

theorem aside_cancelUnstarted (hne : id ≠ other) :
    Aside id db (cancelUnstartedScheduleExecution db other sched now) := by
  simp only [cancelUnstartedScheduleExecution]
  split
  · exact .setSchedule hne
  split
  · exact .setSchedule hne
  rename_i e he
  split_ifs
  · exact (Aside.cancel he).trans (.setSchedule hne)
  · exact .setSchedule hne
  · exact .setSchedule hne

variable {desired : List DesiredSchedule}

theorem not_isOrphaned {item : DesiredSchedule} (hitem : item ∈ desired) :
    sched.isOrphaned item.id desired = false := by
  have hany : (desired.any fun other => other.id == item.id) = true :=
    any_eq_true.mpr ⟨item, hitem, by simp⟩
  simp [Schedule.isOrphaned, hany]

/-- The first loop passes over what is still desired. -/
theorem retireSystemSchedule_changes (desired : List DesiredSchedule) (db : Database)
    (id : ScheduleId) :
    Changes env allowed current now db (retireSystemSchedule desired now db id) ∧
      ∀ item ∈ desired, Aside item.id db (retireSystemSchedule desired now db id) := by
  simp only [retireSystemSchedule]
  split
  · exact ⟨.refl, fun item _ => .refl _ _⟩
  rename_i old hold
  split_ifs with horph
  · refine ⟨cancelUnstarted_changes hold, ?_⟩
    intro item hitem
    apply aside_cancelUnstarted
    rintro rfl
    rw [not_isOrphaned hitem] at horph
    cases horph
  · exact ⟨.refl, fun item _ => .refl _ _⟩

/-- The first loop: an induction on the ids it looks at. -/
theorem retireSystemSchedules_changes (desired : List DesiredSchedule) (ids : List ScheduleId)
    (db : Database) :
    Changes env allowed current now db (ids.foldl (retireSystemSchedule desired now) db) ∧
      ∀ item ∈ desired, Aside item.id db (ids.foldl (retireSystemSchedule desired now) db) := by
  induction ids generalizing db with
  | nil => exact ⟨.refl, fun item _ => .refl _ _⟩
  | cons id rest ih =>
    have hstep : Changes env allowed current now db (retireSystemSchedule desired now db id) ∧ _ :=
      retireSystemSchedule_changes desired db id
    have hrest := ih (retireSystemSchedule desired now db id)
    exact ⟨hstep.1.trans hrest.1, fun item hitem => (hstep.2 item hitem).trans (hrest.2 item hitem)⟩

/-- No two desired schedules have one id. -/
theorem desiredSchedules_nodup {registrations : List Registration}
    {collected : List DesiredSchedule}
    (h : desiredSchedules registry registrations collected = .ok desired)
    (hcoll : (collected.map DesiredSchedule.id).Nodup) :
    (desired.map DesiredSchedule.id).Nodup := by
  induction registrations generalizing collected with
  | nil =>
    cases h
    exact hcoll
  | cons registration rest ih =>
    simp only [desiredSchedules] at h
    split at h
    · exact ih h hcoll
    rename_i definition hdefinition
    split at h
    · cases h
    rename_i hfresh
    split at h
    · cases h
    apply ih h
    rw [map_append, nodup_append]
    refine ⟨hcoll, by simp, ?_⟩
    intro a ha b hb hab
    obtain ⟨item, hitem, rfl⟩ := mem_map.mp ha
    simp only [map_cons, map_nil, mem_singleton] at hb
    apply hfresh
    rw [any_eq_true]
    refine ⟨item, hitem, ?_⟩
    rw [hab, hb]
    exact beq_self_eq_true _

/-- The second loop leaves every other schedule aside. -/
theorem reconcileSystemSchedule_changes {desired : DesiredSchedule}
    (hallow : allowed db (.reconcile desired))
    (h : reconcileSystemSchedule env now db desired = .ok db') :
    Changes env allowed current now db db' ∧ ∀ id, id ≠ desired.id → Aside id db db' := by
  simp only [reconcileSystemSchedule] at h
  split_ifs at h with huser
  split at h
  · cases h
  rename_i values hvals
  split_ifs at h with hmatch
  · cases h
    exact ⟨.refl, fun _ _ => .refl _ _⟩
  · cases h
    refine ⟨.single (.reconcile ?_ hvals ?_ hallow), fun id hne => .setSchedule hne⟩
    · intro old hold
      simpa [hold] using huser
    · intro old hold
      simpa [hold] using hmatch

/-- The second loop. What is allowed before the reconciliation is allowed when its turn comes, as
nothing has touched the schedule until then. -/
theorem reconcileSystemSchedules_changes {origin : Database} (desired : List DesiredSchedule)
    (hnodup : (desired.map DesiredSchedule.id).Nodup)
    (hallow : ∀ item ∈ desired, ∀ db₁, Aside item.id origin db₁ → allowed db₁ (.reconcile item))
    (haside : ∀ item ∈ desired, Aside item.id origin db)
    (h : desired.foldlM (reconcileSystemSchedule env now) db = .ok db') :
    Changes env allowed current now db db' := by
  induction desired generalizing db with
  | nil =>
    cases h
    exact .refl
  | cons item rest ih =>
    rw [map_cons, nodup_cons] at hnodup
    rw [foldlM_cons] at h
    cases hstep : reconcileSystemSchedule env now db item with
    | error err =>
      rw [hstep] at h
      cases h
    | ok db₁ =>
      rw [hstep] at h
      have hitem : item ∈ item :: rest := mem_cons_self
      obtain ⟨hchgs, hframe⟩ :=
        reconcileSystemSchedule_changes (hallow item hitem db (haside item hitem)) hstep
      refine hchgs.trans (ih hnodup.2 ?_ ?_ h)
      · exact fun other hother => hallow other (mem_cons_of_mem _ hother)
      intro other hother
      have hne : other.id ≠ item.id := by
        intro heq
        exact hnodup.1 (heq ▸ mem_map_of_mem hother)
      exact (haside other (mem_cons_of_mem _ hother)).trans (hframe other.id hne)

/-- The definitions of the registry are allowed whatever the rest of the reconciliation does. -/
def Permits (allowed : Database → Write → Prop) (db : Database) (registry : Registry) :
    Prop :=
  ∀ desired, desiredSchedules registry registry [] = .ok desired →
    ∀ item ∈ desired, ∀ db₁, Aside item.id db db₁ → allowed db₁ (.reconcile item)

/-- A reconciliation is a chain of changes. -/
theorem synchronize_changes (hperm : Permits allowed db registry)
    (h : synchronizeSystemSchedules env db registry now = .ok db') :
    Changes env allowed current now db db' := by
  simp only [synchronizeSystemSchedules] at h
  split at h
  · cases h
  rename_i desired hdes
  have hretire : Changes env allowed current now db _ ∧ _ := retireSystemSchedules_changes desired
    ((db.schedules.entries.filter fun row => row.2.isOrphaned row.1 desired).map Sigma.fst) db
  exact hretire.1.trans (reconcileSystemSchedules_changes desired
    (desiredSchedules_nodup hdes nodup_nil) (hperm desired hdes) hretire.2 h)

/-! ### Due occurrences -/

variable {policy : SchedulingPolicy}

/-- A scan changes nothing, or queues one occurrence. -/
theorem enqueueSchedule_changes (hallow : allowed db (.scan id))
    (h : enqueueSchedule env db policy gen id now = .ok db') :
    db' = db ∨ Change env allowed (some gen) now db db' := by
  simp only [enqueueSchedule] at h
  split at h
  · cases h
    exact .inl rfl
  · rename_i old hold
    by_cases hinact : (!old.enabled || old.status != .active) = true
    · rw [if_pos hinact] at h
      cases h
      exact .inl rfl
    rw [if_neg hinact] at h
    by_cases hquiet : ((old.dueRunAt now).isNone && (old.pendingDue now).isNone) = true
    · rw [if_pos hquiet] at h
      cases h
      exact .inl rfl
    · rw [if_neg hquiet] at h
      have hactive : old.status = .active := by
        simp only [Bool.or_eq_true, bne_iff_ne, not_or, not_not] at hinact
        exact hinact.2
      right
      split at h
      · cases h
      · rename_i nextRunAt hdue
        cases h
        refine .skip hold hactive hdue ?_ rfl hallow
        rw [hactive]
        show (if _ then ScheduleStatus.completed else ScheduleStatus.active) ≠ _
        split_ifs <;> decide
      · rename_i due nextRunAt hdue
        split_ifs at h with hslot
        · cases h
          exact .coalesce hold hactive hdue (Option.isSome_iff_ne_none.mp hslot) hallow
        · obtain ⟨hfree, rfl⟩ := createExecution_ok h
          exact .occur hold rfl hactive hdue (Option.not_isSome_iff_eq_none.mp hslot) hfree hallow

/-! ### Claims, dispatch and leases -/

/-- What a claim does: nothing, or it leases the claimable execution in the slot of a kept
schedule. -/
structure Claims (db db' : Database) (policy : SchedulingPolicy) (generation : ℕ)
    (owner : LeaseOwner) (now : Instant) (claim : ClaimedExecution) (e : Execution) : Prop where
  execution : db.executions.lookup claim.id = some e
  scheduleId : e.scheduleId = claim.scheduleId
  slot : ∃ schedule, db.schedules.lookup claim.scheduleId = some schedule ∧
    schedule.status ≠ .deleted ∧ schedule.activeExecutionId = some claim.id
  claimable : e.isClaimable generation now = true
  attempt : claim.attempt = e.attempt + 1
  leaseOwner : claim.leaseOwner = owner
  result : db' = db.setExecution claim.id (e.claimedBy policy owner now)

/-- A candidate is claimed, or nothing changes. -/
theorem claimCandidate_cases (db : Database) (id : ExecutionId) (scheduleId : ScheduleId)
    (gen : ℕ) (owner : LeaseOwner) (policy : SchedulingPolicy) (now : Instant) :
    claimCandidate db id scheduleId gen owner policy now = (none, db) ∨
      ∃ claim e, (claimCandidate db id scheduleId gen owner policy now).1 = some claim ∧
        Claims db (claimCandidate db id scheduleId gen owner policy now).2 policy gen
          owner now claim e := by
  simp only [claimCandidate]
  split
  · rename_i sched e hsched he
    split_ifs with hclaim
    · obtain ⟨hkept, hslot, hid, hclm⟩ := hclaim
      right
      exact ⟨_, e, rfl, he, hid, ⟨sched, hsched, hkept, hslot⟩, hclm, rfl, rfl, rfl⟩
    · exact .inl rfl
  · exact .inl rfl

theorem claimExecution_cases (db : Database) (gen : ℕ) (owner : LeaseOwner)
    (policy : SchedulingPolicy) (candidateTime now : Instant) :
    claimExecution db gen owner policy candidateTime now = (none, db) ∨
      ∃ claim e, (claimExecution db gen owner policy candidateTime now).1 = some claim ∧
        Claims db (claimExecution db gen owner policy candidateTime now).2 policy gen
          owner now claim e := by
  simp only [claimExecution]
  split
  · exact .inl rfl
  · exact claimCandidate_cases ..

theorem claimExecutionById_cases (db : Database) (id : ExecutionId) (gen : ℕ)
    (owner : LeaseOwner) (policy : SchedulingPolicy) (now : Instant) :
    claimExecutionById db id gen owner policy now = (none, db) ∨
      ∃ claim e, (claimExecutionById db id gen owner policy now).1 = some claim ∧
        Claims db (claimExecutionById db id gen owner policy now).2 policy gen
          owner now claim e := by
  simp only [claimExecutionById]
  split
  · exact .inl rfl
  · exact claimCandidate_cases ..

variable {claim : ClaimedExecution}

theorem Claims.isActive {owner : LeaseOwner}
    (h : Claims db db' policy gen owner now claim e) : e.state.isActive = true := by
  have hclm := h.claimable
  simp only [Execution.isClaimable, Bool.and_eq_true] at hclm
  exact hclm.1.1.2

theorem Moves.refl (e : Execution) : Moves e e :=
  ⟨rfl, rfl, rfl, rfl, rfl, fun _ h => h, fun _ => rfl⟩

theorem Moves.trans {a b c : Execution} (h : Moves a b) (h' : Moves b c) : Moves a c := by
  refine ⟨h'.scheduleId.trans h.scheduleId, h'.scheduledFor.trans h.scheduledFor,
    h'.providerGeneration.trans h.providerGeneration, h'.isActive.trans h.isActive,
    h'.attempt.trans h.attempt, fun owner hheld => h.heldBy owner (h'.heldBy owner hheld), ?_⟩
  intro hfinal
  have hb : b = a := h.final hfinal
  rw [← hb] at hfinal ⊢
  exact h'.final hfinal

theorem moves_requeued (hactive : e.state.isActive = true) : Moves e e.requeued := by
  refine ⟨rfl, rfl, rfl, hactive.symm, rfl, ?_, ?_⟩
  · rintro owner ⟨hstate, -⟩
    cases hstate
  · intro hfinal
    rw [hactive] at hfinal
    cases hfinal

theorem moves_dispatch {dispatchState : DispatchState}
    {dispatchedAt : Option Instant} (hunst : e.state.isUnstarted = true) :
    Moves e { e with dispatchState := dispatchState, dispatchedAt := dispatchedAt } := by
  refine ⟨rfl, rfl, rfl, rfl, rfl, fun _ h => h, ?_⟩
  intro hfinal
  rw [isActive_of_isUnstarted hunst] at hfinal
  cases hfinal

theorem moves_resend (e : Execution) (gen dispatchTimeoutSeconds : ℕ) (now : Instant) :
    Moves e (e.resend gen dispatchTimeoutSeconds now) := by
  unfold Execution.resend
  split_ifs with h
  · exact moves_dispatch h.2.1
  · exact .refl e

theorem moves_recover (e : Execution) (db : Database) (gen : ℕ) (now : Instant) :
    Moves e (e.recover db gen now) := by
  unfold Execution.recover
  split_ifs with h
  · apply moves_requeued
    rw [h.2.1]
    rfl
  · exact .refl e

theorem pendingDispatches_changes (db : Database) (gen batchSize dispatchTimeoutSeconds : ℕ) :
    Change env allowed current now db
      (pendingDispatches db gen batchSize dispatchTimeoutSeconds now).2 :=
  .moveAll fun _ e => (moves_resend e gen dispatchTimeoutSeconds now).trans
    (moves_recover _ db gen now)

theorem markDispatched_changes (db : Database) (id : ExecutionId) (gen expectedAttempt : ℕ) :
    (markDispatched db id gen expectedAttempt now).2 = db ∨
      Change env allowed current now db (markDispatched db id gen expectedAttempt now).2 := by
  simp only [markDispatched]
  split
  · exact .inl rfl
  rename_i e he
  split_ifs with h
  · exact .inr (.move he (moves_dispatch h.2.2.2))
  · exact .inl rfl

theorem refreshExecutionLease_changes (db : Database) (id : ExecutionId) (owner : LeaseOwner)
    (policy : SchedulingPolicy) :
    (refreshExecutionLease db id owner policy now).2 = db ∨
      Change env allowed current now db (refreshExecutionLease db id owner policy now).2 := by
  simp only [refreshExecutionLease]
  split
  · exact .inl rfl
  rename_i e he
  split_ifs with h
  · right
    refine .move he ⟨rfl, rfl, rfl, rfl, rfl, fun _ h => h, ?_⟩
    intro hfinal
    rw [h.1] at hfinal
    cases hfinal
  · exact .inl rfl

/-! ### Outcomes -/

theorem isLeasedBy_iff : e.isLeasedBy claim gen = true ↔
      e.scheduleId = claim.scheduleId ∧ e.providerGeneration = gen ∧ e.heldBy claim.leaseOwner := by
  simp [Execution.isLeasedBy, Execution.heldBy, and_assoc]

/-- The last writes of an attempt: its row ends and its schedule gets the slot back. -/
theorem releaseSlot_changes {e' : Execution} {terminalStatus : ScheduleStatus}
    (hold : db.schedules.lookup claim.scheduleId = some old)
    (he : db.executions.lookup claim.id = some e)
    (hlease : e.isLeasedBy claim gen = true) (hends : Ends e e')
    (hterm : terminalStatus ≠ .deleted)
    (h : releaseSlot env (db.setExecution claim.id e') claim old gen terminalStatus now = .ok db') :
    Change env allowed current now db db' := by
  obtain ⟨hsched, hgen, -⟩ := isLeasedBy_iff.mp hlease
  simp only [releaseSlot] at h
  split_ifs at h with hslot
  · simp only [releaseScheduleExecution] at h
    by_cases hdel : old.status = .deleted
    · rw [if_pos hdel] at h
      cases h
      exact .finish hold hslot he hends (fun h => h) rfl
    · rw [if_neg hdel] at h
      split at h
      · rename_i pending hpend
        obtain ⟨hfree, rfl⟩ := createExecution_ok h
        exact .promote hold hslot hdel he hgen hends hpend hfree
      · split_ifs at h
        · cases h
          exact .finish hold hslot he hends (fun h => absurd h hterm) rfl
        · cases h
          exact .finish hold hslot he hends (fun h => h) rfl
  · cases h
    rw [← hsched] at hold
    exact .stray he hold hslot hends

theorem isActive_of_leased (h : e.isLeasedBy claim gen = true) : e.state.isActive = true := by
  rw [(isLeasedBy_iff.mp h).2.2.1]
  rfl

variable {result : Bool}

/-- Without the lease a completion writes nothing. -/
theorem completeExecution_changes (h : completeExecution env db claim gen now = .ok (result, db')) :
    (result = false ∧ db' = db) ∨ (result = true ∧ Change env allowed current now db db') := by
  simp only [completeExecution] at h
  split at h
  · rename_i old e hold he
    split_ifs at h with hlease
    · cases hrel : releaseSlot env (db.setExecution claim.id { e with
            state := .succeeded, completedAt := some now, leaseOwner := none
            leaseExpiresAt := none }) claim old gen .completed now with
      | error err =>
        rw [hrel] at h
        cases h
      | ok db₁ =>
        rw [hrel] at h
        cases h
        have hends : Ends e { e with
            state := .succeeded, completedAt := some now, leaseOwner := none
            leaseExpiresAt := none } :=
          ⟨rfl, rfl, rfl, isActive_of_leased hlease, rfl, rfl⟩
        exact .inr ⟨rfl, releaseSlot_changes hold he hlease hends (by decide) hrel⟩
    · cases h
      exact .inl ⟨rfl, rfl⟩
  · cases h
    exact .inl ⟨rfl, rfl⟩

/-- Without the lease a failure writes nothing. -/
theorem failExecution_changes {maxAttempts initialBackoffSeconds maximumBackoffSeconds : ℕ}
    (h : failExecution env db claim gen maxAttempts initialBackoffSeconds
      maximumBackoffSeconds now = .ok (result, db')) :
    (result = false ∧ db' = db) ∨ (result = true ∧ Change env allowed current now db db') := by
  simp only [failExecution] at h
  split at h
  · rename_i old e hold he
    split_ifs at h with hlease hretry
    · cases h
      right
      refine ⟨rfl, .move he ⟨rfl, rfl, rfl, (isActive_of_leased hlease).symm, rfl, ?_, ?_⟩⟩
      · rintro owner ⟨hstate, -⟩
        cases hstate
      · intro hfinal
        rw [isActive_of_leased hlease] at hfinal
        cases hfinal
    · cases hrel : releaseSlot env (db.setExecution claim.id { e with
            leaseOwner := none, leaseExpiresAt := none, state := .failed
            completedAt := some now }) claim old gen .failed now with
      | error err =>
        rw [hrel] at h
        cases h
      | ok db₁ =>
        rw [hrel] at h
        cases h
        have hends : Ends e { e with
            leaseOwner := none, leaseExpiresAt := none, state := .failed
            completedAt := some now } :=
          ⟨rfl, rfl, rfl, isActive_of_leased hlease, rfl, rfl⟩
        exact .inr ⟨rfl, releaseSlot_changes hold he hlease hends (by decide) hrel⟩
    · cases h
      exact .inl ⟨rfl, rfl⟩
  · cases h
    exact .inl ⟨rfl, rfl⟩

theorem cancelExpired_changes (db : Database) (id : ExecutionId) (scheduleId : ScheduleId) :
    (cancelExpiredDeletedExecution db id scheduleId now).2 = db ∨
      Change env allowed current now db (cancelExpiredDeletedExecution db id scheduleId now).2 := by
  simp only [cancelExpiredDeletedExecution]
  split
  · rename_i old e hold he
    split_ifs with h hslot
    · have hends : Ends e (e.cancel now) := by
        refine ⟨rfl, rfl, rfl, ?_, rfl, rfl⟩
        rw [h.2.2.1]
        rfl
      exact .inr (.finish hold hslot he hends (fun h => h) rfl)
    · have hends : Ends e (e.cancel now) := by
        refine ⟨rfl, rfl, rfl, ?_, rfl, rfl⟩
        rw [h.2.2.1]
        rfl
      rw [← h.2.1] at hold
      exact .inr (.stray he hold hslot hends)
    · exact .inl rfl
  · exact .inl rfl

/-- The purge removes rows that are not active, and nothing else. -/
theorem purgeExecutionHistory_cases (db : Database) (policy : SchedulingPolicy) (now : Instant) :
    ∃ gone : ExecutionId → Execution → Bool,
      purgeExecutionHistory db policy now = { db with executions := db.executions.delete gone } ∧
      ∀ key e, db.executions.lookup key = some e → gone key e = true → e.state.isActive = false := by
  refine ⟨_, rfl, ?_⟩
  intro key e he hgone
  simp only [contains_iff_mem, mem_map] at hgone
  obtain ⟨row, hrow, rfl⟩ := hgone
  have hmem := (perm_insertionSort _ _).mem_iff.mp (mem_of_mem_take hrow)
  rw [mem_filter] at hmem
  have hsame : db.executions.lookup row.1 = some row.2 := AList.mem_lookup_iff.mpr hmem.1
  rw [he, Option.some.injEq] at hsame
  rw [hsame]
  have hended := hmem.2
  simp only [Bool.and_eq_true, Bool.not_eq_true'] at hended
  exact hended.1

/-- The runtime state is created, kept, or given the next generation for another provider. -/
theorem ensureRuntimeState_cases {provider : Provider} {redisNamespace : Option String}
    (h : ensureRuntimeState db provider redisNamespace now = .ok (gen, db')) :
    ∃ desired state, desired = (if provider = .redisProvider then redisNamespace else none) ∧
      db'.runtime = some state ∧ state.provider = provider ∧ state.redisNamespace = desired ∧
      state.generation = gen ∧
      ((db.runtime = none ∧ db' = { db with runtime := some state }) ∨
        (db.runtime = some state ∧ db' = db) ∨
        ∃ old, db.runtime = some old ∧ (old.provider, old.redisNamespace) ≠ (provider, desired) ∧
          db' = { db with
            runtime := some ⟨provider, desired, old.generation + 1⟩
            executions := db.executions.update fun _ e => e.migrated db (old.generation + 1) }) := by
  simp only [ensureRuntimeState] at h
  by_cases hmiss : provider = .redisProvider ∧ redisNamespace = none
  · rw [if_pos hmiss] at h
    cases h
  rw [if_neg hmiss] at h
  generalize hdes : (if provider = .redisProvider then redisNamespace else none) = desired at h
  cases hrunt : db.runtime with
  | none =>
    simp only [hrunt, Option.getD_none, and_self, if_true, Except.ok.injEq] at h
    cases h
    exact ⟨desired, ⟨provider, desired, 1⟩, rfl, rfl, rfl, rfl, rfl, .inl ⟨rfl, rfl⟩⟩
  | some old =>
    simp only [hrunt, Option.getD_some] at h
    split_ifs at h with hsame
    · cases h
      refine ⟨desired, old, rfl, rfl, hsame.1, hsame.2, rfl, .inr (.inl ⟨rfl, ?_⟩)⟩
      rw [← hrunt]
    · cases h
      refine ⟨desired, ⟨provider, desired, old.generation + 1⟩, rfl, rfl, rfl, rfl, rfl,
        .inr (.inr ⟨old, rfl, ?_, rfl⟩)⟩
      intro heq
      exact hsame (Prod.mk.inj heq)

/-! ### Transactions -/

/-- What a committed transaction is. -/
inductive Committed (env : Environment) (allowed : Database → Write → Prop) (db : Database) :
    Action → Database → Prop
  | idle {action : Action} : Committed env allowed db action db
  | claim {policy : SchedulingPolicy} {generation : ℕ} {owner : LeaseOwner}
      {candidateTime now : Instant} {db' : Database} {claim : ClaimedExecution} {e : Execution}
      (h : Claims db db' policy generation owner now claim e) :
      Committed env allowed db (.claim policy generation owner candidateTime now) db'
  | claimById {policy : SchedulingPolicy} {id : ExecutionId} {generation : ℕ} {owner : LeaseOwner}
      {now : Instant} {db' : Database} {claim : ClaimedExecution} {e : Execution}
      (h : Claims db db' policy generation owner now claim e) :
      Committed env allowed db (.claimById policy id generation owner now) db'
  | purge {policy : SchedulingPolicy} {now : Instant} {gone : ExecutionId → Execution → Bool}
      (hgone : ∀ key e, db.executions.lookup key = some e → gone key e = true →
        e.state.isActive = false) :
      Committed env allowed db (.purge policy now)
        { db with executions := db.executions.delete gone }
  | boot {provider : Provider} {redisNamespace : Option String} {now : Instant}
      {state : RuntimeState} (hrunt : db.runtime = none) :
      Committed env allowed db (.ensureRuntimeState provider redisNamespace now)
        { db with runtime := some state }
  | switch {provider : Provider} {redisNamespace namespace' : Option String} {now : Instant}
      {old : RuntimeState} (hrunt : db.runtime = some old) :
      Committed env allowed db (.ensureRuntimeState provider redisNamespace now)
        { db with
          runtime := some ⟨provider, namespace', old.generation + 1⟩
          executions := db.executions.update fun _ e => e.migrated db (old.generation + 1) }
  | changes {action : Action} {db' : Database}
      (h : Changes env allowed action.generation action.now db db') : Committed env allowed db action db'

def ActionPermits (allowed : Database → Write → Prop) (db : Database) : Action → Prop
  | .synchronize registry _ => Permits allowed db registry
  | .enqueue _ _ id _ => allowed db (.scan id)
  | _ => True

variable {action : Action}

theorem committed_of_change
    (h : db' = db ∨ Change env allowed action.generation action.now db db') :
    Committed env allowed db action db' := by
  rcases h with rfl | h
  · exact .idle
  · exact .changes (.single h)

/-- **Every committed transaction is made of the listed changes.** -/
theorem transact_committed (hperm : ActionPermits allowed db action)
    (h : transact env db action = .ok db') : Committed env allowed db action db' := by
  cases action with
  | createSchedule registry id request now => exact .changes (.single (createSchedule_changes h))
  | updateSchedule registry id rev changes now =>
    exact .changes (.single (updateSchedule_changes h))
  | deleteSchedule id rev now => exact .changes (deleteSchedule_changes h)
  | synchronize registry now => exact .changes (synchronize_changes hperm h)
  | enqueue policy gen id now => exact committed_of_change (enqueueSchedule_changes hperm h)
  | claim policy gen owner candidateTime now =>
    cases h
    rcases claimExecution_cases db gen owner policy candidateTime now with
      hnone | ⟨claim, e, -, hclaims⟩
    · rw [hnone]
      exact .idle
    · exact .claim hclaims
  | claimById policy id gen owner now =>
    cases h
    rcases claimExecutionById_cases db id gen owner policy now with
      hnone | ⟨claim, e, -, hclaims⟩
    · rw [hnone]
      exact .idle
    · exact .claimById hclaims
  | pendingDispatches gen batchSize dispatchTimeoutSeconds now =>
    cases h
    exact .changes (.single (pendingDispatches_changes db gen batchSize dispatchTimeoutSeconds))
  | markDispatched id gen expectedAttempt now =>
    cases h
    exact committed_of_change (markDispatched_changes db id gen expectedAttempt)
  | refreshLease policy id owner now =>
    cases h
    exact committed_of_change (refreshExecutionLease_changes db id owner policy)
  | complete claim gen now =>
    simp only [transact] at h
    cases hcompl : completeExecution env db claim gen now with
    | error err =>
      rw [hcompl] at h
      cases h
    | ok result =>
      rw [hcompl] at h
      cases h
      rcases completeExecution_changes hcompl with ⟨-, hsame⟩ | ⟨-, hchg⟩
      · rw [hsame]
        exact .idle
      · exact committed_of_change (.inr hchg)
  | fail claim gen maxAttempts initialBackoffSeconds maximumBackoffSeconds now =>
    simp only [transact] at h
    cases hfail : failExecution env db claim gen maxAttempts initialBackoffSeconds
        maximumBackoffSeconds now with
    | error err =>
      rw [hfail] at h
      cases h
    | ok result =>
      rw [hfail] at h
      cases h
      rcases failExecution_changes hfail with ⟨-, hsame⟩ | ⟨-, hchg⟩
      · rw [hsame]
        exact .idle
      · exact committed_of_change (.inr hchg)
  | cancelExpired id scheduleId now =>
    cases h
    exact committed_of_change (cancelExpired_changes db id scheduleId)
  | purge policy now =>
    cases h
    obtain ⟨gone, heq, hgone⟩ := purgeExecutionHistory_cases db policy now
    rw [heq]
    exact .purge hgone
  | ensureRuntimeState provider redisNamespace now =>
    simp only [transact] at h
    cases hensure : ensureRuntimeState db provider redisNamespace now with
    | error err =>
      rw [hensure] at h
      cases h
    | ok result =>
      rw [hensure] at h
      cases h
      obtain ⟨desired, state, -, -, -, -, -, hcases⟩ := ensureRuntimeState_cases hensure
      rcases hcases with ⟨hnone, heq⟩ | ⟨-, heq⟩ | ⟨old, hold, -, heq⟩
      · rw [heq]
        exact .boot hnone
      · rw [heq]
        exact .idle
      · rw [heq]
        exact .switch hold

end Cfms.Scheduling
