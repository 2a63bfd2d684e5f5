import Cfms.Scheduling.Changes

/-!
# The execution slot

`active_execution_id` is the single execution slot of a schedule.  Queueing, claims, outcomes,
deletion, retirement, revival and provider switches keep the slot and the states of the executions
in step: at every moment the slot names the one execution of its schedule that is pending, running
or waiting for a retry, and is empty when there is none.
-/

namespace Cfms.Scheduling

open Lib Option Database AList

variable {env : Environment} {allowed : Database → Write → Prop} {current : Option ℕ}
  {gen : ℕ} {now : Instant} {db db' : Database}

/-- The execution belongs to the schedule and is pending, running or waiting for a retry. -/
def Database.IsActive (db : Database) (id : ScheduleId) (key : ExecutionId) : Prop :=
  ∃ e, db.executions.lookup key = some e ∧ e.scheduleId = id ∧ e.state.isActive = true

structure OneSlot (db : Database) : Prop where
  slot : ∀ id schedule key, db.schedules.lookup id = some schedule →
    schedule.activeExecutionId = some key → db.IsActive id key
  active : ∀ key e, db.executions.lookup key = some e → e.state.isActive = true →
    ∃ schedule, db.schedules.lookup e.scheduleId = some schedule ∧
      schedule.activeExecutionId = some key

/-! ### Writes to one row -/

variable {id : ScheduleId} {new : Schedule}

variable (h : OneSlot db)

include h

theorem OneSlot.setSchedule
    (hslot : new.activeExecutionId = (db.schedules.lookup id).bind Schedule.activeExecutionId) :
    OneSlot (db.setSchedule id new) := by
  constructor
  · intro k sched key hk hkey
    rcases Table.lookup_insert_eq_some hk with ⟨rfl, rfl⟩ | ⟨-, hk⟩
    · rw [hslot, bind_eq_some_iff] at hkey
      obtain ⟨old, hold, hkey⟩ := hkey
      exact h.slot k old key hold hkey
    · exact h.slot k sched key hk hkey
  · intro key e he hact
    obtain ⟨sched, hsched, hkey⟩ := h.active key e he hact
    by_cases hid : e.scheduleId = id
    · refine ⟨new, ?_, ?_⟩
      · rw [hid]
        exact lookup_insert _
      · rw [hslot, ← hid, hsched]
        exact hkey
    · exact ⟨sched, (lookup_insert_ne hid).trans hsched, hkey⟩

variable {old : Schedule}

theorem OneSlot.setSchedule_of_some (hold : db.schedules.lookup id = some old)
    (hslot : new.activeExecutionId = old.activeExecutionId) : OneSlot (db.setSchedule id new) := by
  apply h.setSchedule
  rw [hold]
  exact hslot

variable {key : ExecutionId} {e e' : Execution}

theorem OneSlot.setExecution
    (he : db.executions.lookup key = some e) (hid : e'.scheduleId = e.scheduleId)
    (hact : e'.state.isActive = e.state.isActive) : OneSlot (db.setExecution key e') := by
  constructor
  · intro id sched k hsched hk
    obtain ⟨e₁, he₁, hid₁, hact₁⟩ := h.slot id sched k hsched hk
    by_cases hkey : k = key
    · subst hkey
      rw [he, some.injEq] at he₁
      subst he₁
      exact ⟨e', lookup_insert _, hid.trans hid₁, hact.trans hact₁⟩
    · exact ⟨e₁, (lookup_insert_ne hkey).trans he₁, hid₁, hact₁⟩
  · intro k e₁ he₁ hact₁
    rcases Table.lookup_insert_eq_some he₁ with ⟨rfl, rfl⟩ | ⟨-, he₁⟩
    · rw [hid]
      exact h.active k e he (hact.symm.trans hact₁)
    · exact h.active k e₁ he₁ hact₁

theorem OneSlot.update {f : ExecutionId → Execution → Execution} {runtime : Option RuntimeState}
    (hid : ∀ key e, (f key e).scheduleId = e.scheduleId)
    (hact : ∀ key e, (f key e).state.isActive = e.state.isActive) :
    OneSlot { db with runtime := runtime, executions := db.executions.update f } := by
  constructor
  · intro id sched key hsched hkey
    obtain ⟨e, he, heid, heactive⟩ := h.slot id sched key hsched hkey
    refine ⟨f key e, ?_, (hid key e).trans heid, (hact key e).trans heactive⟩
    rw [Table.lookup_update, he]
    rfl
  · intro key e he heactive
    obtain ⟨old, hold, rfl⟩ := Table.lookup_update_eq_some he
    rw [hid]
    rw [hact] at heactive
    exact h.active key old hold heactive

/-! ### Filling and emptying the slot -/

variable {due : Instant}

theorem OneSlot.addOccurrence (hold : db.schedules.lookup id = some old)
    (hempty : old.activeExecutionId = none)
    (hfree : db.executions.lookup (executionId env id due) = none) :
    OneSlot (db.addOccurrence env id new due gen now) := by
  have hnone : ∀ key e, db.executions.lookup key = some e → e.state.isActive = true →
      e.scheduleId ≠ id := by
    intro key e he hact hid
    obtain ⟨sched, hsched, hkey⟩ := h.active key e he hact
    rw [hid, hold, some.injEq] at hsched
    rw [← hsched, hempty] at hkey
    cases hkey
  constructor
  · intro k sched key hk hkey
    rcases Table.lookup_insert_eq_some hk with ⟨rfl, rfl⟩ | ⟨-, hk⟩
    · rw [some.injEq] at hkey
      subst hkey
      exact ⟨_, lookup_insert _, rfl, rfl⟩
    · obtain ⟨e, he, hid, hact⟩ := h.slot k sched key hk hkey
      refine ⟨e, ?_, hid, hact⟩
      refine (lookup_insert_ne ?_).trans he
      rintro rfl
      rw [hfree] at he
      cases he
  · intro key e he hact
    rcases Table.lookup_insert_eq_some he with ⟨rfl, rfl⟩ | ⟨-, he⟩
    · exact ⟨_, lookup_insert _, rfl⟩
    · obtain ⟨sched, hsched, hkey⟩ := h.active key e he hact
      exact ⟨sched, (lookup_insert_ne (hnone key e he hact)).trans hsched, hkey⟩

theorem OneSlot.finish (hold : db.schedules.lookup id = some old)
    (hslot : old.activeExecutionId = some key) (hended : e'.state.isActive = false)
    (hempty : new.activeExecutionId = none) :
    OneSlot ((db.setExecution key e').setSchedule id new) := by
  obtain ⟨e₀, he₀, hid₀, -⟩ := h.slot id old key hold hslot
  constructor
  · intro k sched k' hk hk'
    rcases Table.lookup_insert_eq_some hk with ⟨rfl, rfl⟩ | ⟨hne, hk⟩
    · rw [hempty] at hk'
      cases hk'
    · obtain ⟨e₁, he₁, hid₁, hact₁⟩ := h.slot k sched k' hk hk'
      refine ⟨e₁, ?_, hid₁, hact₁⟩
      refine (lookup_insert_ne ?_).trans he₁
      rintro rfl
      rw [he₀, some.injEq] at he₁
      rw [← he₁] at hid₁
      exact hne (hid₁.symm.trans hid₀)
  · intro k e₁ he₁ hact₁
    rcases Table.lookup_insert_eq_some he₁ with ⟨rfl, rfl⟩ | ⟨hne, he₁⟩
    · rw [hended] at hact₁
      cases hact₁
    · obtain ⟨sched, hsched, hk⟩ := h.active k e₁ he₁ hact₁
      refine ⟨sched, ?_, hk⟩
      refine (lookup_insert_ne ?_).trans hsched
      intro hid
      rw [hid, hold, some.injEq] at hsched
      rw [← hsched, hslot, some.injEq] at hk
      exact hne hk.symm

omit h

/-! ### Changes, transactions and runs -/

theorem Database.addOccurrence_setSchedule {a b : Schedule} :
    (db.setSchedule id a).addOccurrence env id b due gen now =
      db.addOccurrence env id b due gen now := by
  simp only [addOccurrence, setSchedule, setExecution,
    insert_insert]

theorem isActive_migrated (e : Execution) (db : Database) (gen : ℕ) :
    (e.migrated db gen).scheduleId = e.scheduleId ∧
      (e.migrated db gen).state.isActive = e.state.isActive := by
  unfold Execution.migrated
  split_ifs with h
  · exact ⟨rfl, h.1.symm⟩
  · exact ⟨rfl, rfl⟩

theorem OneSlot.change (h : OneSlot db)
    (hchg : Change env allowed current now db db') : OneSlot db' := by
  cases hchg with
  | create hfree hslot =>
    apply h.setSchedule
    rw [hfree, hslot]
    rfl
  | update hold hkept huser hempty hslot => exact h.setSchedule_of_some hold (hslot.trans hempty.symm)
  | retire hold | coalesce hold => exact h.setSchedule_of_some hold rfl
  | reconcile => exact h.setSchedule rfl
  | skip hold hact hdue hst hnew =>
    refine h.setSchedule_of_some hold ?_
    rw [hnew]
  | occur hold hgen hact hdue hslot hfree => exact h.addOccurrence hold hslot hfree
  | finish hold hslot hexec hends hst hnew =>
    refine h.finish hold hslot hends.isActive ?_
    rw [hnew]
  | promote hold hslot hkept hexec hgen hends hpend hfree =>
    rename_i id key old e e' pending gen
    have hfin : OneSlot
        ((db.setExecution key e').setSchedule id { old with activeExecutionId := none }) :=
      h.finish hold hslot hends.isActive rfl
    rw [← addOccurrence_setSchedule]
    exact hfin.addOccurrence (lookup_insert _) rfl hfree
  | stray hexec hold hslot hends =>
    -- the row of a finishing execution is active, so it holds the slot of its sched
    obtain ⟨sched, hsched, hkey⟩ := h.active _ _ hexec hends.wasActive
    rw [hold, some.injEq] at hsched
    rw [hsched] at hslot
    exact absurd hkey hslot
  | dropSlot hold hslot hended =>
    -- the slot names an active execution
    obtain ⟨e, he, -, hact⟩ := h.slot _ _ _ hold hslot
    rw [hended e he] at hact
    cases hact
  | move hexec hmoves => exact h.setExecution hexec hmoves.scheduleId hmoves.isActive
  | moveAll hmoves =>
    exact h.update (fun key e => (hmoves key e).scheduleId) (fun key e => (hmoves key e).isActive)

theorem OneSlot.claims {policy : SchedulingPolicy} {owner : LeaseOwner}
    {claim : ClaimedExecution} (h : OneSlot db)
    (hclaims : Claims db db' policy gen owner now claim e) : OneSlot db' := by
  rw [hclaims.result]
  exact h.setExecution hclaims.execution rfl hclaims.isActive.symm

theorem OneSlot.purge {gone : ExecutionId → Execution → Bool} (h : OneSlot db)
    (hgone : ∀ key e, db.executions.lookup key = some e → gone key e = true →
      e.state.isActive = false) :
    OneSlot { db with executions := db.executions.delete gone } := by
  constructor
  · intro id sched key hsched hkey
    obtain ⟨e, he, hid, hact⟩ := h.slot id sched key hsched hkey
    refine ⟨e, Table.lookup_delete_eq_some.mpr ⟨he, ?_⟩, hid, hact⟩
    by_contra hpurge
    rw [hgone key e he (Bool.eq_true_of_not_eq_false hpurge)] at hact
    cases hact
  · intro key e he hact
    exact h.active key e (Table.lookup_delete_eq_some.mp he).1 hact

theorem OneSlot.committed {action : Action} (h : OneSlot db)
    (hcomm : Committed env allowed db action db') : OneSlot db' := by
  cases hcomm with
  | idle => exact h
  | claim hclaims | claimById hclaims => exact h.claims hclaims
  | purge hgone => exact h.purge hgone
  | boot hrunt => exact ⟨h.slot, h.active⟩
  | switch hrunt =>
    exact h.update (fun _ e => (isActive_migrated e _ _).1) (fun _ e => (isActive_migrated e _ _).2)
  | changes hchgs =>
    induction hchgs with
    | refl => exact h
    | tail _ hlast ih => exact ih.change hlast

theorem OneSlot.commit (env : Environment) (h : OneSlot db) (action : Action) :
    OneSlot (commit env db action) := by
  unfold Scheduling.commit
  split
  · rename_i db' hcommit
    have hperm : ActionPermits (fun _ _ => True) db action := by
      cases action <;> first | trivial | exact fun _ _ _ _ _ _ => trivial
    exact h.committed (transact_committed hperm hcommit)
  · exact h

theorem oneSlot_empty : OneSlot .empty :=
  ⟨fun _ _ _ h => (by cases h), fun _ _ h => (by cases h)⟩

/-- The database after a sequence of transactions, in the order in which they commit. -/
def reached (env : Environment) (actions : List Action) : Database :=
  actions.foldl (commit env) .empty

theorem oneSlot_reached (env : Environment) (actions : List Action) : OneSlot (reached env actions) :=
  List.foldlRecOn actions (commit env) oneSlot_empty fun _ h action _ => h.commit env action

/-- **Each schedule has one execution slot**: it has at most one execution that is pending, running
or waiting for a retry, and its slot names that execution if there is one. -/
theorem execution_slot (env : Environment) (actions : List Action) (id : ScheduleId) :
    Set.Subsingleton {key | (reached env actions).IsActive id key} ∧
      ∀ key, (reached env actions).IsActive id key ↔
        ((reached env actions).schedules.lookup id).bind Schedule.activeExecutionId = some key := by
  have hone := oneSlot_reached env actions
  have hslot : ∀ key, (reached env actions).IsActive id key →
      ((reached env actions).schedules.lookup id).bind Schedule.activeExecutionId = some key := by
    rintro key ⟨e, he, rfl, hact⟩
    obtain ⟨sched, hsched, hkey⟩ := hone.active key e he hact
    rw [hsched]
    exact hkey
  refine ⟨?_, fun key => ⟨hslot key, ?_⟩⟩
  · intro key hkey key' hkey'
    exact some.inj ((hslot key hkey).symm.trans (hslot key' hkey'))
  · intro hkey
    obtain ⟨sched, hsched, hkey⟩ := bind_eq_some_iff.mp hkey
    exact hone.slot id sched key hsched hkey

end Cfms.Scheduling
