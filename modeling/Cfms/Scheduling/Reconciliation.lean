import Cfms.Scheduling.Slot

/-!
# Reconciliation settles

`synchronize_system_schedules` returns the number of schedules it changed; here the number is kept
next to the database, and `synchronizeCounting_snd` says that the database is the one of the model.
One run stores every registered definition and retires the system schedules that have lost theirs.  A
second run finds nothing to do: the anchor that a row keeps is the anchor the comparison takes, so
that neither loop writes.

The comparison is between a definition and what its JSON columns give back.  A tuple among the trigger
data comes back as a list and never equals it, so that such a schedule is rewritten by every run; the
results are about definitions that come back (`DesiredSchedule.ComesBack`).
-/

namespace Cfms.Scheduling

open Lib List AList

variable {env : Environment} {db db' : Database} {now : Instant} {desired : List DesiredSchedule}

/-! ### The number of changed schedules -/

/-- The first loop of `synchronize_system_schedules`, with `changed`. -/
def retireCounting (desired : List DesiredSchedule) (now : Instant) (state : ℕ × Database)
    (id : ScheduleId) : ℕ × Database :=
  match state.2.schedules.lookup id with
  | none => state
  | some schedule =>
    if schedule.isOrphaned id desired then
      (state.1 + 1, cancelUnstartedScheduleExecution state.2 id schedule.retired now)
    else state

/-- The second loop of `synchronize_system_schedules`, with `changed`. -/
def reconcileCounting (env : Environment) (now : Instant) (state : ℕ × Database)
    (desired : DesiredSchedule) : Except Failure (ℕ × Database) :=
  let schedule := state.2.schedules.lookup desired.id
  if schedule.any fun row => !row.systemManaged then .error .userManaged
  else
    match systemScheduleValues env desired schedule now with
    | .error failure => .error failure
    | .ok values =>
      if schedule.any fun row => matchesSystemSchedule row desired values then .ok state
      else .ok (state.1 + 1, state.2.setSchedule desired.id (systemSchedule schedule desired values))

/-- `synchronize_system_schedules`, with the number that it returns. -/
def synchronizeCounting (env : Environment) (db : Database) (registry : Registry) (now : Instant) :
    Except Failure (ℕ × Database) :=
  match desiredSchedules registry registry [] with
  | .error failure => .error failure
  | .ok desired =>
    let orphaned := db.schedules.entries.filter fun row => row.2.isOrphaned row.1 desired
    desired.foldlM (reconcileCounting env now)
      ((orphaned.map Sigma.fst).foldl (retireCounting desired now) (0, db))

theorem retireCounting_snd (state : ℕ × Database) (id : ScheduleId) :
    (retireCounting desired now state id).2 = retireSystemSchedule desired now state.2 id := by
  unfold retireCounting retireSystemSchedule
  cases state.2.schedules.lookup id with
  | none => rfl
  | some schedule =>
    simp only
    split_ifs <;> rfl

theorem reconcileCounting_snd (state : ℕ × Database) (item : DesiredSchedule) :
    (reconcileCounting env now state item).map Prod.snd =
      reconcileSystemSchedule env now state.2 item := by
  simp only [reconcileCounting, reconcileSystemSchedule]
  cases systemScheduleValues env item (state.2.schedules.lookup item.id) now with
  | error err => split_ifs <;> rfl
  | ok values =>
    dsimp only
    split_ifs <;> rfl

/-- **Counting does not change the transaction.** -/
theorem synchronizeCounting_snd (env : Environment) (db : Database) (registry : Registry)
    (now : Instant) : (synchronizeCounting env db registry now).map Prod.snd =
      synchronizeSystemSchedules env db registry now := by
  have hfold : ∀ (items : List DesiredSchedule) (state : ℕ × Database),
      (items.foldlM (reconcileCounting env now) state).map Prod.snd =
        items.foldlM (reconcileSystemSchedule env now) state.2 := by
    intro items
    induction items with
    | nil => exact fun _ => rfl
    | cons item rest ih =>
      intro state
      rw [foldlM_cons, foldlM_cons, ← reconcileCounting_snd]
      cases reconcileCounting env now state item with
      | error err => rfl
      | ok next => exact ih next
  rw [synchronizeCounting, synchronizeSystemSchedules]
  cases desiredSchedules registry registry [] with
  | error err => rfl
  | ok desired =>
    rw [hfold]
    congr 1
    exact (foldl_hom Prod.snd fun state id => (retireCounting_snd state id).symm).symm

/-! ### Retirement -/

structure Cancels (id : ScheduleId) (schedule : Schedule) (db db' : Database) : Prop where
  schedules : ∃ slot,
    db'.schedules = db.schedules.insert id { schedule with activeExecutionId := slot }
  unstarted : ∀ key e, db'.executions.lookup key = some e → e.state.isUnstarted = true →
    db.executions.lookup key = some e
  slot : ∀ key e, schedule.activeExecutionId = some key → db'.executions.lookup key = some e →
    e.state.isUnstarted = false

theorem cancelUnstarted_cancels (id : ScheduleId) (schedule : Schedule) :
    Cancels id schedule db (cancelUnstartedScheduleExecution db id schedule now) := by
  simp only [cancelUnstartedScheduleExecution]
  split
  · rename_i hnone
    refine ⟨⟨schedule.activeExecutionId, rfl⟩, fun _ _ he _ => he, ?_⟩
    intro key e hkey
    rw [hnone] at hkey
    cases hkey
  · rename_i key hkey
    have hother : ∀ k, schedule.activeExecutionId = some k → k = key := by
      intro k hk
      rw [hkey, Option.some.injEq] at hk
      exact hk.symm
    split
    · rename_i hmiss
      refine ⟨⟨none, rfl⟩, fun _ _ he _ => he, ?_⟩
      intro k e hk he
      rw [hother k hk, Database.setSchedule_executions, hmiss] at he
      cases he
    · rename_i e he
      have hstart : e.state.isUnstarted = false → ∀ k e', schedule.activeExecutionId = some k →
          db.executions.lookup k = some e' → e'.state.isUnstarted = false := by
        intro hstate k e' hk he'
        rw [hother k hk, he, Option.some.injEq] at he'
        rw [← he']
        exact hstate
      split_ifs with hunst hact
      · refine ⟨⟨none, rfl⟩, ?_, ?_⟩
        · intro k e' he' hstate
          rcases Table.lookup_insert_eq_some he' with ⟨rfl, rfl⟩ | ⟨-, hold⟩
          · cases hstate
          · exact hold
        · intro k e' hk he'
          rw [hother k hk] at he'
          rcases Table.lookup_insert_eq_some he' with ⟨-, rfl⟩ | ⟨hne, -⟩
          · rfl
          · exact absurd rfl hne
      · exact ⟨⟨schedule.activeExecutionId, rfl⟩, fun _ _ he _ => he,
          hstart (Bool.eq_false_iff.mpr hunst)⟩
      · exact ⟨⟨none, rfl⟩, fun _ _ he _ => he, hstart (Bool.eq_false_iff.mpr hunst)⟩

/-- A retired system schedule, of which nothing is due any more. -/
structure Schedule.AtRest (schedule : Schedule) : Prop where
  systemManaged : schedule.systemManaged = true
  enabled : schedule.enabled = false
  status : schedule.status = .deleted
  nextRunAt : schedule.nextRunAt = none
  pendingScheduledFor : schedule.pendingScheduledFor = none

/-- What the first loop does to the schedules that it is given. -/
structure Retires (ids : List ScheduleId) (db db' : Database) : Prop where
  others : ∀ id, id ∉ ids → db'.schedules.lookup id = db.schedules.lookup id
  atRest : ∀ id ∈ ids, ∃ row, db'.schedules.lookup id = some row ∧ row.AtRest
  unstarted : ∀ key e, db'.executions.lookup key = some e → e.state.isUnstarted = true →
    db.executions.lookup key = some e
  slot : ∀ id ∈ ids, ∀ old key e, db.schedules.lookup id = some old →
    old.activeExecutionId = some key → db'.executions.lookup key = some e →
    e.state.isUnstarted = false

variable {id : ScheduleId}

theorem retire_isOrphaned {old : Schedule} (hold : db.schedules.lookup id = some old)
    (horph : old.isOrphaned id desired = true) :
    Retires [id] db (retireSystemSchedule desired now db id) := by
  have hretire : retireSystemSchedule desired now db id =
      cancelUnstartedScheduleExecution db id old.retired now := by
    simp only [retireSystemSchedule, hold]
    rw [if_pos horph]
  have hman : old.systemManaged = true := by
    simp only [Schedule.isOrphaned, Bool.and_eq_true] at horph
    exact horph.1.1
  have hcancels : Cancels id old.retired db
      (cancelUnstartedScheduleExecution db id old.retired now) :=
    cancelUnstarted_cancels id old.retired
  obtain ⟨⟨slot, hscheds⟩, hunst, hslot⟩ := hcancels
  rw [hretire]
  refine ⟨?_, ?_, hunst, ?_⟩
  · intro k hk
    rw [hscheds]
    exact lookup_insert_ne (mt mem_singleton.mpr hk)
  · intro k hk
    rw [mem_singleton.mp hk, hscheds]
    exact ⟨_, lookup_insert _, hman, rfl, rfl, rfl, rfl⟩
  · intro k hk old' key e hold' hkey he
    rw [mem_singleton.mp hk, hold, Option.some.injEq] at hold'
    subst hold'
    exact hslot key e hkey he

theorem Retires.cons {rest : List ScheduleId} {db₁ : Database}
    (hfirst : Retires [id] db db₁) (hfresh : id ∉ rest) (hrest : Retires rest db₁ db') :
    Retires (id :: rest) db db' := by
  refine ⟨?_, ?_, ?_, ?_⟩
  · intro k hk
    rw [mem_cons, not_or] at hk
    rw [hrest.others k hk.2]
    exact hfirst.others k (mt mem_singleton.mp hk.1)
  · intro k hk
    rcases mem_cons.mp hk with rfl | hk
    · rw [hrest.others k hfresh]
      exact hfirst.atRest k mem_cons_self
    · exact hrest.atRest k hk
  · intro key e he hstate
    exact hfirst.unstarted key e (hrest.unstarted key e he hstate) hstate
  · intro k hk old key e hold hkey he
    rcases mem_cons.mp hk with rfl | hk
    · by_contra hstate
      have hstate := Bool.eq_true_of_not_eq_false hstate
      have hfalse := hfirst.slot k mem_cons_self old key e hold hkey
        (hrest.unstarted key e he hstate)
      rw [hfalse] at hstate
      cases hstate
    · refine hrest.slot k hk old key e ?_ hkey he
      rw [hfirst.others k (mt mem_singleton.mp fun heq => hfresh (heq ▸ hk))]
      exact hold

theorem retireSystemSchedules_retires {ids : List ScheduleId} (hnodup : ids.Nodup)
    (horph : ∀ id ∈ ids, ∃ old, db.schedules.lookup id = some old ∧
      old.isOrphaned id desired = true) :
    Retires ids db (ids.foldl (retireSystemSchedule desired now) db) := by
  induction ids generalizing db with
  | nil =>
    exact ⟨fun _ _ => rfl, fun _ h => absurd h not_mem_nil, fun _ _ he _ => he,
      fun _ h => absurd h not_mem_nil⟩
  | cons id rest ih =>
    rw [nodup_cons] at hnodup
    obtain ⟨old, hold, horphan⟩ := horph id mem_cons_self
    have hfirst : Retires [id] db (retireSystemSchedule desired now db id) :=
      retire_isOrphaned hold horphan
    refine hfirst.cons hnodup.1 (ih hnodup.2 ?_)
    intro k hk
    obtain ⟨row, hrow, horphan⟩ := horph k (mem_cons_of_mem _ hk)
    refine ⟨row, ?_, horphan⟩
    rw [hfirst.others k (mt mem_singleton.mp fun heq => hnodup.1 (heq ▸ hk))]
    exact hrow

/-- The candidates of the first loop. -/
def orphanedIds (db : Database) (desired : List DesiredSchedule) : List ScheduleId :=
  (db.schedules.entries.filter fun row => row.2.isOrphaned row.1 desired).map Sigma.fst

theorem mem_orphanedIds : id ∈ orphanedIds db desired ↔
      ∃ old, db.schedules.lookup id = some old ∧ old.isOrphaned id desired = true := by
  simp only [orphanedIds, mem_map, mem_filter]
  constructor
  · rintro ⟨⟨k, old⟩, ⟨hmem, horphan⟩, rfl⟩
    exact ⟨old, mem_lookup_iff.mpr hmem, horphan⟩
  · rintro ⟨old, hold, horphan⟩
    exact ⟨⟨id, old⟩, ⟨mem_lookup_iff.mp hold, horphan⟩, rfl⟩

theorem orphanedIds_nodup (db : Database) (desired : List DesiredSchedule) :
    (orphanedIds db desired).Nodup := by
  have hkeys : (orphanedIds db desired).Sublist db.schedules.keys :=
    filter_sublist.map Sigma.fst
  exact db.schedules.keys_nodup.sublist hkeys

theorem orphanedIds_retires (db : Database) (desired : List DesiredSchedule) :
    Retires (orphanedIds db desired) db
      ((orphanedIds db desired).foldl (retireSystemSchedule desired now) db) :=
  retireSystemSchedules_retires (orphanedIds_nodup db desired) fun _ hid => mem_orphanedIds.mp hid

/-! ### Registered schedules -/

def DesiredSchedule.trigger (env : Environment) (item : DesiredSchedule) (schedule : Option Schedule)
    (now : Instant) : Option Trigger :=
  buildTrigger env.library item.definition.triggerType
    (storedTriggerData env item.definition schedule now) item.definition.timezone

/-- The row stores the definition, with columns that are equal as Python compares them. -/
structure Schedule.Stores (schedule : Schedule) (item : DesiredSchedule) (data : TriggerData) :
    Prop where
  systemManaged : schedule.systemManaged = true
  enabled : schedule.enabled = true
  status : schedule.status = .active
  task : schedule.task.equal item.task = true
  triggerType : schedule.triggerType = item.definition.triggerType
  triggerData : (Json.object schedule.triggerData).equal (.object data) = true
  timezone : schedule.timezone = item.definition.timezone

variable {item : DesiredSchedule} {schedule : Option Schedule}

theorem systemScheduleValues_eq_ok (htrig : (item.trigger env schedule now).isSome = true) :
    ∃ values, systemScheduleValues env item schedule now = .ok values ∧
      values.triggerData = storedTriggerData env item.definition schedule now := by
  obtain ⟨trigger, hbuild⟩ := Option.isSome_iff_exists.mp htrig
  unfold DesiredSchedule.trigger at hbuild
  simp only [systemScheduleValues, hbuild]
  exact ⟨_, rfl, rfl⟩

variable {values : SystemScheduleValues}

theorem stores_of_matches {schedule : Schedule} (hman : schedule.systemManaged = true)
    (h : matchesSystemSchedule schedule item values = true) :
    schedule.Stores item values.triggerData := by
  simp only [matchesSystemSchedule, Bool.and_eq_true, beq_iff_eq] at h
  obtain ⟨⟨⟨⟨⟨htask, htype⟩, hdata⟩, hzone⟩, hen⟩, hst⟩ := h
  exact ⟨hman, hen, hst, htask, htype, hdata, hzone⟩

theorem Schedule.Stores.matches {schedule : Schedule}
    (h : schedule.Stores item values.triggerData) :
    matchesSystemSchedule schedule item values = true := by
  simp [matchesSystemSchedule, h.task, h.triggerType, h.triggerData, h.timezone, h.enabled, h.status]

/-- The JSON columns give the payload and the trigger data of the definition back. -/
structure DesiredSchedule.ComesBack (item : DesiredSchedule) : Prop where
  payload : item.task.payload.comesBack = true
  triggerData : (Json.object item.definition.triggerData).comesBack = true

/-- The anchor that is added to the data of a valid interval is a text. -/
theorem storedTriggerData_interval (hint : item.definition.triggerType = .interval ∧
      item.definition.triggerData.lookup "start_at" = none)
    (htrig : (item.trigger env schedule now).isSome = true) :
    ∃ text, storedTriggerData env item.definition schedule now =
      item.definition.triggerData ++ [("start_at", .string text)] := by
  rw [DesiredSchedule.trigger, storedTriggerData, if_pos hint, hint.1] at htrig
  obtain ⟨text, htext⟩ := lookup_startAt htrig
  rw [lookup_append, hint.2, Option.none_or, lookup_cons_self, Option.some.injEq] at htext
  exact ⟨text, by rw [storedTriggerData, if_pos hint, htext]⟩

/-- The data that a run stores come back as well. -/
theorem DesiredSchedule.ComesBack.stored (h : item.ComesBack)
    (htrig : (item.trigger env schedule now).isSome = true) :
    (Json.object (storedTriggerData env item.definition schedule now)).comesBack = true := by
  by_cases hint : item.definition.triggerType = .interval ∧
    item.definition.triggerData.lookup "start_at" = none
  · obtain ⟨text, hdata⟩ := storedTriggerData_interval hint htrig
    rw [hdata]
    exact Json.comesBack_concat h.triggerData hint.2
  · rw [storedTriggerData, if_neg hint]
    exact h.triggerData

/-- What the second loop does to the schedules of the definitions. -/
structure Registers (env : Environment) (now : Instant) (items : List DesiredSchedule)
    (db db' : Database) : Prop where
  executions : db'.executions = db.executions
  others : ∀ id, id ∉ items.map DesiredSchedule.id →
    db'.schedules.lookup id = db.schedules.lookup id
  stores : ∀ item ∈ items, ∃ row, db'.schedules.lookup item.id = some row ∧
    row.Stores item (storedTriggerData env item.definition (db.schedules.lookup item.id) now)

/-- The schedule of the definition may be written: no user manages it, its trigger is valid, and its
columns come back. -/
structure Writable (env : Environment) (now : Instant) (db : Database) (item : DesiredSchedule) :
    Prop where
  comesBack : item.ComesBack
  systemManaged : ∀ row, db.schedules.lookup item.id = some row → row.systemManaged = true
  trigger : (item.trigger env (db.schedules.lookup item.id) now).isSome = true

theorem Writable.congr (h : Writable env now db item)
    (hrow : db'.schedules.lookup item.id = db.schedules.lookup item.id) :
    Writable env now db' item :=
  ⟨h.comesBack, hrow ▸ h.systemManaged, hrow ▸ h.trigger⟩

theorem reconcileCounting_registers (changed : ℕ) (h : Writable env now db item) :
    ∃ changed' db', reconcileCounting env now (changed, db) item = .ok (changed', db') ∧
      Registers env now [item] db db' := by
  obtain ⟨values, hvals, hdata⟩ := systemScheduleValues_eq_ok h.trigger
  have hman : ((db.schedules.lookup item.id).any fun row => !row.systemManaged) = false := by
    rw [Option.any_eq_false]
    intro row hrow
    rw [h.systemManaged row hrow]
    rfl
  simp only [reconcileCounting, hman, hvals, Bool.false_eq_true, if_false]
  split_ifs with hmatch
  · refine ⟨changed, db, rfl, rfl, fun _ _ => rfl, ?_⟩
    intro other hother
    obtain ⟨row, hrow, hmatch⟩ := (Option.any_eq_true _ _).mp hmatch
    rw [mem_singleton.mp hother, ← hdata]
    exact ⟨row, hrow, stores_of_matches (h.systemManaged row hrow) hmatch⟩
  · refine ⟨changed + 1, _, rfl, rfl, ?_, ?_⟩
    · intro id hid
      exact lookup_insert_ne (mt mem_singleton.mpr hid)
    · intro other hother
      rw [mem_singleton.mp hother]
      have htask : (systemSchedule (db.schedules.lookup item.id) item values).task.equal item.task =
          true :=
        (Bool.and_eq_true _ _).mpr ⟨(Bool.and_eq_true _ _).mpr
          ⟨beq_self_eq_true _, beq_self_eq_true _⟩, h.comesBack.payload⟩
      have hback := h.comesBack.stored h.trigger
      rw [← hdata] at hback ⊢
      exact ⟨_, lookup_insert _, rfl, rfl, rfl, htask, rfl, hback, rfl⟩

theorem reconcileCounting_fold_registers {items : List DesiredSchedule}
    (hnodup : (items.map DesiredSchedule.id).Nodup) (changed : ℕ)
    (h : ∀ item ∈ items, Writable env now db item) :
    ∃ changed' db', items.foldlM (reconcileCounting env now) (changed, db) = .ok (changed', db') ∧
      Registers env now items db db' := by
  induction items generalizing changed db with
  | nil =>
    exact ⟨changed, db, rfl, rfl, fun _ _ => rfl, fun _ h => absurd h not_mem_nil⟩
  | cons item rest ih =>
    rw [map_cons, nodup_cons] at hnodup
    have hne : ∀ other ∈ rest, other.id ∉ [item].map DesiredSchedule.id := by
      intro other hother hmem
      apply hnodup.1
      rw [← mem_singleton.mp hmem]
      exact mem_map_of_mem hother
    obtain ⟨n₁, db₁, hstep, hfirst⟩ :=
      reconcileCounting_registers changed (h item mem_cons_self)
    obtain ⟨n₂, db₂, hfold, hrest⟩ := ih hnodup.2 n₁ fun other hother =>
      (h other (mem_cons_of_mem _ hother)).congr (hfirst.others other.id (hne other hother))
    refine ⟨n₂, db₂, ?_, hrest.executions.trans hfirst.executions, ?_, ?_⟩
    · rw [foldlM_cons, hstep]
      exact hfold
    · intro id hid
      rw [map_cons, mem_cons, not_or] at hid
      rw [hrest.others id hid.2]
      exact hfirst.others id (mt mem_singleton.mp hid.1)
    · intro other hother
      rcases mem_cons.mp hother with rfl | hother
      · rw [hrest.others other.id hnodup.1]
        exact hfirst.stores other mem_cons_self
      · rw [← hfirst.others other.id (hne other hother)]
        exact hrest.stores other hother

/-! ### The second run -/

variable {row : Schedule} {later : Instant}

/-- The anchor of a stored interval is the one that a later run takes: a generated anchor stays
where it is. -/
theorem storedTriggerData_stored
    (h : row.Stores item (storedTriggerData env item.definition schedule now))
    (htrig : (item.trigger env schedule now).isSome = true) :
    storedTriggerData env item.definition (some row) later =
      storedTriggerData env item.definition schedule now := by
  by_cases hint : item.definition.triggerType = .interval ∧
    item.definition.triggerData.lookup "start_at" = none
  · obtain ⟨text, hdata⟩ := storedTriggerData_interval hint htrig
    have hequal := h.triggerData
    rw [hdata] at hequal
    have hkept : row.triggerData.lookup "start_at" = some (.string text) := by
      refine Json.lookup_of_equal hequal ?_
      rw [lookup_append, hint.2, Option.none_or, lookup_cons_self]
    rw [hdata, storedTriggerData, if_pos hint, intervalAnchor, Option.bind_some,
      if_pos (h.triggerType.trans hint.1), hkept]
    rfl
  · rw [storedTriggerData, storedTriggerData, if_neg hint, if_neg hint]

theorem reconcileCounting_stored (changed : ℕ) (hrow : db.schedules.lookup item.id = some row)
    (hstores : row.Stores item (storedTriggerData env item.definition schedule now))
    (htrig : (item.trigger env schedule now).isSome = true) :
    reconcileCounting env later (changed, db) item = .ok (changed, db) := by
  have hdata : storedTriggerData env item.definition (some row) later =
      storedTriggerData env item.definition schedule now :=
    storedTriggerData_stored hstores htrig
  have hlater : (item.trigger env (some row) later).isSome = true := by
    unfold DesiredSchedule.trigger
    rw [hdata]
    exact htrig
  obtain ⟨values, hvals, hsame⟩ := systemScheduleValues_eq_ok hlater
  have hmatch : matchesSystemSchedule row item values = true := by
    apply Schedule.Stores.matches
    rw [hsame, hdata]
    exact hstores
  simp only [reconcileCounting, hrow, Option.any_some, hstores.systemManaged, hvals, hmatch]
  rfl

variable {registry : Registry}

theorem synchronizeCounting_settled {before : Database}
    (hdes : desiredSchedules registry registry [] = .ok desired)
    (hnone : orphanedIds db desired = [])
    (hstores : ∀ item ∈ desired, ∃ row, db.schedules.lookup item.id = some row ∧
      row.Stores item (storedTriggerData env item.definition (before.schedules.lookup item.id) now))
    (htrig : ∀ item ∈ desired,
      (item.trigger env (before.schedules.lookup item.id) now).isSome = true) :
    synchronizeCounting env db registry later = .ok (0, db) := by
  have hfold : ∀ items : List DesiredSchedule, (∀ item ∈ items, item ∈ desired) →
      items.foldlM (reconcileCounting env later) (0, db) = .ok (0, db) := by
    intro items hitems
    induction items with
    | nil => rfl
    | cons item rest ih =>
      have hitem : item ∈ desired := hitems item mem_cons_self
      obtain ⟨row, hrow, hrowStores⟩ := hstores item hitem
      rw [foldlM_cons, reconcileCounting_stored 0 hrow hrowStores (htrig item hitem)]
      exact ih fun other hother => hitems other (mem_cons_of_mem _ hother)
  simp only [synchronizeCounting, hdes]
  rw [show (db.schedules.entries.filter fun row => row.2.isOrphaned row.1 desired).map Sigma.fst = []
    from hnone]
  exact hfold desired fun _ h => h

/-! ### The first run -/

/-- An execution of the schedule waits for its start or for a retry. -/
def Database.HasUnstarted (db : Database) (id : ScheduleId) : Prop :=
  ∃ key e, db.executions.lookup key = some e ∧ e.scheduleId = id ∧ e.state.isUnstarted = true

/-- A system schedule without a definition carries no work that retirement would miss: one that is
disabled and deleted has none, and what waits for another is in its slot. -/
structure Shelved (desired : List DesiredSchedule) (db : Database) : Prop where
  retired : ∀ id row, db.schedules.lookup id = some row → row.systemManaged = true →
    (∀ item ∈ desired, item.id ≠ id) → row.isOrphaned id desired = false →
    row.nextRunAt = none ∧ row.pendingScheduledFor = none ∧ ¬db.HasUnstarted id
  slot : ∀ id row, db.schedules.lookup id = some row → row.isOrphaned id desired = true →
    ∀ key e, db.executions.lookup key = some e → e.scheduleId = id → e.state.isUnstarted = true →
      row.activeExecutionId = some key

structure Reconciled (env : Environment) (desired : List DesiredSchedule) (now : Instant)
    (before after : Database) : Prop where
  enabled : ∀ id, (∃ row, after.schedules.lookup id = some row ∧ row.systemManaged = true ∧
    row.enabled = true) ↔ ∃ item ∈ desired, item.id = id
  stores : ∀ item ∈ desired, ∃ row, after.schedules.lookup item.id = some row ∧
    row.Stores item (storedTriggerData env item.definition (before.schedules.lookup item.id) now)
  others : ∀ id row, after.schedules.lookup id = some row → row.systemManaged = true →
    (∀ item ∈ desired, item.id ≠ id) → row.enabled = false ∧ row.status = .deleted
  /-- What this run retires is no longer due, and its slot holds nothing that waits. -/
  retired : ∀ id old, before.schedules.lookup id = some old → old.isOrphaned id desired = true →
    (∃ row, after.schedules.lookup id = some row ∧ row.AtRest) ∧
    ∀ key e, old.activeExecutionId = some key → after.executions.lookup key = some e →
      e.state.isUnstarted = false
  /-- What was retired before is left as it is. -/
  untouched : ∀ id old, before.schedules.lookup id = some old → old.isOrphaned id desired = false →
    (∀ item ∈ desired, item.id ≠ id) → after.schedules.lookup id = some old
  cleared : Shelved desired before → ∀ id row, after.schedules.lookup id = some row →
    row.systemManaged = true → (∀ item ∈ desired, item.id ≠ id) →
      row.nextRunAt = none ∧ row.pendingScheduledFor = none ∧ ¬after.HasUnstarted id
  users : ∀ id row, row.systemManaged = false →
    (after.schedules.lookup id = some row ↔ before.schedules.lookup id = some row)

theorem isOrphaned_eq_false (hman : row.systemManaged = true)
    (hid : ∀ item ∈ desired, item.id ≠ id) (h : row.isOrphaned id desired = false) :
    row.enabled = false ∧ row.status = .deleted := by
  have hany : (desired.any fun item => item.id == id) = false := by
    rw [any_eq_false]
    intro item hitem
    simpa using hid item hitem
  simpa [Schedule.isOrphaned, hman, hany] using h

theorem isOrphaned_systemManaged
    (h : row.isOrphaned id desired = true) : row.systemManaged = true := by
  simp only [Schedule.isOrphaned, Bool.and_eq_true] at h
  exact h.1.1

theorem ne_of_isOrphaned (h : row.isOrphaned id desired = true) :
    ∀ item ∈ desired, item.id ≠ id := by
  intro item hitem heq
  rw [← heq, not_isOrphaned hitem] at h
  cases h

section

variable {before middle after : Database} {id : ScheduleId}

theorem not_mem_ids (hid : ∀ item ∈ desired, item.id ≠ id) :
    id ∉ desired.map DesiredSchedule.id := by
  intro hmem
  obtain ⟨item, hitem, heq⟩ := mem_map.mp hmem
  exact hid item hitem heq

theorem isOrphaned_eq_false_of_not_mem {old : Schedule}
    (hmem : id ∉ orphanedIds before desired) (hold : before.schedules.lookup id = some old) :
    old.isOrphaned id desired = false := by
  by_contra htrue
  exact hmem (mem_orphanedIds.mpr ⟨old, hold, Bool.eq_true_of_not_eq_false htrue⟩)

theorem Retires.lookup_desired (hretire : Retires (orphanedIds before desired) before middle)
    {item : DesiredSchedule} (hitem : item ∈ desired) :
    middle.schedules.lookup item.id = before.schedules.lookup item.id := by
  apply hretire.others
  intro hmem
  obtain ⟨old, -, horphan⟩ := mem_orphanedIds.mp hmem
  exact ne_of_isOrphaned horphan item hitem rfl

/-- Both loops, one after the other. -/
structure Loops (env : Environment) (desired : List DesiredSchedule) (now : Instant)
    (before after : Database) : Prop where
  stores : ∀ item ∈ desired, ∃ row, after.schedules.lookup item.id = some row ∧
    row.Stores item (storedTriggerData env item.definition (before.schedules.lookup item.id) now)
  atRest : ∀ id ∈ orphanedIds before desired,
    ∃ row, after.schedules.lookup id = some row ∧ row.AtRest
  others : ∀ id, id ∉ orphanedIds before desired → (∀ item ∈ desired, item.id ≠ id) →
    after.schedules.lookup id = before.schedules.lookup id
  unstarted : ∀ key e, after.executions.lookup key = some e → e.state.isUnstarted = true →
    before.executions.lookup key = some e
  slot : ∀ id ∈ orphanedIds before desired, ∀ old key e, before.schedules.lookup id = some old →
    old.activeExecutionId = some key → after.executions.lookup key = some e →
    e.state.isUnstarted = false

theorem Retires.loops (hretire : Retires (orphanedIds before desired) before middle)
    (hreg : Registers env now desired middle after) : Loops env desired now before after := by
  refine ⟨?_, ?_, ?_, ?_, ?_⟩
  · intro item hitem
    rw [← hretire.lookup_desired hitem]
    exact hreg.stores item hitem
  · intro id hmem
    obtain ⟨old, -, horphan⟩ := mem_orphanedIds.mp hmem
    rw [hreg.others id (not_mem_ids (ne_of_isOrphaned horphan))]
    exact hretire.atRest id hmem
  · intro id hmem hid
    rw [hreg.others id (not_mem_ids hid)]
    exact hretire.others id hmem
  · intro key e he hstate
    rw [hreg.executions] at he
    exact hretire.unstarted key e he hstate
  · intro id hmem old key e hold hkey he
    rw [hreg.executions] at he
    exact hretire.slot id hmem old key e hold hkey he

variable (h : Loops env desired now before after)

include h

variable {row : Schedule}

theorem Loops.cases
    (hrow : after.schedules.lookup id = some row) (hid : ∀ item ∈ desired, item.id ≠ id) :
    (id ∈ orphanedIds before desired ∧ row.AtRest) ∨
      (before.schedules.lookup id = some row ∧ row.isOrphaned id desired = false) := by
  by_cases hmem : id ∈ orphanedIds before desired
  · obtain ⟨row', hrow', hrest⟩ := h.atRest id hmem
    rw [hrow, Option.some.injEq] at hrow'
    exact .inl ⟨hmem, hrow' ▸ hrest⟩
  · rw [h.others id hmem hid] at hrow
    exact .inr ⟨hrow, isOrphaned_eq_false_of_not_mem hmem hrow⟩

theorem Loops.disabled
    (hrow : after.schedules.lookup id = some row) (hman : row.systemManaged = true)
    (hid : ∀ item ∈ desired, item.id ≠ id) : row.enabled = false ∧ row.status = .deleted := by
  rcases h.cases hrow hid with ⟨-, hrest⟩ | ⟨-, hfalse⟩
  · exact ⟨hrest.enabled, hrest.status⟩
  · exact isOrphaned_eq_false hman hid hfalse

theorem Loops.enabled (id : ScheduleId) :
    (∃ row, after.schedules.lookup id = some row ∧ row.systemManaged = true ∧ row.enabled = true) ↔
      ∃ item ∈ desired, item.id = id := by
  constructor
  · rintro ⟨row, hrow, hman, hen⟩
    by_contra hnone
    push Not at hnone
    rw [(h.disabled hrow hman hnone).1] at hen
    cases hen
  · rintro ⟨item, hitem, rfl⟩
    obtain ⟨row, hrow, hstores⟩ := h.stores item hitem
    exact ⟨row, hrow, hstores.systemManaged, hstores.enabled⟩

theorem Loops.cleared (hshelved : Shelved desired before)
    (hrow : after.schedules.lookup id = some row) (hman : row.systemManaged = true)
    (hid : ∀ item ∈ desired, item.id ≠ id) :
    row.nextRunAt = none ∧ row.pendingScheduledFor = none ∧ ¬after.HasUnstarted id := by
  rcases h.cases hrow hid with ⟨hmem, hrest⟩ | ⟨hbef, hfalse⟩
  · refine ⟨hrest.nextRunAt, hrest.pendingScheduledFor, ?_⟩
    rintro ⟨key, e, he, hsched, hstate⟩
    obtain ⟨old, hold, horphan⟩ := mem_orphanedIds.mp hmem
    have hslot : old.activeExecutionId = some key :=
      hshelved.slot id old hold horphan key e (h.unstarted key e he hstate) hsched hstate
    rw [h.slot id hmem old key e hold hslot he] at hstate
    cases hstate
  · obtain ⟨hnext, hpend, hnone⟩ := hshelved.retired id row hbef hman hid hfalse
    refine ⟨hnext, hpend, ?_⟩
    rintro ⟨key, e, he, hsched, hstate⟩
    exact hnone ⟨key, e, h.unstarted key e he hstate, hsched, hstate⟩

variable (hman : ∀ item ∈ desired, ∀ row,
    before.schedules.lookup item.id = some row → row.systemManaged = true)

include hman

theorem Loops.users (huser : row.systemManaged = false) :
    after.schedules.lookup id = some row ↔ before.schedules.lookup id = some row := by
  have hne : ∀ other : Schedule, other.systemManaged = true → other ≠ row := by
    rintro other hsystem rfl
    rw [huser] at hsystem
    cases hsystem
  by_cases hid : ∃ item ∈ desired, item.id = id
  · obtain ⟨item, hitem, rfl⟩ := hid
    obtain ⟨row', hrow', hstores⟩ := h.stores item hitem
    rw [hrow', Option.some.injEq]
    exact ⟨fun heq => absurd heq (hne row' hstores.systemManaged),
      fun hrow => absurd rfl (hne row (hman item hitem row hrow))⟩
  · push Not at hid
    by_cases hmem : id ∈ orphanedIds before desired
    · obtain ⟨old, hold, horphan⟩ := mem_orphanedIds.mp hmem
      obtain ⟨row', hrow', hrest⟩ := h.atRest id hmem
      rw [hrow', hold, Option.some.injEq, Option.some.injEq]
      exact ⟨fun heq => absurd heq (hne row' hrest.systemManaged),
        fun heq => absurd heq (hne old (isOrphaned_systemManaged horphan))⟩
    · rw [h.others id hmem hid]

theorem Loops.reconciled : Reconciled env desired now before after := by
  refine ⟨h.enabled, h.stores, fun _ _ => h.disabled, ?_, ?_, fun hshelved _ _ => h.cleared hshelved,
    fun _ _ => h.users hman⟩
  · intro id old hold horphan
    have hmem : id ∈ orphanedIds before desired := mem_orphanedIds.mpr ⟨old, hold, horphan⟩
    exact ⟨h.atRest id hmem, fun key e hkey he => h.slot id hmem old key e hold hkey he⟩
  · intro id old hold horphan hid
    rw [h.others id ?_ hid]
    · exact hold
    intro hmem
    obtain ⟨row, hrow, htrue⟩ := mem_orphanedIds.mp hmem
    rw [hold, Option.some.injEq] at hrow
    rw [← hrow, horphan] at htrue
    cases htrue

omit hman

theorem Loops.orphanedIds_eq_nil : orphanedIds after desired = [] := by
  rw [eq_nil_iff_forall_not_mem]
  intro id hmem
  obtain ⟨row, hrow, horphan⟩ := mem_orphanedIds.mp hmem
  obtain ⟨hen, hst⟩ :=
    h.disabled hrow (isOrphaned_systemManaged horphan) (ne_of_isOrphaned horphan)
  simp [Schedule.isOrphaned, hen, hst] at horphan

end

theorem synchronizeCounting_loops (hdes : desiredSchedules registry registry [] = .ok desired)
    (hwritable : ∀ item ∈ desired, Writable env now db item) :
    ∃ changed db', synchronizeCounting env db registry now = .ok (changed, db') ∧
      Loops env desired now db db' := by
  have hnodup : (desired.map DesiredSchedule.id).Nodup := desiredSchedules_nodup hdes nodup_nil
  obtain ⟨retired, hfold⟩ : ∃ retired,
      (orphanedIds db desired).foldl (retireCounting desired now) (0, db) =
        (retired, (orphanedIds db desired).foldl (retireSystemSchedule desired now) db) := by
    refine ⟨_, Prod.ext rfl ?_⟩
    exact (foldl_hom Prod.snd fun state id => (retireCounting_snd state id).symm).symm
  have hretire : Retires (orphanedIds db desired) db
      ((orphanedIds db desired).foldl (retireSystemSchedule desired now) db) :=
    orphanedIds_retires db desired
  obtain ⟨changed, db', hregisters, hreg⟩ := reconcileCounting_fold_registers hnodup retired
    fun item hitem => (hwritable item hitem).congr (hretire.lookup_desired hitem)
  refine ⟨changed, db', ?_, hretire.loops hreg⟩
  simp only [synchronizeCounting, hdes]
  rw [← hregisters, ← hfold]
  rfl

/-- **Reconciliation converges.** A run stores exactly the definitions as the enabled system
schedules, disables and deletes the others and leaves the schedules of users alone. What it retires
is no longer due and keeps no unstarted execution, if an earlier retirement left nothing and what
waits is in its slot. A second run, at any instant, changes nothing, if the JSON columns give the
definitions back. -/
theorem synchronize_converges (env : Environment) (db : Database) (registry : Registry)
    (desired : List DesiredSchedule) (t₁ t₂ : Instant)
    (hdes : desiredSchedules registry registry [] = .ok desired)
    (hback : ∀ item ∈ desired, item.ComesBack)
    (hman : ∀ item ∈ desired, ∀ row, db.schedules.lookup item.id = some row →
      row.systemManaged = true)
    (htrig : ∀ item ∈ desired, (item.trigger env (db.schedules.lookup item.id) t₁).isSome = true) :
    ∃ changed db₁, synchronizeCounting env db registry t₁ = .ok (changed, db₁) ∧
      Reconciled env desired t₁ db db₁ ∧ synchronizeCounting env db₁ registry t₂ = .ok (0, db₁) := by
  obtain ⟨changed, db₁, hrun, hloops⟩ := synchronizeCounting_loops hdes
    fun item hitem => ⟨hback item hitem, hman item hitem, htrig item hitem⟩
  exact ⟨changed, db₁, hrun, hloops.reconciled hman,
    synchronizeCounting_settled hdes hloops.orphanedIds_eq_nil hloops.stores htrig⟩

/-- The interval triggers of the library with the anchor at the epoch; it is the only text that
parses, and the text of the instant 0. -/
def epochEnvironment : Environment where
  library :=
    { knownTimezone := fun _ => true
      cronTrigger := fun _ _ => none
      intervalTrigger := fun seconds startAt _ =>
        if hpos : 0 < seconds then
          some
            { first := fun now => some (now + (startAt - now) % (seconds * 1000000))
              next := fun previous _ => some (previous + seconds * 1000000)
              le_first := fun now fire h => by
                have hmod := Int.emod_nonneg (startAt - now)
                  (show (seconds * 1000000 : ℤ) ≠ 0 by omega)
                rw [Option.some.injEq] at h
                omega
              lt_next := fun previous now fire h => by
                rw [Option.some.injEq] at h
                omega }
        else none
      awareDatetime := fun text => if text = "1970-01-01T00:00:00+00:00" then some 0 else none
      isoformat := fun _ => "1970-01-01T00:00:00+00:00" }
  digest := fun _ occurrence => occurrence.toNat

/-- A definition that runs every minute, with more in its trigger data. -/
def cleanupDefinition (more : TriggerData) : SystemScheduleDefinition :=
  { id := "cleanup"
    payload := .object []
    triggerType := .interval
    triggerData := ("seconds", .int 60) :: more }

def cleanupRegistry (more : TriggerData) : Registry :=
  [{ name := "files.cleanup"
     contractVersion := 1
     validatePayload := some
     userSchedulable := false
     systemSchedule := some (cleanupDefinition more) }]

def minutely : TriggerData :=
  [("seconds", .int 60), ("start_at", .string "1970-01-01T00:00:00+00:00")]

def lostSchedule : Schedule :=
  { task := ⟨"files.purge", 1, .object []⟩
    triggerType := .interval
    triggerData := minutely
    timezone := "UTC"
    systemManaged := true
    nextRunAt := some 0 }

/-- The lost schedule is retired and the registered one stored; the second run, a second later,
finds nothing to do. -/
theorem cleanup_converges : ∃ changed db₁,
      synchronizeCounting epochEnvironment (Database.empty.setSchedule "purge" lostSchedule)
        (cleanupRegistry []) 0 = .ok (changed, db₁) ∧
      Reconciled epochEnvironment [⟨⟨"files.cleanup", 1, .object []⟩, cleanupDefinition []⟩] 0
        (Database.empty.setSchedule "purge" lostSchedule) db₁ ∧
      synchronizeCounting epochEnvironment db₁ (cleanupRegistry []) 1000000 = .ok (0, db₁) := by
  refine synchronize_converges epochEnvironment _ (cleanupRegistry []) _ 0 1000000 rfl ?_ ?_ ?_
  · intro item hitem
    rw [mem_singleton.mp hitem]
    exact ⟨rfl, rfl⟩
  · intro item hitem row hrow
    rw [mem_singleton.mp hitem] at hrow
    cases hrow
  · intro item hitem
    rw [mem_singleton.mp hitem]
    rfl

/-- A schedule that is already disabled and deleted and still has a next run, and another with an
execution that its slot does not name. -/
def leftoverDatabase : Database :=
  ((Database.empty.setSchedule "expired"
      { lostSchedule with enabled := false, status := .deleted }).setSchedule "lost"
        lostSchedule).setExecution 1
    { scheduleId := "lost"
      task := lostSchedule.task
      providerGeneration := 1
      scheduledFor := 0
      createdAt := 0 }

/-- The registered interval is stored with an anchor that does not parse. -/
def unanchoredDatabase : Database :=
  Database.empty.setSchedule "cleanup"
    { lostSchedule with
      triggerData := [("seconds", .int 60), ("start_at", .string "1970-01-01")] }

/-- The run passes over the retired schedule and over the execution outside the slot, it raises for
the anchor, and a definition with a tuple is written by every run. -/
theorem leftover_work_is_kept :
    (∃ changed db₁, synchronizeCounting epochEnvironment leftoverDatabase [] 0 = .ok (changed, db₁) ∧
      (db₁.schedules.lookup "expired").map Schedule.nextRunAt = some (some 0) ∧
      db₁.HasUnstarted "lost") ∧
    synchronizeCounting epochEnvironment unanchoredDatabase (cleanupRegistry []) 0 =
      .error .invalidTrigger ∧
    ∃ db₁ db₂,
      synchronizeCounting epochEnvironment .empty (cleanupRegistry [("days", .tuple [.int 1])]) 0 =
        .ok (1, db₁) ∧
      synchronizeCounting epochEnvironment db₁ (cleanupRegistry [("days", .tuple [.int 1])]) 1000000 =
        .ok (1, db₂) :=
  ⟨⟨_, _, rfl, rfl, 1, _, rfl, rfl, rfl⟩, rfl, _, _, rfl, rfl⟩

end Cfms.Scheduling
