import Cfms.Backup.Selection
import Cfms.Scheduling.Slot

/-!
# Schedules in a backup

The tables of the scheduler on their way through `_export_tables` and `_restore_database`.  A row is
written with all its columns and comes back with them: texts, numbers, Booleans and JSON are kept
by `_serialize_value` and `_decode_row`, and no column of `schedules` is deferred.  The executions
are excluded from every backup, so that a restored slot that is not empty names a row that is
missing.
-/

namespace Cfms.Backup

open Lib Scheduling List

/-! ### Export and restore -/

/-- A row of a table of the scheduler. -/
inductive SchedulingRow
  | schedule (id : ScheduleId) (row : Schedule)
  | execution (id : ExecutionId) (row : Execution)
  | runtime (row : RuntimeState)

variable (db : Scheduling.Database)

/-- `select(*stored_columns)`. -/
def tableRows : TableName → List SchedulingRow
  | .schedules => db.schedules.entries.map fun row => .schedule row.1 row.2
  | .scheduleExecutions => db.executions.entries.map fun row => .execution row.1 row.2
  | .schedulingRuntimeState => db.runtime.toList.map .runtime
  | _ => []

/-- The tables of an archive, with the rows of the ones of the scheduler. -/
abbrev SchedulingPayload := List (TableName × List SchedulingRow)

def exportTables (selection : Option BackupExportSelection) (db : Scheduling.Database) :
    SchedulingPayload :=
  (exportedTableNames selection).map fun name => (name, tableRows db name)

def insertRow : SchedulingRow → Scheduling.Database
  | .schedule id row => db.setSchedule id row
  | .execution id row => db.setExecution id row
  | .runtime row => { db with runtime := some row }

/-- `_restore_database`, into tables that are empty. -/
def restoreDatabase (payload : SchedulingPayload) : Scheduling.Database :=
  payload.foldl (fun db table => table.2.foldl insertRow db) .empty

/-- The scheduler's tables after `export_backup` and `import_backup`. -/
def roundTrip (selection : Option BackupExportSelection) (source : Scheduling.Database) :
    Scheduling.Database :=
  restoreDatabase (exportTables selection source)

/-- Each slot that is not empty names an execution that has not ended. -/
def NoneStranded : Prop :=
  ∀ id schedule key, db.schedules.lookup id = some schedule →
    schedule.activeExecutionId = some key →
      ∃ e, db.executions.lookup key = some e ∧ e.state.isActive = true

/-- No execution is pending, running or waiting for a retry. -/
def NothingInProgress : Prop :=
  ∀ key e, db.executions.lookup key = some e → e.state.isActive = false

theorem nothingInProgress_of_any {db : Scheduling.Database}
    (h : (db.executions.any fun _ e => e.state.isActive) = false) : NothingInProgress db := by
  intro key e he
  cases hact : e.state.isActive with
  | false => rfl
  | true =>
    have hany : (db.executions.any fun _ e => e.state.isActive) = true :=
      Table.any_iff.mpr ⟨key, e, he, hact⟩
    rw [h] at hany
    cases hany

/-! ### What comes back -/

section

variable {source db : Scheduling.Database} {sel : Option BackupExportSelection}

variable {rows : List ((_ : ScheduleId) × Schedule)}

theorem lookup_insertSchedules (hkeys : rows.NodupKeys) (id : ScheduleId) :
    ((rows.map fun row => SchedulingRow.schedule row.1 row.2).foldl insertRow db).schedules.lookup id =
      (List.dlookup id rows).or (db.schedules.lookup id) := by
  induction rows generalizing db with
  | nil => rfl
  | cons row rest ih =>
    obtain ⟨key, sched⟩ := row
    rw [nodupKeys_cons] at hkeys
    rw [map_cons, foldl_cons, ih hkeys.2]
    by_cases hid : id = key
    · subst hid
      have hrest : dlookup id rest = none := dlookup_eq_none.mpr hkeys.1
      rw [hrest, dlookup_cons_eq]
      exact AList.lookup_insert _
    · rw [dlookup_cons_ne _ _ hid]
      congr 1
      exact AList.lookup_insert_ne hid

theorem executions_insertSchedules :
    ((rows.map fun row => SchedulingRow.schedule row.1 row.2).foldl insertRow db).executions =
      db.executions := by
  induction rows generalizing db with
  | nil => rfl
  | cons row rest ih => exact ih

theorem restore_table (source db : Scheduling.Database) {name : TableName}
    (hname : name ∉ excludedTableNames) :
    ((tableRows source name).foldl insertRow db).executions = db.executions ∧
      ∀ id, ((tableRows source name).foldl insertRow db).schedules.lookup id =
        (if name = .schedules then source.schedules.lookup id else none).or
          (db.schedules.lookup id) := by
  by_cases hscheds : name = .schedules
  · subst hscheds
    refine ⟨executions_insertSchedules, ?_⟩
    intro id
    exact lookup_insertSchedules source.schedules.nodupKeys id
  · have hrows : tableRows source name = [] := by
      cases name <;> first | rfl | exact absurd rfl hscheds | exact absurd (by decide) hname
    rw [hrows]
    refine ⟨rfl, ?_⟩
    intro id
    rw [if_neg hscheds]
    rfl

/-- **The schedules come back and the executions do not.** -/
theorem restore_tables (source db : Scheduling.Database) {names : List TableName}
    (hnames : ∀ name ∈ names, name ∉ excludedTableNames) :
    ((names.map fun name => (name, tableRows source name)).foldl
        (fun db table => table.2.foldl insertRow db) db).executions = db.executions ∧
      ∀ id, ((names.map fun name => (name, tableRows source name)).foldl
        (fun db table => table.2.foldl insertRow db) db).schedules.lookup id =
          (if .schedules ∈ names then source.schedules.lookup id else none).or
            (db.schedules.lookup id) := by
  induction names generalizing db with
  | nil => exact ⟨rfl, fun id => rfl⟩
  | cons name rest ih =>
    obtain ⟨hexecs, hscheds⟩ := restore_table source db (hnames name mem_cons_self)
    obtain ⟨hexecs', hscheds'⟩ := ih ((tableRows source name).foldl insertRow db)
      fun later hlater => hnames later (mem_cons_of_mem _ hlater)
    rw [map_cons, foldl_cons]
    refine ⟨hexecs'.trans hexecs, ?_⟩
    intro id
    rw [hscheds', hscheds]
    by_cases hname : name = .schedules
    · rw [if_pos hname, if_pos (mem_cons.mpr (Or.inl hname.symm))]
      cases source.schedules.lookup id with
      | none => rw [ite_self, Option.none_or]
      | some sched =>
        split_ifs <;> rfl
    · have hmem : TableName.schedules ∈ name :: rest ↔ .schedules ∈ rest := by
        rw [mem_cons]
        exact ⟨fun h => h.resolve_left (Ne.symm hname), Or.inr⟩
      rw [if_neg hname, Option.none_or]
      simp only [hmem]

theorem executions_roundTrip : (roundTrip sel source).executions = ∅ :=
  (restore_tables source .empty fun _ hname hexcl =>
    not_mem_exportedTableNames sel hexcl hname).1

theorem schedules_roundTrip (haccts : .accounts ∈ selectionComponents sel) (id : ScheduleId) :
    (roundTrip sel source).schedules.lookup id = source.schedules.lookup id := by
  have hscheds : .schedules ∈ exportedTableNames sel :=
    mem_exportedTableNames haccts (by decide) (by decide)
  have hlook := (restore_tables source .empty fun _ hname hexcl =>
    not_mem_exportedTableNames sel hexcl hname).2 id
  rw [if_pos hscheds] at hlook
  rw [roundTrip, restoreDatabase, exportTables, hlook]
  exact Option.or_none

theorem noneStranded_roundTrip_iff (haccts : .accounts ∈ selectionComponents sel) :
    NoneStranded (roundTrip sel source) ↔
      ∀ id sched, source.schedules.lookup id = some sched → sched.activeExecutionId = none := by
  constructor
  · intro hnone id sched hsched
    cases hslot : sched.activeExecutionId with
    | none => rfl
    | some key =>
      rw [← schedules_roundTrip haccts] at hsched
      obtain ⟨e, he, -⟩ := hnone id sched key hsched hslot
      rw [executions_roundTrip] at he
      exact absurd he Table.lookup_empty_ne_some
  · intro hempty id sched key hsched hslot
    rw [schedules_roundTrip haccts] at hsched
    rw [hempty id sched hsched] at hslot
    cases hslot

theorem oneSlot_roundTrip_iff :
    OneSlot (roundTrip sel source) ↔ NoneStranded (roundTrip sel source) := by
  constructor
  · intro h id sched key hsched hslot
    obtain ⟨e, he, -, hact⟩ := h.slot id sched key hsched hslot
    exact ⟨e, he, hact⟩
  · intro h
    constructor
    · intro id sched key hsched hslot
      obtain ⟨e, he, -⟩ := h id sched key hsched hslot
      rw [executions_roundTrip] at he
      exact absurd he Table.lookup_empty_ne_some
    · intro key e he
      rw [executions_roundTrip] at he
      exact absurd he Table.lookup_empty_ne_some

theorem nothingInProgress_iff (h : OneSlot source) : NothingInProgress source ↔
    ∀ id sched, source.schedules.lookup id = some sched → sched.activeExecutionId = none := by
  constructor
  · intro hnothing id sched hsched
    cases hslot : sched.activeExecutionId with
    | none => rfl
    | some key =>
      obtain ⟨e, he, -, hact⟩ := h.slot id sched key hsched hslot
      rw [hnothing key e he] at hact
      cases hact
  · intro hempty key e he
    cases hact : e.state.isActive with
    | false => rfl
    | true =>
      obtain ⟨sched, hsched, hslot⟩ := h.active key e he hact
      rw [hempty e.scheduleId sched hsched] at hslot
      cases hslot

end

/-! ### Restored schedules -/

/-- **A backup leaves no schedule stranded exactly if nothing was in progress**: no execution was
pending, running or waiting for a retry at the moment of the export. -/
theorem restored_schedules_not_stranded_iff (env : Environment) (actions : List Action)
    (sel : Option BackupExportSelection)
    (haccts : .accounts ∈ selectionComponents sel) :
    (NoneStranded (roundTrip sel (reached env actions)) ∧
        OneSlot (roundTrip sel (reached env actions))) ↔
      NothingInProgress (reached env actions) := by
  rw [oneSlot_roundTrip_iff, and_self, noneStranded_roundTrip_iff haccts,
    nothingInProgress_iff (oneSlot_reached env actions)]

/-- An interval trigger with a period of one hour. -/
def hourlyTrigger (startAt : ℤ) : RecurringTrigger where
  first := fun now => some (startAt + 3600000000 * max 0 (-((startAt - now) / 3600000000)))
  next := fun previous _ => some (previous + 3600000000)
  le_first := by
    intro now fire h
    cases h
    omega
  lt_next := by
    intro previous now fire h
    cases h
    omega

/-- All intervals are an hour, and all texts write the instant 0. -/
def hourlyEnvironment : Environment where
  library :=
    { knownTimezone := fun _ => true
      cronTrigger := fun _ _ => none
      intervalTrigger := fun _ startAt _ => some (hourlyTrigger startAt)
      awareDatetime := fun _ => some 0
      isoformat := fun _ => "" }
  digest := fun _ occurrence => occurrence.toNat

def hourlyRequest : ScheduleRequest where
  taskName := "test.record"
  payload := .object []
  triggerType := .interval
  triggerData := [("seconds", .int 3600), ("start_at", .string "1970-01-01T00:00:00+00:00")]
  timezone := "UTC"
  enabled := true

def hourlyRun : List Action :=
  [.ensureRuntimeState .localProvider none 1,
    .createSchedule [{ name := "test.record", contractVersion := 1, validatePayload := some }]
      "schedule-1" hourlyRequest 1,
    .enqueue {} 1 "schedule-1" 3600000000]

/-- The execution runs to its end. -/
def finishedRun : List Action :=
  hourlyRun ++
    [.claim {} 1 7 3600000001 3600000001,
      .complete ⟨3600000000, "schedule-1", ⟨"test.record", 1, .object []⟩, 3600000000, 1, 7⟩ 1 3600000002]

/-- The schedule comes back with its slot empty. -/
theorem finishedRun_restored :
    ((roundTrip none (reached hourlyEnvironment finishedRun)).schedules.lookup "schedule-1").isSome =
        true ∧
      NoneStranded (roundTrip none (reached hourlyEnvironment finishedRun)) ∧
        OneSlot (roundTrip none (reached hourlyEnvironment finishedRun)) := by
  refine ⟨by decide +kernel, ?_⟩
  apply (restored_schedules_not_stranded_iff hourlyEnvironment finishedRun none (by decide)).mpr
  apply nothingInProgress_of_any
  decide +kernel

/-- The export finds the execution pending, and the restored schedule waits for a row that is missing. -/
theorem pending_execution_strands_schedule : .accounts ∈ selectionComponents none ∧
      ¬(NoneStranded (roundTrip none (reached hourlyEnvironment hourlyRun)) ∧
        OneSlot (roundTrip none (reached hourlyEnvironment hourlyRun))) := by
  refine ⟨by decide, ?_⟩
  rintro ⟨hnone, -⟩
  have hslot : ((reached hourlyEnvironment hourlyRun).schedules.lookup "schedule-1").bind
      Schedule.activeExecutionId = some 3600000000 := by
    decide +kernel
  obtain ⟨sched, hsched, hkey⟩ := Option.bind_eq_some_iff.mp hslot
  have hempty := (noneStranded_roundTrip_iff (by decide)).mp hnone "schedule-1" sched hsched
  rw [hempty] at hkey
  cases hkey

end Cfms.Backup
