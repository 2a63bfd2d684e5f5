import Cfms.Lib.Json
import Mathlib.Data.List.Nodup

/-!
# The payload of a backup

An extracted archive: the tables as files of JSON lines, the manifest that names them with their
row counts, and the reader `_iter_raw_table_rows` of `maintenance/backup/rows.py`.
-/

namespace Cfms.Backup

open Lib List

/-! ### JSON rows -/

/-- A JSON object by field; `none` where it has no such field. -/
abbrev JsonRow := String → Option Json

namespace JsonRow

/-- `row.get(field, default)`. -/
def getD (row : JsonRow) (field : String) (default : Json) : Json := (row field).getD default

/-- `row.get(field)`. -/
def get (row : JsonRow) (field : String) : Json := row.getD field .null

/-- `{**row, field: value}`. -/
def set (row : JsonRow) (field : String) (value : Json) : JsonRow :=
  Function.update row field (some value)

/-- The row after `row.pop` of some fields. -/
def without (row : JsonRow) (fields : List String) : JsonRow := fun field =>
  if field ∈ fields then none else row field

/-- A dictionary display. -/
def ofFields (fields : List (String × Json)) : JsonRow := fun field => fields.lookup field

end JsonRow

/-! ### Errors -/

/-- What a restore raises: `BackupFormatError`, or `TypeError` for a value that is no key of a
dictionary. -/
inductive RestoreError
  | rowTooLong (table : String) (line : ℕ)
  | invalidRow (table : String) (line : ℕ)
  | rowNotObject (table : String) (line : ℕ)
  | rowCountMismatch (table : String) (expected found : ℕ)
  | mixedCredentials
  | invalidIdentity
  | orphanedReference (table column : String)
  | unhashable
  deriving DecidableEq

def maxJsonlRowBytes : ℕ := 16 * 1024 * 1024

/-- The text of a `BackupFormatError`, with paths relative to the extracted archive. -/
def RestoreError.message : RestoreError → Option String
  | .rowTooLong table line =>
    some s!"JSON row in tables/{table}.jsonl at line {line} exceeds the {maxJsonlRowBytes}-byte limit"
  | .invalidRow table line => some s!"Invalid JSON row in tables/{table}.jsonl at line {line}"
  | .rowNotObject table line =>
    some s!"JSON row in tables/{table}.jsonl at line {line} must be an object"
  | .rowCountMismatch table expected found =>
    some (s!"Row count mismatch for table '{table}': " ++
      s!"manifest says {expected}, payload has {found}")
  | .mixedCredentials => some "Backup mixes inline and separate credentials"
  | .invalidIdentity => some "Invalid legacy account identity"
  | .orphanedReference table column => some s!"Orphaned account reference in {table}.{column}"
  | .unhashable => none

/-! ### Tables and their rows -/

inductive LineContent
  | blank
  | malformed
  | notObject
  | object (row : JsonRow)

structure Line where
  /-- Without the newline. -/
  bytes : ℕ
  content : LineContent

def Line.row? (line : Line) : Option JsonRow :=
  match line.content with
  | .object row => some row
  | _ => none

/-- A table of an archive: its entry of the manifest, and the lines of its file. -/
structure TablePayload where
  name : String
  columns : List String
  /-- The row count of the manifest. -/
  rows : ℕ
  lines : List Line

variable (table : TablePayload)

/-- The rows of the file. -/
def TablePayload.objects : List JsonRow := table.lines.filterMap Line.row?

/-- A generator of rows. -/
inductive RowStream
  | stop
  | raise (error : RestoreError)
  | yield (row : JsonRow) (rest : RowStream)

/-- The loop of `_iter_raw_table_rows`. -/
def iterRawLines (table : String) (rows : ℕ) : ℕ → ℕ → List Line → RowStream
  | _, rowCount, [] =>
    if rowCount = rows then .stop else .raise (.rowCountMismatch table rows rowCount)
  | lineNumber, rowCount, line :: lines =>
    let lineNumber := lineNumber + 1
    if maxJsonlRowBytes < line.bytes then .raise (.rowTooLong table lineNumber) else
    match line.content with
    | .blank => iterRawLines table rows lineNumber rowCount lines
    | .malformed => .raise (.invalidRow table lineNumber)
    | .notObject => .raise (.rowNotObject table lineNumber)
    | .object row => .yield row (iterRawLines table rows lineNumber (rowCount + 1) lines)

def iterRawTableRows : RowStream :=
  iterRawLines table.name table.rows 0 0 table.lines

namespace RowStream

variable {σ : Type*} {body : σ → JsonRow → Except RestoreError σ}

/-- `for row in stream`. -/
def forEach (body : σ → JsonRow → Except RestoreError σ) : RowStream → σ → Except RestoreError σ
  | .stop, state => .ok state
  | .raise error, _ => .error error
  | .yield row rest, state => do rest.forEach body (← body state row)

/-- `next(stream, None)`. -/
def next : RowStream → Except RestoreError (Option JsonRow)
  | .stop => .ok none
  | .raise error => .error error
  | .yield row _ => .ok (some row)

inductive Yields : RowStream → List JsonRow → Prop
  | stop : Yields .stop []
  | yield {row : JsonRow} {rest : RowStream} {rows : List JsonRow} (h : Yields rest rows) :
      Yields (.yield row rest) (row :: rows)

theorem yields_of_forEach {stream : RowStream} {state state' : σ}
    (h : stream.forEach body state = .ok state') :
    ∃ rows, stream.Yields rows ∧ rows.foldlM body state = .ok state' := by
  induction stream generalizing state with
  | stop => exact ⟨[], .stop, h⟩
  | raise error => exact absurd h (by simp [forEach])
  | yield row rest ih =>
    cases hbody : body state row with
    | error error =>
      rw [forEach, hbody] at h
      exact absurd h (by simp [bind, Except.bind])
    | ok middle =>
      rw [forEach, hbody] at h
      obtain ⟨rows, hyields, hfold⟩ := ih h
      refine ⟨row :: rows, .yield hyields, ?_⟩
      rw [foldlM_cons, hbody]
      exact hfold

end RowStream

variable {rows lineNumber rowCount : ℕ} {lines : List Line}

theorem objects_of_yields_lines {table : String} {yielded : List JsonRow}
    (h : (iterRawLines table rows lineNumber rowCount lines).Yields yielded) :
    lines.filterMap Line.row? = yielded ∧ rowCount + yielded.length = rows := by
  induction lines generalizing lineNumber rowCount yielded with
  | nil =>
    rw [iterRawLines] at h
    split at h
    · cases h
      exact ⟨rfl, by assumption⟩
    · cases h
  | cons line lines ih =>
    simp only [iterRawLines] at h
    split at h
    · cases h
    cases hcont : line.content with
    | blank =>
      simp only [hcont] at h
      obtain ⟨hrows, hcount⟩ := ih h
      exact ⟨by simp [Line.row?, hcont, hrows], hcount⟩
    | malformed | notObject =>
      simp only [hcont] at h
      cases h
    | object row =>
      simp only [hcont] at h
      cases h with
      | yield h =>
        obtain ⟨hrows, hcount⟩ := ih h
        refine ⟨by simp [Line.row?, hcont, hrows], ?_⟩
        rw [length_cons]
        omega

variable {table : TablePayload}

theorem objects_of_yields {rows : List JsonRow} (h : (iterRawTableRows table).Yields rows) :
    table.objects = rows ∧ rows.length = table.rows := by
  obtain ⟨hrows, hcount⟩ := objects_of_yields_lines h
  exact ⟨hrows, by omega⟩

variable {first : Option JsonRow}

theorem head_of_next_lines {table : String}
    (h : (iterRawLines table rows lineNumber rowCount lines).next = .ok first) :
    (lines.filterMap Line.row?).head? = first := by
  induction lines generalizing lineNumber rowCount with
  | nil =>
    rw [iterRawLines] at h
    split at h <;> cases h
    rfl
  | cons line lines ih =>
    simp only [iterRawLines] at h
    split at h
    · cases h
    cases hcont : line.content with
    | blank =>
      simp only [hcont] at h
      rw [filterMap_cons, Line.row?, hcont]
      exact ih h
    | malformed | notObject =>
      simp only [hcont] at h
      cases h
    | object row =>
      simp only [hcont] at h
      cases h
      rw [filterMap_cons, Line.row?, hcont]
      rfl

theorem head_of_next
    (h : (iterRawTableRows table).next = .ok first) : table.objects.head? = first :=
  head_of_next_lines h

/-! ### The manifest -/

/-- `manifest["tables"]`, a dictionary by name. -/
structure Manifest where
  tables : List TablePayload
  nodup : (tables.map TablePayload.name).Nodup

/-- `tables[table.name] = table`. -/
def setTable (table : TablePayload) : List TablePayload → List TablePayload
  | [] => [table]
  | other :: tables =>
    if other.name = table.name then table :: tables else other :: setTable table tables

variable {tables : List TablePayload}

theorem mem_names_setTable {name : String}
    (h : name ∈ (setTable table tables).map TablePayload.name) :
    name = table.name ∨ name ∈ tables.map TablePayload.name := by
  induction tables with
  | nil => exact Or.inl (mem_singleton.mp h)
  | cons other tables ih =>
    rw [setTable] at h
    split at h
    · rcases mem_cons.mp h with hname | hname
      · exact Or.inl hname
      · exact Or.inr (mem_cons_of_mem _ hname)
    · rcases mem_cons.mp h with hname | hname
      · exact Or.inr (hname ▸ mem_cons_self)
      · exact (ih hname).imp_right (mem_cons_of_mem _)

theorem nodup_setTable (h : (tables.map TablePayload.name).Nodup) :
    ((setTable table tables).map TablePayload.name).Nodup := by
  induction tables with
  | nil => exact pairwise_singleton ..
  | cons other tables ih =>
    obtain ⟨hother, htables⟩ := nodup_cons.mp h
    rw [setTable]
    split
    next heq => exact nodup_cons.mpr ⟨heq ▸ hother, htables⟩
    next hne =>
      refine nodup_cons.mpr ⟨?_, ih htables⟩
      intro hmem
      rcases mem_names_setTable hmem with hname | hname
      · exact hne hname
      · exact hother hname

theorem find_setTable (table : TablePayload) (tables : List TablePayload) (name : String) :
    (setTable table tables).find? (fun t => t.name = name) =
      if name = table.name then some table else tables.find? fun t => t.name = name := by
  induction tables with
  | nil => by_cases h : name = table.name <;> simp [setTable, eq_comm]
  | cons other tables ih =>
    rw [setTable]
    split
    next heq => by_cases h : name = table.name <;> simp [h, heq, eq_comm]
    next hne =>
      rw [find?_cons, find?_cons, ih]
      by_cases h : name = table.name
      · simp [h, hne]
      · simp [h]

variable (manifest : Manifest)

namespace Manifest

def table? (name : String) : Option TablePayload :=
  manifest.tables.find? fun table => table.name = name

/-- The rows of a table; none where the archive does not have it. -/
def rowsOf (name : String) : List JsonRow :=
  (manifest.table? name).elim [] TablePayload.objects

def set (table : TablePayload) : Manifest where
  tables := setTable table manifest.tables
  nodup := nodup_setTable manifest.nodup

theorem table?_set (table : TablePayload) (name : String) : (manifest.set table).table? name =
      if name = table.name then some table else manifest.table? name :=
  find_setTable table manifest.tables name

theorem rowsOf_set (table : TablePayload) (name : String) : (manifest.set table).rowsOf name =
      if name = table.name then table.objects else manifest.rowsOf name := by
  rw [rowsOf, table?_set]
  split <;> rfl

theorem table?_eq_some {manifest : Manifest} {table : TablePayload} {name : String} :
    manifest.table? name = some table ↔ table ∈ manifest.tables ∧ table.name = name := by
  constructor
  · intro h
    exact ⟨mem_of_find?_eq_some h, by simpa using find?_some h⟩
  · rintro ⟨hmem, rfl⟩
    cases hfound : manifest.table? table.name with
    | none =>
      exact absurd (decide_eq_true rfl) (find?_eq_none.mp hfound table hmem)
    | some other =>
      have hother : other.name = table.name := by simpa using find?_some hfound
      exact congrArg some (inj_on_of_nodup_map manifest.nodup
        (mem_of_find?_eq_some hfound) hmem hother)

end Manifest

variable {convert : TablePayload → Except RestoreError TablePayload} {tables' : List TablePayload}

variable (hname : ∀ {table table'}, convert table = .ok table' → table'.name = table.name)

include hname

theorem names_of_mapM
    (h : tables.mapM convert = .ok tables') :
    List.Forall₂ (fun table table' => convert table = .ok table') tables tables' ∧
      tables'.map TablePayload.name = tables.map TablePayload.name := by
  induction tables generalizing tables' with
  | nil =>
    cases h
    exact ⟨.nil, rfl⟩
  | cons table tables ih =>
    rw [mapM_cons] at h
    cases hconv : convert table with
    | error error =>
      rw [hconv] at h
      cases h
    | ok converted =>
      cases hrest : tables.mapM convert with
      | error error =>
        rw [hconv, hrest] at h
        cases h
      | ok rest =>
        rw [hconv, hrest] at h
        cases h
        obtain ⟨hall, hnames⟩ := ih hrest
        refine ⟨.cons hconv hall, ?_⟩
        rw [map_cons, map_cons, hname hconv, hnames]

theorem find_of_mapM
    (h : List.Forall₂ (fun table table' => convert table = .ok table') tables tables')
    (name : String) :
    (tables.find? (fun table => table.name = name) = none ∧
        tables'.find? (fun table => table.name = name) = none) ∨
      ∃ table table', tables.find? (fun table => table.name = name) = some table ∧
        tables'.find? (fun table => table.name = name) = some table' ∧
        convert table = .ok table' := by
  induction h with
  | nil => exact Or.inl ⟨rfl, rfl⟩
  | @cons table table' before after hconv _ ih =>
    rw [find?_cons, find?_cons, hname hconv]
    by_cases heq : table.name = name
    · simp only [heq]
      exact Or.inr ⟨table, table', rfl, rfl, hconv⟩
    · simp only [heq]
      exact ih

omit hname

/-- `for name in manifest["tables"]: manifest["tables"][name] = …`. -/
def Manifest.mapM (manifest : Manifest) (convert : TablePayload → Except RestoreError TablePayload)
    (hname : ∀ {table table'}, convert table = .ok table' → table'.name = table.name) :
    Except RestoreError Manifest :=
  match h : manifest.tables.mapM convert with
  | .error error => .error error
  | .ok tables => .ok ⟨tables, (names_of_mapM hname h).2 ▸ manifest.nodup⟩

theorem Manifest.table?_of_mapM {manifest manifest' : Manifest}
    {hname : ∀ {table table'}, convert table = .ok table' → table'.name = table.name}
    (h : manifest.mapM convert hname = .ok manifest') (name : String) :
    (manifest.table? name = none ∧ manifest'.table? name = none) ∨
      ∃ table table', manifest.table? name = some table ∧ manifest'.table? name = some table' ∧
        convert table = .ok table' := by
  rw [Manifest.mapM] at h
  split at h
  · cases h
  next tables htables =>
    cases h
    exact find_of_mapM hname (names_of_mapM hname htables).1 name

end Cfms.Backup
