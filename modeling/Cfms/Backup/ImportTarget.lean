import Cfms.Backup.NodeStaging
import Cfms.Backup.Payload
import Cfms.Lib.Process
import Cfms.Lib.Table

/-!
# The target of an import

What `import_backup` of `maintenance/backup/restore.py` calls: the storage, the target database, the
configuration file and the init marker, and code whose outcome comes from outside and which changes
none of these.  The list `written_paths` and the flag `finalization_started`, which the handler
reads, are variables of the program; they are kept beside the target.

Calls raise, but for those that clean up after an exception and for the reports of the progress after
the commit.  `fopen` raises before it creates an object, and a commit that raises has committed
nothing.
-/

namespace Cfms.Backup

open Lib Lib.Process

abbrev Bytes := List UInt8

/-! ### Exceptions -/

inductive TargetFile
  | config
  | initMarker
  deriving DecidableEq

inductive ImportFailure
  -- `BackupRestoreError`
  | unregisteredTables (names : List String)
  | targetNotEmpty (table : String) (count : ℕ)
  | existingFile (storagePath : String)
  | snapshotTooLarge (target : TargetFile) (maximum : ℕ)
  | configurationNotFound
  -- `BackupFormatError`
  | unsafeStoragePath (storagePath : String)
  | missingPayload (archivePath : String)
  | filesMismatch
  | activeFileWithoutPayload
  | invalidCredentialIdentity
  | missingRuleSet
  | duplicateNodeNames
  | payload (error : RestoreError)
  | nodes (error : NodeRestoreError)
  -- `BackupIntegrityError`
  | verificationFailed (storagePath : String)
  /-- `IntegrityError`, and `is_node_name_conflict` of it. -/
  | integrityError (isNodeNameConflict : Bool)
  | osError
  /-- The configuration is too long, no UTF-8 or no TOML. -/
  | invalidConfiguration
  /-- Any other exception of a call. -/
  | other
  deriving DecidableEq

/-- The text of the exceptions of the import itself. -/
def ImportFailure.message : ImportFailure → Option String
  | .unregisteredTables names => some s!"Unregistered target tables: {names}"
  | .targetNotEmpty table count =>
    some s!"Target database is not empty; table '{table}' has {count} row(s)"
  | .existingFile storagePath =>
    some s!"Refusing to overwrite existing storage file: {storagePath}"
  | .snapshotTooLarge _ maximum =>
    some s!"Backup restore target exceeds the {maximum}-byte rollback limit"
  | .configurationNotFound => some "Configuration file not found"
  | .unsafeStoragePath storagePath => some s!"Unsafe storage path in backup: '{storagePath}'"
  | .missingPayload archivePath => some s!"Backup payload is missing {archivePath}"
  | .filesMismatch => some "Backup file manifest does not match the files table"
  | .activeFileWithoutPayload => some "Backup active files table row has no payload"
  | .invalidCredentialIdentity => some "Missing or invalid credential identity in backup"
  | .missingRuleSet => some "Compiled access rule row is missing a restorable rule_set_id"
  | .duplicateNodeNames => some "Backup contains active sibling nodes with duplicate names"
  | .payload error => error.message
  | .nodes error => error.message
  | .verificationFailed storagePath =>
    some s!"File payload failed verification for {storagePath}"
  | _ => none

/-! ### Calls -/

/-- The phases that `_emit_progress` reports. -/
inductive Phase
  | readHeader
  | prepareTarget
  | decryptPayload
  | extractPayload
  | validateManifest
  | restoreFiles
  | restoreFile
  | restoreDatabase
  | restoreDatabaseRows
  | restoreTable
  | restoreConfig
  | completeImport
  deriving DecidableEq

/-- What precedes the restore. -/
inductive Preparation
  | readHeader
  | loadExtensionData
  | createWorkspace
  | decryptPayload
  | extractPayload
  | loadManifest
  | validateManifest
  | validatePayloadTree
  | checkExtensionTables
  deriving DecidableEq

/-- The rows of a compiled rule, by the id of its rule set, each with its table. -/
abbrev CompiledRuleRows := String → List (String × JsonRow)

inductive OutsideOp
  | emitProgress (phase : Phase)
  | prepare (step : Preparation)
  | isFile (archivePath : String)
  | openSource (archivePath : String)
  | readSource (archivePath : String)
  | closeSource (archivePath : String)
  | makedirs (parent : String)
  | tokenHex
  | uuid4
  | now
  | decodeRow (table : String) (row : JsonRow)
  /-- The rows of `nodes`, `folders` and `documents`. -/
  | readNodeTables
  | compileAccessRule (row : JsonRow)

@[reducible] def OutsideOp.Result : OutsideOp → Type
  | .isFile _ => Bool
  | .readSource _ => Bytes
  | .tokenHex | .uuid4 => String
  | .now => Json
  | .decodeRow _ _ => JsonRow
  | .readNodeTables => NodePayload
  | .compileAccessRule _ => Option CompiledRuleRows
  | _ => Unit

inductive StorageOp
  | objectExists (path : String)
  | fopen (path : String)
  | write (path : String) (chunk : Bytes)
  | close (path : String)
  | remove (path : String)

@[reducible] def StorageOp.Result : StorageOp → Type
  | .objectExists _ => Bool
  | _ => Unit

inductive DatabaseOp
  | createTables (names : List String)
  | tableNames
  | countRows (table : String)
  | beginTransaction
  | select (table : String)
  | insert (table : String) (rows : List JsonRow)
  | update (table column : String) (key : Json) (values : List (String × Json))
  /-- `CommentStore.get_or_create_id`. -/
  | getOrCreateComment (text : Json)
  | commit
  | rollback

@[reducible] def DatabaseOp.Result : DatabaseOp → Type
  | .tableNames => List String
  | .countRows _ => ℕ
  | .select _ => List JsonRow
  | .getOrCreateComment _ => Json
  | _ => Unit

/-- Calls on the configuration file or the init marker. -/
inductive FileOp
  | pathExists
  /-- `open("rb").read(maximum + 1)`; `none` for `FileNotFoundError`. -/
  | read (maximum : ℕ)
  | makeParent
  | mkstemp
  | writeTemporary (contents : Bytes)
  | copymode
  | replace (contents : Bytes)
  | unlinkTemporary
  | unlink

@[reducible] def FileOp.Result : FileOp → Type
  | .pathExists => Bool
  | .read _ => Option Bytes
  | _ => Unit

inductive VariableOp
  | initWrittenPaths
  | initFinalizationStarted
  | appendWrittenPath (path : String)
  | writtenPaths
  | startFinalization
  | finalizationStarted

@[reducible] def VariableOp.Result : VariableOp → Type
  | .writtenPaths => List String
  | .finalizationStarted => Bool
  | _ => Unit

inductive Op
  | outside (op : OutsideOp)
  | storage (op : StorageOp)
  | database (op : DatabaseOp)
  /-- `cleanUp` for the calls of the handler. -/
  | file (cleanUp : Bool) (target : TargetFile) (op : FileOp)
  | local_ (op : VariableOp)

@[reducible] def Op.Result : Op → Type
  | .outside op => op.Result
  | .storage op => op.Result
  | .database op => op.Result
  | .file _ _ op => op.Result
  | .local_ op => op.Result

def importSignature : Signature := ⟨Op, Op.Result⟩

abbrev Import (α : Type) := Proc importSignature ImportFailure α

def call (op : Op) : Import op.Result := @Proc.perform importSignature ImportFailure op

def outside (op : OutsideOp) : Import op.Result := call (.outside op)

def storage (op : StorageOp) : Import op.Result := call (.storage op)

def database (op : DatabaseOp) : Import op.Result := call (.database op)

/-- Calls that read and write rows, in a transaction that others commit. -/
def Op.isRowCall : Op → Prop
  | .outside _ => True
  | .database .commit => False
  | .database _ => True
  | _ => False

/-- Programs that make no other calls. -/
abbrev Rows (α : Type) := Proc (importSignature.only Op.isRowCall) ImportFailure α

def rowCall (op : Op) (h : op.isRowCall) : Rows op.Result :=
  @Proc.perform (importSignature.only Op.isRowCall) ImportFailure ⟨op, h⟩

/-! ### The target -/

structure TargetDatabase where
  /-- The committed rows. -/
  tables : Table String (List JsonRow)
  /-- The rows as the open transaction sees them. -/
  transaction : Option (Table String (List JsonRow)) := none

variable (tables : Table String (List JsonRow))

def rowsIn (table : String) : List JsonRow :=
  (tables.lookup table).getD []

structure World where
  objects : Table String Bytes
  database : TargetDatabase
  file : TargetFile → Option Bytes
  writtenPaths : List String
  finalizationStarted : Bool

/-- The committed rows of a table; a table that does not exist has none. -/
def World.rows (w : World) (table : String) : List JsonRow := rowsIn w.database.tables table

/-! ### Answers -/

/-- The part of an answer that comes from outside. -/
inductive Answer
  | returns
  | raises (failure : ImportFailure)
  | text (s : String)
  | json (value : Json)
  | row (row : JsonRow)
  | nodes (payload : NodePayload)
  | rule (rows : Option CompiledRuleRows)
  /-- A call on an object returns or raises, and the object holds this afterwards. -/
  | object (failure : Option ImportFailure) (contents : Option Bytes)
  | comment (id : Json) (rows : List JsonRow)

def Answer.unit : Answer → Option Unit
  | .returns => some ()
  | _ => none

/-- Calls that raise. -/
def Op.mayRaise : Op → Bool
  | .outside (.emitProgress phase) => phase ≠ .restoreConfig ∧ phase ≠ .completeImport
  | .storage (.remove _) => false
  | .database .rollback => false
  | .file cleanUp _ _ => !cleanUp
  | .local_ _ => false
  | _ => true

section

-- The files of the extracted archive.
variable (contents : String → Option Bytes)

def OutsideOp.respond : (op : OutsideOp) → Answer → Option op.Result
  | .isFile archivePath, .returns => some (contents archivePath).isSome
  | .readSource archivePath, .returns => contents archivePath
  | .tokenHex, .text s => some s
  | .uuid4, .text s => some s
  | .now, .json value => some value
  | .decodeRow _ _, .row row => some row
  | .readNodeTables, .nodes payload => some payload
  | .compileAccessRule _, .rule rows => some rows
  | .emitProgress _, answer => answer.unit
  | .prepare _, answer => answer.unit
  | .openSource _, answer => answer.unit
  | .closeSource _, answer => answer.unit
  | .makedirs _, answer => answer.unit
  | _, _ => none

end

def setObject (objects : Table String Bytes) (path : String) : Option Bytes → Table String Bytes
  | none => objects.erase path
  | some contents => objects.insert path contents

def StorageOp.respond (objects : Table String Bytes) : (op : StorageOp) → Answer →
    Option (Except ImportFailure op.Result × Table String Bytes)
  | .objectExists path, .returns => some (.ok (objects.lookup path).isSome, objects)
  | .remove path, .returns => some (.ok (), objects.erase path)
  | .fopen path, .object none contents => some (.ok (), setObject objects path contents)
  | .write path _, .object none contents => some (.ok (), setObject objects path contents)
  | .write path _, .object (some failure) contents =>
    some (.error failure, setObject objects path contents)
  | .close path, .object none contents => some (.ok (), setObject objects path contents)
  | .close path, .object (some failure) contents =>
    some (.error failure, setObject objects path contents)
  | _, _ => none

/-- `CREATE TABLE IF NOT EXISTS`. -/
def createTable (name : String) : Table String (List JsonRow) :=
  if (tables.lookup name).isSome then tables else tables.insert name []

/-- Equality of keys in SQL, where `NULL` equals nothing. -/
def sameKey (first second : Json) : Bool := !first.isNull && first.equal second

def setFields (row : JsonRow) (values : List (String × Json)) : JsonRow :=
  values.foldl (fun row value => row.set value.1 value.2) row

def insertRows (table : String) (rows : List JsonRow) : Table String (List JsonRow) :=
  tables.insert table (rowsIn tables table ++ rows)

/-- A statement of a transaction. -/
def DatabaseOp.execute : (op : DatabaseOp) → Answer →
    Option (op.Result × Table String (List JsonRow))
  | .select table, .returns => some (rowsIn tables table, tables)
  | .insert table rows, .returns => some ((), insertRows tables table rows)
  | .update table column key values, .returns =>
    some ((), tables.insert table ((rowsIn tables table).map fun row =>
      if sameKey (row.get column) key then setFields row values else row))
  | .getOrCreateComment _, .comment id rows => some (id, insertRows tables "comments" rows)
  | _, _ => none

def DatabaseOp.respond (db : TargetDatabase) : (op : DatabaseOp) → Answer →
    Option (op.Result × TargetDatabase)
  | .createTables names, .returns => some ((), { db with tables := names.foldl createTable db.tables })
  | .tableNames, .returns => some (db.tables.keys, db)
  | .countRows table, .returns => some ((rowsIn db.tables table).length, db)
  | .beginTransaction, .returns => some ((), { db with transaction := some db.tables })
  | .commit, .returns => db.transaction.map fun tables => ((), ⟨tables, none⟩)
  | .rollback, .returns => some ((), { db with transaction := none })
  | op, answer =>
    db.transaction.bind fun tables => (op.execute tables answer).map fun result =>
      (result.1, { db with transaction := some result.2 })

def FileOp.respond (file : Option Bytes) : (op : FileOp) → Answer → Option (op.Result × Option Bytes)
  | .pathExists, .returns => some (file.isSome, file)
  | .read maximum, .returns => some (file.map fun contents => contents.take (maximum + 1), file)
  | .replace contents, .returns => some ((), some contents)
  | .unlink, .returns => some ((), none)
  | .makeParent, .returns => some ((), file)
  | .mkstemp, .returns => some ((), file)
  | .writeTemporary _, .returns => some ((), file)
  | .copymode, .returns => some ((), file)
  | .unlinkTemporary, .returns => some ((), file)
  | _, _ => none

def VariableOp.respond (w : World) : (op : VariableOp) → Answer → Option (op.Result × World)
  | .initWrittenPaths, .returns => some ((), { w with writtenPaths := [] })
  | .initFinalizationStarted, .returns => some ((), { w with finalizationStarted := false })
  | .appendWrittenPath path, .returns => some ((), { w with writtenPaths := w.writtenPaths ++ [path] })
  | .writtenPaths, .returns => some (w.writtenPaths, w)
  | .startFinalization, .returns => some ((), { w with finalizationStarted := true })
  | .finalizationStarted, .returns => some (w.finalizationStarted, w)
  | _, _ => none

variable (contents : String → Option Bytes)

/-- A call that does not raise. -/
def answer (w : World) :
    (op : Op) → Answer → Option (Except ImportFailure op.Result × World)
  | .outside op, a => (op.respond contents a).map fun result => (.ok result, w)
  | .storage op, a =>
    (op.respond w.objects a).map fun result => (result.1, { w with objects := result.2 })
  | .database op, a =>
    (op.respond w.database a).map fun result => (.ok result.1, { w with database := result.2 })
  | .file _ target op, a =>
    (op.respond (w.file target) a).map fun result =>
      (.ok result.1, { w with file := Function.update w.file target result.2 })
  | .local_ op, a => (op.respond w a).map fun result => (.ok result.1, result.2)

/-- What a call returns or raises, and the target afterwards. -/
def respond (w : World) (op : Op) :
    Answer → Option (Except ImportFailure op.Result × World)
  | .raises failure => if op.mayRaise then some (.error failure, w) else none
  | a => answer contents w op a

end Cfms.Backup
