import Cfms.Backup.Import
import Cfms.Lib.Fallible
import Cfms.Lib.Paths
import Mathlib.Algebra.GroupWithZero.Nat

/-!
# Validating an archive

`maintenance/backup/archive.py`: `_safe_extract_tar_xz`, `_validate_manifest` and
`_validate_payload_tree`, which an import runs one after the other.  A manifest is what `orjson.loads`
returns, an object with each key once.  Of extensions the names of their tables are known with the
component that each belongs to.  Errors of the file system are left out.
-/

namespace Cfms.Backup

open Lib Lib.Paths

/-! ### Manifests -/

abbrev ManifestFields := List (String × Json)

/-- `fields.get(key)`. -/
def ManifestFields.get (fields : ManifestFields) (key : String) : Json :=
  (fields.lookup key).getD .null

/-- What the checks raise, a `BackupFormatError` each. -/
inductive ArchiveError
  /-- "Backup manifest tables must be an object". -/
  | tables
  /-- "Backup manifest files must be an array". -/
  | files
  /-- "Backup manifest contains invalid configuration". -/
  | configuration
  /-- "Backup contains more than 100000 file entries". -/
  | tooManyFiles
  /-- "Backup manifest contains invalid table metadata". -/
  | tableMetadata
  /-- "Backup manifest contains an invalid row count for …". -/
  | rowCount (table : String)
  /-- "Unsupported payload format version: …". -/
  | formatVersion
  /-- "Backup table set contains unsupported tables: …". -/
  | unsupportedTables (names : Finset String)
  /-- "Backup table set mixes compiled and legacy access rule representations". -/
  | mixedRules
  /-- "Backup table set does not match this server version: expected …, got …". -/
  | tableSet (expected got : Finset String)
  /-- "Backup manifest contains invalid components". -/
  | components
  /-- "Backup tables are outside the selected components: …". -/
  | tablesOutside (names : Finset String)
  /-- "Backup configuration is outside the selected components". -/
  | configurationOutside
  /-- "Excluded table … is present". -/
  | excludedTable
  /-- "Backup manifest contains an invalid file entry". -/
  | fileEntry
  /-- "Unsafe storage path in backup: …". -/
  | unsafeStoragePath (path : String)
  /-- "Unsafe archive path: …". -/
  | unsafeArchivePath (path : String)
  /-- "Unsafe file archive path in backup: …". -/
  | unsafeFilePath (path : String)
  /-- "Backup manifest contains duplicate file IDs". -/
  | duplicateFileId
  /-- "Backup manifest contains duplicate file paths". -/
  | duplicatePath
  /-- "Backup payload does not match the selected components: …". -/
  | missingComponents (components : Finset BackupComponent)
  /-- "Backup archive contents do not match its manifest". -/
  | contentsMismatch
  /-- "Backup archive contains too many members". -/
  | tooManyMembers
  /-- "Duplicate backup archive member: …". -/
  | duplicateMember (name : String)
  /-- "Unsupported archive member type: …". -/
  | memberType (name : String)
  /-- "Backup archive exceeds the uncompressed size limit". -/
  | tooLarge
  deriving DecidableEq

/-- `raise` unless the condition holds. -/
def require (condition : Prop) [Decidable condition] (error : ArchiveError) :
    Except ArchiveError Unit :=
  if condition then .ok () else .error error

/-- A value of the wrong type raises. -/
def expect {α : Type} (error : ArchiveError) : Option α → Except ArchiveError α
  | some a => .ok a
  | none => .error error

/-! ### Paths -/

def archivePathParts (archivePath : String) : Except ArchiveError (List Component) :=
  let path := archivePath.toList
  let parts := components (removeSlash path)
  if isRelative path && parts.all isPlain then .ok parts else .error (.unsafeArchivePath archivePath)

def validateStoragePath (path : String) : Except ArchiveError Unit :=
  require (isSafeStoragePath path) (.unsafeStoragePath path)

def safePayloadPath (root : List Component) (archivePath : String) :
    Except ArchiveError (List Component) := do
  let parts ← archivePathParts archivePath
  let target := root ++ parts
  if resolve root <+: resolve target then .ok target else .error (.unsafeArchivePath archivePath)

/-! ### Extraction -/

def maxBackupFiles : ℕ := 100000

def maxBackupUncompressedBytes : ℕ := 256 * 1024 * 1024 * 1024

inductive MemberKind
  | file
  | directory
  | other
  deriving DecidableEq

/-- A member of a tar file: `member.size`, and how many bytes `extractfile` gives. -/
structure TarMember where
  name : String
  kind : MemberKind
  size : ℕ
  read : ℕ

/-- The variables of the loop of `_safe_extract_tar_xz`. -/
structure Extraction where
  memberCount : ℕ := 0
  declaredSize : ℕ := 0
  extractedSize : ℕ := 0
  extractedPaths : List (List Component) := []

/-- The body of the loop. -/
def extractMember (root : List Component) (memberLimit : ℕ) (state : Extraction)
    (member : TarMember) : Except ArchiveError Extraction := do
  let memberCount := state.memberCount + 1
  require (memberCount ≤ memberLimit) .tooManyMembers
  let targetPath ← safePayloadPath root member.name
  require (targetPath ∉ state.extractedPaths) (.duplicateMember member.name)
  let extractedPaths := targetPath :: state.extractedPaths
  match member.kind with
  | .directory => return { state with memberCount, extractedPaths }
  | .other => .error (.memberType member.name)
  | .file =>
    let declaredSize := state.declaredSize + member.size
    require (declaredSize ≤ maxBackupUncompressedBytes) .tooLarge
    let extractedSize := state.extractedSize + member.read
    require (extractedSize ≤ maxBackupUncompressedBytes) .tooLarge
    return { memberCount, declaredSize, extractedSize, extractedPaths }

/-- `_backup_tables`: those of extensions after the others. -/
def registeredTables (extensionTables : List (String × String)) : List String :=
  backupTableNames.map TableName.name ++ extensionTables.map Prod.fst

def safeExtractTarXz (extensionTables : List (String × String)) (root : List Component)
    (members : List TarMember) : Except ArchiveError Extraction :=
  let memberLimit := maxBackupFiles + (registeredTables extensionTables).length + 1
  members.foldlM (extractMember root memberLimit) {}

/-! ### The tables of a manifest -/

def backupFormatVersion : ℕ := 1

def namesOf (tables : List TableName) : Finset String := (tables.map TableName.name).toFinset

def compiledAccessRuleTableNames : Finset String :=
  namesOf [.compiledAccessRules, .compiledAccessRuleSets, .compiledAccessRuleGroups,
    .compiledAccessRuleMemberships, .compiledAccessRuleRights]

def legacyAccessRuleTableNames : Finset String := {"document_access_rules", "folder_access_rules"}

/-- Full archives predating scheduling or separate credentials do not have these. -/
def laterTableNames : Finset String :=
  namesOf [.schedules, .userAuthPolicies, .userPasswords, .userTotpCredentials, .userAuthPublicKeys]

/-- `section_name`, `key_name`. -/
def configurationKeys : List (String × String) :=
  [("security", "pepper"), ("server", "secret_key")]

def hasConfigurationKey (configuration : ManifestFields) (key : String × String) : Bool :=
  match (configuration.get key.1).object? with
  | some fields => (ManifestFields.get fields key.2).text?.isSome
  | none => false

def checkConfiguration (configuration : ManifestFields) : Except ArchiveError Unit :=
  require (configuration.isEmpty || configurationKeys.all (hasConfigurationKey configuration))
    .configuration

def checkTable (table : String × Json) : Except ArchiveError Unit := do
  let fields : ManifestFields ← expect .tableMetadata table.2.object?
  let _ ← expect (.rowCount table.1) (fields.get "rows").natural?
  return ()

def checkFormatVersion (version : Json) : Except ArchiveError Unit :=
  require (version.natural? = some backupFormatVersion) .formatVersion

/-- `set(tables)`, in the order of the manifest. -/
def tableNames (tables : ManifestFields) : List String := (tables.map Prod.fst).dedup

def checkTableSet (extensionTables : List (String × String)) (hasComponents : Bool)
    (tableNames : Finset String) : Except ArchiveError Unit := do
  let expected := namesOf backupTableNames
  let registered := (registeredTables extensionTables).toFinset
  let compiled := compiledAccessRuleTableNames
  let legacy := legacyAccessRuleTableNames
  let compatible := (tableNames \ (registered \ expected)) ∪ laterTableNames
  let unknown := (tableNames \ registered) \ legacy
  require (unknown = ∅) (.unsupportedTables unknown)
  require (tableNames ∩ compiled = ∅ ∨ tableNames ∩ legacy = ∅) .mixedRules
  require (hasComponents ∨ compatible = expected ∨
      compatible = expected \ {"compiled_access_rule_sets"} ∨
      compatible = (expected \ compiled) ∪ legacy) (.tableSet expected tableNames)

/-! ### The components of a manifest -/

def BackupComponent.value : BackupComponent → String
  | .accounts => "accounts"
  | .documentLibrary => "documents"
  | .auditLog => "audit"
  | .bannedSubnets => "banned_subnets"
  | .configuration => "configuration"

def coerceBackupComponent (value : Json) : Option BackupComponent :=
  [.accounts, .documentLibrary, .auditLog, .bannedSubnets, .configuration].find?
    fun component : BackupComponent => value.text? == some component.value

/-- `from_component_values`, for values that are all different. -/
def selectionOf? (values : List Json) : Option BackupExportSelection := do
  let components ← values.mapM coerceBackupComponent
  if h : components.toFinset.Nonempty ∧ components.Nodup then some ⟨components.toFinset, h.1⟩
  else none

/-- `component_anchors`. -/
def BackupComponent.anchors : BackupComponent → Finset String
  | .accounts => namesOf [.users]
  | .documentLibrary => namesOf [.nodes, .folders, .documents]
  | .auditLog => namesOf [.auditEntries]
  | .bannedSubnets => namesOf [.bannedSubnets]
  | .configuration => ∅

def isMissing (tableNames : Finset String) (configuration : ManifestFields)
    (component : BackupComponent) : Bool :=
  if component = .configuration then configuration.isEmpty
  else decide (tableNames ∩ component.anchors = ∅)

/-- `_selected_table_names`, with the tables of extensions. -/
def selectedNames (extensionTables : List (String × String))
    (components : Finset BackupComponent) : Finset String :=
  let includeFiles : Bool := decide (.accounts ∈ components ∨ .documentLibrary ∈ components)
  namesOf (selectedTableNames components includeFiles) ∪
    ((extensionTables.filter fun table =>
      decide (∃ component ∈ components, component.value = table.2)).map Prod.fst).toFinset

/-- From `if "components" in manifest` to `missing_components`. -/
def checkComponents (extensionTables : List (String × String)) (components : Option Json)
    (tableNames : Finset String) (configuration : ManifestFields) :
    Except ArchiveError (Finset BackupComponent) :=
  match components with
  | none => .ok ∅
  | some value => do
    let values ← expect .components value.array?
    let selection ← expect .components (selectionOf? values)
    let components := resolveComponentDependencies selection.components
    let allowed := selectedNames extensionTables components ∪
      if .documentLibrary ∈ components then legacyAccessRuleTableNames else ∅
    require (tableNames \ allowed = ∅) (.tablesOutside (tableNames \ allowed))
    require (configuration.isEmpty ∨ .configuration ∈ components) .configurationOutside
    return selection.components.filter fun component => isMissing tableNames configuration component

/-! ### The files of a manifest -/

/-- The entry of `manifest["files"]`, where its values have the types and forms they need. -/
def parseFile? (value : Json) : Option FileEntry := do
  let entry : ManifestFields ← value.object?
  let fileId ← (entry.get "file_id").text?
  let storagePath ← (entry.get "storage_path").text?
  let archivePath ← (entry.get "archive_path").text?
  let size ← (entry.get "size").natural?
  let digest ← (entry.get "sha256").text?
  if digest.length = 64 ∧ digest.toList.all fun c => "0123456789abcdefABCDEF".toList.contains c then
    some ⟨fileId, storagePath, archivePath, size, digest⟩
  else none

/-- The variables of the loop over the files. -/
structure SeenFiles where
  storagePaths : List (List Char) := []
  archivePaths : List (List Char) := []
  fileIds : List String := []

/-- The body of the loop. -/
def checkFile (folding : CaseFolding) (seen : SeenFiles) (value : Json) :
    Except ArchiveError SeenFiles := do
  let entry ← expect .fileEntry (parseFile? value)
  validateStoragePath entry.storagePath
  let archiveParts ← archivePathParts entry.archivePath
  require (archiveParts.length = 2 ∧ archiveParts[0]? = some "files".toList)
    (.unsafeFilePath entry.archivePath)
  require (entry.fileId ∉ seen.fileIds) .duplicateFileId
  let normalizedStoragePath := folding.casefold entry.storagePath.toList
  let normalizedArchivePath := folding.casefold entry.archivePath.toList
  require (normalizedStoragePath ∉ seen.storagePaths ∧ normalizedArchivePath ∉ seen.archivePaths)
    .duplicatePath
  return {
    storagePaths := normalizedStoragePath :: seen.storagePaths
    archivePaths := normalizedArchivePath :: seen.archivePaths
    fileIds := entry.fileId :: seen.fileIds }

def validateManifest (folding : CaseFolding) (extensionTables : List (String × String))
    (manifest : ManifestFields) : Except ArchiveError Unit := do
  let tables ← expect .tables (manifest.get "tables").object?
  let files ← expect .files (manifest.get "files").array?
  let configuration ←
    expect .configuration ((manifest.lookup "configuration").getD (.object [])).object?
  checkConfiguration configuration
  require (files.length ≤ maxBackupFiles) .tooManyFiles
  tables.forM checkTable
  checkFormatVersion (manifest.get "format_version")
  let names := (tableNames tables).toFinset
  checkTableSet extensionTables (manifest.lookup "components").isSome names
  let missing ← checkComponents extensionTables (manifest.lookup "components") names configuration
  require (names ∩ namesOf excludedTableNames = ∅) .excludedTable
  let _ ← files.foldlM (checkFile folding) {}
  require (missing = ∅) (.missingComponents missing)

/-! ### The extracted tree -/

/-- The name of an entry of a directory. -/
structure FileName where
  text : Component
  ne_nil : text ≠ []
  slash : '/' ∉ text

/-- The entries of a directory, as `iterdir` gives them: a directory comes with its own entries. -/
inductive Entries
  | nil
  | file (name : FileName) (rest : Entries)
  | link (name : FileName) (rest : Entries)
  | special (name : FileName) (rest : Entries)
  | directory (name : FileName) (contents : Entries) (rest : Entries)

variable (manifest : ManifestFields)

/-- `manifest["tables"]`. -/
def listedTables : List String :=
  match manifest.get "tables" with
  | .object tables => tableNames tables
  | _ => []

/-- `manifest["files"]`; in a manifest that has been validated each value is an entry. -/
def listedFiles : List FileEntry :=
  match manifest.get "files" with
  | .array files => files.filterMap parseFile?
  | _ => []

/-- `f"tables/{table_name}.jsonl"`. -/
def tablePath (name : String) : List Char := "tables/".toList ++ name.toList ++ ".jsonl".toList

/-- The texts that `expected_files` is made of. -/
def expectedPaths : List (List Char) :=
  "manifest.json".toList ::
    ((listedTables manifest).map tablePath ++
      (listedFiles manifest).map fun entry => entry.archivePath.toList)

/-- The parents of `PurePosixPath(path)` except for `PurePosixPath(".")`. -/
def parents (path : List Char) : List (List Char) :=
  let parts := (components path).filter fun part => part != [] && part != ['.']
  (List.range' 1 (parts.length - 1)).map fun index => join (parts.take index)

def expectedDirectories : List (List Char) :=
  (expectedPaths manifest).dedup.flatMap parents

/-- The loop over `directory.iterdir()`, for what remains. -/
def scan (directories : List (List Char)) (path : List Component) :
    Entries → List (List Char) → Except ArchiveError (List (List Char))
  | .nil, remaining => .ok remaining
  | .link _ _, _ | .special _ _, _ => .error .contentsMismatch
  | .directory name _ rest, remaining =>
    if join (path ++ [name.text]) ∈ directories then scan directories path rest remaining
    else .error .contentsMismatch
  | .file name rest, remaining =>
    let relativePath := join (path ++ [name.text])
    if relativePath ∈ remaining then scan directories path rest (remaining.erase relativePath)
    else .error .contentsMismatch

/-- The paths that the same loop appends to `pending`, the last one first. -/
def subdirectories (path : List Component) :
    Entries → List (List Component × Entries) → List (List Component × Entries)
  | .nil, pending => pending
  | .file _ rest, pending | .link _ rest, pending | .special _ rest, pending =>
    subdirectories path rest pending
  | .directory name contents rest, pending =>
    subdirectories path rest ((path ++ [name.text], contents) :: pending)

/-- How many directories there are. -/
def Entries.directoryCount : Entries → ℕ
  | .nil => 0
  | .file _ rest | .link _ rest | .special _ rest => rest.directoryCount
  | .directory _ contents rest => contents.directoryCount + rest.directoryCount + 1

/-- The directories in and below those that are pending. -/
def pendingCount (pending : List (List Component × Entries)) : ℕ :=
  (pending.map fun directory => directory.2.directoryCount + 1).sum

theorem pendingCount_cons (path : List Component) (entries : Entries)
    (pending : List (List Component × Entries)) :
    pendingCount ((path, entries) :: pending) =
      entries.directoryCount + 1 + pendingCount pending := rfl

theorem pendingCount_subdirectories (path : List Component) (entries : Entries)
    (pending : List (List Component × Entries)) :
    pendingCount (subdirectories path entries pending) =
      entries.directoryCount + pendingCount pending := by
  induction entries generalizing pending with
  | nil => simp [subdirectories, Entries.directoryCount]
  | file name rest ih | link name rest ih | special name rest ih => exact ih pending
  | directory name contents rest _ ih =>
    rw [subdirectories, ih, pendingCount_cons, Entries.directoryCount]
    omega

/-- The loop over `pending`, whose last element is the first here. -/
def walk (directories : List (List Char)) :
    List (List Component × Entries) → List (List Char) → Except ArchiveError (List (List Char))
  | [], remaining => .ok remaining
  | (path, entries) :: pending, remaining =>
    match scan directories path entries remaining with
    | .error error => .error error
    | .ok remaining => walk directories (subdirectories path entries pending) remaining
  termination_by pending => pendingCount pending
  decreasing_by
    rw [pendingCount_subdirectories, pendingCount_cons]
    omega

def validatePayloadTree (root : Entries) (manifest : ManifestFields) : Except ArchiveError Unit :=
  match walk (expectedDirectories manifest) [([], root)] (expectedPaths manifest).dedup with
  | .error error => .error error
  | .ok remaining => require (remaining = []) .contentsMismatch

end Cfms.Backup
