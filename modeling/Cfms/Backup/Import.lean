import Cfms.Backup.ImportTarget
import Cfms.Backup.LegacyIdentities
import Cfms.Backup.Selection

/-!
# Importing a backup

`import_backup` of `maintenance/backup/restore.py`, with what it calls of `legacy.py`, `nodes.py` and
`rows.py`, as a program over the calls of an import.  What `_decode_row` and `compile_access_rule`
return, and the rows of the node tables as they are read, come from outside.
-/

namespace Cfms.Backup

open Lib Lib.Process Migration

/-! ### The archive and the server -/

/-- An entry of `manifest["files"]`. -/
structure FileEntry where
  fileId : String
  storagePath : String
  archivePath : String
  size : ℕ
  sha256 : String

/-- `manifest["configuration"]`, where it is not empty. -/
structure Configuration where
  pepper : String
  secretKey : String

/-- An extracted archive that has been validated. -/
structure Archive where
  manifest : Manifest
  files : List FileEntry
  configuration : Option Configuration

/-- What an import asks of the server and of other libraries. -/
structure Server where
  /-- The tables of extensions that belong to a component of a backup. -/
  extensionTables : List String
  otherExtensionTables : List String
  uuid4 : ℕ → String
  dumps : JsonRow → ℕ
  str : Json → String
  sha256 : Bytes → String
  legacyRuleSetId : String → String
  /-- The configuration with the two keys, by `tomlkit`; `none` where it is no UTF-8 or no TOML. -/
  restoreKeys : Configuration → Bytes → Option Bytes

def Server.backupTables (server : Server) : List String :=
  backupTableNames.map TableName.name ++ server.extensionTables

def maxConfigBytes : ℕ := 16 * 1024 * 1024

def maxInitMarkerBytes : ℕ := 64 * 1024

def initMarkerContents : Bytes :=
  "This file indicates that the database has been initialized.\n".toList.map fun c =>
    UInt8.ofNat c.toNat

/-! ### Control flow -/

def emitProgress (phase : Phase) : Import Unit := outside (.emitProgress phase)

def prepare (step : Preparation) : Import Unit := outside (.prepare step)

/-- A step that calls nothing. -/
def compute {sig : Signature} {α : Type} (result : Except ImportFailure α) :
    Proc sig ImportFailure α := .done result

/-- `finally`. -/
def ensuring (p cleanup : Import Unit) : Import Unit := do
  tryCatch p fun failure => do
    cleanup
    throw failure
  cleanup

/-! ### Storage files -/

/-- `_validate_storage_path`.  A path with a drive has a colon, or starts with a slash. -/
def isSafeStoragePath (path : String) : Bool :=
  let chars := path.toList
  !chars.isEmpty && !chars.contains '\\' && !chars.contains '\x00' && chars.head? != some '/' &&
    (chars.splitOn '/').all fun part =>
      part != [] && part != ['.'] && part != ['.', '.'] && !part.contains ':' &&
        part.getLast? != some ' ' && part.getLast? != some '.'

def dirname (path : String) : String :=
  String.ofList (['/'].intercalate (path.toList.splitOn '/').dropLast)

/-- The loop of `_validate_file_manifest_table`: the ids without a row, and whether an active row has
no payload. -/
def matchFileRows (files : List FileEntry) :
    RowStream → List String → Bool → Except ImportFailure (List String × Bool)
  | .stop, unmatchedIds, missingActivePayload => .ok (unmatchedIds, missingActivePayload)
  | .raise error, _, _ => .error (.payload error)
  | .yield row rest, unmatchedIds, missingActivePayload =>
    let missing : Bool := match row.get "active" with
      | .bool false => missingActivePayload
      | _ => true
    match row.get "id" with
    | .string fileId =>
      match files.find? fun entry => entry.fileId == fileId with
      | none => matchFileRows files rest unmatchedIds missing
      | some entry =>
        match row.get "path" with
        | .string path =>
          if path = entry.storagePath then
            matchFileRows files rest (unmatchedIds.filter (· != fileId)) missingActivePayload
          else .error .filesMismatch
        | _ => .error .filesMismatch
    | .array _ | .object _ => .error (.payload .unhashable)
    | _ => matchFileRows files rest unmatchedIds missing

def validateFileManifestTable (archive : Archive) : Except ImportFailure Unit :=
  match archive.manifest.table? "files" with
  | none => if archive.files.isEmpty then .ok () else .error .filesMismatch
  | some table =>
    match matchFileRows archive.files (iterRawTableRows table) (archive.files.map FileEntry.fileId)
        false with
    | .error failure => .error failure
    | .ok (unmatchedIds, missingActivePayload) =>
      if !unmatchedIds.isEmpty then .error .filesMismatch
      else if missingActivePayload then .error .activeFileWithoutPayload
      else .ok ()

/-! ### Rows of an import -/

def restoreBatchSize : ℕ := 1000

def isCredentialId : Json → Bool
  | .string s => s.length = 32
  | _ => false

def optionText : Option String → Json
  | some s => .string s
  | none => .null

def NodeRow.toJson (row : NodeRow) : JsonRow :=
  .ofFields [("id", .string row.id), ("type", .string row.type), ("name", optionText row.name),
    ("parent_id", optionText row.parentId), ("inherit", .bool row.inherit),
    ("status", .int row.status), ("status_operation_id", optionText row.statusOperationId),
    ("access_rule_set_id", .null)]

def Field.toFields (name : String) : Field → List (String × Json)
  | .absent => []
  | .null => [(name, .null)]
  | .value s => [(name, .string s)]

def Subtype.table : Subtype → String
  | .folder _ => "folders"
  | .document _ => "documents"

/-- The row of the archive. -/
def Subtype.toJson (row : Subtype) : JsonRow :=
  let nameColumn := match row with
    | .folder _ => "name"
    | .document _ => "title"
  let parentColumn := match row with
    | .folder _ => "parent_id"
    | .document _ => "folder_id"
  .ofFields ([("id", .string row.id), ("created_time", .float row.createdTime)] ++
    row.legacyName.toFields nameColumn ++ row.legacyParentId.toFields parentColumn ++
    (row.inherit.toList.map fun value => ("inherit", .bool value)) ++
    (row.status.toList.map fun value => ("status", .int value)) ++
    (row.statusOperationId.toList.map fun value => ("status_operation_id", .string value)))

def Subtype.insertedRow (row : Subtype) (decoded : JsonRow) : JsonRow :=
  match row with
  | .folder _ => decoded
  | .document _ => decoded.set "current_revision_id" .null

/-- The checks of `_restore_indexed_nodes` after the folders. -/
def checkHierarchy (index : List StagedNode) : Except ImportFailure Unit :=
  if (folderRows index).length ≠ (directories index).length then .error (.nodes .brokenHierarchy)
  else
    match (documentRows index).find? fun staged => !hasFolder index staged with
    | some staged => .error (.nodes (.missingFolder staged.id))
    | none => .ok ()

def nodeTables : List String := ["nodes", "folders", "documents"]

/-- The columns of `DEFERRED_COLUMNS` are inserted as null. -/
def withoutDeferred (table : String) (row : JsonRow) : JsonRow :=
  setFields row ((deferredColumns table).map fun column => (column, .null))

/-- `raw_row.get("node_id", raw_row.get("target_id"))`. -/
def legacyNodeId (row : JsonRow) : Json := row.getD "node_id" (row.get "target_id")

/-- `LEGACY_ACCESS_RULE_TABLE_NAMES`, sorted, each with the column of the node. -/
def legacyAccessRuleTables : List (String × String) :=
  [("document_access_rules", "document_id"), ("folder_access_rules", "folder_id")]

def chainOf (method : String) (credentialId : Json) : Json :=
  .array [.array [.object [("method", .string method), ("credential_ids", .array [credentialId])]]]

def defaultChains (method : String) (counts : JsonRow → Bool) : Option JsonRow → Json
  | some credential =>
    if counts credential then chainOf method (credential.get "credential_id") else .array []
  | none => .array []

def policyRow (userId : Json) (purpose : String) (chains : Json) : JsonRow :=
  .ofFields [("user_id", userId), ("purpose", .string purpose), ("revision", .int 1),
    ("chains", chains)]

def missingCompiledRuleSets (manifest : Manifest) : Bool :=
  (manifest.table? "compiled_access_rules").isSome &&
    (manifest.table? "compiled_access_rule_sets").isNone

/-- `_manifest_table_names`, with the tables. -/
def manifestTables (server : Server) (manifest : Manifest) : List TablePayload :=
  server.backupTables.filterMap manifest.table?

/-! ### Restoring rows -/

namespace Rows

def outside (op : OutsideOp) : Rows op.Result := rowCall (.outside op) trivial

def database (op : DatabaseOp) (h : (Op.database op).isRowCall := by trivial) : Rows op.Result :=
  rowCall (.database op) h

def emitProgress (phase : Phase) : Rows Unit := outside (.emitProgress phase)

variable (server : Server) (manifest : Manifest)

/-- The rows of a stream, each as `decode` returns it, in batches. -/
def forBatches (decode : JsonRow → Rows JsonRow) (body : List JsonRow → Rows Unit) :
    RowStream → List JsonRow → Rows Unit
  | .stop, batch => if batch.isEmpty then pure () else body batch
  | .raise error, _ => throw (.payload error)
  | .yield row rest, batch => do
    let decoded : JsonRow ← decode row
    let batch := batch ++ [decoded]
    if batch.length = restoreBatchSize then do
      body batch
      forBatches decode body rest []
    else forBatches decode body rest batch

def iterRawTableRowBatches (table : TablePayload) (body : List JsonRow → Rows Unit) : Rows Unit :=
  forBatches pure body (iterRawTableRows table) []

/-- A row of `users` without a secret gets one. -/
def completeSecretKey (table : String) (row : JsonRow) : Rows JsonRow :=
  match table == "users", row.get "secret_key" with
  | true, .null | true, .string "" => do
    let secret : String ← outside .tokenHex
    pure (row.set "secret_key" (.string secret))
  | _, _ => pure row

/-- A credential has an identity, or gets one where the archive has no policies that could name it. -/
def completeCredentialId (table : String) (row : JsonRow) : Rows JsonRow :=
  if credentialTables.contains table then
    if (manifest.table? "user_auth_policies").isSome then
      if isCredentialId (row.get "credential_id") then pure row
      else throw .invalidCredentialIdentity
    else if (row "credential_id").isSome then pure row
    else do
      let credentialId : String ← outside .uuid4
      pure (row.set "credential_id" (.string credentialId))
  else pure row

def iterTableRowBatches (table : TablePayload) (body : List JsonRow → Rows Unit) : Rows Unit :=
  forBatches
    (fun row => do
      let row : JsonRow ← completeSecretKey table.name row
      let row : JsonRow ← completeCredentialId manifest table.name row
      outside (.decodeRow table.name row))
    body (iterRawTableRows table) []

/-- A call for each element, and the list of what they return. -/
def mapCalls {α β : Type} (f : α → Rows β) : List α → Rows (List β)
  | [] => pure []
  | a :: rest => do
    let b : β ← f a
    let rest : List β ← mapCalls f rest
    pure (b :: rest)

/-- `_insert_restored_node`. -/
def insertRestoredNodeRow (row : NodeRow) : Rows Unit :=
  tryCatch (database (.insert "nodes" [row.toJson])) fun
    | .integrityError true => throw (.nodes (.nameConflict row.type row.id row.parentId row.name))
    | failure => throw failure

/-- The loop bodies of `_restore_indexed_nodes`. -/
def restoreIndexedNode (staged : StagedNode) : Rows Unit :=
  match staged.subtype with
  | none => throw (.nodes (.subtypeMismatch staged.id))
  | some subtype => do
    insertRestoredNodeRow (mergeLegacyNamespace staged.node subtype)
    let decoded : JsonRow ← outside (.decodeRow subtype.table subtype.toJson)
    database (.insert subtype.table [subtype.insertedRow decoded])

def restoreNodeTables : Rows (List String) := do
  let restored := nodeTables.filter fun name => (manifest.table? name).isSome
  if restored.isEmpty then pure []
  else do
    let payload : NodePayload ← outside .readNodeTables
    let index ← compute ((loadNodeIndex payload).mapError .nodes)
    Proc.each (folderRows index) restoreIndexedNode
    compute (checkHierarchy index)
    Proc.each (documentRows index) restoreIndexedNode
    pure restored

/-! ### Other tables -/

/-- The loop body over the batches of a table. -/
def insertBatch (table : String) (rows : List JsonRow) : Rows Unit := do
  let insertRows := rows.map (withoutDeferred table)
  if insertRows.isEmpty then pure ()
  else
    tryCatch (database (.insert table insertRows)) fun
      | .integrityError true =>
        if table = "nodes" then throw .duplicateNodeNames else throw (.integrityError true)
      | failure => throw failure
  emitProgress .restoreDatabaseRows

/-- `_restore_missing_compiled_rule_sets`; the id of the rule set of a node. -/
def restoreMissingCompiledRuleSets (nodeIds : List String) : Rows Unit :=
  if nodeIds.isEmpty then pure ()
  else do
    let nodeIds := nodeIds.eraseDups
    let existing : List JsonRow ← database (.select "compiled_access_rule_sets")
    let createdAt : Json ← outside .now
    let missing := nodeIds.filter fun nodeId =>
      !existing.any fun row => sameKey (row.get "id") (.string (server.legacyRuleSetId nodeId))
    if missing.isEmpty then pure ()
    else
      database (.insert "compiled_access_rule_sets" (missing.map fun nodeId =>
        .ofFields [("id", .string (server.legacyRuleSetId nodeId)), ("node_id", .string nodeId),
          ("created_at", createdAt)]))
    Proc.each nodeIds fun nodeId =>
      database (.update "nodes" "id" (.string nodeId)
        [("access_rule_set_id", .string (server.legacyRuleSetId nodeId))])

/-- The loop body of `_iter_legacy_compiled_rule_batches`, with the rows it yields. -/
def legacyCompiledRuleBatch (rawRows : List JsonRow) : Rows Unit := do
  let rows : List JsonRow ← mapCalls (fun row => outside (.decodeRow "compiled_access_rules" row)) rawRows
  let both := rawRows.zip rows
  compute (if both.any fun row => (legacyNodeId row.1).isNull && (row.2.get "rule_set_id").isNull
    then .error .missingRuleSet else .ok ())
  let nodeIds := (rawRows.map legacyNodeId).filter fun nodeId => !nodeId.isNull
  restoreMissingCompiledRuleSets server (nodeIds.map server.str)
  insertBatch "compiled_access_rules" (both.map fun row =>
    if (legacyNodeId row.1).isNull then row.2
    else row.2.set "rule_set_id" (.string (server.legacyRuleSetId (server.str (legacyNodeId row.1)))))

/-- The row that `_iter_banned_subnet_batches` yields. -/
def bannedSubnetRow (rawRow : JsonRow) : Rows JsonRow := do
  let row : JsonRow ← outside (.decodeRow "banned_subnets" rawRow)
  if (rawRow "reason").isSome && (rawRow "reason_comment_id").isNone then do
    let commentId : Json ← database (.getOrCreateComment (rawRow.get "reason"))
    pure (row.set "reason_comment_id" commentId)
  else pure row

/-- `_iter_banned_subnet_batches`, with the loop body. -/
def bannedSubnetBatch (rawRows : List JsonRow) : Rows Unit := do
  let rows : List JsonRow ← mapCalls bannedSubnetRow rawRows
  insertBatch "banned_subnets" rows

/-- The loop body over the tables. -/
def restoreTable (manifest : Manifest) (table : TablePayload) : Rows Unit := do
  emitProgress .restoreTable
  if table.name = "compiled_access_rules" ∧ missingCompiledRuleSets manifest = true then
    iterRawTableRowBatches table (legacyCompiledRuleBatch server)
  else if table.name = "banned_subnets" then iterRawTableRowBatches table bannedSubnetBatch
  else iterTableRowBatches manifest table (insertBatch table.name)

/-- The loop body of `_restore_deferred_updates`. -/
def restoreDeferredRows (table pkName : String) (columnNames : List String) (rows : List JsonRow) :
    Rows Unit :=
  Proc.each
    (rows.filter fun row => columnNames.any fun column => !(row.get column).isNull) fun row =>
      database (.update table pkName (row.get pkName)
        (columnNames.map fun column => (column, row.get column)))

def restoreDeferredUpdates : Rows Unit :=
  Proc.each deferredUpdateOrder fun entry =>
    match manifest.table? entry.1.name with
    | none => pure ()
    | some table =>
      iterTableRowBatches manifest table (restoreDeferredRows table.name entry.2.1 entry.2.2)

/-! ### Legacy rules and policies -/

def sessionGet (table column key : String) : Rows (Option JsonRow) := do
  let rows : List JsonRow ← database (.select table)
  pure (rows.find? fun row => sameKey (row.get column) (.string key))

/-- The loop body of `_restore_legacy_access_rules`. -/
def restoreLegacyAccessRule (nodeColumn : String) (row : JsonRow) : Rows Unit := do
  let compiled : Option CompiledRuleRows ← outside (.compileAccessRule row)
  match compiled with
  | none => pure ()
  | some compiledRule => do
    let nodeId ← compute (match row nodeColumn with
      | none => .error .other
      | some nodeId => .ok (server.str nodeId))
    let node : Option JsonRow ← sessionGet "nodes" "id" nodeId
    if node.isNone then pure ()
    else do
      let ruleSetId := server.legacyRuleSetId nodeId
      let ruleSet : Option JsonRow ← sessionGet "compiled_access_rule_sets" "id" ruleSetId
      if ruleSet.isSome then pure ()
      else do
        let createdAt : Json ← outside .now
        database (.insert "compiled_access_rule_sets" [.ofFields [("id", .string ruleSetId),
          ("node_id", .string nodeId), ("created_at", createdAt)]])
        database (.update "nodes" "id" (.string nodeId)
          [("access_rule_set_id", .string ruleSetId)])
      Proc.each (compiledRule ruleSetId) fun entry => database (.insert entry.1 [entry.2])

def restoreLegacyAccessRules : Rows Unit :=
  Proc.each legacyAccessRuleTables fun entry =>
    match manifest.table? entry.1 with
    | none => pure ()
    | some table =>
      iterRawTableRowBatches table fun batch =>
        Proc.each batch (restoreLegacyAccessRule server entry.2)

/-- The loop body of `_restore_legacy_auth_policies`. -/
def restoreLegacyAuthPolicy (user : JsonRow) : Rows Unit := do
  let passwords : List JsonRow ← database (.select "user_passwords")
  let totps : List JsonRow ← database (.select "user_totp_credentials")
  let userId := user.get "id"
  let password := passwords.find? fun row => sameKey (row.get "user_id") userId
  let totp := totps.find? fun row => sameKey (row.get "user_id") userId
  database (.insert "user_auth_policies"
    [policyRow userId "login" (defaultChains "password" (fun _ => true) password),
      policyRow userId "mfa" (defaultChains "totp" (fun row => (row.get "enabled").truthy) totp),
      policyRow userId "escalation" (.array [])])

def restoreLegacyAuthPolicies : Rows Unit := do
  let users : List JsonRow ← database (.select "users")
  Proc.each users restoreLegacyAuthPolicy

def convertLegacyAccessRules : Rows Unit :=
  if (legacyAccessRuleTables.any fun entry => (manifest.table? entry.1).isSome) &&
      (manifest.table? "compiled_access_rules").isNone then
    restoreLegacyAccessRules server manifest
  else pure ()

/-- Accounts of an archive without policies get default ones. -/
def convertLegacyAuthPolicies : Rows Unit :=
  if (manifest.table? "users").isSome && (manifest.table? "user_auth_policies").isNone then
    restoreLegacyAuthPolicies
  else pure ()

/-- What `_restore_database` does in the transaction before it finalizes the files. -/
def restoreRows : Rows Unit := do
  let restoredNodeTables : List String ← restoreNodeTables manifest
  emitProgress .restoreDatabaseRows
  Proc.each
    ((manifestTables server manifest).filter fun table => !restoredNodeTables.contains table.name)
    (restoreTable server manifest)
  restoreDeferredUpdates manifest
  convertLegacyAccessRules server manifest
  emitProgress .restoreDatabaseRows
  convertLegacyAuthPolicies manifest

end Rows

section

variable (server : Server) (archive : Archive)

def verifyFileDigest (entry : FileEntry) : Import Unit := do
  let contents : Bytes ← outside (.readSource entry.archivePath)
  compute (if contents.length ≠ entry.size ∨ server.sha256 contents ≠ entry.sha256.toLower then
    .error (.verificationFailed entry.storagePath) else .ok ())

/-- `length` of `shutil.copyfileobj`. -/
def copyBytes : ℕ := 1024 * 1024

def copyfileobj (entry : FileEntry) : Import Unit := do
  let contents : Bytes ← outside (.readSource entry.archivePath)
  Proc.each (contents.toChunks copyBytes) fun chunk => storage (.write entry.storagePath chunk)

/-- The `with` statement of `_restore_files`. -/
def writeObject (entry : FileEntry) : Import Unit := do
  outside (.openSource entry.archivePath)
  ensuring
    (do
      storage (.fopen entry.storagePath)
      ensuring
        (do
          call (.local_ (.appendWrittenPath entry.storagePath))
          copyfileobj entry)
        (storage (.close entry.storagePath)))
    (outside (.closeSource entry.archivePath))

/-- The end of the loop body of `_restore_files`. -/
def createObject (entry : FileEntry) : Import Unit := do
  let occupied : Bool ← storage (.objectExists entry.storagePath)
  if occupied then throw (.existingFile entry.storagePath)
  else do
    if dirname entry.storagePath = "" then pure ()
    else outside (.makedirs (dirname entry.storagePath))
    writeObject entry

/-- The loop body of `_restore_files`. -/
def restoreFile (entry : FileEntry) : Import Unit := do
  compute (if isSafeStoragePath entry.storagePath then .ok ()
    else .error (.unsafeStoragePath entry.storagePath))
  emitProgress .restoreFile
  let isFile : Bool ← outside (.isFile entry.archivePath)
  compute (if isFile then .ok () else .error (.missingPayload entry.archivePath))
  verifyFileDigest server entry
  createObject entry

def restoreFiles : Import Unit := do
  compute (validateFileManifestTable archive)
  Proc.each archive.files (restoreFile server)

/-! ### Configuration file and init marker -/

def writeFileAtomically (cleanUp : Bool) (target : TargetFile) (contents : Bytes) : Import Unit := do
  call (.file cleanUp target .makeParent)
  call (.file cleanUp target .mkstemp)
  ensuring
    (do
      call (.file cleanUp target (.writeTemporary contents))
      let pathExists : Bool ← call (.file cleanUp target .pathExists)
      if pathExists then call (.file cleanUp target .copymode) else pure ()
      call (.file cleanUp target (.replace contents)))
    (call (.file cleanUp target .unlinkTemporary))

/-- `_read_file_snapshot`; `none` where there is no file. -/
def readFileSnapshot (target : TargetFile) (maximum : ℕ) : Import (Option Bytes) := do
  let contents : Option Bytes ← call (.file false target (.read maximum))
  if contents.any fun contents => maximum < contents.length then
    throw (.snapshotTooLarge target maximum)
  else pure contents

def restoreFileSnapshot (target : TargetFile) : Option Bytes → Import Unit
  | some contents => writeFileAtomically true target contents
  | none => call (.file true target .unlink)

def restoreConfigKeys (configuration : Configuration) : Import Unit := do
  let pathExists : Bool ← call (.file false .config .pathExists)
  compute (if pathExists then .ok () else .error .configurationNotFound)
  let text : Option Bytes ← call (.file false .config (.read maxConfigBytes))
  match text with
  | none => throw .osError
  | some contents =>
    if maxConfigBytes < contents.length then throw .invalidConfiguration
    else
      match server.restoreKeys configuration contents with
      | none => throw .invalidConfiguration
      | some restored => writeFileAtomically false .config restored

def finalizeTargetFiles : Import Unit := do
  call (.local_ .startFinalization)
  match archive.configuration with
  | none => pure ()
  | some configuration => restoreConfigKeys server configuration
  writeFileAtomically false .initMarker initMarkerContents

/-! ### The database -/

/-- `with session_factory.begin()`. -/
def transaction (body : Import Unit) : Import Unit := do
  database .beginTransaction
  tryCatch
    (do
      body
      database .commit)
    fun failure => do
      database .rollback
      throw failure

/-- `_restore_database`. -/
def restoreDatabasePayload : Import Unit := do
  let manifest ← compute
    ((upgradeLegacyIdentityPayload server.uuid4 server.dumps archive.manifest).mapError .payload)
  emitProgress .restoreDatabaseRows
  transaction do
    (Rows.restoreRows server manifest).widen
    finalizeTargetFiles server archive

/-! ### The import -/

def ensureTargetIsEmpty : Import Unit := do
  let existing : List String ← database .tableNames
  let known := applicationTableNames ++ server.extensionTables ++ server.otherExtensionTables ++
    ["alembic_version"]
  let unknown := existing.filter fun name => !known.contains name
  if !unknown.isEmpty then throw (.unregisteredTables (unknown.insertionSort (· ≤ ·)))
  else
    Proc.each server.backupTables fun name =>
      if existing.contains name then do
        let count : ℕ ← database (.countRows name)
        if count = 0 then pure () else throw (.targetNotEmpty name count)
      else pure ()

def cleanupRestoredFiles : Import Unit := do
  let writtenPaths : List String ← call (.local_ .writtenPaths)
  Proc.each writtenPaths.reverse fun path =>
    tryCatch (storage (.remove path)) fun _ => pure ()

/-- A snapshot is put back; an `OSError` is logged. -/
def rollBackFile (target : TargetFile) (snapshot : Option Bytes) : Import Unit :=
  tryCatch (restoreFileSnapshot target snapshot) fun
    | .osError => pure ()
    | failure => throw failure

/-- The handler of `import_backup`; the configuration has a snapshot where it is restored. -/
def rollBackImport (configSnapshot : Option (Option Bytes)) (initSnapshot : Option Bytes) :
    Import Unit := do
  cleanupRestoredFiles
  let finalizationStarted : Bool ← call (.local_ .finalizationStarted)
  if finalizationStarted then do
    match configSnapshot with
    | none => pure ()
    | some snapshot => rollBackFile .config snapshot
    rollBackFile .initMarker initSnapshot
  else pure ()

/-- The body of the `try` statement. -/
def restoreTarget : Import Unit := do
  emitProgress .restoreFiles
  restoreFiles server archive
  emitProgress .restoreDatabase
  restoreDatabasePayload server archive
  emitProgress .restoreConfig

/-- `config_snapshot`. -/
def readConfigSnapshot : Import (Option (Option Bytes)) :=
  if archive.configuration.isSome then do
    let snapshot : Option Bytes ← readFileSnapshot .config maxConfigBytes
    pure (some snapshot)
  else pure none

/-- What `import_backup` does once the archive has been validated. -/
def restoreArchive : Import Unit := do
  let configSnapshot : Option (Option Bytes) ← readConfigSnapshot archive
  let initSnapshot : Option Bytes ← readFileSnapshot .initMarker maxInitMarkerBytes
  call (.local_ .initFinalizationStarted)
  tryCatch (restoreTarget server archive) fun failure => do
    rollBackImport configSnapshot initSnapshot
    throw failure
  emitProgress .completeImport

def importBackup : Import Unit := do
  emitProgress .readHeader
  prepare .readHeader
  emitProgress .prepareTarget
  database (.createTables applicationTableNames)
  prepare .loadExtensionData
  ensureTargetIsEmpty server
  call (.local_ .initWrittenPaths)
  prepare .createWorkspace
  emitProgress .decryptPayload
  prepare .decryptPayload
  emitProgress .extractPayload
  prepare .extractPayload
  emitProgress .validateManifest
  prepare .loadManifest
  prepare .validateManifest
  prepare .validatePayloadTree
  prepare .checkExtensionTables
  database (.createTables (server.extensionTables.filter fun name =>
    (archive.manifest.table? name).isSome))
  restoreArchive server archive

end

end Cfms.Backup
