import Cfms.Deployment.Extensions
import Cfms.Lib.Process

/-!
# Upgrading, downgrading and resuming a deployment

`maintenance/operations/deployment/lifecycle.py` with the functions of `repository.py` that it
calls, as programs over a deployment: the project files, the active manifest and configuration, the
stored releases with their state snapshots, the transaction file and the database's revision.

A program looks at the deployment or makes one change: a file unlinked or put in place by an atomic
copy, a directory renamed into place, a transaction written, the database migrated.  Any call may
raise instead, and a program may be cut off between two calls.  Temporary files carry random names
that nothing reads, so they are no part of the deployment; checks that only refuse a command before
it writes the transaction (versions, Python, the ancestry of the migrations) are left out.
-/

namespace Cfms.Deployment

open Lib.FileTree Lib.Process

/-! ### Deployments and their changes -/

inductive Action
  | upgrade
  | downgrade
  deriving DecidableEq

inductive Phase
  | activation
  | databaseMigration
  | databaseRecoveryRequired
  deriving DecidableEq

/-- `transaction.json`. -/
structure Transaction where
  action : Action
  fromRelease : ReleaseId
  phase : Phase
  toRelease : ReleaseId
  deriving DecidableEq

/-- The state of a deployment.  `files` are the files below the project root other than
`release-manifest.json`, `src/config.toml` and those under `src/.maintenance`; `stored` are the
releases under `versions`, each verified against its manifest whenever it is loaded. -/
structure DeploymentState (env : Environment) where
  files : Files
  manifest : Option ReleaseId
  config : Content
  stored : List ReleaseId
  states : (id : ReleaseId) → Option (Snapshot env id)
  transaction : Option Transaction
  revision : String

variable {env : Environment}

/-- One step on the file system or the database. -/
inductive Change (env : Environment)
  | unlink (p : Path)
  | write (p : Path) (c : Content)
  | unlinkManifest
  | writeManifest (id : ReleaseId)
  | writeConfig (config : Content)
  | placeExtension (files : Files)
  | storeRelease (id : ReleaseId)
  | removeState (id : ReleaseId)
  | placeState (id : ReleaseId) (snapshot : Snapshot env id)
  | writeTransaction (transaction : Transaction)
  | unlinkTransaction
  | migrate (revision : String)
  | syncEnvironment

def setState (states : (id : ReleaseId) → Option (Snapshot env id)) (id : ReleaseId)
    (snapshot : Option (Snapshot env id)) : (id : ReleaseId) → Option (Snapshot env id) :=
  fun other => if h : other = id then h ▸ snapshot else states other

def Change.apply : Change env → DeploymentState env → DeploymentState env
  | .unlink p, d => { d with files := Cfms.Lib.FileTree.unlink d.files p }
  | .write p c, d => { d with files := Cfms.Lib.FileTree.write d.files p c }
  | .unlinkManifest, d => { d with manifest := none }
  | .writeManifest id, d => { d with manifest := some id }
  | .writeConfig config, d => { d with config }
  | .placeExtension files, d => { d with files := files ++ d.files }
  | .storeRelease id, d => { d with stored := id :: d.stored }
  | .removeState id, d => { d with states := setState d.states id none }
  | .placeState id snapshot, d => { d with states := setState d.states id (some snapshot) }
  | .writeTransaction transaction, d => { d with transaction := some transaction }
  | .unlinkTransaction, d => { d with transaction := none }
  | .migrate revision, d => { d with revision }
  | .syncEnvironment, d => d

inductive DeploymentError
  | ioError
  | notADeployment
  | resumeFirst
  | noTransaction
  | noActiveRelease
  | alreadyActive
  | releaseNotFound
  | noStateSnapshot
  | invalidExtension
  | extensionConflict (identifier : Identifier)
  | pathConflict (p : Path)
  | configTemplate
  | revisionMismatch
  deriving DecidableEq

/-- The calls of the commands. -/
inductive Op (env : Environment)
  | look
  | change (c : Change env)

def signature (env : Environment) : Signature where
  Op := Op env
  Result
    | .look => DeploymentState env
    | .change _ => Unit

abbrev Script (env : Environment) (α : Type) := Proc (signature env) DeploymentError α

def look : Script env (DeploymentState env) := .call .look .done

def change (c : Change env) : Script env Unit := .call (.change c) .done

/-! ### What the commands read -/

variable (d : DeploymentState env)

/-- `_project_root`: the directory is recognised by its `pyproject.toml`, with `src/main.py` or a
transaction. -/
def isProjectRoot : Bool :=
  (read d.files pyprojectPath).isSome &&
    ((read d.files mainPath).isSome || d.transaction.isSome)

/-- `_active_release`: the release whose manifest is active, when all its files are there. -/
def activeRelease? : Option ReleaseId :=
  d.manifest.filter fun id =>
    (env.release id).files.all fun e => decide (read d.files e.1 = some e.2)

/-- `_stored_release`, for a full identifier. -/
def storedRelease (id : ReleaseId) : Script env ReleaseId := do
  let d ← look
  if id ∈ d.stored then return id else throw .releaseNotFound

/-- `_state_config_path`, with the snapshot the path belongs to. -/
def stateConfig (id : ReleaseId) : Script env (Snapshot env id) := do
  let d ← look
  match d.states id with
  | some snapshot => return snapshot
  | none => throw .noStateSnapshot

/-- `_discover_extension_directories` on the active tree. -/
def discoverActive : Script env (List (Identifier × String)) := do
  let d ← look
  match discover env.identifier d.files with
  | some catalog => return catalog
  | none => throw .invalidExtension

/-! ### Storing releases and state -/

def snapshotRelease (id : ReleaseId) : Script env Unit := do
  let d ← look
  if id ∈ d.stored then return () else change (.storeRelease id)

/-- The snapshot of a deployment's configuration and third-party extensions. -/
def takeSnapshot (id : ReleaseId) (config : Content) {files : Files}
    {catalog : List (Identifier × String)} (h : discover env.identifier files = some catalog) :
    Snapshot env id :=
  match hfound : discover env.identifier (thirdPartyFiles (env.release id) catalog files) with
  | some found =>
    { config
      extensions := thirdPartyFiles (env.release id) catalog files
      catalog := found
      readable := hfound
      thirdParty := by
        obtain ⟨found', hfound', hthird⟩ := thirdPartyFiles_readable (env.release id) h
        obtain rfl : found = found' := Option.some.inj (hfound.symm.trans hfound')
        exact hthird }
  | none => False.elim (by
      obtain ⟨found, hsome, -⟩ := thirdPartyFiles_readable (env.release id) h
      rw [hfound] at hsome
      cases hsome)

/-- `_snapshot_state`: the old snapshot is renamed away before the new one takes its place, and back
when that fails. -/
def snapshotState (id : ReleaseId) : Script env Unit := do
  let d ← look
  match h : discover env.identifier d.files with
  | none => throw .invalidExtension
  | some _ =>
    match d.states id with
    | none => change (.placeState id (takeSnapshot id d.config h))
    | some old => do
      change (.removeState id)
      tryCatch (change (.placeState id (takeSnapshot id d.config h))) fun e => do
        change (.placeState id old)
        throw e

/-! ### Removing and copying the active release -/

/-- `path.unlink()` of a regular file. -/
def unlinkFile (p : Path) : Script env Unit := do
  let d ← look
  if (read d.files p).isSome then change (.unlink p) else return ()

/-- `shutil.rmtree` of an extension directory, file by file. -/
def rmtree (directory : String) : Script env Unit := do
  let d ← look
  Proc.each ((d.files.map Prod.fst).filter fun p => decide (extensionPath directory <+: p))
    fun p => change (.unlink p)

def removeActiveRelease (id : ReleaseId) : Script env Unit := do
  let catalog ← discoverActive
  Proc.each (thirdPartyDirectories (env.release id) catalog) rmtree
  Proc.each (env.release id).paths unlinkFile
  change .unlinkManifest

/-- One file of `_copy_release_to_active`: nothing may exist at the path, and its directory must be
creatable. -/
def copyFile (file : Path × Content) : Script env Unit := do
  let d ← look
  if occupied d.files file.1 then throw (.pathConflict file.1)
  else if obstructed d.files file.1 then throw .ioError
  else change (.write file.1 file.2)

/-- `_copy_release_to_active`: the manifest comes last. -/
def copyReleaseToActive (id : ReleaseId) : Script env Unit := do
  Proc.each (env.release id).files copyFile
  change (.writeManifest id)

def extensionFiles (extensions : Files) (directory : String) : Files :=
  remove (fun p => !decide (extensionPath directory <+: p)) extensions

/-- One extension of `_copy_state_extensions`. -/
def copyExtension (id : ReleaseId) (extensions : Files) (targetCatalog : List (Identifier × String))
    (entry : Identifier × String) : Script env Unit := do
  if entry.1 ∈ (env.release id).managedExtensions ∨ entry.1 ∈ targetCatalog.map Prod.fst then
    throw (.extensionConflict entry.1)
  else
    let d ← look
    if occupied d.files (extensionPath entry.2) then throw (.extensionConflict entry.1)
    else change (.placeExtension (extensionFiles extensions entry.2))

def copyStateExtensions (id : ReleaseId) : Script env Unit := do
  let d ← look
  match d.states id with
  | none => return ()
  | some snapshot =>
    match discover env.identifier snapshot.extensions with
    | none => throw .invalidExtension
    | some sourceCatalog => do
      let targetCatalog ← discoverActive
      Proc.each sourceCatalog (copyExtension id snapshot.extensions targetCatalog)
      let _ ← discoverActive
      return ()

def archiveActive (id : ReleaseId) : Script env Unit := do
  snapshotRelease id
  snapshotState id
  removeActiveRelease id

/-! ### The commands -/

/-- A file of the failed release that is still as that release has it.  `_hash_file` gives small
letters and the digest is taken as the manifest spells it, so one with capitals matches nothing
(`_release_from_tree` lowers it first). -/
def unlinkMatching (failed : Release) (file : Path × Content) : Script env Unit := do
  let d ← look
  if read d.files file.1 = some file.2 ∧ file.1 ∉ failed.capitals then change (.unlink file.1)
  else return ()

/-- The end of `_restore_active`, with the configuration of the state snapshot. -/
def placeActive (source : ReleaseId) (config : Content) : Script env Unit := do
  let d ← look
  if d.manifest = none then copyReleaseToActive source
  change (.writeConfig config)
  copyStateExtensions source

def restoreActive (source : ReleaseId) (failedRelease : Option ReleaseId) : Script env Unit := do
  let state ← stateConfig source
  let d ← look
  match activeRelease? d, failedRelease with
  | some current, _ =>
    if current = source then return ()
    else do
      removeActiveRelease current
      placeActive source state.config
  | none, some failed => do
    Proc.each (env.release failed).files (unlinkMatching (env.release failed))
    change .unlinkManifest
    placeActive source state.config
  | none, none => placeActive source state.config

def syncConfigTemplate : Script env Unit := do
  let d ← look
  match env.syncConfig d.config (read d.files configSamplePath) with
  | some config => change (.writeConfig config)
  | none => throw .configTemplate

def activateUpgrade (source target : ReleaseId) : Script env Unit := do
  archiveActive source
  copyReleaseToActive target
  copyStateExtensions source
  syncConfigTemplate
  snapshotState target
  change .syncEnvironment

/-- `_upgrade_database` and `_downgrade_database`. -/
def migrateDatabase (source target : ReleaseId) : Script env Unit := do
  let d ← look
  if d.revision = (env.release source).head then change (.migrate (env.release target).head)
  else throw .revisionMismatch

/-- The checks after a switch, and the end of the transaction. -/
def concludeSwitch : Script env Unit := do
  let d ← look
  if activeRelease? d = none then throw .noActiveRelease
  let _ ← discoverActive
  change .unlinkTransaction

/-- What the commands do with an exception once the database part has begun. -/
def requireRecovery (e : DeploymentError) : Script env Unit := do
  let d ← look
  match d.transaction with
  | none => throw e
  | some transaction =>
    change (.writeTransaction { transaction with phase := .databaseRecoveryRequired })
    throw e

/-- What both commands check of the deployment: the active release. -/
def startSwitch : Script env ReleaseId := do
  let d ← look
  if isProjectRoot d = false then throw .notADeployment
  else if d.transaction ≠ none then throw .resumeFirst
  else
    match activeRelease? d with
    | none => throw .noActiveRelease
    | some source =>
      if d.revision = (env.release source).head then return source else throw .revisionMismatch

/-- The part of `upgrade_deployment` from the writing of the transaction on. -/
def switchUp (source target : ReleaseId) : Script env Unit := do
  change (.writeTransaction ⟨.upgrade, source, .activation, target⟩)
  tryCatch (activateUpgrade source target) fun e => do
    restoreActive source (some target)
    change .syncEnvironment
    change .unlinkTransaction
    throw e
  change (.writeTransaction ⟨.upgrade, source, .databaseMigration, target⟩)
  tryCatch (do
    migrateDatabase source target
    concludeSwitch) requireRecovery

/-- `upgrade_deployment`, with a staged release. -/
def upgradeDeployment (staged : ReleaseId) : Script env Unit := do
  let source ← startSwitch
  if staged = source then throw .alreadyActive
  else do
    snapshotRelease staged
    snapshotRelease source
    snapshotState source
    switchUp source staged

/-- The part of `downgrade_deployment` from the writing of the transaction on. -/
def switchDown (source target : ReleaseId) : Script env Unit := do
  change (.writeTransaction ⟨.downgrade, source, .databaseMigration, target⟩)
  tryCatch (do
    migrateDatabase source target
    change (.writeTransaction ⟨.downgrade, source, .activation, target⟩)
    archiveActive source
    copyReleaseToActive target
    let state ← stateConfig target
    change (.writeConfig state.config)
    copyStateExtensions target
    change .syncEnvironment
    concludeSwitch) requireRecovery

def downgradeDeployment (releaseId : ReleaseId) : Script env Unit := do
  let source ← startSwitch
  let target ← storedRelease releaseId
  if target = source then throw .alreadyActive
  else do
    let _ ← stateConfig target
    snapshotRelease source
    snapshotState source
    switchDown source target

/-- `resume_deployment`: the release whose head the database is at becomes the active one. -/
def resumeDeployment : Script env ReleaseId := do
  let d ← look
  if isProjectRoot d = false then throw .notADeployment
  else
    match d.transaction with
    | none => throw .noTransaction
    | some transaction => do
      let source ← storedRelease transaction.fromRelease
      let target ← storedRelease transaction.toRelease
      let d ← look
      if d.revision = (env.release source).head then do
        restoreActive source (some target)
        change .syncEnvironment
        change .unlinkTransaction
        return source
      else if d.revision = (env.release target).head then do
        restoreActive target (some source)
        change .syncEnvironment
        change .unlinkTransaction
        return target
      else throw .revisionMismatch

end Cfms.Deployment
