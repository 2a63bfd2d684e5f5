import Mathlib.Data.Fintype.Powerset

/-!
# What a backup contains

`maintenance/backup/selection.py`: the tables that a backup can hold, the components that an
operator selects, and the tables that are exported for a selection.  Tables of extensions are left
out.
-/

namespace Cfms.Backup

/-- The tables of the database. -/
inductive TableName
  | files
  | comments
  | users
  | userPasswords
  | userTotpCredentials
  | userAuthPublicKeys
  | userAuthPolicies
  | userGroups
  | groupPermissions
  | userMemberships
  | userPermissions
  | keyrings
  | nodes
  | folders
  | documents
  | documentRevisions
  | documentMetadata
  | documentMetadataTags
  | objectAccessEntries
  | compiledAccessRuleSets
  | compiledAccessRules
  | compiledAccessRuleGroups
  | compiledAccessRuleMemberships
  | compiledAccessRuleRights
  | auditEntries
  | userblockEntries
  | userblockSubEntries
  | bannedSubnets
  | schedules
  | accountThrottles
  | fileTasks
  | loginThrottles
  | rateLimitBuckets
  | riskIpAccounts
  | scheduleExecutions
  | schedulingRuntimeState
  | systemStates
  | trafficThrottles
  deriving DecidableEq

def TableName.name : TableName → String
  | .files => "files"
  | .comments => "comments"
  | .users => "users"
  | .userPasswords => "user_passwords"
  | .userTotpCredentials => "user_totp_credentials"
  | .userAuthPublicKeys => "user_auth_public_keys"
  | .userAuthPolicies => "user_auth_policies"
  | .userGroups => "user_groups"
  | .groupPermissions => "group_permissions"
  | .userMemberships => "user_memberships"
  | .userPermissions => "user_permissions"
  | .keyrings => "keyrings"
  | .nodes => "nodes"
  | .folders => "folders"
  | .documents => "documents"
  | .documentRevisions => "document_revisions"
  | .documentMetadata => "document_metadata"
  | .documentMetadataTags => "document_metadata_tags"
  | .objectAccessEntries => "object_access_entries"
  | .compiledAccessRuleSets => "compiled_access_rule_sets"
  | .compiledAccessRules => "compiled_access_rules"
  | .compiledAccessRuleGroups => "compiled_access_rule_groups"
  | .compiledAccessRuleMemberships => "compiled_access_rule_memberships"
  | .compiledAccessRuleRights => "compiled_access_rule_rights"
  | .auditEntries => "audit_entries"
  | .userblockEntries => "userblock_entries"
  | .userblockSubEntries => "userblock_sub_entries"
  | .bannedSubnets => "banned_subnets"
  | .schedules => "schedules"
  | .accountThrottles => "account_throttles"
  | .fileTasks => "file_tasks"
  | .loginThrottles => "login_throttles"
  | .rateLimitBuckets => "rate_limit_buckets"
  | .riskIpAccounts => "risk_ip_accounts"
  | .scheduleExecutions => "schedule_executions"
  | .schedulingRuntimeState => "scheduling_runtime_state"
  | .systemStates => "system_states"
  | .trafficThrottles => "traffic_throttles"

/-- `BACKUP_TABLE_NAMES`, in the order in which the tables are restored. -/
def backupTableNames : List TableName :=
  [.files, .comments, .users, .userPasswords, .userTotpCredentials, .userAuthPublicKeys,
    .userAuthPolicies, .userGroups, .groupPermissions, .userMemberships, .userPermissions,
    .keyrings, .nodes, .folders, .documents, .documentRevisions, .documentMetadata,
    .documentMetadataTags, .objectAccessEntries, .compiledAccessRuleSets, .compiledAccessRules,
    .compiledAccessRuleGroups, .compiledAccessRuleMemberships, .compiledAccessRuleRights,
    .auditEntries, .userblockEntries, .userblockSubEntries, .bannedSubnets, .schedules]

def excludedTableNames : List TableName :=
  [.accountThrottles, .fileTasks, .loginThrottles, .rateLimitBuckets, .riskIpAccounts,
    .scheduleExecutions, .schedulingRuntimeState, .systemStates, .trafficThrottles]

inductive BackupComponent
  | accounts
  | documentLibrary
  | auditLog
  | bannedSubnets
  | configuration
  deriving DecidableEq

instance : Fintype BackupComponent where
  elems := {.accounts, .documentLibrary, .auditLog, .bannedSubnets, .configuration}
  complete := by
    intro component
    cases component <;> decide

/-- `BACKUP_COMPONENT_TABLES`. -/
def BackupComponent.tables : BackupComponent → List TableName
  | .accounts =>
    [.comments, .users, .userPasswords, .userTotpCredentials, .userAuthPublicKeys,
      .userAuthPolicies, .userGroups, .groupPermissions, .userMemberships, .userPermissions,
      .keyrings, .userblockEntries, .userblockSubEntries, .schedules]
  | .documentLibrary =>
    [.nodes, .folders, .documents, .documentRevisions, .documentMetadata, .documentMetadataTags,
      .objectAccessEntries, .compiledAccessRuleSets, .compiledAccessRules,
      .compiledAccessRuleGroups, .compiledAccessRuleMemberships, .compiledAccessRuleRights]
  | .auditLog => [.auditEntries]
  | .bannedSubnets => [.comments, .bannedSubnets]
  | .configuration => []

/-- `BACKUP_COMPONENT_DEPENDENCIES`. -/
def BackupComponent.dependencies : BackupComponent → Finset BackupComponent
  | .documentLibrary | .auditLog => {.accounts}
  | _ => ∅

structure BackupExportSelection where
  components : Finset BackupComponent
  nonempty : components.Nonempty

/-- One pass of the loop of `_resolve_component_dependencies`. -/
def addDependencies (resolved : Finset BackupComponent) : Finset BackupComponent :=
  resolved ∪ resolved.biUnion BackupComponent.dependencies

/-- `_resolve_component_dependencies`.  A pass that changes something adds a component, so that
after as many passes as there are components nothing changes any more. -/
def resolveComponentDependencies (components : Finset BackupComponent) : Finset BackupComponent :=
  addDependencies^[Fintype.card BackupComponent] components

theorem addDependencies_resolve (components : Finset BackupComponent) :
    addDependencies (resolveComponentDependencies components) =
      resolveComponentDependencies components := by
  revert components
  decide +kernel

def selectionComponents : Option BackupExportSelection → Finset BackupComponent
  | none => Finset.univ
  | some selection => resolveComponentDependencies selection.components

def selectedTableNames (components : Finset BackupComponent) (includeFiles : Bool) :
    List TableName :=
  backupTableNames.filter fun name =>
    (includeFiles && name == .files) || decide (∃ component ∈ components, name ∈ component.tables)

/-- The tables that `_export_tables` writes. -/
def exportedTableNames (selection : Option BackupExportSelection) : List TableName :=
  match selection with
  | none => backupTableNames
  | some _ =>
    let components := selectionComponents selection
    selectedTableNames components
      (decide (.accounts ∈ components) || decide (.documentLibrary ∈ components))

/-! ### Which tables are exported -/

variable {sel : Option BackupExportSelection} {name : TableName}

theorem exportedTableNames_subset (h : name ∈ exportedTableNames sel) :
    name ∈ backupTableNames := by
  cases sel with
  | none => exact h
  | some sel => exact (List.mem_filter.mp h).1

theorem mem_exportedTableNames {component : BackupComponent}
    (hcomp : component ∈ selectionComponents sel) (hname : name ∈ component.tables)
    (hbackup : name ∈ backupTableNames) : name ∈ exportedTableNames sel := by
  cases sel with
  | none => exact hbackup
  | some sel =>
    apply List.mem_filter.mpr
    refine ⟨hbackup, ?_⟩
    rw [Bool.or_eq_true, decide_eq_true_iff]
    exact Or.inr ⟨component, hcomp, hname⟩

theorem not_mem_exportedTableNames (sel : Option BackupExportSelection)
    (h : name ∈ excludedTableNames) : name ∉ exportedTableNames sel := by
  intro hexpo
  have hbackup := exportedTableNames_subset hexpo
  have hdisj : ∀ name ∈ excludedTableNames, name ∉ backupTableNames := by decide
  exact hdisj name h hbackup

end Cfms.Backup
