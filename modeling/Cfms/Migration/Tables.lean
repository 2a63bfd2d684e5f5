import Cfms.Lib.Relational

/-!
# The tables of a database transfer

The table order of `operations/database/tables.py`, the columns whose values are deferred, and the
constraints of the application tables: columns, primary keys, unique keys, foreign keys, checks and
the generated column of `nodes`.
-/

namespace Cfms.Migration

open Lib.Relational

/-! ### Values -/

/-- The values that a driver returns, other than `None`.  Integers, floats, UUIDs and JSON data are
of the last kind where no constraint looks at them. -/
inductive Value (α : Type)
  | text (s : String)
  | integer (n : ℤ)
  | enum (value : Value α)
  | bytes (data : List UInt8)
  | datetime (isoformat : String)
  | date (isoformat : String)
  | decimal (digits : String)
  | other (x : α)
  deriving DecidableEq

/-! ### Table descriptions -/

structure ColumnSpec where
  name : String
  nullable : Bool
  references : Option (String × String) := none
  unique : Bool := false

def required (name : String) : ColumnSpec := { name, nullable := false }

def optional (name : String) : ColumnSpec := { name, nullable := true }

def ColumnSpec.refers (column : ColumnSpec) (table referred : String) : ColumnSpec :=
  { column with references := some (table, referred) }

def ColumnSpec.uniquely (column : ColumnSpec) : ColumnSpec := { column with unique := true }

/-- The `CheckConstraint`s of the models. -/
inductive CheckSpec
  | oneOfTexts (column : String) (texts : List String)
  | oneOfIntegers (column : String) (numbers : List ℤ)
  | atLeast (column : String) (bound : ℤ)
  | nonempty (column : String)
  /-- `ck_nodes_root_parent`. -/
  | rootParent

/-- A column generated as `CASE WHEN test = value THEN NULL ELSE source END`. -/
structure GeneratedSpec where
  name : String
  test : String
  value : ℤ
  source : String

structure TableSpec where
  name : String
  primaryKey : List String
  columns : List ColumnSpec
  uniques : List (List String) := []
  checks : List CheckSpec := []
  generated : List GeneratedSpec := []

namespace TableSpec

variable (T : TableSpec)

def columnNames : List String := T.columns.map ColumnSpec.name

def foreignKeys : List ForeignKey :=
  T.columns.filterMap fun column => column.references.map fun (table, referred) =>
    { columns := [column.name], table, referred := [referred] }

end TableSpec

/-! ### The application tables -/

def applicationTableNames : List String :=
  ["files", "comments", "users", "user_passwords", "user_totp_credentials", "user_auth_public_keys",
    "user_auth_policies", "user_groups", "group_permissions", "user_memberships",
    "user_permissions", "keyrings", "nodes", "folders", "documents", "document_revisions",
    "document_metadata", "document_metadata_tags", "object_access_entries",
    "compiled_access_rule_sets", "compiled_access_rules", "compiled_access_rule_groups",
    "compiled_access_rule_memberships", "compiled_access_rule_rights", "audit_entries",
    "userblock_entries", "userblock_sub_entries", "banned_subnets", "account_throttles",
    "file_tasks", "login_throttles", "rate_limit_buckets", "risk_ip_accounts", "system_states",
    "traffic_throttles", "file_deduplication_tasks", "schedules", "schedule_executions",
    "scheduling_runtime_state"]

def deferredColumns : String → List String
  | "users" => ["preference_dek_id"]
  | "documents" => ["current_revision_id"]
  | "document_revisions" => ["parent_revision_id"]
  | "nodes" => ["access_rule_set_id"]
  | _ => []

def filesTable : TableSpec where
  name := "files"
  primaryKey := ["id"]
  columns :=
    [required "id", optional "sha256", required "path", optional "size", required "created_time",
      required "active"]

def commentsTable : TableSpec where
  name := "comments"
  primaryKey := ["comment_id"]
  columns :=
    [required "comment_id", required "digest_version", required "content_digest",
      required "comment_text", optional "comment_data"]
  uniques := [["digest_version", "content_digest"]]

def usersTable : TableSpec where
  name := "users"
  primaryKey := ["id"]
  columns :=
    [required "id", (required "username").uniquely, optional "nickname",
      (optional "avatar_id").refers "files" "id", optional "last_login", required "created_time",
      required "status", (optional "status_comment_id").refers "comments" "comment_id",
      required "secret_key", ((optional "preference_dek_id").refers "keyrings" "id").uniquely]
  checks := [.nonempty "secret_key"]

def userPasswordsTable : TableSpec where
  name := "user_passwords"
  primaryKey := ["user_id"]
  columns :=
    [(required "user_id").refers "users" "id", (required "credential_id").uniquely,
      required "pass_hash", required "passwd_last_modified"]

def userTotpCredentialsTable : TableSpec where
  name := "user_totp_credentials"
  primaryKey := ["user_id"]
  columns :=
    [(required "user_id").refers "users" "id", (required "credential_id").uniquely,
      required "secret", required "enabled", optional "backup_codes", required "created_time"]

def userAuthPublicKeysTable : TableSpec where
  name := "user_auth_public_keys"
  primaryKey := ["id"]
  columns :=
    [required "id", (required "user_id").refers "users" "id", required "public_key_der",
      required "fingerprint", optional "label", required "created_time", optional "last_used_time"]
  uniques := [["user_id", "fingerprint"]]

def userAuthPoliciesTable : TableSpec where
  name := "user_auth_policies"
  primaryKey := ["user_id", "purpose"]
  columns :=
    [(required "user_id").refers "users" "id", required "purpose", required "revision",
      required "chains"]
  checks := [.oneOfTexts "purpose" ["login", "mfa", "escalation"], .atLeast "revision" 1]

def userGroupsTable : TableSpec where
  name := "user_groups"
  primaryKey := ["group_name"]
  columns :=
    [required "group_name", optional "group_display_name"]

def groupPermissionsTable : TableSpec where
  name := "group_permissions"
  primaryKey := ["id"]
  columns :=
    [required "id", (required "group_name").refers "user_groups" "group_name",
      required "permission", required "granted", required "start_time", optional "end_time"]

def userMembershipsTable : TableSpec where
  name := "user_memberships"
  primaryKey := ["id"]
  columns :=
    [required "id", (required "user_id").refers "users" "id",
      (required "group_name").refers "user_groups" "group_name", required "start_time",
      optional "end_time"]

def userPermissionsTable : TableSpec where
  name := "user_permissions"
  primaryKey := ["id"]
  columns :=
    [required "id", (required "user_id").refers "users" "id", required "permission",
      required "granted", required "start_time", optional "end_time"]

def keyringsTable : TableSpec where
  name := "keyrings"
  primaryKey := ["id"]
  columns :=
    [required "id", (required "user_id").refers "users" "id", required "content", optional "label",
      required "created_time"]

def nodesTable : TableSpec where
  name := "nodes"
  primaryKey := ["id"]
  columns :=
    [required "id", required "type", required "name", (optional "parent_id").refers "folders" "id",
      optional "active_name", required "inherit", required "status", optional "status_operation_id",
      (optional "access_rule_set_id").refers "compiled_access_rule_sets" "id"]
  uniques := [["parent_id", "active_name"]]
  checks := [.rootParent]
  generated := [⟨"active_name", "status", 1, "name"⟩]

def foldersTable : TableSpec where
  name := "folders"
  primaryKey := ["id"]
  columns :=
    [(required "id").refers "nodes" "id", required "created_time"]

def documentsTable : TableSpec where
  name := "documents"
  primaryKey := ["id"]
  columns :=
    [(required "id").refers "nodes" "id", required "created_time",
      (optional "current_revision_id").refers "document_revisions" "id"]

def documentRevisionsTable : TableSpec where
  name := "document_revisions"
  primaryKey := ["id"]
  columns :=
    [required "id", (required "document_id").refers "documents" "id",
      (required "file_id").refers "files" "id", required "created_time",
      (optional "parent_revision_id").refers "document_revisions" "id", required "status"]

def documentMetadataTable : TableSpec where
  name := "document_metadata"
  primaryKey := ["document_id"]
  columns :=
    [(required "document_id").refers "documents" "id", (optional "creator_id").refers "users" "id",
      (optional "last_modified_by_id").refers "users" "id"]

def documentMetadataTagsTable : TableSpec where
  name := "document_metadata_tags"
  primaryKey := ["document_id", "tag"]
  columns :=
    [(required "document_id").refers "document_metadata" "document_id", required "tag",
      required "position"]

def objectAccessEntriesTable : TableSpec where
  name := "object_access_entries"
  primaryKey := ["id"]
  columns :=
    [required "id", required "entity_type", required "entity_identifier", required "target_type",
      required "target_identifier", required "access_type", required "start_time",
      optional "end_time"]

def compiledAccessRuleSetsTable : TableSpec where
  name := "compiled_access_rule_sets"
  primaryKey := ["id"]
  columns :=
    [required "id", (required "node_id").refers "nodes" "id", required "created_at"]

def compiledAccessRulesTable : TableSpec where
  name := "compiled_access_rules"
  primaryKey := ["id"]
  columns :=
    [required "id", (required "rule_set_id").refers "compiled_access_rule_sets" "id",
      required "access_type", required "match_mode"]

def compiledAccessRuleGroupsTable : TableSpec where
  name := "compiled_access_rule_groups"
  primaryKey := ["id"]
  columns :=
    [required "id", (required "rule_id").refers "compiled_access_rules" "id",
      required "group_index", required "match_mode", required "rights_match_mode",
      required "rights_empty", required "groups_match_mode", required "groups_empty"]

def compiledAccessRuleMembershipsTable : TableSpec where
  name := "compiled_access_rule_memberships"
  primaryKey := ["id"]
  columns :=
    [required "id", (required "group_id").refers "compiled_access_rule_groups" "id",
      required "group_name"]

def compiledAccessRuleRightsTable : TableSpec where
  name := "compiled_access_rule_rights"
  primaryKey := ["id"]
  columns :=
    [required "id", (required "group_id").refers "compiled_access_rule_groups" "id",
      required "permission"]

def auditEntriesTable : TableSpec where
  name := "audit_entries"
  primaryKey := ["id"]
  columns :=
    [required "id", required "action", (optional "user_id").refers "users" "id", optional "target",
      optional "data", required "result", optional "remote_address", required "logged_time"]

def userblockEntriesTable : TableSpec where
  name := "userblock_entries"
  primaryKey := ["block_id"]
  columns :=
    [required "block_id", (required "user_id").refers "users" "id", required "timestamp",
      required "not_before", required "not_after", required "target_type", optional "target_id",
      (optional "reason_comment_id").refers "comments" "comment_id"]

def userblockSubEntriesTable : TableSpec where
  name := "userblock_sub_entries"
  primaryKey := ["id"]
  columns :=
    [required "id", (required "parent_id").refers "userblock_entries" "block_id",
      required "block_type"]

def bannedSubnetsTable : TableSpec where
  name := "banned_subnets"
  primaryKey := ["subnet"]
  columns :=
    [required "subnet", (optional "reason_comment_id").refers "comments" "comment_id",
      required "created_at", required "starts_at", optional "expires_at"]

def accountThrottlesTable : TableSpec where
  name := "account_throttles"
  primaryKey := ["username", "factor"]
  columns :=
    [required "username", required "factor", required "failed_attempts", required "last_attempt",
      optional "locked_until"]

def fileTasksTable : TableSpec where
  name := "file_tasks"
  primaryKey := ["id"]
  columns :=
    [required "id", (required "file_id").refers "files" "id", required "status", required "mode",
      required "start_time", optional "end_time", (optional "issued_by_id").refers "users" "id",
      optional "encryption_key", optional "chunk_size", optional "upload_file_size",
      optional "upload_sha256", optional "upload_session_id", optional "upload_checkpoint_size",
      optional "upload_checkpoint_data"]
  checks := [.oneOfIntegers "status" [0, 1, 2, 3, 4]]

def loginThrottlesTable : TableSpec where
  name := "login_throttles"
  primaryKey := ["username", "ip_address"]
  columns :=
    [required "username", required "ip_address", required "failed_attempts",
      required "window_started_at", required "last_attempt", optional "locked_until"]

def rateLimitBucketsTable : TableSpec where
  name := "rate_limit_buckets"
  primaryKey := ["namespace", "scope", "identity"]
  columns :=
    [required "namespace", required "scope", required "identity", required "tokens",
      required "last_refill_at", required "denial_count", optional "last_denied_at",
      required "last_attempt"]

def riskIpAccountsTable : TableSpec where
  name := "risk_ip_accounts"
  primaryKey := ["namespace", "ip_address", "user_id"]
  columns :=
    [required "namespace", required "ip_address", required "user_id", required "last_attempt"]

def systemStatesTable : TableSpec where
  name := "system_states"
  primaryKey := ["owner", "state_key"]
  columns :=
    [required "owner", required "state_key", required "schema_version", required "revision",
      required "payload", required "updated_at"]
  checks := [.atLeast "schema_version" 1, .atLeast "revision" 1]

def trafficThrottlesTable : TableSpec where
  name := "traffic_throttles"
  primaryKey := ["ip_address"]
  columns :=
    [required "ip_address", required "failed_attempts", required "window_started_at",
      required "last_attempt", optional "locked_until"]

def fileDeduplicationTasksTable : TableSpec where
  name := "file_deduplication_tasks"
  primaryKey := ["file_id"]
  columns :=
    [(required "file_id").refers "files" "id", required "phase", required "available_at",
      optional "lease_owner", optional "lease_expires_at", required "attempts",
      optional "last_error", required "created_time"]
  checks := [.oneOfIntegers "phase" [0, 1]]

def schedulesTable : TableSpec where
  name := "schedules"
  primaryKey := ["id"]
  columns :=
    [required "id", required "task_name", required "task_contract_version", required "payload",
      required "trigger_type", required "trigger_data", required "timezone",
      required "system_managed", required "enabled", required "status", required "revision",
      optional "next_run_at", optional "active_execution_id", optional "pending_scheduled_for",
      (optional "created_by").refers "users" "id", required "created_at",
      (optional "updated_by").refers "users" "id", required "updated_at", optional "deleted_at"]
  checks :=
    [.atLeast "revision" 1,
      .atLeast "task_contract_version" 1,
      .oneOfTexts "trigger_type" ["cron", "date", "interval"],
      .oneOfTexts "status" ["active", "completed", "failed", "deleted"]]

def scheduleExecutionsTable : TableSpec where
  name := "schedule_executions"
  primaryKey := ["id"]
  columns :=
    [required "id", (required "schedule_id").refers "schedules" "id", required "task_name",
      required "task_contract_version", required "payload", required "provider_generation",
      required "scheduled_for", required "state", required "dispatch_state", required "attempt",
      optional "retry_at", optional "dispatched_at", optional "lease_owner",
      optional "lease_expires_at", optional "started_at", optional "completed_at",
      optional "result", optional "error", required "created_at"]
  uniques := [["schedule_id", "scheduled_for"]]
  checks :=
    [.atLeast "attempt" 0,
      .oneOfTexts "state" ["pending", "running", "retry_wait", "succeeded", "failed", "cancelled"],
      .oneOfTexts "dispatch_state" ["pending", "sent"]]

def schedulingRuntimeStateTable : TableSpec where
  name := "scheduling_runtime_state"
  primaryKey := ["id"]
  columns :=
    [required "id", required "provider", optional "redis_namespace", required "generation",
      required "schema_version", required "updated_at"]
  checks :=
    [.oneOfIntegers "id" [1],
      .atLeast "generation" 1,
      .oneOfTexts "provider" ["local", "redis"]]

/-- The tables of the core metadata, in the order of `APPLICATION_TABLE_NAMES`. -/
def coreTables : List TableSpec :=
  [filesTable, commentsTable, usersTable, userPasswordsTable, userTotpCredentialsTable,
    userAuthPublicKeysTable, userAuthPoliciesTable, userGroupsTable, groupPermissionsTable,
    userMembershipsTable, userPermissionsTable, keyringsTable, nodesTable, foldersTable,
    documentsTable, documentRevisionsTable, documentMetadataTable, documentMetadataTagsTable,
    objectAccessEntriesTable, compiledAccessRuleSetsTable, compiledAccessRulesTable,
    compiledAccessRuleGroupsTable, compiledAccessRuleMembershipsTable,
    compiledAccessRuleRightsTable, auditEntriesTable, userblockEntriesTable,
    userblockSubEntriesTable, bannedSubnetsTable, accountThrottlesTable, fileTasksTable,
    loginThrottlesTable, rateLimitBucketsTable, riskIpAccountsTable, systemStatesTable,
    trafficThrottlesTable, fileDeduplicationTasksTable, schedulesTable, scheduleExecutionsTable,
    schedulingRuntimeStateTable]

/-- `DEFERRED_UPDATE_ORDER`: table, primary key and columns. -/
def deferredUpdateOrder : List (TableSpec × String × List String) :=
  [(usersTable, "id", ["preference_dek_id"]),
    (documentRevisionsTable, "id", ["parent_revision_id"]),
    (documentsTable, "id", ["current_revision_id"]), (nodesTable, "id", ["access_rule_set_id"])]

end Cfms.Migration
