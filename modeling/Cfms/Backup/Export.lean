import Cfms.Backup.LegacyIdentities
import Cfms.Backup.Selection

/-!
# The rows of an export

`_export_tables` of `maintenance/backup/export.py` with the filters of `selection.py`: which tables
are exported for a selection, and the statement that selects the rows of each.  Rows are taken as
the statement returns them; their values are then encoded one by one.  The extensions are those that
are installed, of which `oidc_sso` declares a table.
-/

namespace Cfms.Backup

open Lib.Relational Migration

/-! ### Tables -/

def userOidcCredentialsTable : TableSpec where
  name := "user_oidc_credentials"
  primaryKey := ["id"]
  columns :=
    [required "id", (required "user_id").refers "users" "id", required "issuer", required "subject",
      (required "identity_digest").uniquely]

/-- `load_extension_data`: the declared tables, each with its `backup_component`. -/
def extensionData : List (TableSpec × BackupComponent) := [(userOidcCredentialsTable, .accounts)]

def allTables : List TableSpec := coreTables ++ extensionData.map Prod.fst

def specOf (name : String) : Option TableSpec := allTables.find? fun T => T.name = name

/-- The tables that `_export_tables` goes through. -/
def exportedNames (selection : Option BackupExportSelection) : List String :=
  (exportedTableNames selection).map TableName.name ++
    (extensionData.filter fun entry => decide (entry.2 ∈ selectionComponents selection)).map
      fun entry => entry.1.name

/-- `[column for column in table.columns if column.computed is None]`. -/
def storedColumns (T : TableSpec) : List String :=
  T.columnNames.filter fun column => !T.generated.any fun g => g.name == column

section

variable {α : Type} [DecidableEq α]

structure SourceDatabase (α : Type) [DecidableEq α] where
  rows : Database (Value α)
  primaryKeys : ∀ T ∈ allTables, (rows T.name).Pairwise fun row row' =>
    conflicts T.primaryKey row row' = false

def SatisfiesForeignKeys (db : Database (Value α)) : Prop :=
  ∀ T ∈ allTables, ∀ row ∈ db T.name, ∀ key ∈ T.foreignKeys, key.holds (db key.table) row = true

variable (order : String → KeyOrder (Value α)) (sel : Option BackupExportSelection)
  (components : Finset BackupComponent) (db : Database (Value α))

/-! ### Filters -/

/-- `select(column).where(column.is_not(None))`. -/
def valuesIn (table column : String) : List (Option (Value α)) :=
  ((db table).map fun row => row column).filter Option.isSome

/-- `_selected_file_id_query`; a row that a union drops is there once more. -/
def selectedFileIds : List (Option (Value α)) :=
  (if .accounts ∈ components then valuesIn db "users" "avatar_id" else []) ++
    (if .documentLibrary ∈ components then valuesIn db "document_revisions" "file_id" else [])

/-- The condition of `_active_compiled_rule_set_id_query` on a rule set and a node. -/
def isActiveFor (ruleSet node : Row (Value α)) : Bool :=
  sameValue (node "access_rule_set_id") (ruleSet "id") &&
    sameValue (ruleSet "node_id") (node "id")

/-- `_active_compiled_rule_set_id_query`. -/
def activeCompiledRuleSetIds : List (Option (Value α)) :=
  ((db "compiled_access_rule_sets").filter fun ruleSet =>
    (db "nodes").any (isActiveFor ruleSet) &&
      (db "compiled_access_rules").any fun rule =>
        sameValue (rule "rule_set_id") (ruleSet "id")).map fun ruleSet => ruleSet "id"

/-- `DOCUMENT_ACCESS_TARGET_TYPES`, sorted. -/
def documentAccessTargetTypes : List (Option (Value α)) :=
  [some (.text "directory"), some (.text "document")]

/-- `reference_filters`, as one list. -/
def commentReferences : List (Option (Value α)) :=
  (if .accounts ∈ components then
    valuesIn db "users" "status_comment_id" ++ valuesIn db "userblock_entries" "reason_comment_id"
  else []) ++
    (if .bannedSubnets ∈ components then valuesIn db "banned_subnets" "reason_comment_id" else [])

variable (table : String)

/-- `_apply_export_table_filter`. -/
def exportTableFilter (row : Row (Value α)) : Bool :=
  match table with
  | "files" => isIn (row "id") (selectedFileIds components db)
  | "object_access_entries" =>
    !decide (.documentLibrary ∈ components) || isIn (row "target_type") documentAccessTargetTypes
  | "comments" => isIn (row "comment_id") (commentReferences components db)
  | _ => true

def activeCompiledRuleIds : List (Option (Value α)) :=
  ((db "compiled_access_rules").filter fun rule =>
    isIn (rule "rule_set_id") (activeCompiledRuleSetIds db)).map fun rule => rule "id"

def activeCompiledRuleGroupIds : List (Option (Value α)) :=
  ((db "compiled_access_rule_groups").filter fun group =>
    isIn (group "rule_id") (activeCompiledRuleIds db)).map fun group => group "id"

/-- `_apply_compiled_access_rule_export_filter`. -/
def compiledAccessRuleFilter (row : Row (Value α)) : Bool :=
  match table with
  | "compiled_access_rule_sets" => isIn (row "id") (activeCompiledRuleSetIds db)
  | "compiled_access_rules" => isIn (row "rule_set_id") (activeCompiledRuleSetIds db)
  | "compiled_access_rule_groups" => isIn (row "rule_id") (activeCompiledRuleIds db)
  | "compiled_access_rule_memberships" | "compiled_access_rule_rights" =>
    isIn (row "group_id") (activeCompiledRuleGroupIds db)
  | _ => true

/-- The `WHERE` clause for a table; a full export has the second filter only. -/
def isSelected (row : Row (Value α)) : Bool :=
  (sel.isNone || exportTableFilter (selectionComponents sel) db table row) &&
    compiledAccessRuleFilter db table row

/-! ### The export -/

/-- `selected_columns`: a node keeps its rule set only where that one is active. -/
def selectedColumns (T : TableSpec) (row : Row (Value α)) : Row (Value α) := fun column =>
  if (storedColumns T).contains column then
    if T.name = "nodes" ∧ column = "access_rule_set_id" then
      if isIn (row column) (activeCompiledRuleSetIds db) then row column else none
    else row column
  else none

def exportedRows (T : TableSpec) : List (Row (Value α)) :=
  (orderBy (order T.name) T.primaryKey
    ((db T.name).filter (isSelected sel db T.name))).map (selectedColumns db T)

/-- `_export_tables`; a table that is not exported has no rows. -/
def exportedTables : Database (Value α) := fun name =>
  match specOf name with
  | some T => if (exportedNames sel).contains name then exportedRows order sel db T else []
  | none => []

end

/-! ### The rules of a node -/

section

variable {α : Type} [DecidableEq α] (db : Database (Value α)) (nodeId : Option (Value α))
  (rule : Row (Value α))

def IsRuleOf : Prop :=
  rule ∈ db "compiled_access_rules" ∧ ∃ ruleSet ∈ db "compiled_access_rule_sets",
    sameValue (rule "rule_set_id") (ruleSet "id") = true ∧
      sameValue (ruleSet "node_id") nodeId = true

/-- `active_compiled_rule_conditions`: a rule of the rule set of the node that is active. -/
def IsActiveRuleOf : Prop :=
  rule ∈ db "compiled_access_rules" ∧ ∃ ruleSet ∈ db "compiled_access_rule_sets",
    ∃ node ∈ db "nodes", sameValue (rule "rule_set_id") (ruleSet "id") = true ∧
      isActiveFor ruleSet node = true ∧ sameValue (node "id") nodeId = true

/-- The tables of which a rule is made: the table, its column, and the table that this refers to. -/
def ruleParts : List (TableSpec × String × TableSpec) :=
  [(compiledAccessRuleGroupsTable, "rule_id", compiledAccessRulesTable),
    (compiledAccessRuleMembershipsTable, "group_id", compiledAccessRuleGroupsTable),
    (compiledAccessRuleRightsTable, "group_id", compiledAccessRuleGroupsTable)]

/-- The rows that make up certain rules: these, their groups, and the memberships and rights. -/
inductive IsRulePart (IsRule : Row (Value α) → Prop) : TableSpec → Row (Value α) → Prop
  | rule {row : Row (Value α)} (h : IsRule row) : IsRulePart IsRule compiledAccessRulesTable row
  | part {T parent : TableSpec} {column : String} {row parentRow : Row (Value α)}
      (hpart : (T, column, parent) ∈ ruleParts) (hpar : IsRulePart IsRule parent parentRow)
      (hrow : row ∈ db T.name) (hsame : sameValue (row column) (parentRow "id") = true) :
      IsRulePart IsRule T row

end

end Cfms.Backup
