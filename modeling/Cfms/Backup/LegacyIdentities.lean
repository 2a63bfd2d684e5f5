import Cfms.Backup.Payload
import Cfms.Migration.Tables

/-!
# Upgrading archives whose accounts have no ids

`_upgrade_legacy_identity_payload` of `maintenance/backup/legacy.py`: every account gets an id,
passwords and TOTP secrets in the rows of `users` move to tables of their own, and usernames in
other tables become ids.  Whether the rows of `users` hold credentials is decided by the first one.
-/

namespace Cfms.Backup

open Lib Migration

/-! ### The tables that name accounts -/

/-- `_USERNAME_REFERENCES`: old and new column. -/
def usernameReferences : String → List (String × String)
  | "user_passwords" => [("username", "user_id")]
  | "user_totp_credentials" => [("username", "user_id")]
  | "user_auth_public_keys" => [("username", "user_id")]
  | "user_permissions" => [("username", "user_id")]
  | "user_memberships" => [("username", "user_id")]
  | "keyrings" => [("username", "user_id")]
  | "userblock_entries" => [("username", "user_id")]
  | "audit_entries" => [("username", "user_id")]
  | "document_metadata" =>
    [("creator_username", "creator_id"), ("last_modified_by_username", "last_modified_by_id")]
  | "schedules" => [("created_by", "created_by"), ("updated_by", "updated_by")]
  | _ => []

/-- `name in _USERNAME_REFERENCES or name == "object_access_entries"`. -/
def isReferencing (name : String) : Bool :=
  !(usernameReferences name).isEmpty || name == "object_access_entries"

def tableSpec (name : String) : Option TableSpec := coreTables.find? fun T => T.name = name

/-- `list(tables[name].c.keys())`. -/
def columnKeys (name : String) : List String := (tableSpec name).elim [] TableSpec.columnNames

/-- `tables[name].c[column].nullable`. -/
def columnNullable (name column : String) : Bool :=
  ((tableSpec name).bind fun T => T.columns.find? fun c => c.name = column).any
    ColumnSpec.nullable

/-! ### Written files -/

section

-- The ids that `uuid.uuid4` draws, and the length of what `orjson.dumps` returns.
variable (uuid4 : ℕ → String) (dumps : JsonRow → ℕ)

/-- A `.converted` file with its count. -/
structure Output where
  lines : List Line := []
  count : ℕ := 0

def Output.write (output : Output) (row : JsonRow) : Output where
  lines := output.lines ++ [⟨dumps row, .object row⟩]
  count := output.count + 1

def Output.writeIf (output : Output) (row : Option JsonRow) : Output :=
  row.elim output (output.write dumps)

/-- The converted file under the name of the table, with its entry of the manifest. -/
def Output.table (output : Output) (name : String) : TablePayload where
  name := name
  columns := columnKeys name
  rows := output.count
  lines := output.lines

def Output.objects (output : Output) : List JsonRow := output.lines.filterMap Line.row?

/-! ### Accounts -/

/-- The fields that move out of the rows of `users`. -/
def inlineFields : List String :=
  ["pass_hash", "passwd_last_modified", "totp_secret", "totp_enabled", "totp_backup_codes"]

def passwordRow (userId : String) (row : JsonRow) : Option JsonRow :=
  let passwordHash := row.get "pass_hash"
  let modified := row.get "passwd_last_modified"
  if passwordHash.isNull then none else
    some (.ofFields [("user_id", .string userId), ("pass_hash", passwordHash),
      ("passwd_last_modified", modified.orZero)])

def totpRow (userId : String) (row : JsonRow) : Option JsonRow :=
  let secret := row.get "totp_secret"
  let enabled := row.getD "totp_enabled" (.bool false)
  let backupCodes := row.get "totp_backup_codes"
  if secret.isNull then none else
    some (.ofFields [("user_id", .string userId), ("secret", secret), ("enabled", enabled),
      ("backup_codes", backupCodes), ("created_time", (row.get "created_time").orZero)])

/-- The row that is written to `users`. -/
def userRow (inlineCredentials : Bool) (userId : String) (row : JsonRow) : JsonRow :=
  (if inlineCredentials then row.without inlineFields else row).set "id" (.string userId)

/-- The state of the loop over `users`. -/
structure UsersUpgrade where
  identities : String → Option String := fun _ => none
  users : Output := {}
  userPasswords : Output := {}
  userTotpCredentials : Output := {}

/-- The loop body over `users`. -/
def upgradeUser (inlineCredentials : Bool) (state : UsersUpgrade) (row : JsonRow) :
    Except RestoreError UsersUpgrade :=
  match row "username" with
  | some (.string username) =>
    if (state.identities username).isSome || (row "id").isSome then .error .invalidIdentity else
    let userId := uuid4 state.users.count
    .ok
      { identities := Function.update state.identities username (some userId)
        users := state.users.write dumps (userRow inlineCredentials userId row)
        userPasswords :=
          if inlineCredentials then state.userPasswords.writeIf dumps (passwordRow userId row)
          else state.userPasswords
        userTotpCredentials :=
          if inlineCredentials then state.userTotpCredentials.writeIf dumps (totpRow userId row)
          else state.userTotpCredentials }
  | _ => .error .invalidIdentity

/-! ### References -/

/-- `identities.get(value)`. -/
def lookupIdentity (identities : String → Option String) : Json → Except RestoreError (Option String)
  | .string username => .ok (identities username)
  | .array _ | .object _ => .error .unhashable
  | _ => .ok none

def idOrNull : Option String → Json
  | some userId => .string userId
  | none => .null

/-- The loop body over the columns of one row. -/
def upgradeReference (identities : String → Option String) (name : String) (row : JsonRow) :
    String × String → Except RestoreError JsonRow
  | (oldName, newName) =>
    match row oldName with
    | none => .ok row
    | some username =>
      match lookupIdentity identities username with
      | .error error => .error error
      | .ok userId =>
        if userId.isNone && !columnNullable name newName then
          .error (.orphanedReference name oldName)
        else .ok ((row.without [oldName]).set newName (idOrNull userId))

/-- `none` for a dropped access entry. -/
def upgradeEntry (identities : String → Option String) (name : String) (row : JsonRow) :
    Except RestoreError (Option JsonRow) :=
  match name == "object_access_entries", row.get "entity_type" with
  | true, .string "user" =>
    match lookupIdentity identities (row.get "entity_identifier") with
    | .error error => .error error
    | .ok userId =>
      .ok (userId.map fun userId => row.set "entity_identifier" (.string userId))
  | _, _ => .ok (some row)

def upgradeRow (identities : String → Option String) (name : String) (output : Output)
    (row : JsonRow) : Except RestoreError Output :=
  match (usernameReferences name).foldlM (upgradeReference identities name) row with
  | .error error => .error error
  | .ok row =>
    match upgradeEntry identities name row with
    | .error error => .error error
    | .ok row => .ok (output.writeIf dumps row)

def upgradeTable (identities : String → Option String) (table : TablePayload) :
    Except RestoreError TablePayload :=
  if isReferencing table.name then
    match (iterRawTableRows table).forEach (upgradeRow dumps identities table.name) {} with
    | .error error => .error error
    | .ok output => .ok (output.table table.name)
  else .ok table

theorem upgradeTable_name {identities : String → Option String} {table table' : TablePayload}
    (h : upgradeTable dumps identities table = .ok table') : table'.name = table.name := by
  rw [upgradeTable] at h
  split at h
  · split at h
    · cases h
    · cases h
      rfl
  · cases h
    rfl

/-! ### The upgrade -/

def credentialTables : List String := ["user_passwords", "user_totp_credentials"]

/-- `"pass_hash" in first`, or in the columns where there is no row. -/
def hasInlineCredentials (users : TablePayload) : Option JsonRow → Bool
  | some first => (first "pass_hash").isSome
  | none => users.columns.contains "pass_hash"

/-- The accounts have ids already. -/
def hasIds (users : TablePayload) : Option JsonRow → Bool
  | some first => (first "id").isSome
  | none => users.columns.contains "id"

/-- The manifest with the tables that the loop over `users` has written. -/
def UsersUpgrade.writeTables (state : UsersUpgrade) (inlineCredentials : Bool)
    (manifest : Manifest) : Manifest :=
  let manifest := manifest.set (state.users.table "users")
  if inlineCredentials then
    (manifest.set (state.userPasswords.table "user_passwords")).set
      (state.userTotpCredentials.table "user_totp_credentials")
  else manifest

def upgradeLegacyIdentityPayload (manifest : Manifest) : Except RestoreError Manifest :=
  match manifest.table? "users" with
  | none => .ok manifest
  | some users =>
    match (iterRawTableRows users).next with
    | .error error => .error error
    | .ok first =>
      if hasIds users first then .ok manifest else
      let inlineCredentials := hasInlineCredentials users first
      if inlineCredentials && credentialTables.any fun name => (manifest.table? name).isSome then
        .error .mixedCredentials
      else
        match (iterRawTableRows users).forEach (upgradeUser uuid4 dumps inlineCredentials) {} with
        | .error error => .error error
        | .ok state =>
          (state.writeTables inlineCredentials manifest).mapM
            (upgradeTable dumps state.identities) (upgradeTable_name dumps)

end

end Cfms.Backup
