import Cfms.Access.Monotonicity
import Cfms.Documents.Handlers
import Cfms.Lib.Run
import Cfms.Lib.Table

/-!
# Grants and the lifetimes of their grantees

An object-access entry names a user or a group by a bare string, without a foreign key.  The ids of
users are drawn at random, but a group is known by its name, and a name can be taken again.  The
handlers that delete users and groups clean up memberships, permissions and blocks, and leave the
entries where they are.

So an entry outlives a deleted group and serves the next group of the same name.
`no_inherited_grant` shows that this is the only way to inherit one.
-/

namespace Cfms.Identity

open Access Lib Lib.Run List
open Documents (Actor Outcome handle)

/-! ### Tables -/

/-- A row of `users`. -/
structure UserRow where
  username : String
  account : Access.Account
  deriving DecidableEq

/-- The tables that the requests read and write.  The memberships of a user are rows with a foreign
key to the group; the object-access entries have their ids, and the other tables are those of `db`. -/
structure AccessTables where
  users : List UserRow
  groups : List UserGroup
  entries : Table ℕ ObjectAccessEntry
  db : Database
  userIds_nodup : (users.map fun row => row.account.id).Nodup
  memberships_groups : ∀ row ∈ users, ∀ membership ∈ row.account.groups,
    ∃ group ∈ groups, group.groupName = membership.groupName

structure GrantRequest where
  entityType : EntityType
  entityIdentifier : String
  targetType : NodeType
  targetIdentifier : NodeId
  /-- Each access type with the id that its row gets. -/
  accessTypes : List (AccessType × ℕ)
  startTime : Instant
  endTime : Option Instant
  deriving DecidableEq

def GrantRequest.entry (grant : GrantRequest) (accessType : AccessType) : ObjectAccessEntry where
  entityType := grant.entityType
  entityIdentifier := grant.entityIdentifier
  targetType := grant.targetType
  targetIdentifier := grant.targetIdentifier
  accessType := accessType
  startTime := grant.startTime
  endTime := grant.endTime

/-- `if end_time and not start_time <= end_time`. -/
def GrantRequest.timesReversed (grant : GrantRequest) : Bool :=
  grant.endTime.any fun endTime => endTime != 0 && !decide (grant.startTime ≤ endTime)

inductive AccessOutcome
  | refused (code : ℕ) (message : String)
  /-- The answer of a document or directory handler that did not commit. -/
  | declined (outcome : Outcome)
  | raised
  | committed (tables : AccessTables)

namespace Messages

def permissionDeniedCreateGroup := "You do not have permission to create groups"
def groupAlreadyExists := "Group already exists"
def accessDeniedManageAccess := "You do not have permission to manage object access"
def entityNotFound := "Entity not found"
def targetNotFound := "Target not found"
def accessEntryNotFound := "Access entry not found"

end Messages

variable (s : AccessTables) (actor : Actor)

namespace AccessTables

/-- The whole database, as the access checks and the document handlers read it. -/
def database : Database :=
  { s.db with objectAccessEntries := s.entries.entries.map Sigma.snd }

/-- `session.get(User, id)`. -/
def user? (userId : String) : Option UserRow :=
  s.users.find? fun row => row.account.id == userId

/-- The user behind a request. -/
def actor? (requester : String) (now : Instant) (recursive : Bool) : Option Actor :=
  (s.user? requester).map fun row => ⟨row.account.user s.groups now, now, recursive⟩

/-- `INSERT` of a user with its memberships. -/
def insertUser (row : UserRow) : Option AccessTables :=
  if h : row.account.id ∉ s.users.map (fun row => row.account.id) ∧
      ∀ membership ∈ row.account.groups,
        ∃ group ∈ s.groups, group.groupName = membership.groupName then
    some { s with
      users := s.users ++ [row]
      userIds_nodup := by
        rw [List.map_append, List.nodup_append]
        refine ⟨s.userIds_nodup, by simp, ?_⟩
        rintro a ha b hb rfl
        rw [List.map_singleton, List.mem_singleton] at hb
        exact h.1 (hb ▸ ha)
      memberships_groups := by
        intro other hother
        rcases List.mem_append.mp hother with hother | hother
        · exact s.memberships_groups other hother
        · rw [List.mem_singleton.mp hother]
          exact h.2 }
  else none

/-- `DELETE` of a user, with its memberships and blocks. -/
def removeUser (userId : String) : AccessTables :=
  let blocks := (s.db.userBlockEntries.filter fun block => block.userId == userId).map
    UserBlockEntry.blockId
  { s with
    users := s.users.filter fun row => row.account.id != userId
    db :=
      { s.db with
        userBlockEntries := s.db.userBlockEntries.filter fun block => block.userId != userId
        userBlockSubEntries := s.db.userBlockSubEntries.filter fun sub =>
          !blocks.contains sub.parentId }
    userIds_nodup := s.userIds_nodup.sublist (List.filter_sublist.map _)
    memberships_groups := fun row hrow => s.memberships_groups row (List.mem_filter.mp hrow).1 }

/-- `INSERT` of a group. -/
def insertGroup (group : UserGroup) : AccessTables :=
  { s with
    groups := s.groups ++ [group]
    memberships_groups := by
      intro row hrow membership hmemb
      obtain ⟨found, hfound, hname⟩ := s.memberships_groups row hrow membership hmemb
      exact ⟨found, List.mem_append_left _ hfound, hname⟩ }

def leaveGroup (groupName : String) (row : UserRow) : UserRow :=
  { row with
    account :=
      { row.account with
        groups := row.account.groups.filter fun membership => membership.groupName != groupName } }

/-- `DELETE` of a group, with its memberships and permissions. -/
def removeGroup (groupName : String) : AccessTables :=
  { s with
    users := s.users.map (leaveGroup groupName)
    groups := s.groups.filter fun group => group.groupName != groupName
    userIds_nodup := by
      rw [List.map_map]
      exact s.userIds_nodup
    memberships_groups := by
      intro row hrow membership hmemb
      obtain ⟨old, hold, rfl⟩ := List.mem_map.mp hrow
      obtain ⟨hmem, hname⟩ := List.mem_filter.mp hmemb
      obtain ⟨group, hgroup, hsame⟩ := s.memberships_groups old hold membership hmem
      exact ⟨group, List.mem_filter.mpr ⟨hgroup, by rw [hsame]; exact hname⟩, hsame⟩ }

def withMemberships (userId : String) (memberships : List UserMembership) (row : UserRow) :
    UserRow :=
  if row.account.id = userId then { row with account := { row.account with groups := memberships } }
  else row

theorem withMemberships_id (userId : String) (memberships : List UserMembership) (row : UserRow) :
    (withMemberships userId memberships row).account.id = row.account.id := by
  unfold withMemberships
  split <;> rfl

/-- The memberships of a user are replaced; the foreign key refuses an unknown group. -/
def setMemberships (userId : String) (memberships : List UserMembership) : Option AccessTables :=
  if h : ∀ membership ∈ memberships, ∃ group ∈ s.groups, group.groupName = membership.groupName then
    some { s with
      users := s.users.map (withMemberships userId memberships)
      userIds_nodup := by
        rw [List.map_map, show (fun row : UserRow => row.account.id) ∘
          withMemberships userId memberships = fun row => row.account.id from
            funext (withMemberships_id userId memberships)]
        exact s.userIds_nodup
      memberships_groups := by
        intro row hrow
        obtain ⟨old, hold, rfl⟩ := List.mem_map.mp hrow
        unfold withMemberships
        split
        · exact h
        · exact s.memberships_groups old hold }
  else none

/-! ### Users and groups -/

/-- `RequestCreateUserHandler`; the names of the missing groups come in the order of a Python
set. -/
def createUser (username : String) (rights : List PermissionEntry)
    (memberships : List UserMembership) (newUserId : String) : AccessOutcome :=
  if !actor.holds "create_user" then .refused 403 "You do not have permission to create users"
  else if s.users.any fun row => row.username == username then
    .refused 400 "Username already exists"
  else
    let missing := (memberships.map UserMembership.groupName).dedup.filter fun name =>
      (group? s.groups name).isNone
    if !missing.isEmpty then .refused 400 ("Groups do not exist: " ++ ", ".intercalate missing)
    else
      match s.insertUser ⟨username, ⟨newUserId, rights, memberships⟩⟩ with
      | none => .raised
      | some s' => .committed s'

/-- `RequestDeleteUserHandler`. -/
def deleteUser (userId : String) : AccessOutcome :=
  if !actor.holds "delete_user" then .refused 403 "You do not have permission to delete users"
  else if (s.user? userId).isNone then .refused 404 "User does not exist"
  else if userId == actor.user.id then .refused 400 "Cannot delete yourself"
  else .committed (s.removeUser userId)

/-- `RequestCreateGroupHandler`. -/
def createGroup (groupName : String) (permissions : List PermissionEntry) : AccessOutcome :=
  if !actor.holds "create_group" then .refused 403 Messages.permissionDeniedCreateGroup
  else if (group? s.groups groupName).isSome then .refused 400 Messages.groupAlreadyExists
  else .committed (s.insertGroup ⟨groupName, permissions⟩)

/-- `RequestDeleteGroupHandler`. -/
def deleteGroup (groupName : String) : AccessOutcome :=
  if !actor.holds "delete_group" then .refused 403 "You do not have permission to delete groups"
  else if (group? s.groups groupName).isNone then .refused 404 "Group does not exist"
  else .committed (s.removeGroup groupName)

/-- `set(a) == set(b)`. -/
def sameMembers (a b : List String) : Bool := a.all (b.contains ·) && b.all (a.contains ·)

/-- `RequestChangeUserGroupsHandler`. -/
def changeUserGroups (userId : String) (groups : List String) : AccessOutcome :=
  if !actor.holds "change_user_groups" then
    .refused 403 "You do not have permission to change user groups"
  else
    match s.user? userId with
    | none => .refused 404 "User does not exist"
    | some row =>
      if sameMembers groups (allGroups row.account actor.now) then .committed s
      else
        match s.setMemberships userId (groups.map fun name => ⟨name, some actor.now, none⟩) with
        | none => .raised
        | some s' => .committed s'

/-! ### Object access -/

def hasEntity : EntityType → String → Bool
  | .user, identifier => (s.user? identifier).isSome
  | .group, identifier => (group? s.groups identifier).isSome

/-- The target of a grant, through the row filter of the session. -/
def target? : NodeType → NodeId → Option Node
  | .document, id => s.db.liveDocument? id
  | .directory, id => s.db.liveFolder? id

/-- The loop over the access types; a check reads the entries added before it. -/
def grantEntries (actor : Actor) (target : Node) (grant : GrantRequest) :
    List (AccessType × ℕ) → AccessTables → AccessOutcome
  | [], s => .committed s
  | (accessType, entryId) :: rest, s =>
    match actor.allows s.database target accessType with
    | .error _ => .raised
    | .ok false => .refused 403 Documents.Messages.accessDenied
    | .ok true =>
      match s.entries.insertNew entryId (grant.entry accessType) with
      | none => .raised
      | some entries => grantEntries actor target grant rest { s with entries }

/-- `RequestGrantAccessHandler`. -/
def grantAccess (grant : GrantRequest) : AccessOutcome :=
  if grant.timesReversed then .refused 400 "The start time should be before the end time"
  else if !actor.holds "manage_access" then .refused 403 Messages.accessDeniedManageAccess
  else if !s.hasEntity grant.entityType grant.entityIdentifier then
    .refused 404 Messages.entityNotFound
  else
    match s.target? grant.targetType grant.targetIdentifier with
    | none => .refused 404 Messages.targetNotFound
    | some target => grantEntries actor target grant grant.accessTypes s

/-- `RequestRevokeAccessHandler`. -/
def revokeAccess (entryId : ℕ) : AccessOutcome :=
  if !actor.holds "manage_access" then .refused 403 Messages.accessDeniedManageAccess
  else if (s.entries.lookup entryId).isNone then .refused 404 Messages.accessEntryNotFound
  else .committed { s with entries := s.entries.erase entryId }

end AccessTables

/-! ### Requests -/

/-- What a request asks for, with what the server draws. -/
inductive AccessAction
  | createUser (username : String) (rights : List PermissionEntry)
      (memberships : List UserMembership) (newUserId : String)
  | deleteUser (userId : String)
  | createGroup (groupName : String) (permissions : List PermissionEntry)
  | deleteGroup (groupName : String)
  | changeUserGroups (userId : String) (groups : List String)
  | grantAccess (grant : GrantRequest)
  | revokeAccess (entryId : ℕ)
  | nodes (request : Actor → Documents.Request)

/-- A request with its user, the time it is handled and the setting
`enable_access_recursive_check`. -/
structure AccessRequest where
  requester : String
  now : Instant
  recursive : Bool
  action : AccessAction

namespace AccessTables

/-- `User.get_existing`, and then the handler. -/
def respond (request : AccessRequest) : AccessOutcome :=
  match s.actor? request.requester request.now request.recursive with
  | none => .raised
  | some actor =>
    match request.action with
    | .createUser username rights memberships newUserId =>
      s.createUser actor username rights memberships newUserId
    | .deleteUser userId => s.deleteUser actor userId
    | .createGroup groupName permissions => s.createGroup actor groupName permissions
    | .deleteGroup groupName => s.deleteGroup actor groupName
    | .changeUserGroups userId groups => s.changeUserGroups actor userId groups
    | .grantAccess grant => s.grantAccess actor grant
    | .revokeAccess entryId => s.revokeAccess actor entryId
    | .nodes build =>
      match handle s.database (build actor) with
      | .committed _ _ db => .committed { s with db }
      | outcome => .declined outcome

def accept (request : AccessRequest) : Option AccessTables :=
  match s.respond request with
  | .committed s' => some s'
  | _ => none

/-! ### Lifetimes -/

/-- An entry names the user or group. -/
def Names (entityType : EntityType) (identifier : String) : Prop :=
  ∃ entryId entry, s.entries.lookup entryId = some entry ∧ entry.entityType = entityType ∧
    entry.entityIdentifier = identifier

end AccessTables

/-- The request deletes the grantee of the entry. -/
def AccessAction.deletes (entry : ObjectAccessEntry) : AccessAction → Prop
  | .deleteUser userId => entry.entityType = .user ∧ entry.entityIdentifier = userId
  | .deleteGroup groupName => entry.entityType = .group ∧ entry.entityIdentifier = groupName
  | _ => False

def AccessAction.grants (entry : ObjectAccessEntry) : AccessAction → Prop
  | .grantAccess grant => ∃ access ∈ grant.accessTypes, grant.entry access.1 = entry
  | _ => False

def AccessAction.createdUser? : AccessAction → Option String
  | .createUser _ _ _ newUserId => some newUserId
  | _ => none

/-- The request creates a user or a group that an entry already names. -/
def AccessAction.createsNamesake : AccessAction → Prop
  | .createUser _ _ _ newUserId => s.Names .user newUserId
  | .createGroup groupName _ => s.Names .group groupName
  | _ => False

namespace AccessTables

/-- No group is created under a name that entries still carry. -/
def KeepsNamesApart (request : AccessRequest) : Prop :=
  ∀ groupName permissions, request.action = .createGroup groupName permissions →
    ¬ s.Names .group groupName

/-- The entry keeps its row over the whole run. -/
def Stays (history : List AccessRequest) (entryId : ℕ) (entry : ObjectAccessEntry) : Prop :=
  ∀ front, front <+: history →
    ∃ s', run accept s front = some s' ∧ s'.entries.lookup entryId = some entry

/-- A grant request of the history created the entry, and its grantee has not been deleted since. -/
def GrantedInLifetime (start : AccessTables) (history : List AccessRequest) (entryId : ℕ)
    (entry : ObjectAccessEntry) : Prop :=
  ∃ before request after s s',
    history = before ++ request :: after ∧ request.action.grants entry ∧
      run accept start before = some s ∧ s.entries.lookup entryId = none ∧
      s.accept request = some s' ∧ s'.Stays after entryId entry ∧
      ∀ later ∈ after, ¬ later.action.deletes entry

/-! ### One request -/

section

variable {s s' : AccessTables} {entryId : ℕ} {entry : ObjectAccessEntry} {userId : String}

theorem user?_isSome :
    (s.user? userId).isSome = true ↔ ∃ row ∈ s.users, row.account.id = userId := by
  simp [user?]

theorem group?_isSome {groups : List UserGroup} {name : String} :
    (group? groups name).isSome = true ↔ ∃ group ∈ groups, group.groupName = name := by
  simp [group?]

theorem hasEntity_iff {entityType : EntityType} {identifier : String} :
    s.hasEntity entityType identifier = true ↔
      (entityType = .user ∧ ∃ row ∈ s.users, row.account.id = identifier) ∨
        (entityType = .group ∧ ∃ group ∈ s.groups, group.groupName = identifier) := by
  cases entityType with
  | user => simp [hasEntity, user?_isSome]
  | group => simp [hasEntity, group?_isSome]

variable {request : AccessRequest}

theorem accept_eq_some : s.accept request = some s' ↔ s.respond request = .committed s' := by
  rw [accept]
  split
  · rename_i committed hresp
    rw [hresp, Option.some.injEq, AccessOutcome.committed.injEq]
  · rename_i hnot
    constructor
    · intro h
      cases h
    · intro h
      exact absurd h (hnot s')

theorem insertUser_eq_some {row : UserRow} (h : s.insertUser row = some s') :
    s'.users = s.users ++ [row] ∧ s'.groups = s.groups ∧ s'.entries = s.entries ∧ s'.db = s.db := by
  rw [insertUser] at h
  split at h
  · cases h
    exact ⟨rfl, rfl, rfl, rfl⟩
  · cases h

variable {memberships : List UserMembership}

theorem setMemberships_eq_some (h : s.setMemberships userId memberships = some s') :
    s'.users = s.users.map (withMemberships userId memberships) ∧ s'.groups = s.groups ∧
      s'.entries = s.entries ∧ s'.db = s.db := by
  rw [setMemberships] at h
  split at h
  · cases h
    exact ⟨rfl, rfl, rfl, rfl⟩
  · cases h

variable {grant : GrantRequest}

theorem grantEntries_committed {actor : Actor} {target : Node} {accessTypes : List (AccessType × ℕ)}
    (h : grantEntries actor target grant accessTypes s = .committed s') :
    s'.users = s.users ∧ s'.groups = s.groups ∧ s'.db = s.db ∧
      ∀ entryId entry, s'.entries.lookup entryId = some entry →
        s.entries.lookup entryId = some entry ∨
          s.entries.lookup entryId = none ∧ ∃ access ∈ accessTypes, grant.entry access.1 = entry := by
  induction accessTypes generalizing s with
  | nil =>
    cases h
    exact ⟨rfl, rfl, rfl, fun entryId entry hentry => .inl hentry⟩
  | cons access rest ih =>
    rw [grantEntries] at h
    split at h
    · cases h
    · cases h
    split at h
    · cases h
    rename_i entries hins
    obtain ⟨husers, hgrps, hdb, hents⟩ := ih h
    obtain ⟨hfree, rfl⟩ := Table.insertNew_eq_some hins
    refine ⟨husers, hgrps, hdb, fun entryId entry hentry => ?_⟩
    rcases hents entryId entry hentry with hold | ⟨hnone, later, hlater, hsame⟩
    · rcases Table.lookup_insert_eq_some hold with ⟨rfl, rfl⟩ | ⟨-, hold⟩
      · exact .inr ⟨hfree, access, mem_cons_self, rfl⟩
      · exact .inl hold
    · refine .inr ⟨?_, later, mem_cons_of_mem _ hlater, hsame⟩
      by_cases hsameId : entryId = access.2
      · subst hsameId
        exact hfree
      · rwa [AList.lookup_insert_ne hsameId] at hnone

/-! What the handlers leave. -/

variable {actor : Actor}

theorem createUser_committed {username newUserId : String} {rights : List PermissionEntry}
    (h : s.createUser actor username rights memberships newUserId = .committed s') :
    s'.users = s.users ++ [⟨username, ⟨newUserId, rights, memberships⟩⟩] ∧ s'.groups = s.groups ∧
      s'.entries = s.entries ∧ s'.db = s.db := by
  rw [createUser] at h
  split at h
  · cases h
  split at h
  · cases h
  dsimp only at h
  split at h
  · cases h
  split at h
  · cases h
  rename_i inserted hins
  cases h
  exact insertUser_eq_some hins

theorem deleteUser_committed (h : s.deleteUser actor userId = .committed s') :
    s' = s.removeUser userId := by
  rw [deleteUser] at h
  split at h
  · cases h
  split at h
  · cases h
  split at h
  · cases h
  · cases h
    rfl

variable {groupName : String}

theorem createGroup_committed {permissions : List PermissionEntry}
    (h : s.createGroup actor groupName permissions = .committed s') :
    s' = s.insertGroup ⟨groupName, permissions⟩ := by
  rw [createGroup] at h
  split at h
  · cases h
  split at h
  · cases h
  · cases h
    rfl

theorem deleteGroup_committed
    (h : s.deleteGroup actor groupName = .committed s') : s' = s.removeGroup groupName := by
  rw [deleteGroup] at h
  split at h
  · cases h
  split at h
  · cases h
  · cases h
    rfl

theorem changeUserGroups_committed {groups : List String}
    (h : s.changeUserGroups actor userId groups = .committed s') :
    (s'.users.map fun row => row.account.id) = (s.users.map fun row => row.account.id) ∧
      s'.groups = s.groups ∧ s'.entries = s.entries ∧ s'.db = s.db := by
  rw [changeUserGroups] at h
  split at h
  · cases h
  split at h
  · cases h
  split at h
  · cases h
    exact ⟨rfl, rfl, rfl, rfl⟩
  · split at h
    · cases h
    · rename_i changed hset
      cases h
      obtain ⟨husers, hothers⟩ := setMemberships_eq_some hset
      refine ⟨?_, hothers⟩
      rw [husers, map_map]
      exact map_congr_left fun row _ => withMemberships_id _ _ row

theorem grantAccess_committed (h : s.grantAccess actor grant = .committed s') :
    s.hasEntity grant.entityType grant.entityIdentifier = true ∧
      s'.users = s.users ∧ s'.groups = s.groups ∧ s'.db = s.db ∧
      ∀ entryId entry, s'.entries.lookup entryId = some entry →
        s.entries.lookup entryId = some entry ∨ s.entries.lookup entryId = none ∧
          ∃ access ∈ grant.accessTypes, grant.entry access.1 = entry := by
  rw [grantAccess] at h
  split at h
  · cases h
  split at h
  · cases h
  split at h
  · cases h
  rename_i hentity
  split at h
  · cases h
  · exact ⟨by simpa using hentity, grantEntries_committed h⟩

variable {revokedId : ℕ}

theorem revokeAccess_committed (h : s.revokeAccess actor revokedId = .committed s') :
    s' = { s with entries := s.entries.erase revokedId } := by
  rw [revokeAccess] at h
  split at h
  · cases h
  split at h
  · cases h
  · cases h
    rfl

theorem lookup_of_erase (h : (s.entries.erase revokedId).lookup entryId = some entry) :
    s.entries.lookup entryId = some entry := by
  have hne : entryId ≠ revokedId := by
    rintro rfl
    rw [AList.lookup_erase] at h
    cases h
  rwa [AList.lookup_erase_ne hne] at h

theorem accept_cases (h : s.accept request = some s') : ∃ actor,
      (∃ username rights memberships newUserId,
        request.action = .createUser username rights memberships newUserId ∧
          s.createUser actor username rights memberships newUserId = .committed s') ∨
      (∃ userId, request.action = .deleteUser userId ∧ s.deleteUser actor userId = .committed s') ∨
      (∃ groupName permissions, request.action = .createGroup groupName permissions ∧
        s.createGroup actor groupName permissions = .committed s') ∨
      (∃ groupName, request.action = .deleteGroup groupName ∧
        s.deleteGroup actor groupName = .committed s') ∨
      (∃ userId groups, request.action = .changeUserGroups userId groups ∧
        s.changeUserGroups actor userId groups = .committed s') ∨
      (∃ grant, request.action = .grantAccess grant ∧ s.grantAccess actor grant = .committed s') ∨
      (∃ revokedId, request.action = .revokeAccess revokedId ∧
        s.revokeAccess actor revokedId = .committed s') ∨
      ∃ build code message db, request.action = .nodes build ∧
        handle s.database (build actor) = .committed code message db ∧ s' = { s with db } := by
  rw [accept_eq_some, respond] at h
  split at h
  · cases h
  rename_i actor hactor
  refine ⟨actor, ?_⟩
  split at h
  · rename_i username rights memberships newUserId hact
    exact .inl ⟨username, rights, memberships, newUserId, hact, h⟩
  · rename_i userId hact
    exact .inr (.inl ⟨userId, hact, h⟩)
  · rename_i groupName permissions hact
    exact .inr (.inr (.inl ⟨groupName, permissions, hact, h⟩))
  · rename_i groupName hact
    exact .inr (.inr (.inr (.inl ⟨groupName, hact, h⟩)))
  · rename_i userId groups hact
    exact .inr (.inr (.inr (.inr (.inl ⟨userId, groups, hact, h⟩))))
  · rename_i grant hact
    exact .inr (.inr (.inr (.inr (.inr (.inl ⟨grant, hact, h⟩)))))
  · rename_i revokedId hact
    exact .inr (.inr (.inr (.inr (.inr (.inr (.inl ⟨revokedId, hact, h⟩))))))
  · rename_i build hact
    split at h
    · rename_i code message db hhandle
      cases h
      exact .inr (.inr (.inr (.inr (.inr (.inr (.inr ⟨build, code, message, db, hact, hhandle, rfl⟩))))))
    · cases h

/-- An entry after a request whose grantee is there: it was there with its grantee before, or the
request granted it. -/
theorem accept_entry (h : s.accept request = some s') (hapart : ¬ request.action.createsNamesake s)
    (hentry : s'.entries.lookup entryId = some entry)
    (hgrantee : s'.hasEntity entry.entityType entry.entityIdentifier = true) :
    (s.entries.lookup entryId = some entry ∧
      s.hasEntity entry.entityType entry.entityIdentifier = true ∧ ¬ request.action.deletes entry) ∨
      (request.action.grants entry ∧ s.entries.lookup entryId = none) := by
  rw [hasEntity_iff] at hgrantee ⊢
  obtain ⟨actor, hcases⟩ := accept_cases h
  rcases hcases with ⟨username, rights, memberships, newUserId, hact, hhand⟩ |
    ⟨userId, hact, hhand⟩ | ⟨groupName, permissions, hact, hhand⟩ |
    ⟨groupName, hact, hhand⟩ | ⟨userId, groups, hact, hhand⟩ |
    ⟨grant, hact, hhand⟩ | ⟨revokedId, hact, hhand⟩ |
    ⟨build, code, message, db, hact, hhand, rfl⟩
  all_goals rw [hact] at hapart ⊢
  · obtain ⟨husers, hgrps, hents, -⟩ := createUser_committed hhand
    rw [hents] at hentry
    rw [husers, hgrps] at hgrantee
    refine .inl ⟨hentry, ?_, id⟩
    rcases hgrantee with ⟨htype, row, hrow, hid⟩ | hgroup
    · rcases mem_append.mp hrow with hrow | hrow
      · exact .inl ⟨htype, row, hrow, hid⟩
      · rw [mem_singleton] at hrow
        subst hrow
        exact absurd ⟨entryId, entry, hentry, htype, hid.symm⟩ hapart
    · exact .inr hgroup
  · obtain rfl := deleteUser_committed hhand
    refine .inl ⟨hentry, ?_, ?_⟩
    · rcases hgrantee with ⟨htype, row, hrow, hid⟩ | hgroup
      · exact .inl ⟨htype, row, (mem_filter.mp hrow).1, hid⟩
      · exact .inr hgroup
    · rintro ⟨htype, hid⟩
      rcases hgrantee with ⟨-, row, hrow, hid'⟩ | ⟨htype', -⟩
      · have hkept := (mem_filter.mp hrow).2
        rw [hid', hid] at hkept
        simp at hkept
      · rw [htype] at htype'
        cases htype'
  · obtain rfl := createGroup_committed hhand
    refine .inl ⟨hentry, ?_, id⟩
    rcases hgrantee with huser | ⟨htype, group, hgroup, hname⟩
    · exact .inl huser
    rcases mem_append.mp hgroup with hgroup | hgroup
    · exact .inr ⟨htype, group, hgroup, hname⟩
    rw [mem_singleton] at hgroup
    subst hgroup
    exact absurd ⟨entryId, entry, hentry, htype, hname.symm⟩ hapart
  · obtain rfl := deleteGroup_committed hhand
    refine .inl ⟨hentry, ?_, ?_⟩
    · rcases hgrantee with ⟨htype, row, hrow, hid⟩ | ⟨htype, group, hgroup, hname⟩
      · obtain ⟨old, hold, rfl⟩ := mem_map.mp hrow
        exact .inl ⟨htype, old, hold, hid⟩
      · exact .inr ⟨htype, group, (mem_filter.mp hgroup).1, hname⟩
    · rintro ⟨htype, hname⟩
      rcases hgrantee with ⟨htype', -⟩ | ⟨-, group, hgroup, hname'⟩
      · rw [htype] at htype'
        cases htype'
      · have hkept := (mem_filter.mp hgroup).2
        rw [hname', hname] at hkept
        simp at hkept
  · obtain ⟨husers, hgrps, hents, -⟩ := changeUserGroups_committed hhand
    rw [hents] at hentry
    refine .inl ⟨hentry, ?_, id⟩
    rw [hgrps] at hgrantee
    refine hgrantee.imp_left fun ⟨htype, row, hrow, hid⟩ => ⟨htype, ?_⟩
    have hmem : entry.entityIdentifier ∈ s'.users.map fun row => row.account.id :=
      mem_map.mpr ⟨row, hrow, hid⟩
    rw [husers] at hmem
    exact mem_map.mp hmem
  · obtain ⟨-, husers, hgrps, -, hents⟩ := grantAccess_committed hhand
    rw [husers, hgrps] at hgrantee
    rcases hents entryId entry hentry with hold | ⟨hnone, hgrant⟩
    · exact .inl ⟨hold, hgrantee, id⟩
    · exact .inr ⟨hgrant, hnone⟩
  · obtain rfl := revokeAccess_committed hhand
    exact .inl ⟨lookup_of_erase hentry, hgrantee, id⟩
  · exact .inl ⟨hentry, hgrantee, id⟩

/-- The ids that users have or had. -/
structure KnownUsers (s : AccessTables) (known : List String) : Prop where
  users : ∀ row ∈ s.users, row.account.id ∈ known
  entries : ∀ entryId entry, s.entries.lookup entryId = some entry → entry.entityType = .user →
    entry.entityIdentifier ∈ known

variable {known : List String}

theorem KnownUsers.mono {known' : List String} (h : s.KnownUsers known)
    (hsub : ∀ id ∈ known, id ∈ known') : s.KnownUsers known' where
  users row hrow := hsub _ (h.users row hrow)
  entries entryId entry hentry htype := hsub _ (h.entries entryId entry hentry htype)

theorem accept_knownUsers (h : s.accept request = some s') (hknown : s.KnownUsers known) :
    s'.KnownUsers (known ++ request.action.createdUser?.toList) := by
  obtain ⟨actor, hcases⟩ := accept_cases h
  rcases hcases with ⟨username, rights, memberships, newUserId, hact, hhand⟩ |
    ⟨userId, hact, hhand⟩ | ⟨groupName, permissions, hact, hhand⟩ |
    ⟨groupName, hact, hhand⟩ | ⟨userId, groups, hact, hhand⟩ |
    ⟨grant, hact, hhand⟩ | ⟨revokedId, hact, hhand⟩ |
    ⟨build, code, message, db, hact, hhand, rfl⟩
  all_goals rw [hact]
  · obtain ⟨husers, -, hents, -⟩ := createUser_committed hhand
    refine ⟨fun row hrow => ?_, fun entryId entry hentry htype => ?_⟩
    · rw [husers, mem_append, mem_singleton] at hrow
      rcases hrow with hrow | rfl
      · exact mem_append_left _ (hknown.users row hrow)
      · exact mem_append_right _ (mem_singleton_self _)
    · rw [hents] at hentry
      exact mem_append_left _ (hknown.entries entryId entry hentry htype)
  all_goals refine KnownUsers.mono ?_ fun id hid => mem_append_left _ hid
  · obtain rfl := deleteUser_committed hhand
    exact ⟨fun row hrow => hknown.users row (mem_filter.mp hrow).1, hknown.entries⟩
  · obtain rfl := createGroup_committed hhand
    exact ⟨hknown.users, hknown.entries⟩
  · obtain rfl := deleteGroup_committed hhand
    refine ⟨fun row hrow => ?_, hknown.entries⟩
    obtain ⟨old, hold, rfl⟩ := mem_map.mp hrow
    exact hknown.users old hold
  · obtain ⟨husers, -, hents, -⟩ := changeUserGroups_committed hhand
    refine ⟨fun row hrow => ?_, fun entryId entry hentry htype => ?_⟩
    · have hmem : row.account.id ∈ s'.users.map fun row => row.account.id :=
        mem_map_of_mem hrow
      rw [husers] at hmem
      obtain ⟨old, hold, hid⟩ := mem_map.mp hmem
      rw [← hid]
      exact hknown.users old hold
    · rw [hents] at hentry
      exact hknown.entries entryId entry hentry htype
  · obtain ⟨hentity, husers, -, -, hents⟩ := grantAccess_committed hhand
    refine ⟨fun row hrow => hknown.users row (husers ▸ hrow), fun entryId entry hentry htype => ?_⟩
    rcases hents entryId entry hentry with hold | ⟨-, access, -, rfl⟩
    · exact hknown.entries entryId entry hold htype
    rcases hasEntity_iff.mp hentity with ⟨-, row, hrow, hid⟩ | ⟨hgroup, -⟩
    · show grant.entityIdentifier ∈ known
      rw [← hid]
      exact hknown.users row hrow
    · rw [show grant.entityType = .user from htype] at hgroup
      cases hgroup
  · obtain rfl := revokeAccess_committed hhand
    exact ⟨hknown.users, fun entryId entry hentry => hknown.entries entryId entry
      (lookup_of_erase hentry)⟩
  · exact ⟨hknown.users, hknown.entries⟩

end

/-! ### Runs -/

variable {s : AccessTables} {history : List AccessRequest} {entryId : ℕ} {entry : ObjectAccessEntry}

variable {s' : AccessTables} {request : AccessRequest}

theorem Stays.cons (hstep : s.accept request = some s')
    (hentry : s.entries.lookup entryId = some entry) (h : s'.Stays history entryId entry) :
    s.Stays (request :: history) entryId entry := by
  intro front hfront
  cases front with
  | nil => exact ⟨s, rfl, hentry⟩
  | cons first front =>
    obtain ⟨rfl, hrest⟩ := cons_prefix_cons.mp hfront
    obtain ⟨t, hrun, hrow⟩ := h front hrest
    exact ⟨t, run_cons_eq_some.mpr ⟨s', hstep, hrun⟩, hrow⟩

theorem Stays.lookup (h : s.Stays history entryId entry) :
    s.entries.lookup entryId = some entry := by
  obtain ⟨t, hrun, hrow⟩ := h [] nil_prefix
  cases hrun
  exact hrow

theorem GrantedInLifetime.cons
    (hstep : s.accept request = some s') (h : s'.GrantedInLifetime history entryId entry) :
    s.GrantedInLifetime (request :: history) entryId entry := by
  obtain ⟨before, grant, after, t, t', rfl, hgrants, hrun, hrest⟩ := h
  exact ⟨request :: before, grant, after, t, t', rfl, hgrants,
    run_cons_eq_some.mpr ⟨s', hstep, hrun⟩, hrest⟩

def createdUsers (history : List AccessRequest) : List String :=
  history.filterMap fun request => request.action.createdUser?

/-- After a run, an entry whose grantee is there has been there with its grantee all along, or was
granted in the lifetime of the grantee. -/
theorem run_entry {t : AccessTables} {known : List String}
    (hrun : run accept s history = some t) (hknown : s.KnownUsers known)
    (hfresh : (createdUsers history).Nodup) (hdrawn : ∀ id ∈ createdUsers history, id ∉ known)
    (hmeets : Meets accept KeepsNamesApart s history)
    (hentry : t.entries.lookup entryId = some entry)
    (hgrantee : t.hasEntity entry.entityType entry.entityIdentifier = true) :
    (s.hasEntity entry.entityType entry.entityIdentifier = true ∧ s.Stays history entryId entry ∧
      ∀ later ∈ history, ¬ later.action.deletes entry) ∨
      s.GrantedInLifetime history entryId entry := by
  induction history generalizing s known with
  | nil =>
    cases hrun
    refine .inl ⟨hgrantee, fun front hfront => ?_, fun later hlater => absurd hlater not_mem_nil⟩
    rw [prefix_nil.mp hfront]
    exact ⟨_, rfl, hentry⟩
  | cons request history ih =>
    obtain ⟨s', hstep, hrest⟩ := run_cons_eq_some.mp hrun
    have hcreat : createdUsers (request :: history) =
        request.action.createdUser?.toList ++ createdUsers history := by
      rw [createdUsers, filterMap_cons]
      cases request.action.createdUser? <;> rfl
    rw [hcreat] at hfresh hdrawn
    obtain ⟨-, hfresh', hapart⟩ := nodup_append.mp hfresh
    -- the condition of the step, for users by the fresh ids and for groups by the run
    have hnamesake : ¬ request.action.createsNamesake s := by
      cases hact : request.action with
      | createUser username rights memberships newUserId =>
        rintro ⟨otherId, other, hother, htype, hid⟩
        refine hdrawn newUserId ?_ (hid ▸ hknown.entries otherId other hother htype)
        rw [hact]
        exact mem_append_left _ (mem_singleton_self _)
      | createGroup groupName permissions => exact hmeets.1 groupName permissions hact
      | deleteUser _ | deleteGroup _ | changeUserGroups _ _ | grantAccess _ | revokeAccess _
      | nodes _ => exact id
    have hdrawn' : ∀ id ∈ createdUsers history,
        id ∉ known ++ request.action.createdUser?.toList := by
      intro id hid hmem
      rcases mem_append.mp hmem with hmem | hmem
      · exact hdrawn id (mem_append_right _ hid) hmem
      · exact hapart id hmem id hid rfl
    rcases ih hrest (accept_knownUsers hstep hknown) hfresh' hdrawn' (hmeets.2 s' hstep) with
      ⟨hgrantee', hstays, hkept⟩ | hgrant
    · rcases accept_entry hstep hnamesake hstays.lookup hgrantee' with
        ⟨hold, hbef, hdeletes⟩ | ⟨hgrants, hnone⟩
      · refine .inl ⟨hbef, hstays.cons hstep hold, fun later hlater => ?_⟩
        rcases mem_cons.mp hlater with rfl | hlater
        · exact hdeletes
        · exact hkept later hlater
      · exact .inr ⟨[], request, history, s, s', rfl, hgrants, rfl, hnone, hstep, hstays, hkept⟩
    · exact .inr (hgrant.cons hstep)

theorem hasEntity_of_matches {row : UserRow} (hrow : row ∈ s.users)
    {now : Instant} {accessType : AccessType} {node : Node}
    (hmatch : userEntryMatches (row.account.user s.groups now) accessType node entry = true ∨
      groupEntryMatches (row.account.user s.groups now) accessType node entry = true) :
    s.hasEntity entry.entityType entry.entityIdentifier = true := by
  rw [hasEntity_iff]
  rcases hmatch with huser | hgroup
  · simp only [userEntryMatches, Bool.and_eq_true, beq_iff_eq] at huser
    exact .inl ⟨huser.1.1.1, row, hrow, huser.1.1.2.symm⟩
  · simp only [groupEntryMatches, Bool.and_eq_true, beq_iff_eq, contains_iff_mem] at hgroup
    obtain ⟨membership, hmemb, hname⟩ := mem_map.mp hgroup.1.1.2
    obtain ⟨group, hfound, hsame⟩ := s.memberships_groups row hrow membership
      (mem_filter.mp hmemb).1
    exact .inr ⟨hgroup.1.1.1, group, hfound, hsame.trans hname⟩

/-- In a run that starts without entries and creates no group under a name that entries carry,
every entry through which a check admits a user was granted in the lifetime of its grantee. -/
theorem no_inherited_grant (start : AccessTables) (hempty : start.entries = ∅)
    (history : List AccessRequest) (s : AccessTables) (hrun : run accept start history = some s)
    (hfresh : (createdUsers history).Nodup)
    (hdrawn : ∀ row ∈ start.users, row.account.id ∉ createdUsers history)
    (hmeets : Meets accept KeepsNamesApart start history) :
    ∀ row ∈ s.users, ∀ (now : Instant) (accessType : AccessType) (node : Node)
      (args : EvaluationArguments),
      (∀ target, ∀ entry ∈ args.oaeByTarget target, entry ∈ s.database.objectAccessEntries) →
      checkSingleNode s.database args (row.account.user s.groups now) accessType node =
        .allowedOae →
      ∀ entryId entry, s.entries.lookup entryId = some entry → entry ∈ args.oaeByTarget node.id →
        (userEntryMatches (row.account.user s.groups now) accessType node entry = true ∨
          groupEntryMatches (row.account.user s.groups now) accessType node entry = true) →
        start.GrantedInLifetime history entryId entry := by
  intro row hrow now accessType node args _ _ entryId entry hentry _ hmatch
  have hknown : start.KnownUsers (start.users.map fun row => row.account.id) := by
    refine ⟨fun row hrow => mem_map_of_mem hrow, fun otherId other hother => ?_⟩
    rw [hempty] at hother
    exact absurd hother Table.lookup_empty_ne_some
  have hdrawn' : ∀ id ∈ createdUsers history, id ∉ start.users.map fun row => row.account.id := by
    intro id hid hmem
    obtain ⟨row, hrow, rfl⟩ := mem_map.mp hmem
    exact hdrawn row hrow hid
  rcases run_entry hrun hknown hfresh hdrawn' hmeets hentry (hasEntity_of_matches hrow hmatch) with
    ⟨-, hstays, -⟩ | hgrant
  · have hfirst := hstays.lookup
    rw [hempty] at hfirst
    exact absurd hfirst Table.lookup_empty_ne_some
  · exact hgrant

/-! ### A group that is founded twice -/

/-- An entry of a permission list that is always in force. -/
def holding (permission : String) : PermissionEntry := ⟨permission, true, none, none⟩

def rootFolder : Node := { id := "/", type := .directory, name := "/", parentId := none }

/-- An administrator, another user and the root directory. -/
def office : AccessTables where
  users := [⟨"admin", ⟨"u1", ["create_group", "delete_group", "change_user_groups",
    "manage_access"].map holding, []⟩⟩, ⟨"bob", ⟨"u2", [], []⟩⟩]
  groups := []
  entries := ∅
  db :=
    { nodes := [rootFolder]
      nodeIds_nodup := by decide
      nodeIds_ne_empty := by decide }
  userIds_nodup := by decide
  memberships_groups := by simp

def byAdmin (action : AccessAction) : AccessRequest := ⟨"u1", 10, true, action⟩

def auditGrant : GrantRequest := ⟨.group, "auditors", .directory, "/", [(.read, 1)], 0, none⟩

def founding : List AccessRequest :=
  [byAdmin (.createGroup "auditors" []), byAdmin (.grantAccess auditGrant),
    byAdmin (.changeUserGroups "u2" ["auditors"])]

/-- The auditors are dissolved after the grant, and a new group takes the name. -/
def refounding : List AccessRequest :=
  [byAdmin (.createGroup "auditors" []), byAdmin (.grantAccess auditGrant),
    byAdmin (.deleteGroup "auditors"), byAdmin (.createGroup "auditors" []),
    byAdmin (.changeUserGroups "u2" ["auditors"])]

/-- A check that reads every entry in force. -/
def loadedEntries (s : AccessTables) : EvaluationArguments where
  allFolders := [rootFolder]
  oaeByTarget := activeEntriesByTarget s.database 10

theorem loadedEntries_subset (s : AccessTables) (target : NodeId) :
    ∀ entry ∈ (loadedEntries s).oaeByTarget target, entry ∈ s.database.objectAccessEntries :=
  fun _ hentry => (mem_filter.mp hentry).1

def officeAfter (history : List AccessRequest) : AccessTables :=
  (run accept office history).getD office

def bob : UserRow := ⟨"bob", ⟨"u2", [], [⟨"auditors", some 10, none⟩]⟩⟩

theorem founding_meets : Meets accept KeepsNamesApart office founding := by
  refine ⟨?_, fun _ _ => ⟨?_, fun _ _ => ⟨?_, fun _ _ => trivial⟩⟩⟩
  · rintro groupName permissions - ⟨entryId, entry, hentry, -⟩
    exact Table.lookup_empty_ne_some hentry
  · intro groupName permissions hact
    cases hact
  · intro groupName permissions hact
    cases hact

/-- In the office that founds the auditors once, the entry is theirs. -/
theorem founding_granted : office.GrantedInLifetime founding 1 (auditGrant.entry .read) :=
  no_inherited_grant office rfl founding (officeAfter founding)
    (run_eq_some_getD _ (by decide +kernel)) (by decide) (by decide)
    founding_meets
    bob (by decide +kernel) 10 .read rootFolder (loadedEntries (officeAfter founding))
    (loadedEntries_subset _) (by decide +kernel) 1 (auditGrant.entry .read) (by decide +kernel)
    (by decide +kernel) (.inr (by decide +kernel))

/-- Bob joins the new auditors, and the entry of the old ones admits him. -/
theorem refounding_inherits : ∃ s, run accept office refounding = some s ∧ bob ∈ s.users ∧
      checkSingleNode s.database (loadedEntries s) (bob.account.user s.groups 10) .read rootFolder =
        .allowedOae ∧
      s.entries.lookup 1 = some (auditGrant.entry .read) ∧
      auditGrant.entry .read ∈ (loadedEntries s).oaeByTarget rootFolder.id ∧
      groupEntryMatches (bob.account.user s.groups 10) .read rootFolder (auditGrant.entry .read) =
        true ∧
      ¬ office.GrantedInLifetime refounding 1 (auditGrant.entry .read) := by
  refine ⟨officeAfter refounding, run_eq_some_getD _ (by decide +kernel), by decide +kernel,
    by decide +kernel, by decide +kernel, by decide +kernel, by decide +kernel, ?_⟩
  rintro ⟨before, request, after, s, s', hsplit, hgrants, -, -, -, -, hkept⟩
  -- the second request is the only grant, and the third one deletes the group
  match before, hsplit with
  | [], hsplit =>
    cases hsplit
    exact hgrants
  | [_], hsplit =>
    cases hsplit
    exact hkept (byAdmin (.deleteGroup "auditors")) mem_cons_self ⟨rfl, rfl⟩
  | [_, _], hsplit =>
    cases hsplit
    exact hgrants
  | [_, _, _], hsplit =>
    cases hsplit
    exact hgrants
  | [_, _, _, _], hsplit =>
    cases hsplit
    exact hgrants
  | _ :: _ :: _ :: _ :: _ :: _, hsplit => simp [refounding] at hsplit

end AccessTables

end Cfms.Identity
