import Cfms.Identity.Namesakes
import Cfms.Lib.Validity

/-!
# Changing the groups of a user

`RequestChangeUserGroupsHandler` compares the requested groups with those that are in force at that
moment, and writes nothing when they agree.  What it writes is exact for good: unlimited memberships
in the requested groups and no others.  What it leaves in place is a list of rows with windows of
their own, and a row that is about to begin or to end changes the groups of the user later on.

`changeUserGroups_exact` names the accounts on which a change holds from its instant on: the groups
in force differ from the requested ones, or the rows are `Settled`.
-/

namespace Cfms.Identity

open Access Lib.Validity List
open Documents (Actor)

/-! ### The membership windows in the models -/

/-- The rows of `user_memberships` of an account with their windows. -/
def membershipWindows (account : Access.Account) : List (String × Window Instant) :=
  account.groups.map fun membership =>
    (membership.groupName, ⟨membership.startTime, membership.endTime⟩)

theorem activeAt_iff {membership : UserMembership} {now : Instant} :
    membership.activeAt now = true ↔
      (⟨membership.startTime, membership.endTime⟩ : Window Instant).Contains now := by
  rw [UserMembership.activeAt, inWindow, Bool.and_eq_true, Option.all_eq_true, Option.all_eq_true]
  simp only [decide_eq_true_eq]
  rfl

theorem mem_allGroups_iff {account : Access.Account} {now : Instant} {name : String} :
    name ∈ allGroups account now ↔ name ∈ inForce (membershipWindows account) now := by
  rw [mem_allGroups]
  constructor
  · rintro ⟨membership, hmem, hact, rfl⟩
    exact ⟨_, mem_map_of_mem hmem, activeAt_iff.mp hact⟩
  · rintro ⟨window, hmem, hcont⟩
    obtain ⟨membership, hmemb, hsame⟩ := mem_map.mp hmem
    cases hsame
    exact ⟨membership, hmemb, activeAt_iff.mpr hcont, rfl⟩

/-- The loop of `User._group_permission_grants_and_revocations`, which reads the windows itself. -/
def groupPermissionLoop (groups : List UserGroup) (now : Instant) :
    List UserMembership → List String × List String
  | [] => ([], [])
  | membership :: rest =>
    if membership.startTime.any fun start => decide (now < start) then
      groupPermissionLoop groups now rest
    else if membership.endTime.any fun stop => decide (stop < now) then
      groupPermissionLoop groups now rest
    else
      match group? groups membership.groupName with
      | none => groupPermissionLoop groups now rest
      | some group =>
        let own := permissionGrantsAndRevocations group.permissions now
        let later := groupPermissionLoop groups now rest
        (own.1 ++ later.1, own.2 ++ later.2)

theorem activeAt_eq {membership : UserMembership} {now : Instant} : membership.activeAt now =
      (!(membership.startTime.any fun start => decide (now < start)) &&
        !(membership.endTime.any fun stop => decide (stop < now))) := by
  rw [UserMembership.activeAt, inWindow]
  congr 1
  · cases membership.startTime with
    | none => rfl
    | some start =>
      show decide (start ≤ now) = !decide (now < start)
      rw [← decide_not]
      exact decide_eq_decide.mpr not_lt.symm
  · cases membership.endTime with
    | none => rfl
    | some stop =>
      show decide (now ≤ stop) = !decide (stop < now)
      rw [← decide_not]
      exact decide_eq_decide.mpr not_lt.symm

theorem groupPermissionLoop_eq (groups : List UserGroup) (now : Instant) (account : Access.Account) :
    groupPermissionLoop groups now account.groups =
      groupPermissionGrantsAndRevocations groups account now := by
  unfold groupPermissionGrantsAndRevocations allGroups
  induction account.groups with
  | nil => rfl
  | cons membership rest ih =>
    rw [groupPermissionLoop, filter_cons, activeAt_eq]
    by_cases hstart : (membership.startTime.any fun start => decide (now < start)) = true
    · rw [ih, hstart]
      rfl
    · rw [if_neg hstart]
      rw [Bool.not_eq_true] at hstart
      by_cases hstop : (membership.endTime.any fun stop => decide (stop < now)) = true
      · rw [ih, hstart, hstop]
        rfl
      · rw [if_neg hstop]
        rw [Bool.not_eq_true] at hstop
        rw [hstart, hstop]
        simp only [Bool.not_false, Bool.and_self, if_true, map_cons, filterMap_cons]
        cases group? groups membership.groupName with
        | none => exact ih
        | some group => simp only [ih, map_cons, flatMap_cons]

variable (now : Instant)

/-- The listener `filter_expired_group` on `User.groups`. -/
def filterExpiredGroup (membership : UserMembership) : Option UserMembership :=
  if membership.endTime.any fun stop => decide (stop < now) then none else some membership

/-- What the setter of `User.all_groups` leaves in `User.groups`, through the listener. -/
def assignedGroups (names : List String) : List UserMembership :=
  names.filterMap fun name => filterExpiredGroup now ⟨name, some now, none⟩

theorem assignedGroups_eq (names : List String) :
    assignedGroups now names = names.map fun name => ⟨name, some now, none⟩ := by
  rw [← filterMap_eq_map]
  rfl

/-! ### Exactness -/

def GrantedBy (groups : List UserGroup) (names : List String) (now : Instant)
    (permission : String) : Prop :=
  ∃ name ∈ names, ∃ group, group? groups name = some group ∧
    permission ∈ (permissionGrantsAndRevocations group.permissions now).1

def RevokedBy (groups : List UserGroup) (names : List String) (now : Instant)
    (permission : String) : Prop :=
  ∃ name ∈ names, ∃ group, group? groups name = some group ∧
    permission ∈ (permissionGrantsAndRevocations group.permissions now).2

structure ExactAt (groups : List UserGroup) (listed : List String) (account : Access.Account)
    (now : Instant) : Prop where
  members : ∀ name, name ∈ allGroups account now ↔ name ∈ listed
  granted : ∀ permission, permission ∈ (groupPermissionLoop groups now account.groups).1 ↔
    GrantedBy groups listed now permission
  revoked : ∀ permission, permission ∈ (groupPermissionLoop groups now account.groups).2 ↔
    RevokedBy groups listed now permission

variable {s s' : AccessTables} {actor : Actor} {userId : String} {listed : List String}
  {account : Access.Account} {now : Instant} {row : UserRow}

theorem exactAt_iff {groups : List UserGroup} :
    ExactAt groups listed account now ↔ ∀ name, name ∈ allGroups account now ↔ name ∈ listed := by
  refine ⟨ExactAt.members, fun hmembers => ⟨hmembers, fun perm => ?_, fun perm => ?_⟩⟩
  · rw [groupPermissionLoop_eq]
    exact (mem_flatMap_groups Prod.fst).trans (exists_congr fun name => by rw [hmembers name])
  · rw [groupPermissionLoop_eq]
    exact (mem_flatMap_groups Prod.snd).trans (exists_congr fun name => by rw [hmembers name])

theorem sameMembers_iff {a b : List String} :
    AccessTables.sameMembers a b = true ↔ ∀ name, name ∈ a ↔ name ∈ b := by
  rw [AccessTables.sameMembers, Bool.and_eq_true, all_eq_true, all_eq_true]
  simp only [contains_iff_mem]
  exact ⟨fun h name => ⟨h.1 name, h.2 name⟩, fun h => ⟨fun name => (h name).mp,
    fun name => (h name).mpr⟩⟩

/-! ### The handler -/

theorem user?_setMemberships {memberships : List UserMembership} (hrow : s.user? userId = some row)
    (hset : s.setMemberships userId memberships = some s') :
    s'.user? userId = some { row with account := { row.account with groups := memberships } } := by
  obtain ⟨husers, -⟩ := AccessTables.setMemberships_eq_some hset
  have hid : row.account.id = userId := by simpa using find?_some hrow
  rw [AccessTables.user?, husers, find?_map]
  have hsame : ((fun row : UserRow => row.account.id == userId) ∘
      AccessTables.withMemberships userId memberships) =
        fun row : UserRow => row.account.id == userId := by
    funext other
    show ((AccessTables.withMemberships userId memberships other).account.id == userId) = _
    rw [AccessTables.withMemberships_id]
  rw [hsame, show s.users.find? (fun row => row.account.id == userId) = some row from hrow,
    Option.map_some, AccessTables.withMemberships, if_pos hid]

theorem changeUserGroups_cases (hrow : s.user? userId = some row)
    (h : s.changeUserGroups actor userId listed = .committed s') :
    (AccessTables.sameMembers listed (allGroups row.account actor.now) = true ∧ s' = s) ∨
    (AccessTables.sameMembers listed (allGroups row.account actor.now) = false ∧
      s'.user? userId = some { row with account :=
        { row.account with groups := assignedGroups actor.now listed } }) := by
  rw [AccessTables.changeUserGroups] at h
  split at h
  · cases h
  rw [hrow] at h
  dsimp only at h
  split at h
  · next hsame =>
    cases h
    exact .inl ⟨hsame, rfl⟩
  · next hdiff =>
    split at h
    · cases h
    rename_i changed hset
    cases h
    rw [assignedGroups_eq]
    exact .inr ⟨Bool.not_eq_true _ ▸ hdiff, user?_setMemberships hrow hset⟩

theorem allGroups_assigned (hgrps : account.groups = assignedGroups actor.now listed)
    (hle : actor.now ≤ now) (name : String) : name ∈ allGroups account now ↔ name ∈ listed := by
  have hwindows : membershipWindows account =
      listed.map fun name => (name, ⟨some actor.now, none⟩) := by
    rw [membershipWindows, hgrps, assignedGroups_eq, map_map]
    rfl
  rw [mem_allGroups_iff, hwindows, inForce_of_open hle]
  · rw [map_map]
    show name ∈ listed.map id ↔ name ∈ listed
    rw [map_id]
  · intro row hrow
    obtain ⟨name, -, rfl⟩ := mem_map.mp hrow
    refine ⟨rfl, fun start hstart => ?_⟩
    cases hstart
    exact le_rfl

/-- A change of the groups of a user holds at every later instant, as long as the membership rows
stay the same, if the groups in force were others than the requested ones or nothing is about to
begin or to end; otherwise it does not. -/
theorem changeUserGroups_exact (s s' : AccessTables) (actor : Actor) (userId : String)
    (listed : List String) (row : UserRow) (hrow : s.user? userId = some row)
    (hdone : s.changeUserGroups actor userId listed = .committed s') :
    ∃ changed, s'.user? userId = some changed ∧
      ((∀ (later : AccessTables) (found : UserRow), later.user? userId = some found →
          found.account.groups = changed.account.groups → ∀ now, actor.now ≤ now →
            ExactAt later.groups listed found.account now) ↔
        AccessTables.sameMembers listed (allGroups row.account actor.now) = false ∨
          Settled (membershipWindows row.account) actor.now) := by
  rcases changeUserGroups_cases hrow hdone with ⟨hsame, rfl⟩ | ⟨hdiff, hchg⟩
  · have hlisted := sameMembers_iff.mp hsame
    refine ⟨row, hrow, fun hexact => .inr ?_, fun hsett => ?_⟩
    · refine settled_iff.mpr fun now hle => Set.ext fun name => ?_
      have hthen := (hexact s' row hrow rfl now hle).members name
      rw [← mem_allGroups_iff, ← mem_allGroups_iff, hthen, hlisted name]
    · intro later found hfound hgrps now hle
      rcases hsett with hdiff | hsett
      · rw [hsame] at hdiff
        cases hdiff
      · have hwindows : membershipWindows found.account = membershipWindows row.account := by
          rw [membershipWindows, hgrps]
          rfl
        refine exactAt_iff.mpr fun name => ?_
        rw [mem_allGroups_iff, hwindows, settled_iff.mp hsett now hle, ← mem_allGroups_iff,
          hlisted name]
  · refine ⟨_, hchg, fun _ => .inl hdiff, fun _ later found hfound hgrps now hle => ?_⟩
    exact exactAt_iff.mpr (allGroups_assigned hgrps hle)

/-! ### A membership that runs out -/

/-- A member of the board whose term ends at 20. -/
def member : UserRow := ⟨"member", ⟨"u2", [], [⟨"board", some 0, some 20⟩]⟩⟩

def board : AccessTables where
  users := [⟨"chair", ⟨"u1", [⟨"change_user_groups", true, none, none⟩], []⟩⟩, member]
  groups := [⟨"board", []⟩]
  entries := ∅
  db :=
    { nodes := []
      nodeIds_nodup := by decide
      nodeIds_ne_empty := by decide }
  userIds_nodup := by decide
  memberships_groups := by decide

/-- The chair at the instant 10. -/
def chair : Actor := ⟨⟨"u1", ["change_user_groups"], []⟩, 10, true⟩

/-- The member is put in the board for good while the term still runs, and nothing is written. -/
theorem changeUserGroups_exact_board : ∃ changed, board.user? "u2" = some changed ∧
    ((∀ (later : AccessTables) (found : UserRow), later.user? "u2" = some found →
        found.account.groups = changed.account.groups → ∀ now, chair.now ≤ now →
          ExactAt later.groups ["board"] found.account now) ↔
      AccessTables.sameMembers ["board"] (allGroups member.account chair.now) = false ∨
        Settled (membershipWindows member.account) chair.now) :=
  changeUserGroups_exact board board chair "u2" ["board"] member (by decide) rfl

/-- After the change the member leaves the board at the end of the term. -/
theorem changeUserGroups_expires :
    ¬ ∀ (s s' : AccessTables) (actor : Actor) (userId : String) (listed : List String)
        (changed : UserRow), s.changeUserGroups actor userId listed = .committed s' →
      s'.user? userId = some changed → ∀ now, actor.now ≤ now →
        ∀ name, name ∈ allGroups changed.account now ↔ name ∈ listed := by
  intro hexact
  have hmember := (hexact board board chair "u2" ["board"] member rfl (by decide) 21 (by decide)
    "board").mpr (by decide)
  exact absurd hmember (by decide)

end Cfms.Identity
