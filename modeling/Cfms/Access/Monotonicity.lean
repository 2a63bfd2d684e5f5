import Cfms.Access.Context

/-!
# Access verdicts under added grants and removed obstacles

`check_access_for_object` reads the user's permissions and groups, the object-access entries, the
compiled rules and the blocks.  `Widens` compares what two evaluations read; where one widens the
other, each ingredient of the verdict is preserved, whatever the match modes, and with them the
verdict of the whole walk.

The permissions of a user come out of rows that grant and rows that revoke, the user's own and those
of every group the user is an active member of (`User.all_permissions`).  A revocation takes a
permission away wherever it was granted, so joining a group can cost permissions; `Loosens` compares
two states by their rows, and `RevokesNothing` is what a new membership has to satisfy.
-/

namespace Cfms.Access

open Lib.Climb List

/-! ### Permissions and groups of an account -/

/-- A row of `user_permissions` or `user_group_permissions`. -/
structure PermissionEntry where
  permission : String
  granted : Bool
  startTime : Option Instant
  endTime : Option Instant
  deriving DecidableEq

/-- A row of `user_memberships`. -/
structure UserMembership where
  groupName : String
  startTime : Option Instant
  endTime : Option Instant
  deriving DecidableEq

structure UserGroup where
  groupName : String
  permissions : List PermissionEntry
  deriving DecidableEq

/-- A user with the rows of `rights` and `groups`. -/
structure Account where
  id : String
  rights : List PermissionEntry
  groups : List UserMembership
  deriving DecidableEq

/-- The validity window of a permission or a membership. -/
def inWindow (startTime endTime : Option Instant) (now : Instant) : Bool :=
  startTime.all (fun start => decide (start ≤ now)) && endTime.all (fun stop => decide (now ≤ stop))

def PermissionEntry.activeAt (now : Instant) (entry : PermissionEntry) : Bool :=
  inWindow entry.startTime entry.endTime now

def UserMembership.activeAt (now : Instant) (membership : UserMembership) : Bool :=
  inWindow membership.startTime membership.endTime now

def permissionGrantsAndRevocations (entries : List PermissionEntry) (now : Instant) :
    List String × List String :=
  let current := entries.filter (·.activeAt now)
  ((current.filter (·.granted)).map PermissionEntry.permission,
    (current.filter (!·.granted)).map PermissionEntry.permission)

def allGroups (account : Account) (now : Instant) : List String :=
  (account.groups.filter (·.activeAt now)).map UserMembership.groupName

/-- `session.get(UserGroup, ...)`. -/
def group? (groups : List UserGroup) (name : String) : Option UserGroup :=
  groups.find? fun group => group.groupName == name

def groupPermissionGrantsAndRevocations (groups : List UserGroup) (account : Account)
    (now : Instant) : List String × List String :=
  let found := ((allGroups account now).filterMap (group? groups)).map fun group =>
    permissionGrantsAndRevocations group.permissions now
  (found.flatMap Prod.fst, found.flatMap Prod.snd)

def allPermissions (groups : List UserGroup) (account : Account) (now : Instant) : List String :=
  let own := permissionGrantsAndRevocations account.rights now
  let inherited := groupPermissionGrantsAndRevocations groups account now
  (own.1 ++ inherited.1).filter fun permission => !(own.2 ++ inherited.2).contains permission

/-- The user as the evaluator sees it. -/
def Account.user (groups : List UserGroup) (account : Account) (now : Instant) : User where
  id := account.id
  allPermissions := allPermissions groups account now
  allGroups := allGroups account now

/-! ### Rules -/

section

variable {db db' : Database} {user user' : User} {access : AccessType}

theorem sectionMatches_mono {empty : Bool} {mode : MatchMode} {required held held' : List String}
    (h : ∀ x ∈ held, x ∈ held') (hmet : sectionMatches empty mode required held = true) :
    sectionMatches empty mode required held' = true := by
  have hcont : ∀ x, held.contains x = true → held'.contains x = true := by
    intro x hx
    rw [contains_iff_mem] at hx ⊢
    exact h x hx
  unfold sectionMatches at hmet ⊢
  split
  · rfl
  next hsome =>
  rw [if_neg hsome] at hmet
  cases mode with
  | any =>
    obtain ⟨x, hx, hheld⟩ := any_eq_true.mp hmet
    exact any_eq_true.mpr ⟨x, hx, hcont x hheld⟩
  | all =>
    exact all_eq_true.mpr fun x hx => hcont x (all_eq_true.mp hmet x hx)

/-- A match group asks the same of the user in both databases. -/
structure SameGroup (db db' : Database) (group : CompiledAccessRuleGroup) : Prop where
  rights : db'.requiredRights group = db.requiredRights group
  groups : db'.requiredGroups group = db.requiredGroups group

theorem compiledGroupMatchesUser_mono {group : CompiledAccessRuleGroup}
    (hsame : SameGroup db db' group)
    (hperms : ∀ x ∈ user.allPermissions, x ∈ user'.allPermissions)
    (hgrps : ∀ x ∈ user.allGroups, x ∈ user'.allGroups)
    (h : compiledGroupMatchesUser db group user = true) :
    compiledGroupMatchesUser db' group user' = true := by
  unfold compiledGroupMatchesUser at h ⊢
  rw [hsame.rights, hsame.groups]
  cases hmode : group.matchMode with
  | any =>
    simp only [hmode, Bool.or_eq_true] at h ⊢
    exact h.imp (sectionMatches_mono hperms) (sectionMatches_mono hgrps)
  | all =>
    simp only [hmode, Bool.and_eq_true] at h ⊢
    exact ⟨sectionMatches_mono hperms h.1, sectionMatches_mono hgrps h.2⟩

/-- A rule asks the same of the user in both databases. -/
structure SameRule (db db' : Database) (rule : CompiledAccessRule) : Prop where
  groups : db'.matchGroups rule = db.matchGroups rule
  same : ∀ group ∈ db.matchGroups rule, SameGroup db db' group

theorem compiledRuleMatchesUser_mono {rule : CompiledAccessRule} (hsame : SameRule db db' rule)
    (hperms : ∀ x ∈ user.allPermissions, x ∈ user'.allPermissions)
    (hgrps : ∀ x ∈ user.allGroups, x ∈ user'.allGroups)
    (h : compiledRuleMatchesUser db rule user = true) :
    compiledRuleMatchesUser db' rule user' = true := by
  unfold compiledRuleMatchesUser at h ⊢
  rw [hsame.groups]
  cases hmode : rule.matchMode with
  | any =>
    rw [hmode, matchGroupsLoop_any, any_eq_true] at h
    rw [matchGroupsLoop_any, any_eq_true]
    obtain ⟨group, hgroup, hmatch⟩ := h
    exact ⟨group, hgroup,
      compiledGroupMatchesUser_mono (hsame.same group hgroup) hperms hgrps hmatch⟩
  | all =>
    rw [hmode, matchGroupsLoop_all, all_eq_true] at h
    rw [matchGroupsLoop_all, all_eq_true]
    intro group hgroup
    exact compiledGroupMatchesUser_mono (hsame.same group hgroup) hperms hgrps (h group hgroup)

theorem allow_mono {rules rules' : List CompiledAccessRule}
    (hrules : ∀ rule ∈ rules', rule ∈ rules ∧ SameRule db db' rule)
    (hperms : ∀ x ∈ user.allPermissions, x ∈ user'.allPermissions)
    (hgrps : ∀ x ∈ user.allGroups, x ∈ user'.allGroups)
    (h : (if rules.isEmpty then true else rules.all (compiledRuleMatchesUser db · user)) = true) :
    (if rules'.isEmpty then true else rules'.all (compiledRuleMatchesUser db' · user')) = true := by
  split
  · rfl
  rw [all_eq_true]
  intro rule hrule
  obtain ⟨hmem, hsame⟩ := hrules rule hrule
  have hne : ¬ rules.isEmpty = true := by
    rw [List.isEmpty_iff]
    exact ne_nil_of_mem hmem
  rw [if_neg hne, all_eq_true] at h
  exact compiledRuleMatchesUser_mono hsame hperms hgrps (h rule hmem)

end

/-! ### Evaluations -/

/-- What one evaluation reads is at least as generous as what the other reads. -/
structure Widens (db db' : Database) (user user' : User) (accessType : AccessType)
    (args args' : EvaluationArguments) : Prop where
  folders : args'.allFolders = args.allFolders
  recursive : args'.recursive = args.recursive
  granted : ∀ node, granted args user accessType node = true →
    granted args' user' accessType node = true
  rules : ∀ node, args.rulesAllow db user accessType node = true →
    args'.rulesAllow db' user' accessType node = true
  blocked : ∀ id ∈ args'.blockedIds, id ∈ args.blockedIds
  globallyBlocked : args'.isGloballyBlocked = true → args.isGloballyBlocked = true

section

variable {db db' : Database} {user user' : User} {access : AccessType}
  {args args' : EvaluationArguments}

theorem Widens.admits (h : Widens db db' user user' access args args') {node : Node}
    (hnode : admits db args user access node = true) :
    admits db' args' user' access node = true := by
  simp only [Access.admits, Bool.and_eq_true, Bool.or_eq_true, Bool.not_eq_true',
    contains_eq_mem, decide_eq_false_iff_not] at hnode ⊢
  exact ⟨fun hmem => hnode.1 (h.blocked _ hmem), hnode.2.imp (h.granted node) (h.rules node)⟩

variable {obj : Node}

theorem Widens.verdict (h : Widens db db' user user' access args args') {chain : List Node}
    (hobj : verdict db args user access chain obj = true) :
    verdict db' args' user' access chain obj = true := by
  simp only [Access.verdict, Bool.and_eq_true, Bool.or_eq_true, all_eq_true] at hobj ⊢
  obtain ⟨⟨hglob, hadmits⟩, hrest⟩ := hobj
  refine ⟨⟨?_, h.admits hadmits⟩, ?_⟩
  · cases hglob' : args'.isGloballyBlocked with
    | false => rfl
    | true =>
      rw [h.globallyBlocked hglob'] at hglob
      cases hglob
  · exact hrest.imp (h.granted obj) fun hchain folder hfol => h.admits (hchain folder hfol)

theorem checkAccessForObject_eq_of_not_recursive (hrecur : args.recursive = false) (obj : Node) :
    checkAccessForObject db args user access obj = .ok (verdict db args user access [] obj) := by
  have hadmits := checkSingleNode_ne_denied db args user access obj
  unfold checkAccessForObject Access.verdict
  cases hglob : args.isGloballyBlocked with
  | true => simp
  | false =>
    rw [← hadmits]
    cases checkSingleNode db args user access obj <;> simp [hrecur]

variable {full : List Node}

theorem exists_chain {args : EvaluationArguments}
    (h : Climbs args.folderMap Node.parentId obj.parentId full) :
    ∃ chain, Climbs args.folderMap inheritedParent (inheritedParent obj) chain := by
  obtain ⟨chain, hchain, -⟩ := h.exists_of_stops inheritedParent_eq_or
  rcases inheritedParent_eq_or obj with hpar | hpar
  · exact ⟨chain, by rwa [hpar]⟩
  refine ⟨[], ?_⟩
  rw [hpar]
  exact Climbs.top

/-- **A wider evaluation allows whatever the narrower one allows.** -/
theorem checkAccessForObject_mono (h : Widens db db' user user' access args args')
    (hacyc : Climbs args.folderMap Node.parentId obj.parentId full) :
    ∃ allowed allowed' : Bool, checkAccessForObject db args user access obj = .ok allowed ∧
        checkAccessForObject db' args' user' access obj = .ok allowed' ∧
        (allowed = true → allowed' = true) := by
  cases hrecur : args.recursive with
  | false =>
    exact ⟨_, _, checkAccessForObject_eq_of_not_recursive hrecur obj,
      checkAccessForObject_eq_of_not_recursive (h.recursive.trans hrecur) obj, h.verdict⟩
  | true =>
    obtain ⟨chain, hchain⟩ := exists_chain hacyc
    have hmap : args'.folderMap = args.folderMap := by
      funext id
      rw [EvaluationArguments.folderMap, h.folders, EvaluationArguments.folderMap]
    exact ⟨_, _, checkAccessForObject_eq db user access hrecur hchain,
      checkAccessForObject_eq db' user' access (h.recursive.trans hrecur) (hmap ▸ hchain),
      h.verdict⟩

end

/-! ### States with more grants and fewer obstacles -/

/-- What an access check can depend on. -/
structure AccessState where
  db : Database
  groups : List UserGroup
  account : Account

def AccessState.user (s : AccessState) (now : Instant) : User := s.account.user s.groups now

/-- What a caller loads: the folders, and the targets whose rules it fetches, if it does. -/
structure Loading where
  allFolders : List Node
  recursive : Bool
  targets : Option (List (NodeType × NodeId))
  ruleTypes : Option AccessType

/-- The arguments of `check_access_for_object` that a caller prepares from the tables. -/
def Loading.arguments (load : Loading) (s : AccessState) (accessType : AccessType)
    (now : Instant) : EvaluationArguments where
  allFolders := load.allFolders
  oaeByTarget := activeEntriesByTarget s.db now
  recursive := load.recursive
  compiledRulesByTarget := load.targets.map fun targets =>
    fetchCompiledAccessRulesForTargets s.db targets load.ruleTypes
  isGloballyBlocked := (prefetchUserBlocks s.db (s.user now) accessType now).1
  blockedIds := (prefetchUserBlocks s.db (s.user now) accessType now).2

/-- `check_access_for_object` in a state. -/
def AccessState.check (s : AccessState) (load : Loading) (accessType : AccessType) (now : Instant)
    (obj : Node) : Except ClimbError Bool :=
  checkAccessForObject s.db (load.arguments s accessType now) (s.user now) accessType obj

/-- Rights, memberships and entries that grant were added, and rules and blocks were removed. -/
structure Loosens (s s' : AccessState) : Prop where
  nodes : s'.db.nodes = s.db.nodes
  groups : s'.groups = s.groups
  user : s'.account.id = s.account.id
  rights : ∀ entry ∈ s.account.rights, entry ∈ s'.account.rights
  newRights : ∀ entry ∈ s'.account.rights, entry ∉ s.account.rights → entry.granted = true
  memberships : ∀ membership ∈ s.account.groups, membership ∈ s'.account.groups
  entries : ∀ entry ∈ s.db.objectAccessEntries, entry ∈ s'.db.objectAccessEntries
  ruleSets : ∀ ruleSet ∈ s'.db.ruleSets, ruleSet ∈ s.db.ruleSets
  rules : ∀ rule ∈ s'.db.rules, rule ∈ s.db.rules ∧ SameRule s.db s'.db rule
  blocks : ∀ entry ∈ s'.db.userBlockEntries, entry ∈ s.db.userBlockEntries
  blockTypes : ∀ entry ∈ s'.db.userBlockSubEntries, entry ∈ s.db.userBlockSubEntries

/-- No group the user has newly become a member of revokes a permission the user had. -/
def RevokesNothing (s s' : AccessState) (now : Instant) : Prop :=
  ∀ membership ∈ s'.account.groups, membership ∉ s.account.groups →
    membership.activeAt now = true → ∀ group, group? s.groups membership.groupName = some group →
      ∀ perm ∈ (permissionGrantsAndRevocations group.permissions now).2,
        perm ∉ (s.user now).allPermissions

section

variable {s s' : AccessState} {now : Instant} {access : AccessType} {perm : String}

variable {entries : List PermissionEntry}

theorem mem_grants : perm ∈ (permissionGrantsAndRevocations entries now).1 ↔
      ∃ entry ∈ entries, entry.activeAt now = true ∧ entry.granted = true ∧
        entry.permission = perm := by
  simp [permissionGrantsAndRevocations, and_assoc, and_left_comm]

theorem mem_revocations : perm ∈ (permissionGrantsAndRevocations entries now).2 ↔
      ∃ entry ∈ entries, entry.activeAt now = true ∧ entry.granted = false ∧
        entry.permission = perm := by
  simp [permissionGrantsAndRevocations, and_assoc, and_left_comm]

variable {account : Account} {name : String}

theorem mem_allGroups : name ∈ allGroups account now ↔
      ∃ membership ∈ account.groups, membership.activeAt now = true ∧
        membership.groupName = name := by
  simp [allGroups, and_assoc]

variable {groups : List UserGroup}

theorem mem_allPermissions : perm ∈ allPermissions groups account now ↔
      (perm ∈ (permissionGrantsAndRevocations account.rights now).1 ∨
        perm ∈ (groupPermissionGrantsAndRevocations groups account now).1) ∧
      perm ∉ (permissionGrantsAndRevocations account.rights now).2 ∧
      perm ∉ (groupPermissionGrantsAndRevocations groups account now).2 := by
  simp [allPermissions, or_and_right]

theorem mem_flatMap_groups (side : List String × List String → List String) :
    perm ∈ (((allGroups account now).filterMap (group? groups)).map fun group =>
        permissionGrantsAndRevocations group.permissions now).flatMap side ↔
      ∃ name ∈ allGroups account now, ∃ group, group? groups name = some group ∧
        perm ∈ side (permissionGrantsAndRevocations group.permissions now) := by
  simp only [mem_flatMap, mem_map, mem_filterMap]
  constructor
  · rintro ⟨_, ⟨group, ⟨name, hname, hgroup⟩, rfl⟩, hperm⟩
    exact ⟨name, hname, group, hgroup, hperm⟩
  · rintro ⟨name, hname, group, hgroup, hperm⟩
    exact ⟨_, ⟨group, ⟨name, hname, hgroup⟩, rfl⟩, hperm⟩

variable (h : Loosens s s')

include h

theorem Loosens.allGroups
    (hname : name ∈ (s.user now).allGroups) : name ∈ (s'.user now).allGroups := by
  obtain ⟨membership, hmem, hact, rfl⟩ := mem_allGroups.mp hname
  exact mem_allGroups.mpr ⟨membership, h.memberships _ hmem, hact, rfl⟩

theorem Loosens.allPermissions (hrevk : RevokesNothing s s' now)
    (hperm : perm ∈ (s.user now).allPermissions) :
    perm ∈ (s'.user now).allPermissions := by
  obtain ⟨hgranted, hown, hinherited⟩ := mem_allPermissions.mp hperm
  refine mem_allPermissions.mpr ⟨?_, ?_, ?_⟩
  · refine hgranted.imp (fun hright => ?_) (fun hgroup => ?_)
    · obtain ⟨entry, hentry, hrest⟩ := mem_grants.mp hright
      exact mem_grants.mpr ⟨entry, h.rights entry hentry, hrest⟩
    · obtain ⟨name, hname, group, hfound, hgrant⟩ := (mem_flatMap_groups Prod.fst).mp hgroup
      exact (mem_flatMap_groups Prod.fst).mpr ⟨name, h.allGroups hname, group, h.groups ▸ hfound, hgrant⟩
  · intro hrevoked
    obtain ⟨entry, hentry, hact, hgrant, rfl⟩ := mem_revocations.mp hrevoked
    by_cases hold : entry ∈ s.account.rights
    · exact hown (mem_revocations.mpr ⟨entry, hold, hact, hgrant, rfl⟩)
    · rw [h.newRights entry hentry hold] at hgrant
      cases hgrant
  · intro hrevoked
    obtain ⟨name, hname, group, hfound, hgroup⟩ := (mem_flatMap_groups Prod.snd).mp hrevoked
    rw [h.groups] at hfound
    obtain ⟨membership, hmem, hact, rfl⟩ := mem_allGroups.mp hname
    by_cases hold : membership ∈ s.account.groups
    · exact hinherited ((mem_flatMap_groups Prod.snd).mpr
        ⟨_, mem_allGroups.mpr ⟨membership, hold, hact, rfl⟩, group, hfound, hgroup⟩)
    · exact hrevk membership hmem hold hact group hfound perm hgroup hperm

theorem Loosens.active {rule : CompiledAccessRule} {targetType : NodeType}
    {targetId : NodeId} (hact : activeCompiledRuleConditions s'.db rule targetType targetId = true) :
    activeCompiledRuleConditions s.db rule targetType targetId = true := by
  obtain ⟨ruleSet, hmem, hrest⟩ := any_eq_true.mp hact
  rw [h.nodes] at hrest
  exact any_eq_true.mpr ⟨ruleSet, h.ruleSets ruleSet hmem, hrest⟩

theorem Loosens.activeUserBlocks {block : UserBlockEntry}
    (hblock : block ∈ activeUserBlocks s'.db (s'.user now) access now) :
    block ∈ activeUserBlocks s.db (s.user now) access now := by
  simp only [Access.activeUserBlocks, mem_filter, Bool.and_eq_true, any_eq_true] at hblock ⊢
  obtain ⟨hmem, ⟨huser, hact⟩, sub, hsub, htype⟩ := hblock
  have hid : (s'.user now).id = (s.user now).id := h.user
  rw [hid] at huser
  exact ⟨h.blocks block hmem, ⟨huser, hact⟩, sub, h.blockTypes sub hsub, htype⟩

variable {node : Node}

theorem Loosens.granted (load : Loading)
    (hnode : granted (load.arguments s access now) (s.user now) access node = true) :
    granted (load.arguments s' access now) (s'.user now) access node = true := by
  have hentry : ∀ entry ∈ activeEntriesByTarget s.db now node.id,
      entry ∈ activeEntriesByTarget s'.db now node.id := by
    intro entry hentry
    obtain ⟨hmem, hrest⟩ := mem_filter.mp hentry
    exact mem_filter.mpr ⟨h.entries entry hmem, hrest⟩
  have hid : (s'.user now).id = (s.user now).id := h.user
  rw [Access.granted, Bool.or_eq_true, any_eq_true, any_eq_true] at hnode ⊢
  refine hnode.imp ?_ ?_
  · rintro ⟨entry, hmem, hmatch⟩
    refine ⟨entry, hentry entry hmem, ?_⟩
    rw [userEntryMatches] at hmatch ⊢
    rw [hid]
    exact hmatch
  · rintro ⟨entry, hmem, hmatch⟩
    refine ⟨entry, hentry entry hmem, ?_⟩
    simp only [groupEntryMatches, Bool.and_eq_true, contains_iff_mem] at hmatch ⊢
    exact ⟨⟨⟨hmatch.1.1.1, h.allGroups hmatch.1.1.2⟩, hmatch.1.2⟩, hmatch.2⟩

theorem Loosens.rulesAllow (hrevk : RevokesNothing s s' now) (load : Loading)
    (hnode : (load.arguments s access now).rulesAllow s.db (s.user now) access node = true) :
    (load.arguments s' access now).rulesAllow s'.db (s'.user now) access node = true := by
  have hperms : ∀ x ∈ (s.user now).allPermissions, x ∈ (s'.user now).allPermissions :=
    fun x => h.allPermissions hrevk
  have hgrps : ∀ x ∈ (s.user now).allGroups, x ∈ (s'.user now).allGroups := fun x => h.allGroups
  cases htargets : load.targets with
  | none =>
    simp only [Loading.arguments, htargets] at hnode ⊢
    refine allow_mono ?_ hperms hgrps hnode
    intro rule hrule
    simp only [mem_filter, Bool.and_eq_true] at hrule ⊢
    exact ⟨⟨(h.rules rule hrule.1).1, h.active hrule.2.1, hrule.2.2⟩, (h.rules rule hrule.1).2⟩
  | some targets =>
    simp only [Loading.arguments, htargets] at hnode ⊢
    refine allow_mono ?_ hperms hgrps hnode
    intro rule hrule
    simp only [mem_filter, fetchCompiledAccessRulesForTargets] at hrule ⊢
    split at hrule
    · next htgt =>
      rw [if_pos htgt]
      simp only [mem_filter, Bool.and_eq_true] at hrule ⊢
      obtain ⟨⟨hmem, hact, htypes⟩, hrelv⟩ := hrule
      exact ⟨⟨⟨(h.rules rule hmem).1, h.active hact, htypes⟩, hrelv⟩, (h.rules rule hmem).2⟩
    · cases hrule.1

theorem Loosens.widens (hrevk : RevokesNothing s s' now) (load : Loading) :
    Widens s.db s'.db (s.user now) (s'.user now) access (load.arguments s access now)
      (load.arguments s' access now) where
  folders := rfl
  recursive := rfl
  granted _ hnode := h.granted load hnode
  rules _ hnode := h.rulesAllow hrevk load hnode
  blocked := by
    intro id hid
    simp only [Loading.arguments, prefetchUserBlocks] at hid ⊢
    split at hid
    · next htype =>
      rw [if_pos htype]
      simp only [mem_filterMap] at hid ⊢
      obtain ⟨block, hblock, htgt⟩ := hid
      exact ⟨block, h.activeUserBlocks hblock, htgt⟩
    · cases hid
  globallyBlocked := by
    intro hglob
    simp only [Loading.arguments, prefetchUserBlocks] at hglob ⊢
    split at hglob
    · next htype =>
      rw [if_pos htype]
      simp only [any_eq_true] at hglob ⊢
      obtain ⟨block, hblock, htgt⟩ := hglob
      exact ⟨block, h.activeUserBlocks hblock, htgt⟩
    · cases hglob

/-- **Added grants and removed rules and blocks never turn an allowed request into a denied one**,
unless a group newly joined revokes a permission. -/
theorem access_verdict_monotone (hrevk : RevokesNothing s s' now)
    (load : Loading) (obj : Node) {full : List Node}
    (hacyc : Climbs (load.arguments s access now).folderMap Node.parentId obj.parentId full) :
    ∃ allowed allowed' : Bool, s.check load access now obj = .ok allowed ∧
      s'.check load access now obj = .ok allowed' ∧ (allowed = true → allowed' = true) :=
  checkAccessForObject_mono (h.widens hrevk load) hacyc

end

/-! ### Joining a group that revokes -/

def sampleRoot : Node where
  id := rootDirectoryId
  type := .directory
  name := "/"
  parentId := none
  accessRuleSetId := some "set"

/-- The root folder alone, readable with one permission. -/
def sampleDatabase : Database where
  nodes := [sampleRoot]
  nodeIds_nodup := by decide
  nodeIds_ne_empty := by decide
  ruleSets := [⟨"set", rootDirectoryId⟩]
  rules := [⟨1, "set", .read, .all⟩]
  ruleGroups := [⟨"1", 1, 0, .all, .all, false, .all, true⟩]
  ruleRights := [⟨"1", "view"⟩]

def sampleState (revoked : String) (memberships : List UserMembership) : AccessState where
  db := sampleDatabase
  groups := [⟨"restricted", [⟨revoked, false, none, none⟩]⟩]
  account := ⟨"u", [⟨"view", true, none, none⟩], memberships⟩

def sampleLoading : Loading := ⟨[sampleRoot], true, some [(.directory, rootDirectoryId)], none⟩

theorem sampleState_loosens (revoked : String) :
    Loosens (sampleState revoked []) (sampleState revoked [⟨"restricted", none, none⟩]) where
  nodes := rfl
  groups := rfl
  user := rfl
  rights _ h := h
  newRights _ h hnot := absurd h hnot
  memberships _ h := nomatch h
  entries _ h := h
  ruleSets _ h := h
  rules _ h := ⟨h, rfl, fun _ _ => ⟨rfl, rfl⟩⟩
  blocks _ h := h
  blockTypes _ h := h

/-- A second rule asks for nothing to read, and a block is about writing. -/
def tightState : AccessState :=
  { sampleState "move" [] with
    db := { sampleDatabase with
      rules := [⟨1, "set", .read, .all⟩, ⟨2, "set", .read, .all⟩]
      userBlockEntries := [⟨"block", "u", 0, 9, .all, none⟩]
      userBlockSubEntries := [⟨"block", .write⟩] } }

/-- The rule and the block are gone; a right, a membership and an entry are new. -/
def looseState : AccessState :=
  { sampleState "move" [] with
    db := { sampleDatabase with
      objectAccessEntries := [⟨.user, "u", .directory, rootDirectoryId, .read, 0, none⟩] }
    account := ⟨"u", [⟨"view", true, none, none⟩, ⟨"edit", true, none, none⟩],
      [⟨"restricted", none, none⟩]⟩ }

theorem tightState_loosens : Loosens tightState looseState where
  nodes := rfl
  groups := rfl
  user := rfl
  rights := by decide
  newRights := by decide
  memberships := by decide
  entries := by decide
  ruleSets _ h := h
  rules rule h := by
    rw [mem_singleton.mp h]
    exact ⟨by decide, rfl, fun _ _ => ⟨rfl, rfl⟩⟩
  blocks := by decide
  blockTypes := by decide

/-- A group that revokes something else costs nothing. -/
theorem joining_keeps_access : ∃ allowed allowed' : Bool,
      tightState.check sampleLoading .read 0 sampleRoot = .ok allowed ∧
        looseState.check sampleLoading .read 0 sampleRoot = .ok allowed' ∧
          (allowed = true → allowed' = true) :=
  access_verdict_monotone tightState_loosens (by unfold RevokesNothing; decide)
    sampleLoading sampleRoot Climbs.top

/-- A group that revokes the permission turns the allowed request into a denied one. -/
theorem joining_denies_access :
    Loosens (sampleState "view" []) (sampleState "view" [⟨"restricted", none, none⟩]) ∧
      (sampleState "view" []).check sampleLoading .read 0 sampleRoot = .ok true ∧
      (sampleState "view" [⟨"restricted", none, none⟩]).check sampleLoading .read 0 sampleRoot =
        .ok false :=
  ⟨sampleState_loosens "view", rfl, rfl⟩

end Cfms.Access
