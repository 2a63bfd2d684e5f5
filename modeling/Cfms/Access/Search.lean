import Cfms.Access.Evaluation
import Cfms.Lib.RecursiveQuery

/-!
# Search visibility

`_visible_search_filter` decides in SQL which search candidates a user sees.  Each sub-query is
translated as the query it is: an `EXISTS` is an `any` over the table, read two-valued, and the
recursive ancestor table is a recursive query over the folders.

The filter is compared with the authorization evaluator on the full folder map.  The two agree
on grants, rules and their inheritance.  They differ on blocks: the evaluator refuses when an
inherited ancestor is blocked, the filter consults blocks for the candidate only.
-/

namespace Cfms.Access

open Lib.Climb Lib.RecursiveQuery List Database

/-! ### The sub-queries -/

/-- A row of the candidate sub-query. -/
structure SearchCandidate where
  type : NodeType
  id : NodeId
  parentId : Option NodeId
  inherit : Bool
  deriving DecidableEq

def candidateOf (node : Node) : SearchCandidate := ⟨node.type, node.id, node.parentId, node.inherit⟩

def inValues (column : String) (values : List String) : Bool := values.contains column

variable (db : Database)

def activeOaeExists (targetType : NodeType) (targetId : NodeId) (user : User) (now : Instant) :
    Bool :=
  db.objectAccessEntries.any fun entry =>
    entry.targetType == targetType && entry.targetIdentifier == targetId &&
      entry.accessType == .read && entry.activeAt now &&
      ((entry.entityType == .user && entry.entityIdentifier == user.id) ||
        (entry.entityType == .group && inValues entry.entityIdentifier user.allGroups))

def compiledGroupMatches (group : CompiledAccessRuleGroup) (user : User) : Bool :=
  let missingRight := db.ruleRights.any fun right =>
    right.groupId == group.id && !inValues right.permission user.allPermissions
  let anyRequiredRight := db.ruleRights.any fun right => right.groupId == group.id
  let presentRight := db.ruleRights.any fun right =>
    right.groupId == group.id && inValues right.permission user.allPermissions
  let rightsMatch := group.rightsEmpty || !anyRequiredRight ||
    (group.rightsMatchMode == .all && !missingRight) ||
    (group.rightsMatchMode == .any && presentRight)
  let missingGroup := db.ruleMemberships.any fun membership =>
    membership.groupId == group.id && !inValues membership.groupName user.allGroups
  let anyRequiredGroup := db.ruleMemberships.any fun membership => membership.groupId == group.id
  let presentGroup := db.ruleMemberships.any fun membership =>
    membership.groupId == group.id && inValues membership.groupName user.allGroups
  let groupsMatch := group.groupsEmpty || !anyRequiredGroup ||
    (group.groupsMatchMode == .all && !missingGroup) ||
    (group.groupsMatchMode == .any && presentGroup)
  (group.matchMode == .any && (rightsMatch || groupsMatch)) ||
    (group.matchMode == .all && (rightsMatch && groupsMatch))

def compiledRuleMatches (rule : CompiledAccessRule) (user : User) : Bool :=
  (rule.matchMode == .any &&
      db.ruleGroups.any fun group => group.ruleId == rule.id && compiledGroupMatches db group user) ||
    (rule.matchMode == .all &&
      !db.ruleGroups.any fun group =>
        group.ruleId == rule.id && !compiledGroupMatches db group user)

def nodeRulesAllow (targetType : NodeType) (targetId : NodeId) (user : User) : Bool :=
  let relevantRule := fun rule : CompiledAccessRule =>
    activeCompiledRuleConditions db rule targetType targetId && rule.accessType == .read
  let noReadRules := !db.rules.any relevantRule
  let failingRule := db.rules.any fun rule => relevantRule rule && !compiledRuleMatches db rule user
  noReadRules || !failingRule

def targetIsBlocked (targetId : NodeId) (user : User) (now : Instant) : Bool :=
  db.userBlockEntries.any fun entry =>
    (db.userBlockSubEntries.any fun sub => sub.parentId == entry.blockId && sub.blockType == .read) &&
      entry.userId == user.id && decide (entry.notBefore ≤ now) &&
      (entry.notAfter == -1 || decide (now ≤ entry.notAfter)) &&
      entry.targetType != .all && entry.targetId == some targetId

variable (user : User) (now : Instant)

def userIsGloballyBlocked : Bool :=
  db.userBlockEntries.any fun entry =>
    (db.userBlockSubEntries.any fun sub => sub.parentId == entry.blockId && sub.blockType == .read) &&
      entry.userId == user.id && decide (entry.notBefore ≤ now) &&
      (entry.notAfter == -1 || decide (now ≤ entry.notAfter)) && entry.targetType == .all

/-! ### The ancestor table -/

/-- A row of `search_visible_ancestors`. -/
structure SearchAncestor where
  objectType : NodeType
  objectId : NodeId
  nodeId : NodeId
  parentId : Option NodeId
  inherit : Bool
  deriving DecidableEq

def ancestorRow (objectType : NodeType) (objectId : NodeId) (folder : Node) : SearchAncestor :=
  ⟨objectType, objectId, folder.id, folder.parentId, folder.inherit⟩

def joinedFolders (inherit : Bool) (parentId : Option NodeId) : List Node :=
  if inherit && parentId.isSome then db.folders.filter fun folder => some folder.id == parentId
  else []

/-- The anchor of the recursive table. -/
def ancestorAnchor (candidates : List SearchCandidate) : List SearchAncestor :=
  candidates.flatMap fun c =>
    (joinedFolders db c.inherit c.parentId).map (ancestorRow c.type c.id)

/-- The recursive part of the table. -/
def ancestorNext (row : SearchAncestor) : List SearchAncestor :=
  (joinedFolders db row.inherit row.parentId).map (ancestorRow row.objectType row.objectId)

/-- `_search_ancestor_cte`: one row at most for every candidate and folder. -/
def searchAncestorCte (candidates : List SearchCandidate) : List SearchAncestor :=
  recursiveRows (ancestorNext db) (ancestorAnchor db candidates)
    (candidates.length * db.folders.length)

/-- `_visible_search_filter`, on one candidate. -/
def visibleSearchFilter (candidates : List SearchCandidate) (user : User) (now : Instant)
    (c : SearchCandidate) : Bool :=
  let targetOae := activeOaeExists db c.type c.id user now
  let targetRulesAllow := nodeRulesAllow db c.type c.id user
  let blockedAncestor := (searchAncestorCte db candidates).any fun ancestor =>
    ancestor.objectType == c.type && ancestor.objectId == c.id &&
      !(activeOaeExists db .directory ancestor.nodeId user now ||
        nodeRulesAllow db .directory ancestor.nodeId user)
  let visible := targetOae || (targetRulesAllow && !blockedAncestor)
  if user.allPermissions.contains "super_list_directory" then visible
  else visible && !userIsGloballyBlocked db user now && !targetIsBlocked db c.id user now

/-! ### The sub-queries agree with the evaluator's functions -/

variable {ρ : Type}

theorem requirement_eq (rows : List ρ) (mine : ρ → Bool) (value : ρ → String)
    (held : String → Bool) (empty : Bool) (mode : MatchMode) :
    (empty || !rows.any mine || (mode == .all && !rows.any fun row => mine row && !held (value row)) ||
        (mode == .any && rows.any fun row => mine row && held (value row))) =
      (if empty || ((rows.filter mine).map value).isEmpty then true else
          match mode with
          | .any => ((rows.filter mine).map value).any held
          | .all => ((rows.filter mine).map value).all held) := by
  have hempty : ((rows.filter mine).map value).isEmpty = !rows.any mine := by
    rw [Bool.eq_iff_iff]
    simp [filter_eq_nil_iff]
  have hany : ((rows.filter mine).map value).any held =
      rows.any fun row => mine row && held (value row) := by
    rw [any_map, any_filter]
    rfl
  have hall : ((rows.filter mine).map value).all held =
      !rows.any fun row => mine row && !held (value row) := by
    rw [all_map, all_filter, not_any_eq_all_not]
    congr 1
    funext row
    simp only [Function.comp_apply]
    cases mine row <;> cases held (value row) <;> rfl
  rw [hempty, hall]
  cases empty <;> cases rows.any mine <;> cases mode <;> simp

theorem select_any (whenAny whenAll : Bool) :
    ((MatchMode.any == .any && whenAny) || (MatchMode.any == .all && whenAll)) = whenAny := by
  cases whenAny <;> cases whenAll <;> rfl

theorem select_all (whenAny whenAll : Bool) :
    ((MatchMode.all == .any && whenAny) || (MatchMode.all == .all && whenAll)) = whenAll := by
  cases whenAny <;> cases whenAll <;> rfl

theorem compiledGroupMatches_eq (group : CompiledAccessRuleGroup) (user : User) :
    compiledGroupMatches db group user = compiledGroupMatchesUser db group user := by
  unfold compiledGroupMatches compiledGroupMatchesUser inValues requiredRights
    requiredGroups sectionMatches
  simp only [requirement_eq]
  cases group.matchMode with
  | any => exact select_any _ _
  | all => exact select_all _ _

theorem compiledRuleMatches_eq (rule : CompiledAccessRule) (user : User) :
    compiledRuleMatches db rule user = compiledRuleMatchesUser db rule user := by
  unfold compiledRuleMatches compiledRuleMatchesUser matchGroups
  simp only [compiledGroupMatches_eq]
  cases rule.matchMode with
  | any =>
    rw [matchGroupsLoop_any, any_filter]
    simp only [BEq.rfl, MatchMode.any_beq_all, Bool.true_and, Bool.false_and, Bool.or_false]
  | all =>
    rw [matchGroupsLoop_all, all_filter, not_any_eq_all_not]
    simp only [BEq.rfl, MatchMode.all_beq_any, Bool.true_and, Bool.false_and, Bool.false_or]
    congr 1
    funext group
    cases group.ruleId == rule.id <;> cases compiledGroupMatchesUser db group user <;> rfl

theorem ite_isEmpty_all (rows : List ρ) (passes : ρ → Bool) :
    (if rows.isEmpty then true else rows.all passes) = rows.all passes := by
  cases rows <;> rfl

theorem noneOrNoFailure_eq (rows : List ρ) (relevant passes : ρ → Bool) :
    (!rows.any relevant || !rows.any fun row => relevant row && !passes row) =
      rows.all fun row => !relevant row || passes row := by
  have hfail : (!rows.any fun row => relevant row && !passes row) =
      rows.all fun row => !relevant row || passes row := by
    rw [not_any_eq_all_not]
    congr 1
    funext row
    cases relevant row <;> cases passes row <;> rfl
  rw [hfail, Bool.eq_iff_iff, Bool.or_eq_true]
  constructor
  · rintro (hnone | hall)
    · rw [not_any_eq_all_not, all_eq_true] at hnone
      rw [all_eq_true]
      intro row hrow
      rw [hnone row hrow, Bool.true_or]
    · exact hall
  · exact Or.inr

variable {node : Node}

theorem nodeRulesAllow_eq (hnode : node ∈ db.nodes) : nodeRulesAllow db node.type node.id user =
      (fullEvaluation db user .read now).rulesAllow db user .read node := by
  have hmem : (node.type, node.id) ∈ db.nodes.map (fun n => (n.type, n.id)) :=
    mem_map.mpr ⟨node, hnode, rfl⟩
  have hne : node.id ≠ "" := db.nodeIds_ne_empty node hnode
  simp only [nodeRulesAllow, EvaluationArguments.rulesAllow, fullEvaluation,
    compiledRulesAllowFromMap, fetchCompiledAccessRulesForTargets, hmem, hne, ne_eq,
    not_false_eq_true, and_self, if_true, compiledRuleMatches_eq, ite_isEmpty_all,
    noneOrNoFailure_eq]
  rw [all_filter, all_filter]
  congr 1
  funext rule
  simp only [accessRuleTypesFor, contains_cons]
  cases rule.accessType == .read <;>
    cases activeCompiledRuleConditions db rule node.type node.id <;>
    cases compiledRuleMatchesUser db rule user <;> rfl

theorem activeOaeExists_eq (node : Node) : activeOaeExists db node.type node.id user now =
      granted (fullEvaluation db user .read now) user .read node := by
  have hsplit : ∀ (rows : List ObjectAccessEntry) (p q : ObjectAccessEntry → Bool),
      (rows.any p || rows.any q) = rows.any fun row => p row || q row := by
    intro rows p q
    induction rows with
    | nil => rfl
    | cons row rest ih =>
      simp only [any_cons, ← ih]
      cases p row <;> cases q row <;> simp
  simp only [activeOaeExists, granted, fullEvaluation, activeEntriesByTarget, hsplit, any_filter]
  congr 1
  funext entry
  simp only [userEntryMatches, groupEntryMatches, inValues]
  cases entry.targetType == node.type <;> cases entry.targetIdentifier == node.id <;>
    cases entry.accessType == .read <;> cases entry.activeAt now <;> simp

theorem availableBlockTypes_read : availableBlockTypes.contains .read = true := rfl

theorem userIsGloballyBlocked_eq :
    userIsGloballyBlocked db user now = (fullEvaluation db user .read now).isGloballyBlocked := by
  simp only [userIsGloballyBlocked, fullEvaluation, prefetchUserBlocks, activeUserBlocks,
    any_filter, UserBlockEntry.activeAt]
  congr 1
  funext entry
  simp only [Bool.and_assoc, Bool.and_left_comm]

theorem targetIsBlocked_eq (hnode : node ∈ db.nodes) : targetIsBlocked db node.id user now =
      (fullEvaluation db user .read now).blockedIds.contains node.id := by
  have hne : node.id ≠ "" := db.nodeIds_ne_empty node hnode
  rw [Bool.eq_iff_iff]
  simp only [targetIsBlocked, fullEvaluation, prefetchUserBlocks, availableBlockTypes_read,
    if_true, activeUserBlocks, UserBlockEntry.activeAt, any_eq_true, contains_iff_mem,
    mem_filterMap, mem_filter, Bool.and_eq_true, bne_iff_ne, beq_iff_eq]
  constructor
  · rintro ⟨entry, hentry, ⟨⟨⟨⟨hsub, huser⟩, hbef⟩, hafter⟩, htype⟩, hid⟩
    refine ⟨entry, ⟨hentry, ⟨huser, hbef, hafter⟩, hsub⟩, ?_⟩
    simp [htype, hid, hne]
  · rintro ⟨entry, ⟨hentry, ⟨huser, hbef, hafter⟩, hsub⟩, hid⟩
    by_cases htype : entry.targetType = .all
    · simp [htype] at hid
    · rw [if_pos htype, Option.filter_eq_some_iff] at hid
      exact ⟨entry, hentry, ⟨⟨⟨⟨hsub, huser⟩, hbef⟩, hafter⟩, htype⟩, hid.1⟩

/-! ### The ancestor table holds the inherited chain -/

theorem mem_joinedFolders {db : Database} {inherit : Bool} {parentId : Option NodeId}
    {folder : Node} :
    folder ∈ joinedFolders db inherit parentId ↔
      ∃ id, (if inherit then parentId else none) = some id ∧ db.folder? id = some folder := by
  unfold joinedFolders
  cases inherit with
  | false => simp
  | true =>
    cases parentId with
    | none => simp
    | some id =>
      simp [folder?_eq_some, mem_folders, and_assoc, and_comm]

section

variable {db : Database} {rows : List Node} {row : SearchAncestor}

theorem derivable_ancestor (hdb : db.Acyclic) (hrows : ∀ n ∈ rows, n ∈ db.nodes)
    (h : Derivable (ancestorNext db) (ancestorAnchor db (rows.map candidateOf)) row) :
    ∃ n ∈ rows, ∃ folder ∈ inheritedChain db n, row = ancestorRow n.type n.id folder := by
  induction h with
  | @anchor row hrow =>
    simp only [ancestorAnchor, mem_flatMap, mem_map] at hrow
    obtain ⟨c, ⟨n, hn, rfl⟩, folder, hfol, rfl⟩ := hrow
    obtain ⟨id, hid, hlook⟩ := mem_joinedFolders.mp hfol
    have hchain := hdb.climbs_inheritedChain (hrows n hn)
    rw [show inheritedParent n = some id from hid] at hchain
    exact ⟨n, hn, folder, hchain.mem_start hlook, rfl⟩
  | @next row row' _ hnext ih =>
    obtain ⟨n, hn, folder, hfol, rfl⟩ := ih
    simp only [ancestorNext, mem_map] at hnext
    obtain ⟨above, habove, rfl⟩ := hnext
    obtain ⟨id, hid, hlook⟩ := mem_joinedFolders.mp habove
    have hchain := hdb.climbs_inheritedChain (hrows n hn)
    exact ⟨n, hn, above, hchain.mem_up hfol hid hlook, rfl⟩

theorem derivable_of_mem_chain (hdb : db.Acyclic) {n : Node} (hn : n ∈ rows)
    (hnode : n ∈ db.nodes) {folder : Node} (hfol : folder ∈ inheritedChain db n) :
    Derivable (ancestorNext db) (ancestorAnchor db (rows.map candidateOf))
      (ancestorRow n.type n.id folder) := by
  have hchain := hdb.climbs_inheritedChain hnode
  refine hchain.forall_mem (P := fun folder => Derivable (ancestorNext db)
    (ancestorAnchor db (rows.map candidateOf)) (ancestorRow n.type n.id folder)) ?_ ?_ folder hfol
  · intro id folder hid hlook
    refine Derivable.anchor ?_
    simp only [ancestorAnchor, mem_flatMap, mem_map]
    exact ⟨candidateOf n, ⟨n, hn, rfl⟩, folder, mem_joinedFolders.mpr ⟨id, hid, hlook⟩, rfl⟩
  · intro folder id above hder hid hlook
    refine Derivable.next hder ?_
    simp only [ancestorNext, mem_map]
    exact ⟨above, mem_joinedFolders.mpr ⟨id, hid, hlook⟩, rfl⟩

theorem mem_searchAncestorCte (hdb : db.Acyclic) (hrows : ∀ n ∈ rows, n ∈ db.nodes) :
    row ∈ searchAncestorCte db (rows.map candidateOf) ↔
      ∃ n ∈ rows, ∃ folder ∈ inheritedChain db n, row = ancestorRow n.type n.id folder := by
  have hfinite : ∀ row, Derivable (ancestorNext db) (ancestorAnchor db (rows.map candidateOf)) row →
      row ∈ rows.flatMap fun n => db.folders.map (ancestorRow n.type n.id) := by
    intro row hrow
    obtain ⟨n, hn, folder, hfol, rfl⟩ := derivable_ancestor hdb hrows hrow
    obtain ⟨id, hid⟩ := (hdb.climbs_inheritedChain (hrows n hn)).lookup_isSome hfol
    obtain ⟨hmem, -, htype⟩ := folder?_eq_some.mp hid
    simp only [mem_flatMap, mem_map]
    exact ⟨n, hn, folder, mem_folders.mpr ⟨hmem, htype⟩, rfl⟩
  have hlen : (rows.flatMap fun n => db.folders.map (ancestorRow n.type n.id)).length =
      rows.length * db.folders.length := by
    simp [length_flatMap]
  rw [searchAncestorCte, mem_recursiveRows_iff hfinite (by rw [length_map]; omega)]
  constructor
  · exact derivable_ancestor hdb hrows
  · rintro ⟨n, hn, folder, hfol, rfl⟩
    exact derivable_of_mem_chain hdb hn (hrows n hn) hfol

theorem any_searchAncestorCte (hdb : db.Acyclic) (hrows : ∀ n ∈ rows, n ∈ db.nodes) {node : Node}
    (hnode : node ∈ rows) (test : NodeId → Bool) :
    ((searchAncestorCte db (rows.map candidateOf)).any fun ancestor =>
        ancestor.objectType == node.type && ancestor.objectId == node.id && test ancestor.nodeId) =
      (inheritedChain db node).any fun folder => test folder.id := by
  rw [Bool.eq_iff_iff]
  simp only [any_eq_true, Bool.and_eq_true, beq_iff_eq]
  constructor
  · rintro ⟨row, hrow, ⟨-, hid⟩, htest⟩
    obtain ⟨n, hn, folder, hfol, rfl⟩ := (mem_searchAncestorCte hdb hrows).mp hrow
    obtain rfl : n = node := eq_of_id_eq (hrows n hn) (hrows node hnode) hid
    exact ⟨folder, hfol, htest⟩
  · rintro ⟨folder, hfol, htest⟩
    exact ⟨ancestorRow node.type node.id folder,
      (mem_searchAncestorCte hdb hrows).mpr ⟨node, hnode, folder, hfol, rfl⟩, ⟨rfl, rfl⟩, htest⟩

end

/-! ### Both decisions over the inherited chain -/

section

variable {db : Database} {rows : List Node} {node : Node} (user : User) (now : Instant)

/-- A grant or the read rules let the user pass the node, blocks aside. -/
def passesUnblocked (db : Database) (user : User) (now : Instant) (n : Node) : Bool :=
  activeOaeExists db n.type n.id user now || nodeRulesAllow db n.type n.id user

/-- The node is readable but for a block on a folder it inherits from. -/
def blockedByAncestorOnly (db : Database) (user : User) (now : Instant) (n : Node) : Bool :=
  !userIsGloballyBlocked db user now && !targetIsBlocked db n.id user now &&
    !activeOaeExists db n.type n.id user now && nodeRulesAllow db n.type n.id user &&
    (inheritedChain db n).all (passesUnblocked db user now) &&
    (inheritedChain db n).any fun folder => targetIsBlocked db folder.id user now

theorem visibleSearchFilter_eq (hdb : db.Acyclic) (hrows : ∀ n ∈ rows, n ∈ db.nodes)
    (hnode : node ∈ rows) (huser : "super_list_directory" ∉ user.allPermissions) :
    visibleSearchFilter db (rows.map candidateOf) user now (candidateOf node) =
      ((activeOaeExists db node.type node.id user now ||
          (nodeRulesAllow db node.type node.id user &&
            (inheritedChain db node).all (passesUnblocked db user now))) &&
        !userIsGloballyBlocked db user now && !targetIsBlocked db node.id user now) := by
  have hsuper : user.allPermissions.contains "super_list_directory" = false := by
    simpa using huser
  have hancestors := any_searchAncestorCte hdb hrows hnode fun id =>
    !(activeOaeExists db .directory id user now || nodeRulesAllow db .directory id user)
  have hchain : (inheritedChain db node).all (passesUnblocked db user now) =
      !(inheritedChain db node).any fun folder =>
        !(activeOaeExists db .directory folder.id user now ||
          nodeRulesAllow db .directory folder.id user) := by
    rw [not_any_eq_all_not, Bool.eq_iff_iff, all_eq_true, all_eq_true]
    refine forall₂_congr ?_
    intro folder hfol
    rw [passesUnblocked, (folder_of_mem_inheritedChain hdb (hrows node hnode) hfol).2, Bool.not_not]
  unfold visibleSearchFilter
  simp only [candidateOf, hsuper, Bool.false_eq_true, if_false]
  rw [hchain, ← hancestors]

theorem admits_read (hnode : node ∈ db.nodes) :
    admits db (fullEvaluation db user .read now) user .read node =
      (!targetIsBlocked db node.id user now && passesUnblocked db user now node) := by
  rw [admits, passesUnblocked, activeOaeExists_eq, nodeRulesAllow_eq db user now hnode,
    targetIsBlocked_eq db user now hnode]

theorem all_admits_read (hdb : db.Acyclic) (hnode : node ∈ db.nodes) :
    (inheritedChain db node).all (admits db (fullEvaluation db user .read now) user .read) =
      ((inheritedChain db node).all (passesUnblocked db user now) &&
        !(inheritedChain db node).any fun folder => targetIsBlocked db folder.id user now) := by
  rw [not_any_eq_all_not, Bool.eq_iff_iff, Bool.and_eq_true]
  simp only [all_eq_true]
  constructor
  · intro hall
    have hboth : ∀ folder ∈ inheritedChain db node,
        targetIsBlocked db folder.id user now = false ∧ passesUnblocked db user now folder = true := by
      intro folder hfol
      have hfol' := hall folder hfol
      rw [admits_read user now (folder_of_mem_inheritedChain hdb hnode hfol).1] at hfol'
      simpa using hfol'
    exact ⟨fun folder h => (hboth folder h).2, fun folder h => by simp [(hboth folder h).1]⟩
  · rintro ⟨hpass, hblock⟩ folder hfol
    rw [admits_read user now (folder_of_mem_inheritedChain hdb hnode hfol).1,
      hblock folder hfol, hpass folder hfol]
    rfl

/-- **The filter and the evaluator agree exactly when no ancestor's block decides alone.** -/
theorem search_visibility_agrees_iff (hdb : db.Acyclic) (hrows : ∀ n ∈ rows, n ∈ db.nodes)
    (hnode : node ∈ rows) (huser : "super_list_directory" ∉ user.allPermissions) :
    (visibleSearchFilter db (rows.map candidateOf) user now (candidateOf node) = true ↔
        checkAccessForObject db (fullEvaluation db user .read now) user .read node = .ok true) ↔
      blockedByAncestorOnly db user now node = false := by
  have hmem := hrows node hnode
  rw [visibleSearchFilter_eq user now hdb hrows hnode huser, fullEvaluation_eq user .read now hdb hmem,
    Except.ok.injEq, verdict, ← userIsGloballyBlocked_eq, ← activeOaeExists_eq,
    admits_read user now hmem, all_admits_read user now hdb hmem,
    blockedByAncestorOnly, passesUnblocked]
  -- both decisions are now Boolean formulas over the same six facts
  cases userIsGloballyBlocked db user now <;> cases targetIsBlocked db node.id user now <;>
    cases activeOaeExists db node.type node.id user now <;>
    cases nodeRulesAllow db node.type node.id user <;>
    cases (inheritedChain db node).all (passesUnblocked db user now) <;>
    cases (inheritedChain db node).any fun folder => targetIsBlocked db folder.id user now <;>
    decide

end

/-! ### A block between the root and a document -/

def blockedFolder : Node := { id := "a", type := .directory, name := "a", parentId := some "/" }

def documentInBlockedFolder : Node :=
  { id := "d", type := .document, name := "d", parentId := some "a" }

/-- `reader` is blocked from reading the folder `a`, which holds the document `d`. -/
def blockedFolderDatabase : Database where
  nodes := [{ id := "/", type := .directory, name := "/", parentId := none }, blockedFolder,
    documentInBlockedFolder]
  nodeIds_nodup := by decide
  nodeIds_ne_empty := by decide
  userBlockEntries := [⟨"b", "reader", 0, -1, .directory, some "a"⟩]
  userBlockSubEntries := [⟨"b", .read⟩]

def readerUser : User := ⟨"reader", [], []⟩

theorem search_shows_document_of_blocked_folder :
    blockedFolderDatabase.Acyclic ∧ (∀ node ∈ blockedFolderDatabase.nodes, node.notDeleted) ∧
      documentInBlockedFolder ∈ blockedFolderDatabase.nodes ∧
      "super_list_directory" ∉ readerUser.allPermissions ∧
      visibleSearchFilter blockedFolderDatabase (blockedFolderDatabase.nodes.map candidateOf)
        readerUser 1 (candidateOf documentInBlockedFolder) = true ∧
      checkAccessForObject blockedFolderDatabase
        (fullEvaluation blockedFolderDatabase readerUser .read 1) readerUser .read
        documentInBlockedFolder = .ok false := by
  decide

/-- On the blocked folder itself both sides agree. -/
theorem search_visibility_agrees_on_blocked_folder :
    visibleSearchFilter blockedFolderDatabase (blockedFolderDatabase.nodes.map candidateOf)
        readerUser 1 (candidateOf blockedFolder) = true ↔
      checkAccessForObject blockedFolderDatabase
        (fullEvaluation blockedFolderDatabase readerUser .read 1) readerUser .read blockedFolder =
        .ok true :=
  (search_visibility_agrees_iff readerUser 1 (by decide) (fun _ h => h) (by decide)
    (by decide)).mpr (by decide)

end Cfms.Access
