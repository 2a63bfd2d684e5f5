import Cfms.Access.Model
import Cfms.Lib.Climb

/-!
# The authorization evaluator

`check_access_for_object` and what it calls: the compiled rules of a node, the object-access
entries, the user's blocks, and the walk over the inherited ancestors.  The walk reads folders
from a map prepared by the caller and stops silently at a folder the map lacks, so the verdict
depends on what was loaded; the callers are modelled in the modules that follow.

`checkAccessForObject_eq` states the verdict of a walk that ends: a blocked user is refused, a
grant on the object itself decides at once, and otherwise the object and every folder visited
must admit the user.
-/

namespace Cfms.Access

open Lib.Climb Database

/-! ### Compiled rules -/

/-- `_access_rule_types_for`: writing and managing also need the read rules to hold. -/
def accessRuleTypesFor : AccessType → List AccessType
  | .read => [.read]
  | .write => [.read, .write]
  | .move => [.move]
  | .manage => [.read, .manage]

variable (db : Database)

/-- `active_compiled_rule_conditions`: the rule belongs to the rule set the target points at. -/
def activeCompiledRuleConditions (rule : CompiledAccessRule) (targetType : NodeType)
    (targetId : NodeId) : Bool :=
  db.ruleSets.any fun ruleSet =>
    rule.ruleSetId == ruleSet.id && ruleSet.nodeId == targetId &&
      db.nodes.any fun node =>
        node.id == targetId && node.type == targetType && node.accessRuleSetId == some ruleSet.id

/-- The rows of the rules that hold for a target. -/
def activeRules (targetType : NodeType) (targetId : NodeId) : List CompiledAccessRule :=
  db.rules.filter fun rule => activeCompiledRuleConditions db rule targetType targetId

abbrev CompiledRuleMap := NodeType → NodeId → List CompiledAccessRule

/-- `fetch_compiled_access_rules_for_targets`.  The map has no entry for other targets; the
query is chunked, which does not change what it returns. -/
def fetchCompiledAccessRulesForTargets (targets : List (NodeType × NodeId))
    (accessType : Option AccessType) : CompiledRuleMap := fun targetType targetId =>
  if (targetType, targetId) ∈ targets ∧ targetId ≠ "" then
    db.rules.filter fun rule =>
      activeCompiledRuleConditions db rule targetType targetId &&
        match accessType with
        | none => true
        | some requested => (accessRuleTypesFor requested).contains rule.accessType
  else []

/-- One half of `_compiled_group_matches_user`. -/
def sectionMatches (empty : Bool) (mode : MatchMode) (required held : List String) : Bool :=
  if empty || required.isEmpty then true
  else
    match mode with
    | .any => required.any (held.contains ·)
    | .all => required.all (held.contains ·)

def compiledGroupMatchesUser (group : CompiledAccessRuleGroup) (user : User) : Bool :=
  let rightsMatch := sectionMatches group.rightsEmpty group.rightsMatchMode
    (db.requiredRights group) user.allPermissions
  let groupsMatch := sectionMatches group.groupsEmpty group.groupsMatchMode
    (db.requiredGroups group) user.allGroups
  match group.matchMode with
  | .any => rightsMatch || groupsMatch
  | .all => rightsMatch && groupsMatch

/-- The loop of `_compiled_rule_matches_user` over the remaining groups. -/
def matchGroupsLoop {Group : Type} (mode : MatchMode) (matchesUser : Group → Bool) :
    List Group → Bool
  | [] => mode == .all
  | group :: rest =>
    let matched := matchesUser group
    if mode == .any && matched then true
    else if mode == .all && !matched then false
    else matchGroupsLoop mode matchesUser rest

def compiledRuleMatchesUser (rule : CompiledAccessRule) (user : User) : Bool :=
  matchGroupsLoop rule.matchMode (compiledGroupMatchesUser db · user) (db.matchGroups rule)

section

variable {Group : Type} (matchesUser : Group → Bool) (groups : List Group)

theorem matchGroupsLoop_any : matchGroupsLoop .any matchesUser groups = groups.any matchesUser := by
  induction groups with
  | nil => rfl
  | cons group rest ih =>
    rw [matchGroupsLoop, ih, List.any_cons]
    cases matchesUser group <;> simp

theorem matchGroupsLoop_all : matchGroupsLoop .all matchesUser groups = groups.all matchesUser := by
  induction groups with
  | nil => rfl
  | cons group rest ih =>
    rw [matchGroupsLoop, ih, List.all_cons]
    cases matchesUser group <;> simp

end

def compiledRulesAllowFromMap (rulesByTarget : CompiledRuleMap) (targetType : NodeType)
    (targetId : NodeId) (user : User) (accessType : AccessType) : Bool :=
  let rules := (rulesByTarget targetType targetId).filter
    fun rule => (accessRuleTypesFor accessType).contains rule.accessType
  if rules.isEmpty then true else rules.all fun rule => compiledRuleMatchesUser db rule user

/-- `compiled_rules_allow`: the same decision straight from the tables. -/
def compiledRulesAllow (targetType : NodeType) (targetId : NodeId) (user : User)
    (accessType : AccessType) : Bool :=
  let rules := db.rules.filter fun rule =>
    activeCompiledRuleConditions db rule targetType targetId &&
      (accessRuleTypesFor accessType).contains rule.accessType
  if rules.isEmpty then true else rules.all fun rule => compiledRuleMatchesUser db rule user

/-! ### Object-access entries and blocks -/

def ObjectAccessEntry.activeAt (entry : ObjectAccessEntry) (now : Instant) : Bool :=
  decide (entry.startTime ≤ now) &&
    match entry.endTime with
    | none => true
    | some endTime => decide (now ≤ endTime)

/-- The entries active at `now`, by target. -/
def activeEntriesByTarget (now : Instant) : NodeId → List ObjectAccessEntry :=
  fun target => db.objectAccessEntries.filter fun entry =>
    entry.targetIdentifier == target && entry.activeAt now

def availableBlockTypes : List AccessType := [.read, .write, .move]

def UserBlockEntry.activeAt (entry : UserBlockEntry) (now : Instant) : Bool :=
  decide (entry.notBefore ≤ now) && (entry.notAfter == -1 || decide (now ≤ entry.notAfter))

variable (user : User)

/-- The rows of the join in `prefetch_user_blocks`. -/
def activeUserBlocks (accessType : AccessType) (now : Instant) : List UserBlockEntry :=
  db.userBlockEntries.filter fun entry =>
    entry.userId == user.id && entry.activeAt now &&
      db.userBlockSubEntries.any fun sub =>
        sub.parentId == entry.blockId && sub.blockType == accessType

/-- `prefetch_user_blocks`: whether the user is blocked everywhere, and the blocked targets. -/
def prefetchUserBlocks (accessType : AccessType) (now : Instant) : Bool × List NodeId :=
  if availableBlockTypes.contains accessType then
    let blockEntries := activeUserBlocks db user accessType now
    (blockEntries.any fun entry => entry.targetType == .all,
      blockEntries.filterMap fun entry =>
        if entry.targetType != .all then entry.targetId.filter (· != "") else none)
  else (false, [])

/-! ### One node -/

inductive SingleNodeCheckResult
  | allowedOae
  | allowed
  | denied
  deriving DecidableEq

/-- The prepared arguments of `check_access_for_object`.  Every caller builds `folder_map` from
the folders it passes. -/
structure EvaluationArguments where
  allFolders : List Node
  oaeByTarget : NodeId → List ObjectAccessEntry
  recursive : Bool := true
  compiledRulesByTarget : Option CompiledRuleMap := none
  isGloballyBlocked : Bool := false
  blockedIds : List NodeId := []

def EvaluationArguments.folderMap (args : EvaluationArguments) (id : NodeId) : Option Node :=
  args.allFolders.find? fun folder => folder.id == id

def userEntryMatches (accessType : AccessType) (node : Node) (entry : ObjectAccessEntry) : Bool :=
  entry.entityType == .user && entry.entityIdentifier == user.id &&
    entry.targetType == node.type && entry.accessType == accessType

def groupEntryMatches (accessType : AccessType) (node : Node) (entry : ObjectAccessEntry) : Bool :=
  entry.entityType == .group && user.allGroups.contains entry.entityIdentifier &&
    entry.targetType == node.type && entry.accessType == accessType

def EvaluationArguments.rulesAllow (args : EvaluationArguments) (db : Database) (user : User)
    (accessType : AccessType) (node : Node) : Bool :=
  match args.compiledRulesByTarget with
  | none => compiledRulesAllow db node.type node.id user accessType
  | some rulesByTarget =>
    compiledRulesAllowFromMap db rulesByTarget node.type node.id user accessType

/-- `_check_single_node`: a block refuses, then a grant admits, then the rules decide. -/
def checkSingleNode (args : EvaluationArguments) (user : User) (accessType : AccessType)
    (node : Node) : SingleNodeCheckResult :=
  if args.blockedIds.contains node.id then .denied
  else if (args.oaeByTarget node.id).any (userEntryMatches user accessType node) then .allowedOae
  else if (args.oaeByTarget node.id).any (groupEntryMatches user accessType node) then .allowedOae
  else if args.rulesAllow db user accessType node then .allowed
  else .denied

/-! ### The walk -/

/-- The folder the walk goes to after a node: its parent, if the node inherits. -/
def inheritedParent (node : Node) : Option NodeId := if node.inherit then node.parentId else none

/-- `check_access_for_object`.  A cycle among the loaded folders raises. -/
def checkAccessForObject (args : EvaluationArguments) (user : User) (accessType : AccessType)
    (obj : Node) : Except ClimbError Bool :=
  if args.isGloballyBlocked then .ok false
  else
    match checkSingleNode db args user accessType obj with
    | .allowedOae => .ok true
    | .denied => .ok false
    | .allowed =>
      if !args.recursive || !obj.inherit then .ok true
      else
        guardedClimb args.folderMap inheritedParent
          (fun folder => checkSingleNode db args user accessType folder != .denied)
          (args.allFolders.length + 1) [] obj.parentId

/-! ### What the evaluator decides -/

section

variable (db : Database) (args : EvaluationArguments) (user : User) (accessType : AccessType)

def granted (node : Node) : Bool :=
  (args.oaeByTarget node.id).any (userEntryMatches user accessType node) ||
    (args.oaeByTarget node.id).any (groupEntryMatches user accessType node)

/-- The node does not refuse the user. -/
def admits (node : Node) : Bool :=
  !args.blockedIds.contains node.id &&
    (granted args user accessType node || args.rulesAllow db user accessType node)

/-- The verdict for an object whose walk visits `chain`. -/
def verdict (chain : List Node) (obj : Node) : Bool :=
  !args.isGloballyBlocked && admits db args user accessType obj &&
    (granted args user accessType obj || chain.all (admits db args user accessType))

theorem checkSingleNode_ne_denied (node : Node) :
    (checkSingleNode db args user accessType node != .denied) = admits db args user accessType node := by
  unfold checkSingleNode admits granted
  cases args.blockedIds.contains node.id <;>
    cases (args.oaeByTarget node.id).any (userEntryMatches user accessType node) <;>
    cases (args.oaeByTarget node.id).any (groupEntryMatches user accessType node) <;>
    cases args.rulesAllow db user accessType node <;> rfl

theorem checkSingleNode_eq_allowedOae (node : Node) :
    checkSingleNode db args user accessType node = .allowedOae ↔
      (!args.blockedIds.contains node.id && granted args user accessType node) = true := by
  unfold checkSingleNode granted
  cases args.blockedIds.contains node.id <;>
    cases (args.oaeByTarget node.id).any (userEntryMatches user accessType node) <;>
    cases (args.oaeByTarget node.id).any (groupEntryMatches user accessType node) <;>
    cases args.rulesAllow db user accessType node <;> simp

theorem folderMap_key {args : EvaluationArguments} {id : NodeId} {node : Node}
    (h : args.folderMap id = some node) : node.id = id := find?_key_id h

variable {args} in
/-- **The verdict of a recursive check whose walk ends.** -/
theorem checkAccessForObject_eq (hrecur : args.recursive = true) {chain : List Node}
    {obj : Node} (hchain : Climbs args.folderMap inheritedParent (inheritedParent obj) chain) :
    checkAccessForObject db args user accessType obj =
      .ok (verdict db args user accessType chain obj) := by
  have hadmits := checkSingleNode_ne_denied db args user accessType obj
  have hgrant := checkSingleNode_eq_allowedOae db args user accessType obj
  unfold checkAccessForObject verdict
  cases hglob : args.isGloballyBlocked with
  | true => simp
  | false =>
    cases hcheck : checkSingleNode db args user accessType obj with
    | allowedOae =>
      rw [hcheck] at hadmits hgrant
      simp only [true_iff, Bool.and_eq_true] at hgrant
      simp [← hadmits, hgrant.2]
    | denied =>
      rw [hcheck] at hadmits
      simp [← hadmits]
    | allowed =>
      rw [hcheck] at hadmits hgrant
      have hobj : admits db args user accessType obj = true := by rw [← hadmits]; rfl
      have hnot : granted args user accessType obj = false := by
        rw [admits, Bool.and_eq_true] at hobj
        by_contra hne
        rw [Bool.not_eq_false] at hne
        simp only [reduceCtorEq, false_iff, hne, Bool.and_true, hobj.1, not_true_eq_false] at hgrant
      simp only [hrecur, Bool.not_true, Bool.false_or, hobj, hnot]
      cases hinh : obj.inherit with
      | false =>
        simp only [inheritedParent, hinh] at hchain
        cases hchain
        rfl
      | true =>
        simp only [inheritedParent, hinh, if_true] at hchain
        simp only [Bool.not_true, Bool.false_eq_true, if_false]
        have hlen : chain.length ≤ args.allFolders.length :=
          hchain.length_le Node.id (fun _ _ h => folderMap_key h)
            (fun _ _ h => List.mem_of_find?_eq_some h)
        rw [guardedClimb_eq Node.id (fun _ _ h => folderMap_key h) _ hchain (by omega)
          (by simp) (by simp)]
        congr 2
        funext folder
        exact checkSingleNode_ne_denied db args user accessType folder

end

/-! ### The full folder map -/

/-- Following `parent_id` from any node ends. -/
def Database.Acyclic : Prop :=
  ∀ node ∈ db.nodes, ∃ chain, Climbs db.folder? Node.parentId node.parentId chain

/-- The folders whose rules a node inherits, nearest first. -/
def inheritedChain (node : Node) : List Node :=
  climb db.folder? inheritedParent (db.nodes.length + 1) (inheritedParent node)

/-- Everything the evaluator can be given at `now`: every folder, every active entry, the rules
of every node and the user's blocks. -/
def fullEvaluation (accessType : AccessType) (now : Instant) : EvaluationArguments where
  allFolders := db.folders
  oaeByTarget := activeEntriesByTarget db now
  compiledRulesByTarget := some (fetchCompiledAccessRulesForTargets db
    (db.nodes.map fun node => (node.type, node.id)) (some accessType))
  isGloballyBlocked := (prefetchUserBlocks db user accessType now).1
  blockedIds := (prefetchUserBlocks db user accessType now).2

theorem inheritedParent_eq_or (node : Node) :
    inheritedParent node = node.parentId ∨ inheritedParent node = none := by
  unfold inheritedParent
  cases node.inherit
  · right; rfl
  · left; rfl

theorem Database.folder?_key {db : Database} {id : NodeId} {node : Node}
    (h : db.folder? id = some node) : node.id = id := (folder?_eq_some.mp h).2.1

theorem climbs_length_le_nodes {db : Database} {up : Node → Option NodeId}
    {s : Option NodeId} {chain : List Node} (h : Climbs db.folder? up s chain) :
    chain.length ≤ db.nodes.length :=
  h.length_le Node.id (fun _ _ h => folder?_key h)
    (fun _ _ h => (folder?_eq_some.mp h).1)

theorem Database.acyclic_iff {db : Database} : db.Acyclic ↔ ∀ node ∈ db.nodes,
      climbEnds db.folder? Node.parentId (db.nodes.length + 1) node.parentId = true := by
  refine forall₂_congr ?_
  intro node _
  rw [climbEnds_iff]
  constructor
  · rintro ⟨chain, hchain⟩
    have hlen := climbs_length_le_nodes hchain
    exact ⟨chain, hchain, by omega⟩
  · rintro ⟨chain, hchain, -⟩
    exact ⟨chain, hchain⟩

instance (db : Database) : Decidable db.Acyclic := decidable_of_iff _ Database.acyclic_iff.symm

section

variable {db : Database} {node : Node}

theorem Database.Acyclic.climbs_inheritedChain (hdb : db.Acyclic) (hnode : node ∈ db.nodes) :
    Climbs db.folder? inheritedParent (inheritedParent node) (inheritedChain db node) := by
  obtain ⟨full, hfull⟩ := hdb node hnode
  obtain ⟨chain, hchain, -⟩ := hfull.exists_of_stops inheritedParent_eq_or
  have hclimbs : ∃ l, Climbs db.folder? inheritedParent (inheritedParent node) l := by
    rcases inheritedParent_eq_or node with h | h
    · exact ⟨chain, by rwa [h]⟩
    · exact ⟨[], by rw [h]; exact Climbs.top⟩
  obtain ⟨l, hl⟩ := hclimbs
  have hlen := climbs_length_le_nodes hl
  rw [inheritedChain, hl.climb_eq (by omega : l.length < db.nodes.length + 1)]
  exact hl

theorem folder_of_mem_inheritedChain (hdb : db.Acyclic) (hnode : node ∈ db.nodes) {folder : Node}
    (hfol : folder ∈ inheritedChain db node) :
    folder ∈ db.nodes ∧ folder.type = .directory := by
  obtain ⟨id, hid⟩ := (hdb.climbs_inheritedChain hnode).lookup_isSome hfol
  obtain ⟨hmem, -, htype⟩ := folder?_eq_some.mp hid
  exact ⟨hmem, htype⟩

theorem folders_find?_eq (db : Database) (id : NodeId) :
    db.folders.find? (fun folder => folder.id == id) = db.folder? id := by
  cases h : db.folder? id with
  | some node =>
    obtain ⟨hmem, rfl, htype⟩ := folder?_eq_some.mp h
    exact (find?_key_eq_some db.folderIds_nodup).mpr (mem_folders.mpr ⟨hmem, htype⟩)
  | none =>
    rw [List.find?_eq_none]
    intro folder hfol hid
    obtain ⟨hmem, htype⟩ := mem_folders.mp hfol
    have hsome := folder?_eq_some.mpr ⟨hmem, by simpa using hid, htype⟩
    rw [h] at hsome
    cases hsome

theorem fullEvaluation_eq (accessType : AccessType) (now : Instant) (hdb : db.Acyclic)
    (hnode : node ∈ db.nodes) :
    checkAccessForObject db (fullEvaluation db user accessType now) user accessType node =
      .ok (verdict db (fullEvaluation db user accessType now) user accessType
        (inheritedChain db node) node) := by
  refine checkAccessForObject_eq db user accessType rfl ?_
  have hmap : (fullEvaluation db user accessType now).folderMap = db.folder? := by
    funext id
    exact folders_find?_eq db id
  rw [hmap]
  exact hdb.climbs_inheritedChain hnode

end

end Cfms.Access
