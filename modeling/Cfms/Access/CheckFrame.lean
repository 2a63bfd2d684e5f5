import Cfms.Access.Context

/-!
# What a check reads

`check_access_requirements` reads the target, the folders above it and what belongs to these.  Two
databases that agree on a set of nodes that is closed upwards give it the same result there, whether
it returns or raises (`AgreeOn.check`).  The folders are found by a recursive query whose rounds stay
within the set, and the walk tests only folders that the query has found.
-/

namespace Cfms.Access

open Lib.Climb Lib.RecursiveQuery List Database

/-- A node is reached from another one by going from row to parent. -/
inductive Database.Above (db : Database) : NodeId → NodeId → Prop
  | parent {row : Node} {above : NodeId} :
      row ∈ db.nodes → row.parentId = some above → db.Above above row.id
  | up {row : Node} {above below : NodeId} :
      db.Above row.id below → row ∈ db.nodes → row.parentId = some above → db.Above above below

/-- Outside the set of nodes a row keeps its identifier and its type only. -/
structure SameRowOn (A : NodeId → Prop) (row row' : Node) : Prop where
  id : row'.id = row.id
  type : row'.type = row.type
  same : A row.id → row' = row

/-- The databases agree on a set of nodes that holds the parents of its nodes. -/
structure AgreeOn (A : NodeId → Prop) (db db' : Database) : Prop where
  nodes : List.Forall₂ (SameRowOn A) db.nodes db'.nodes
  upward : ∀ node ∈ db.nodes, A node.id → ∀ parent, node.parentId = some parent → A parent
  rules : ∀ node ∈ db.nodes, A node.id →
    activeRules db' node.type node.id = activeRules db node.type node.id
  matchesUser : ∀ node ∈ db.nodes, A node.id → ∀ rule ∈ activeRules db node.type node.id,
    ∀ user,
    compiledRuleMatchesUser db' rule user = compiledRuleMatchesUser db rule user
  entries : db'.objectAccessEntries = db.objectAccessEntries
  blocks : db'.userBlockEntries = db.userBlockEntries
  subBlocks : db'.userBlockSubEntries = db.userBlockSubEntries

variable {A : NodeId → Prop}

theorem filter_sameRows {rows rows' : List Node} (h : List.Forall₂ (SameRowOn A) rows rows')
    {test : Node → Bool} (hin : ∀ row, test row = true → A row.id) :
    rows'.filter test = rows.filter test := by
  induction h with
  | nil => rfl
  | @cons row row' rows rows' hrow _ ih =>
    rw [filter_cons, filter_cons, ih]
    by_cases hmem : A row.id
    · rw [hrow.same hmem]
    have hout : test row = false := Bool.eq_false_iff.mpr fun htest => hmem (hin row htest)
    have hout' : test row' = false :=
      Bool.eq_false_iff.mpr fun htest => hmem (hrow.id ▸ hin row' htest)
    rw [hout, hout']
    rfl

theorem length_sameFolders {rows rows' : List Node} (h : List.Forall₂ (SameRowOn A) rows rows') :
    (rows'.filter Node.isFolder).length = (rows.filter Node.isFolder).length := by
  induction h with
  | nil => rfl
  | @cons row row' rows rows' hrow _ ih =>
    have htype : row'.isFolder = row.isFolder := by rw [Node.isFolder, Node.isFolder, hrow.type]
    rw [filter_cons, filter_cons, htype]
    cases row.isFolder with
    | false => exact ih
    | true => exact congrArg (· + 1) ih

namespace AgreeOn

variable {db db' : Database} (h : AgreeOn A db db') {target : Node}

include h

theorem mem (htgt : target ∈ db.nodes) (hA : A target.id) : target ∈ db'.nodes := by
  have hrows : db'.nodes.filter (fun row => row.id == target.id) =
      db.nodes.filter fun row => row.id == target.id :=
    filter_sameRows h.nodes fun row hrow => by rwa [beq_iff_eq.mp hrow]
  have hmem : target ∈ db.nodes.filter fun row => row.id == target.id :=
    mem_filter.mpr ⟨htgt, beq_self_eq_true _⟩
  rw [← hrows] at hmem
  exact (mem_filter.mp hmem).1

/-! ### The context -/

theorem filter_folders {test : Node → Bool} (hin : ∀ row, test row = true → A row.id) :
    db'.folders.filter test = db.folders.filter test := by
  rw [folders, folders, filter_filter, filter_filter]
  exact filter_sameRows h.nodes fun row hrow => hin row ((Bool.and_eq_true _ _).mp hrow).1

theorem seeds_mem (htgt : target ∈ db.nodes) (hA : A target.id) {id : NodeId}
    (hid : id ∈ seedFolderIds target) : A id := by
  rw [seedFolderIds, Option.mem_toList, Option.filter_eq_some_iff] at hid
  exact h.upward target htgt hA id hid.1

theorem ancestorIds {seeds : List NodeId} (hseeds : ∀ id ∈ seeds, A id) :
    allAncestorIds db' seeds = allAncestorIds db seeds ∧ ∀ id ∈ allAncestorIds db seeds, A id := by
  have hanch : ancAnchor db' seeds = ancAnchor db seeds :=
    h.filter_folders fun row hrow => hseeds row.id (contains_iff_mem.mp hrow)
  have hpar : ∀ anc ∈ db.nodes, A anc.id → ∀ row : Node,
      (some row.id == anc.parentId) = true → A row.id :=
    fun anc hanc hA row hrow => h.upward anc hanc hA row.id (beq_iff_eq.mp hrow).symm
  have hfol : ∀ {row : Node} {test : Node → Bool}, row ∈ db.folders.filter test →
      row ∈ db.nodes ∧ test row = true := fun hrow =>
    ⟨(mem_folders.mp (mem_filter.mp hrow).1).1, (mem_filter.mp hrow).2⟩
  have hrows : recursiveRows (ancNext db') (ancAnchor db seeds) db.folders.length =
        recursiveRows (ancNext db) (ancAnchor db seeds) db.folders.length ∧
      ∀ row ∈ recursiveRows (ancNext db) (ancAnchor db seeds) db.folders.length,
        row ∈ db.nodes ∧ A row.id := recursiveRows_congr
    (fun row hrow => ⟨(hfol hrow).1, hseeds row.id (contains_iff_mem.mp (hfol hrow).2)⟩)
    (fun anc hanc row hrow => by
      unfold ancNext at hrow
      split at hrow
      · exact ⟨(hfol hrow).1, hpar anc hanc.1 hanc.2 row (hfol hrow).2⟩
      · cases hrow)
    (fun anc hanc => by
      unfold ancNext
      split
      · exact h.filter_folders (hpar anc hanc.1 hanc.2)
      · rfl)
    db.folders.length
  constructor
  · rw [allAncestorIds, allAncestorIds, hanch,
      show db'.folders.length = db.folders.length from length_sameFolders h.nodes, hrows.1]
  · intro id hid
    rw [allAncestorIds, mem_dedup, mem_map] at hid
    obtain ⟨row, hrow, rfl⟩ := hid
    exact (hrows.2 row hrow).2

theorem fetchAncestorsAndOae_eq {seeds : List NodeId} (hseeds : ∀ id ∈ seeds, A id)
    (extra exclude : List NodeId) (now : Instant) (identifiers : Option (List String))
    (accessType : Option AccessType) :
    fetchAncestorsAndOae db' seeds extra exclude now identifiers accessType =
      fetchAncestorsAndOae db seeds extra exclude now identifiers accessType := by
  obtain ⟨hids, hmem⟩ := h.ancestorIds hseeds
  rw [Cfms.Access.fetchAncestorsAndOae_eq, Cfms.Access.fetchAncestorsAndOae_eq, hids]
  refine Prod.ext (h.filter_folders fun row hrow => ?_) ?_
  · obtain ⟨-, hrow⟩ := (Bool.and_eq_true _ _).mp hrow
    exact hmem row.id (mem_filter.mp (contains_iff_mem.mp hrow)).1
  · dsimp only
    unfold contextEntries
    rw [h.entries]

theorem accessContext_eq (htgt : target ∈ db.nodes) (hA : A target.id) (user : User)
    (accessType : AccessType) (now : Instant) :
    accessContext db' user target accessType now = accessContext db user target accessType now := by
  have hseeds : ∀ id ∈ seedFolderIds target, A id := fun _ hid => h.seeds_mem htgt hA hid
  unfold accessContext loadDocumentAccessContext loadUserFolderAccessContext
  cases target.type with
  | document => exact h.fetchAncestorsAndOae_eq hseeds _ _ _ _ _
  | directory =>
    dsimp only
    rw [h.fetchAncestorsAndOae_eq hseeds]

theorem mem_context (htgt : target ∈ db.nodes) (hA : A target.id) {user : User}
    {accessType : AccessType} {now : Instant} {folder : Node}
    (hfol : folder ∈ (accessContext db user target accessType now).1) :
    folder ∈ db.nodes ∧ A folder.id := by
  rcases mem_accessContext.mp hfol with ⟨-, rfl⟩ | ⟨hmem, -, hid, -⟩
  · exact ⟨htgt, hA⟩
  · exact ⟨(mem_folders.mp hmem).1,
      (h.ancestorIds fun _ hseed => h.seeds_mem htgt hA hseed).2 _ hid⟩

/-! ### The verdict -/

theorem rulesAllow {node : Node} (hnode : node ∈ db.nodes) (hA : A node.id)
    (targets : List (NodeType × NodeId)) (user : User) (accessType : AccessType) :
    compiledRulesAllowFromMap db'
        (fetchCompiledAccessRulesForTargets db' targets (some accessType)) node.type node.id user
        accessType =
      compiledRulesAllowFromMap db
        (fetchCompiledAccessRulesForTargets db targets (some accessType)) node.type node.id user
        accessType := by
  have hfetch : ∀ db : Database,
      fetchCompiledAccessRulesForTargets db targets (some accessType) node.type node.id =
        if (node.type, node.id) ∈ targets ∧ node.id ≠ "" then
          (activeRules db node.type node.id).filter fun rule =>
            (accessRuleTypesFor accessType).contains rule.accessType
        else [] := by
    intro db
    rw [fetchCompiledAccessRulesForTargets, activeRules, filter_filter]
    simp only [Bool.and_comm]
  unfold compiledRulesAllowFromMap
  rw [hfetch db', hfetch db, h.rules node hnode hA]
  split_ifs with htargets
  · rw [filter_filter]
    dsimp only
    split_ifs with hempty
    · rfl
    rw [Bool.eq_iff_iff, all_eq_true, all_eq_true]
    refine forall₂_congr fun rule hrule => ?_
    rw [h.matchesUser node hnode hA rule (mem_filter.mp hrule).1]
  · rfl

variable (user : User) (accessType : AccessType) (recursive : Bool) (now : Instant)

theorem prefetchUserBlocks_eq :
    prefetchUserBlocks db' user accessType now = prefetchUserBlocks db user accessType now := by
  unfold prefetchUserBlocks activeUserBlocks
  rw [h.blocks, h.subBlocks]

theorem checkSingleNode_eq (htgt : target ∈ db.nodes) (hA : A target.id) {node : Node}
    (hnode : node ∈ db.nodes) (hmem : A node.id) :
    checkSingleNode db' (requirementArguments db' user target accessType recursive now) user
        accessType node =
      checkSingleNode db (requirementArguments db user target accessType recursive now) user
        accessType node := by
  unfold checkSingleNode EvaluationArguments.rulesAllow requirementArguments
  rw [h.accessContext_eq htgt hA, h.prefetchUserBlocks_eq]
  simp only [h.rulesAllow hnode hmem]

/-- **A check of a node of the set has the same result in both databases.** -/
theorem check (htgt : target ∈ db.nodes) (hA : A target.id) :
    checkAccessRequirements db' user target accessType recursive now =
      checkAccessRequirements db user target accessType recursive now := by
  have hfols : (requirementArguments db' user target accessType recursive now).allFolders =
      (requirementArguments db user target accessType recursive now).allFolders :=
    congrArg Prod.fst (h.accessContext_eq htgt hA user accessType now)
  have hmap : (requirementArguments db' user target accessType recursive now).folderMap =
      (requirementArguments db user target accessType recursive now).folderMap := by
    funext id
    rw [EvaluationArguments.folderMap, EvaluationArguments.folderMap, hfols]
  unfold checkAccessRequirements checkAccessForObject
  rw [h.checkSingleNode_eq user accessType recursive now htgt hA htgt hA, hfols, hmap]
  rw [show (requirementArguments db' user target accessType recursive now).isGloballyBlocked =
    (requirementArguments db user target accessType recursive now).isGloballyBlocked from
      congrArg Prod.fst (h.prefetchUserBlocks_eq user accessType now)]
  rw [guardedClimb_congr fun id folder hfol => ?_]
  · rfl
  · obtain ⟨hnode, hmem⟩ := h.mem_context htgt hA (mem_of_find?_eq_some hfol)
    rw [h.checkSingleNode_eq user accessType recursive now htgt hA hnode hmem]

end AgreeOn

end Cfms.Access
