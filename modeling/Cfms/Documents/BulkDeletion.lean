import Cfms.Documents.DeletionTree

/-!
# Bulk deletion against single deletion

The analysis of a subtree judges an item on the folders between the item and the root of the
deletion.  Deleting the item on its own judges it on the whole inherited chain, with the user's
blocks.  When the root passes its own check, the two differ for two reasons only: a folder on the
way is blocked, or the root passed by a grant of its own while a folder above it refuses.
-/

namespace Cfms.Documents

open Access Lib.Climb Lib.Forest Lib.LeafOrder Lib.RecursiveQuery List Database

section

variable {db : Database} {rootId : NodeId} {includeDeleted : Bool} {user : User} {now : Instant}

def IsLoaded (db : Database) (rootId : NodeId) (user : User) (now : Instant)
    (includeDeleted : Bool) (node : Node) : Prop :=
  node ∈ (loadSubtree db rootId user now includeDeleted).folders ∨
    node ∈ (loadSubtree db rootId user now includeDeleted).documents

variable {node : Node}

theorem granted_loadSubtree
    (hnode : IsLoaded db rootId user now includeDeleted node) (accessType : AccessType) :
    granted (loadSubtree db rootId user now includeDeleted).arguments user accessType node =
      granted (fullEvaluation db user accessType now) user accessType node := by
  have hid : node.id ∈ (loadSubtree db rootId user now includeDeleted).folders.map Node.id ++
      (loadSubtree db rootId user now includeDeleted).documents.map Node.id := by
    rcases hnode with h | h
    · exact mem_append_left _ (mem_map_of_mem h)
    · exact mem_append_right _ (mem_map_of_mem h)
  have hany : ∀ test : ObjectAccessEntry → Bool,
      ((loadSubtree db rootId user now includeDeleted).arguments.oaeByTarget node.id).any test =
        ((fullEvaluation db user accessType now).oaeByTarget node.id).any test := by
    intro test
    show (contextEntries db (_ ++ _) now none none node.id).any test =
      (activeEntriesByTarget db now node.id).any test
    refine any_contextEntries now hid ?_ ?_
    · intro ids h
      cases h
    · intro t h
      cases h
  rw [granted, granted, hany, hany]

theorem rulesAllow_loadSubtree (hnode : node ∈ db.nodes)
    (hload : IsLoaded db rootId user now includeDeleted node) (accessType : AccessType) :
    (loadSubtree db rootId user now includeDeleted).arguments.rulesAllow db user accessType node =
      (fullEvaluation db user accessType now).rulesAllow db user accessType node := by
  have hne : node.id ≠ "" := db.nodeIds_ne_empty node hnode
  have htgt : (node.type, node.id) ∈
      ((loadSubtree db rootId user now includeDeleted).folders.map Node.id).map
          (fun id => ((.directory : NodeType), id)) ++
        (loadSubtree db rootId user now includeDeleted).documents.map
          fun doc => ((.document : NodeType), doc.id) := by
    rcases hload with h | h
    · have htype := (mem_folders.mp (mem_loadSubtree_folders.mp h).1).2
      rw [htype]
      exact mem_append_left _ (mem_map_of_mem (mem_map_of_mem h))
    · have htype := (mem_documents.mp (mem_loadSubtree_documents.mp h).1).2
      rw [htype]
      exact mem_append_right _ (mem_map.mpr ⟨node, h, rfl⟩)
  have hall : (node.type, node.id) ∈ db.nodes.map fun n => (n.type, n.id) :=
    mem_map.mpr ⟨node, hnode, rfl⟩
  show compiledRulesAllowFromMap db (fetchCompiledAccessRulesForTargets db _ none) node.type node.id
    user accessType = compiledRulesAllowFromMap db (fetchCompiledAccessRulesForTargets db _
      (some accessType)) node.type node.id user accessType
  -- loading the rules of every access type and then choosing is loading the chosen ones
  have hrules : (fetchCompiledAccessRulesForTargets db
        (((loadSubtree db rootId user now includeDeleted).folders.map Node.id).map
            (fun id => ((.directory : NodeType), id)) ++
          (loadSubtree db rootId user now includeDeleted).documents.map
            fun doc => ((.document : NodeType), doc.id)) none node.type node.id).filter
        (fun rule => (accessRuleTypesFor accessType).contains rule.accessType) =
      (fetchCompiledAccessRulesForTargets db (db.nodes.map fun n => (n.type, n.id))
        (some accessType) node.type node.id).filter
        (fun rule => (accessRuleTypesFor accessType).contains rule.accessType) := by
    rw [fetchCompiledAccessRulesForTargets, fetchCompiledAccessRulesForTargets,
      if_pos ⟨htgt, hne⟩, if_pos ⟨hall, hne⟩, filter_filter, filter_filter]
    refine filter_congr ?_
    intro rule _
    by_cases hmem : rule.accessType ∈ accessRuleTypesFor accessType
    · simp [hmem]
    · simp [hmem]
  exact congrArg (fun rules : List CompiledAccessRule => if rules.isEmpty then true
    else rules.all fun rule => compiledRuleMatchesUser db rule user) hrules

/-- A grant or the rules let the user pass the node, blocks aside. -/
def passesRules (db : Database) (user : User) (accessType : AccessType) (now : Instant)
    (node : Node) : Bool :=
  granted (fullEvaluation db user accessType now) user accessType node ||
    (fullEvaluation db user accessType now).rulesAllow db user accessType node

theorem admits_loadSubtree (hnode : node ∈ db.nodes)
    (hload : IsLoaded db rootId user now includeDeleted node) (accessType : AccessType) :
    admits db (loadSubtree db rootId user now includeDeleted).arguments user accessType node =
      passesRules db user accessType now node := by
  rw [admits, granted_loadSubtree hload, rulesAllow_loadSubtree hnode hload]
  rfl

end

/-! ### The two chains -/

section

variable {db : Database} {rootId : NodeId} {includeDeleted : Bool} {root item : Node}

variable {node : Node}

theorem climbs_consultedChain (hdb : db.Acyclic) (hnode : node ∈ db.nodes) :
    Climbs (restrict Node.notDeleted db.folder?) inheritedParent (inheritedParent node)
      (consultedChain db node) :=
  (hdb.climbs_inheritedChain hnode).restrict Node.notDeleted

theorem climbs_loadedChain (rootId : NodeId) (includeDeleted : Bool) (hdb : db.Acyclic)
    (hnode : node ∈ db.nodes) :
    Climbs (restrict (isLoadedFolder db rootId includeDeleted) db.folder?) inheritedParent
      (inheritedParent node) (loadedChain db rootId includeDeleted node) :=
  (hdb.climbs_inheritedChain hnode).restrict _

variable {id : NodeId}

theorem restrict_eq_some {keep : Node → Bool} :
    restrict keep db.folder? id = some node ↔ db.folder? id = some node ∧ keep node = true :=
  Option.filter_eq_some_iff

theorem loaded_above {above : Node} (hcontr : ContainerLoaded db rootId includeDeleted item)
    (hid : inheritedParent item = some id) (habove : db.folder? id = some above) :
    restrict (isLoadedFolder db rootId includeDeleted) db.folder? id = some above := by
  obtain ⟨parentId, container, hpar, hfound, hload⟩ := hcontr
  have heq : parentId = id := by
    rcases inheritedParent_eq_or item with h | h
    · rw [h, hpar] at hid
      exact Option.some.inj hid
    · rw [h] at hid
      cases hid
  rw [heq, habove] at hfound
  rw [restrict_eq_some]
  exact ⟨habove, by rw [Option.some.inj hfound]; exact hload⟩

theorem mem_consultedChain_cases (hdb : db.Acyclic) (hitem : item ∈ db.nodes)
    (hroot : db.folder? rootId = some root)
    (hrootLoaded : isLoadedFolder db rootId includeDeleted root = true)
    (hcontr : ContainerLoaded db rootId includeDeleted item) :
    ∀ f ∈ consultedChain db item, f ∈ consultedChain db item ∧
      (f ∈ loadedChain db rootId includeDeleted item ∨
        (root ∈ consultedChain db item ∧ f ∈ consultedChain db root)) := by
  have hrootMem := (folder?_eq_some.mp hroot).1
  have hconsulted := climbs_consultedChain hdb hitem
  have hconsultedRoot := climbs_consultedChain hdb hrootMem
  have hloadedChain := climbs_loadedChain rootId includeDeleted hdb hitem
  -- the induction goes up the consulted chain
  refine hconsulted.forall_mem ?_ ?_
  · intro id f hid hf
    have hfol := restrict_eq_some.mp hf
    have hconsulted' := hconsulted
    have hload' := hloadedChain
    rw [hid] at hconsulted' hload'
    exact ⟨hconsulted'.mem_start hf, Or.inl (hload'.mem_start (loaded_above hcontr hid hfol.1))⟩
  · rintro f id g ⟨hf, hcases⟩ hid hg
    refine ⟨hconsulted.mem_up hf hid hg, ?_⟩
    have hfol := (restrict_eq_some.mp hg).1
    rcases hcases with hseen | ⟨hrootSeen, habove⟩
    · by_cases hfroot : f = root
      · rw [hfroot] at hf hid
        rw [hid] at hconsultedRoot
        exact Or.inr ⟨hf, hconsultedRoot.mem_start hg⟩
      · obtain ⟨key, hkey⟩ := hloadedChain.lookup_isSome hseen
        obtain ⟨hfound, hfloaded⟩ := restrict_eq_some.mp hkey
        obtain ⟨hfmem, -, hftype⟩ := folder?_eq_some.mp hfound
        have hne : f.id ≠ rootId := by
          intro heq
          rw [← folder?_key hroot] at heq
          exact hfroot (eq_of_id_eq hfmem hrootMem heq)
        have hfcontainer := containerLoaded_of_loaded hroot hrootLoaded
          (mem_folders.mpr ⟨hfmem, hftype⟩) hfloaded hne
        exact Or.inl (hloadedChain.mem_up hseen hid (loaded_above hfcontainer hid hfol))
    · exact Or.inr ⟨hrootSeen, hconsultedRoot.mem_up habove hid hg⟩

theorem consultedChain_root_subset (hdb : db.Acyclic) (hitem : item ∈ db.nodes)
    (hrootMem : root ∈ db.nodes) (hseen : root ∈ consultedChain db item) :
    ∀ f ∈ consultedChain db root, f ∈ consultedChain db item := by
  have hconsulted := climbs_consultedChain hdb hitem
  refine (climbs_consultedChain hdb hrootMem).forall_mem ?_ ?_
  · intro id f hid hf
    exact hconsulted.mem_up hseen hid hf
  · intro f id g hf hid hg
    exact hconsulted.mem_up hf hid hg

end

/-! ### What bulk deletion adds -/

/-- The single check fails for an item that the analysis passes: without a grant on the item, a
folder consulted is blocked, or a folder above the root refuses by its rules. -/
def exceedsSingleCheck (db : Database) (user : User) (now : Instant) (root item : Node) : Bool :=
  !granted (fullEvaluation db user .write now) user .write item &&
    ((consultedChain db item).any (fun f =>
        (fullEvaluation db user .write now).blockedIds.contains f.id) ||
      ((consultedChain db item).contains root &&
        (consultedChain db root).any fun f => !passesRules db user .write now f))

theorem exceedsSingleCheck_iff {db : Database} {user : User} {now : Instant} {root item : Node} :
    exceedsSingleCheck db user now root item = true ↔
      granted (fullEvaluation db user .write now) user .write item = false ∧
        ((∃ f ∈ consultedChain db item,
            (fullEvaluation db user .write now).blockedIds.contains f.id = true) ∨
          (root ∈ consultedChain db item ∧
            ∃ f ∈ consultedChain db root, passesRules db user .write now f = false)) := by
  rw [exceedsSingleCheck, Bool.and_eq_true, Bool.or_eq_true, Bool.and_eq_true,
    any_eq_true, any_eq_true, contains_iff_mem]
  simp only [Bool.not_eq_true']

section

variable {db : Database} {rootId : NodeId} {includeDeleted : Bool} {user : User} {now : Instant}
  {root item : Node}

theorem admits_fullEvaluation (accessType : AccessType) (node : Node) :
    admits db (fullEvaluation db user accessType now) user accessType node =
      (!(fullEvaluation db user accessType now).blockedIds.contains node.id &&
        passesRules db user accessType now node) := rfl

theorem selfDeletable_iff (hdb : db.Acyclic) (hitem : item ∈ db.nodes)
    (hload : IsLoaded db rootId user now includeDeleted item) (perm : String) :
    selfDeletable db (loadSubtree db rootId user now includeDeleted) user perm item = true ↔
      (fullEvaluation db user .write now).isGloballyBlocked = false ∧
        (fullEvaluation db user .write now).blockedIds.contains item.id = false ∧
        perm ∈ user.allPermissions ∧ passesRules db user .write now item = true ∧
        (granted (fullEvaluation db user .write now) user .write item = true ∨
          ∀ f ∈ loadedChain db rootId includeDeleted item,
            passesRules db user .write now f = true) := by
  have hchain : (loadedChain db rootId includeDeleted item).all
        (admits db (loadSubtree db rootId user now includeDeleted).arguments user .write) = true ↔
      ∀ f ∈ loadedChain db rootId includeDeleted item,
        passesRules db user .write now f = true := by
    rw [all_eq_true]
    refine forall₂_congr ?_
    intro f hf
    obtain ⟨id, hid⟩ := (climbs_loadedChain rootId includeDeleted hdb hitem).lookup_isSome hf
    obtain ⟨hfound, hfloaded⟩ := restrict_eq_some.mp hid
    obtain ⟨hfmem, -, hftype⟩ := folder?_eq_some.mp hfound
    rw [admits_loadSubtree hfmem (Or.inl (mem_loadSubtree_folders.mpr
      ⟨mem_folders.mpr ⟨hfmem, hftype⟩, hfloaded⟩))]
  have hglob : (loadSubtree db rootId user now includeDeleted).isGloballyBlocked =
      (fullEvaluation db user .write now).isGloballyBlocked := rfl
  have hblocked : (loadSubtree db rootId user now includeDeleted).blockedWriteIds =
      (fullEvaluation db user .write now).blockedIds := rfl
  have hnoGlobal : (loadSubtree db rootId user now includeDeleted).arguments.isGloballyBlocked =
      false := rfl
  rw [selfDeletable, decide_eq_true_iff, canDelete,
    checkLoaded_eq rootId user now includeDeleted hdb hitem, hglob, hblocked]
  split
  · rename_i hguard
    simp only [Bool.and_eq_true, Bool.not_eq_true', contains_iff_mem] at hguard
    rw [Except.ok.injEq, verdict, admits_loadSubtree hitem hload,
      granted_loadSubtree hload, Bool.and_eq_true, Bool.and_eq_true, Bool.or_eq_true, hchain]
    constructor
    · rintro ⟨⟨-, hpass⟩, hrest⟩
      exact ⟨hguard.1.1, hguard.1.2, hguard.2, hpass, hrest⟩
    · rintro ⟨-, -, -, hpass, hrest⟩
      exact ⟨⟨rfl, hpass⟩, hrest⟩
  · rename_i hguard
    constructor
    · intro h
      cases h
    · rintro ⟨hg, hb, hp, -⟩
      refine absurd ?_ hguard
      rw [hg, hb, contains_iff_mem.mpr hp]
      rfl

theorem checkAccessRequirements_write_iff (hdb : db.Acyclic) (hitem : item ∈ db.nodes) :
    checkAccessRequirements db user item .write true now = .ok true ↔
      (fullEvaluation db user .write now).isGloballyBlocked = false ∧
        (fullEvaluation db user .write now).blockedIds.contains item.id = false ∧
        passesRules db user .write now item = true ∧
        (granted (fullEvaluation db user .write now) user .write item = true ∨
          ∀ f ∈ consultedChain db item,
            (fullEvaluation db user .write now).blockedIds.contains f.id = false ∧
              passesRules db user .write now f = true) := by
  rw [checkAccessRequirements_eq user .write now hdb hitem, Except.ok.injEq, verdict,
    Bool.and_eq_true, Bool.and_eq_true, Bool.or_eq_true, admits_fullEvaluation,
    Bool.and_eq_true, all_eq_true, and_assoc, and_assoc]
  simp only [admits_fullEvaluation, Bool.and_eq_true, Bool.not_eq_true']

/-- An item that the analysis passes fails its own check exactly in the two ways of
`exceedsSingleCheck`. -/
theorem checkAccessRequirements_of_selfDeletable (hdb : db.Acyclic) (hitem : item ∈ db.nodes)
    (hroot : db.folder? rootId = some root)
    (hrootLoaded : isLoadedFolder db rootId includeDeleted root = true)
    (hcontr : ContainerLoaded db rootId includeDeleted item)
    (hload : IsLoaded db rootId user now includeDeleted item) {perm : String}
    (hself : selfDeletable db (loadSubtree db rootId user now includeDeleted) user perm
      item = true) :
    checkAccessRequirements db user item .write true now = .ok true ↔
      exceedsSingleCheck db user now root item = false := by
  have hrootMem := (folder?_eq_some.mp hroot).1
  obtain ⟨hglob, hblocked, -, hpass, hbulk⟩ := (selfDeletable_iff hdb hitem hload perm).mp hself
  rw [checkAccessRequirements_write_iff hdb hitem, ← Bool.not_eq_true (exceedsSingleCheck _ _ _ _ _),
    exceedsSingleCheck_iff]
  by_cases hgrant : granted (fullEvaluation db user .write now) user .write item = true
  · rw [hgrant]
    exact ⟨fun _ h => Bool.noConfusion h.1, fun _ => ⟨hglob, hblocked, hpass, Or.inl rfl⟩⟩
  · rw [Bool.not_eq_true] at hgrant
    have hloadedPass : ∀ f ∈ loadedChain db rootId includeDeleted item,
        passesRules db user .write now f = true := by
      rcases hbulk with h | h
      · rw [hgrant] at h
        cases h
      · exact h
    rw [hgrant]
    constructor
    · rintro ⟨-, -, -, h | hall⟩ ⟨-, hexceeds⟩
      · cases h
      · rcases hexceeds with ⟨f, hf, hfblocked⟩ | ⟨hseen, f, hf, hfrefuses⟩
        · rw [(hall f hf).1] at hfblocked
          cases hfblocked
        · have hfpass := (hall f (consultedChain_root_subset hdb hitem hrootMem hseen f hf)).2
          rw [hfpass] at hfrefuses
          cases hfrefuses
    · intro hnot
      refine ⟨hglob, hblocked, hpass, Or.inr ?_⟩
      intro f hf
      have hfblocked : (fullEvaluation db user .write now).blockedIds.contains f.id = false := by
        rw [← Bool.not_eq_true]
        exact fun h => hnot ⟨rfl, Or.inl ⟨f, hf, h⟩⟩
      refine ⟨hfblocked, ?_⟩
      rcases (mem_consultedChain_cases hdb hitem hroot hrootLoaded hcontr f hf).2 with
        hseen | ⟨hrootSeen, habove⟩
      · exact hloadedPass f hseen
      by_contra hrefuses
      rw [Bool.not_eq_true] at hrefuses
      exact hnot ⟨rfl, Or.inr ⟨hrootSeen, f, habove, hrefuses⟩⟩

/-- What the analysis declares deletable: documents that pass, and folders that pass and hold
nothing undeletable. -/
def BulkDeletable (db : Database) (rootId : NodeId) (user : User) (now : Instant)
    (includeDeleted : Bool) (item : Node) : Prop :=
  (item ∈ checkedDocuments (loadSubtree db rootId user now includeDeleted) includeDeleted ∧
      selfDeletable db (loadSubtree db rootId user now includeDeleted) user "delete_document"
        item = true) ∨
    (item ∈ checkedFolders (loadSubtree db rootId user now includeDeleted) rootId ∧
      ¬ HasUndeletableContent db (loadSubtree db rootId user now includeDeleted) rootId user
        includeDeleted item.id)

theorem mem_deletable_iff {result : SubtreeAnalysis}
    (hspec : SubtreeSpec db (loadSubtree db rootId user now includeDeleted) rootId user
      includeDeleted result) (hitem : item ∈ db.nodes) :
    (item.id ∈ result.deletableDocIds ∨ item.id ∈ result.deletableFolderIds) ↔
      BulkDeletable db rootId user now includeDeleted item := by
  rw [hspec.mem_deletableDocIds, hspec.mem_deletableFolderIds]
  refine or_congr ?_ (and_congr_left fun _ => ?_)
  · constructor
    · rintro ⟨doc, hdoc, hid, hself⟩
      have hmem := mem_nodes_of_mem_documents doc (mem_checkedDocuments.mp hdoc).1
      obtain rfl := eq_of_id_eq hmem hitem hid
      exact ⟨hdoc, hself⟩
    · rintro ⟨hdoc, hself⟩
      exact ⟨item, hdoc, rfl, hself⟩
  · constructor
    · rintro ⟨folder, hfol, hid⟩
      have hmem := mem_nodes_of_mem_folders folder (mem_checkedFolders.mp hfol).1
      obtain rfl := eq_of_id_eq hmem hitem hid
      exact hfol
    · intro hfol
      exact ⟨item, hfol, rfl⟩

theorem checkAccessRequirements_of_bulkDeletable (hdb : db.Acyclic) (hitem : item ∈ db.nodes)
    (hroot : db.folder? rootId = some root)
    (hrootLoaded : isLoadedFolder db rootId includeDeleted root = true)
    (hbulk : BulkDeletable db rootId user now includeDeleted item) :
    checkAccessRequirements db user item .write true now = .ok true ↔
      exceedsSingleCheck db user now root item = false := by
  rcases hbulk with ⟨hdoc, hself⟩ | ⟨hfol, hnone⟩
  · have hmem := (mem_checkedDocuments.mp hdoc).1
    exact checkAccessRequirements_of_selfDeletable hdb hitem hroot hrootLoaded
      (mem_loadSubtree_documents.mp hmem).2.1 (Or.inr hmem) hself
  · obtain ⟨hmem, hne⟩ := mem_checkedFolders.mp hfol
    obtain ⟨hfols, hload⟩ := mem_loadSubtree_folders.mp hmem
    have hself : selfDeletable db (loadSubtree db rootId user now includeDeleted) user
        "delete_directory" item = true := by
      by_contra hfails
      rw [Bool.not_eq_true] at hfails
      exact hnone ⟨item, hmem, Relation.ReflTransGen.refl, Or.inl ⟨hne, hfails⟩⟩
    exact checkAccessRequirements_of_selfDeletable hdb hitem hroot hrootLoaded
      (containerLoaded_of_loaded hroot hrootLoaded hfols hload hne) (Or.inl hmem) hself

theorem isLoadedFolder_root (hroot : db.folder? rootId = some root)
    (hlive : includeDeleted = true ∨ root.notDeleted = true) :
    isLoadedFolder db rootId includeDeleted root = true := by
  rw [isLoadedFolder, Bool.and_eq_true, contains_iff_mem, mem_allFolderIdsToLoad, Bool.or_eq_true]
  exact ⟨Or.inl (folder?_key hroot), hlive⟩

/-- **Bulk deletion stays within single deletion exactly when no item it declares deletable
exceeds its own check.** -/
theorem bulk_deletion_within_single_iff (hdb : db.Acyclic) (hroot : db.folder? rootId = some root)
    (hlive : includeDeleted = true ∨ root.notDeleted = true) :
    (∀ result, fetchSubtreeForDeletion db rootId user now includeDeleted = .ok result →
        ∀ item ∈ db.nodes, item.id ∈ result.deletableDocIds ∨ item.id ∈ result.deletableFolderIds →
            checkAccessRequirements db user item .write true now = .ok true) ↔
      ∀ item ∈ db.nodes, BulkDeletable db rootId user now includeDeleted item →
        exceedsSingleCheck db user now root item = false := by
  have hrootLoaded := isLoadedFolder_root hroot hlive
  obtain ⟨result, hres, hspec⟩ := fetchSubtreeForDeletion_spec user now hdb hroot hrootLoaded
  constructor
  · intro h item hitem hbulk
    have hcheck := h result hres item hitem ((mem_deletable_iff hspec hitem).mpr hbulk)
    exact (checkAccessRequirements_of_bulkDeletable hdb hitem hroot hrootLoaded hbulk).mp hcheck
  · intro h other hother item hitem hdel
    rw [hres] at hother
    cases hother
    have hbulk := (mem_deletable_iff hspec hitem).mp hdel
    exact (checkAccessRequirements_of_bulkDeletable hdb hitem hroot hrootLoaded hbulk).mpr
      (h item hitem hbulk)

end

/-! ### A blocked folder on the way -/

def folderToDelete : Node := { id := "r", type := .directory, name := "r", parentId := some "/" }

def documentBelowBlock : Node := { id := "d", type := .document, name := "d", parentId := some "m" }

/-- The folder `m` between the root of the deletion `r` and the document `d` is write-blocked. -/
def writeBlockedDatabase : Database where
  nodes := [{ id := "/", type := .directory, name := "/", parentId := none }, folderToDelete,
    { id := "m", type := .directory, name := "m", parentId := some "r" }, documentBelowBlock]
  nodeIds_nodup := by decide
  nodeIds_ne_empty := by decide
  userBlockEntries := [⟨"b", "editor", 0, -1, .directory, some "m"⟩]
  userBlockSubEntries := [⟨"b", .write⟩]

def editorUser : User := ⟨"editor", ["delete_document", "delete_directory"], []⟩

/-- The analysis of `r` declares `d` deletable, which a delete of `d` alone refuses. -/
theorem bulk_deletion_exceeds_single : writeBlockedDatabase.Acyclic ∧
      checkAccessRequirements writeBlockedDatabase editorUser folderToDelete .write true 1 =
        .ok true ∧
      documentBelowBlock ∈ writeBlockedDatabase.nodes ∧
      (fetchSubtreeForDeletion writeBlockedDatabase "r" editorUser 1 false).map
        (·.deletableDocIds) = .ok ["d"] ∧
      checkAccessRequirements writeBlockedDatabase editorUser documentBelowBlock .write true 1 =
        .ok false := by
  decide

def unblockedUser : User := ⟨"clerk", ["delete_document", "delete_directory"], []⟩

theorem bulk_deletion_within_single_unblocked :
    checkAccessRequirements writeBlockedDatabase unblockedUser folderToDelete .write true 1 =
        .ok true ∧
      ∀ result, fetchSubtreeForDeletion writeBlockedDatabase "r" unblockedUser 1 false = .ok result →
        ∀ item ∈ writeBlockedDatabase.nodes,
          item.id ∈ result.deletableDocIds ∨ item.id ∈ result.deletableFolderIds →
            checkAccessRequirements writeBlockedDatabase unblockedUser item .write true 1 =
              .ok true := by
  have hroot : writeBlockedDatabase.folder? "r" = some folderToDelete := by decide
  have hnone : ∀ item ∈ writeBlockedDatabase.nodes,
      exceedsSingleCheck writeBlockedDatabase unblockedUser 1 folderToDelete item = false := by
    decide
  refine ⟨by decide, ?_⟩
  exact (bulk_deletion_within_single_iff (by decide) hroot (Or.inr rfl)).mpr
    fun item hitem _ => hnone item hitem

end Cfms.Documents
