import Cfms.Access.Context
import Cfms.Lib.LeafOrder

/-!
# The subtree analysis behind directory deletion

`fetch_subtree_for_deletion` loads the folders and documents below a folder, checks every item on
its own, and derives which folders can go: those that pass and have nothing undeletable below
them.  The checks run on the loaded folders only, without the user's blocks; a block counts only
when it names the item or is global.  An item that fails is reported only if the user can read the
folder that contains it.

`fetchSubtreeForDeletion_spec` states what a run returns on a tree: which items are deletable,
when a failure is reported, and which folders are protected.
-/

namespace Cfms.Documents

open Access Lib.Climb Lib.Forest Lib.LeafOrder Lib.RecursiveQuery List Database

/-! ### Loading the subtree -/

variable (db : Database)

/-- The recursive part of `subtree`. -/
def subtreeNext (includeDeleted : Bool) (s : Node) : List Node :=
  db.folders.filter fun folder =>
    folder.parentId == some s.id && (includeDeleted || folder.status == .ok)

/-- Step 1: the folders below the root of the analysis. -/
def allSubfolderIds (rootId : NodeId) (includeDeleted : Bool) : List NodeId :=
  ((recursiveRows (subtreeNext db includeDeleted)
    (db.folders.filter fun folder => folder.id == rootId) db.folders.length).map
      Node.id).filter (· != rootId)

def allFolderIdsToLoad (rootId : NodeId) (includeDeleted : Bool) : List NodeId :=
  (allSubfolderIds db rootId includeDeleted ++ [rootId]).dedup

/-- The rows that step 2 selects, through the session's filter unless deleted rows are asked for. -/
def isLoadedFolder (rootId : NodeId) (includeDeleted : Bool) (folder : Node) : Bool :=
  (allFolderIdsToLoad db rootId includeDeleted).contains folder.id &&
    (includeDeleted || folder.notDeleted)

/-- What steps 1 to 5 have loaded. -/
structure SubtreeContext where
  folders : List Node
  documents : List Node
  arguments : EvaluationArguments
  isGloballyBlocked : Bool
  blockedWriteIds : List NodeId

/-- Steps 1 to 5. -/
def loadSubtree (rootId : NodeId) (user : User) (now : Instant) (includeDeleted : Bool) :
    SubtreeContext :=
  let folders := db.folders.filter (isLoadedFolder db rootId includeDeleted)
  let actualFolderIds := folders.map Node.id
  let documents := db.documents.filter fun doc =>
    (actualFolderIds.map some).contains doc.parentId && (includeDeleted || doc.notDeleted)
  { folders := folders
    documents := documents
    arguments :=
      { allFolders := folders
        oaeByTarget := contextEntries db (actualFolderIds ++ documents.map Node.id) now none none
        compiledRulesByTarget := some (fetchCompiledAccessRulesForTargets db
          (actualFolderIds.map (fun id => (.directory, id)) ++
            documents.map fun doc => (.document, doc.id)) none) }
    isGloballyBlocked := (prefetchUserBlocks db user .write now).1
    blockedWriteIds := (prefetchUserBlocks db user .write now).2 }

/-! ### Checking the items -/

inductive DeletionError
  | accessCycle
  | assertion
  | keyError
  | hierarchyCycle
  deriving DecidableEq

/-- An entry of `failed_items`. -/
structure FailedItem where
  type : NodeType
  id : NodeId
  name : String
  parentFolderId : NodeId
  reason : String
  deriving DecidableEq

variable (ctx : SubtreeContext) (user : User)

def checkLoaded (accessType : AccessType) (item : Node) : Except DeletionError Bool :=
  match checkAccessForObject db ctx.arguments user accessType item with
  | .ok allowed => .ok allowed
  | .error _ => .error .accessCycle

/-- `can_delete` of steps 6 and 7. -/
def canDelete (permission : String) (item : Node) : Except DeletionError Bool :=
  if !ctx.isGloballyBlocked && !ctx.blockedWriteIds.contains item.id &&
      user.allPermissions.contains permission then
    checkLoaded db ctx user .write item
  else .ok false

/-- The report of an item that cannot be deleted, if the user can read its folder. -/
def reportFailure (item : Node) : Except DeletionError (List FailedItem) :=
  match item.parentId with
  | none => .error .assertion
  | some parentId =>
    match ctx.arguments.folderMap parentId with
    | none => .error .keyError
    | some container =>
      match checkLoaded db ctx user .read container with
      | .error e => .error e
      | .ok true => .ok [⟨item.type, item.id, item.name, parentId, "permission_denied"⟩]
      | .ok false => .ok []

/-- The loops of steps 6 and 7: the items that can be deleted and the reported failures. -/
def checkItems (db : Database) (ctx : SubtreeContext) (user : User) (permission : String) :
    List Node → Except DeletionError (List NodeId × List FailedItem)
  | [] => .ok ([], [])
  | item :: rest => do
    let deletable ← canDelete db ctx user permission item
    let failed ← if deletable then .ok [] else reportFailure db ctx user item
    let (deletableIds, failedItems) ← checkItems db ctx user permission rest
    return (if deletable then item.id :: deletableIds else deletableIds, failed ++ failedItems)

/-- The documents step 6 looks at. -/
def checkedDocuments (includeDeleted : Bool) : List Node :=
  ctx.documents.filter fun doc => includeDeleted || doc.status == .ok

/-- The folders step 7 looks at. -/
def checkedFolders (rootId : NodeId) : List Node :=
  ctx.folders.filter fun folder => folder.id != rootId

/-! ### Deriving the protected folders -/

def loadedParent (id : NodeId) : Option NodeId :=
  ((ctx.arguments.folderMap id).bind Node.parentId).filter fun parentId =>
    parentId != "" && (ctx.folders.map Node.id).contains parentId

/-- `doc.current_revision is not None and doc.current_revision.file.active`. -/
def currentRevisionActive (doc : Node) : Bool :=
  match doc.currentRevisionId.bind fun id => db.revisions.find? fun revision => revision.id == id with
  | none => false
  | some revision => db.files.any fun file => file.id == revision.fileId && file.active

def folderHasUndeletableDoc (deletableDocIds : List NodeId) (folderId : NodeId) : Bool :=
  ctx.documents.any fun doc =>
    currentRevisionActive db doc && !deletableDocIds.contains doc.id && doc.parentId == some folderId

/-- `folder_self_deletable`: the caller has already authorized the root. -/
def folderSelfDeletable (rootId : NodeId) (passedFolderIds : List NodeId) (id : NodeId) : Bool :=
  id == rootId || passedFolderIds.contains id

def topoOrder : List NodeId :=
  leafOrder (ctx.folders.map Node.id) (loadedParent ctx)

/-- `has_undeletable_content`, after the pass over `topo_order`. -/
def hasUndeletableContent (rootId : NodeId) (passedFolderIds deletableDocIds : List NodeId) :
    NodeId → Bool :=
  bubbleUp (ctx.folders.map Node.id) (loadedParent ctx)
    (fun id => !folderSelfDeletable rootId passedFolderIds id ||
      folderHasUndeletableDoc db ctx deletableDocIds id)
    (topoOrder ctx) (fun _ => false)

/-- `can_delete_folder` of step 9. -/
def canDeleteFolder (rootId : NodeId) (passedFolderIds deletableDocIds : List NodeId)
    (id : NodeId) : Bool :=
  folderSelfDeletable rootId passedFolderIds id &&
    !hasUndeletableContent db ctx rootId passedFolderIds deletableDocIds id

/-- What the analysis returns to its callers. -/
structure SubtreeAnalysis where
  deletableFolderIds : List NodeId
  deletableDocIds : List NodeId
  failedItems : List FailedItem
  protectedFolderIds : List NodeId
  deriving DecidableEq

def fetchSubtreeForDeletion (rootId : NodeId) (user : User) (now : Instant)
    (includeDeleted : Bool) : Except DeletionError SubtreeAnalysis := do
  let ctx := loadSubtree db rootId user now includeDeleted
  let (deletableDocIds, failedDocuments) ←
    checkItems db ctx user "delete_document" (checkedDocuments ctx includeDeleted)
  let (passedFolderIds, failedFolders) ←
    checkItems db ctx user "delete_directory" (checkedFolders ctx rootId)
  if (topoOrder ctx).length ≠ ctx.folders.length then .error .hierarchyCycle
  else
    .ok
      { deletableFolderIds := (topoOrder ctx).filter fun id =>
          id != rootId && canDeleteFolder db ctx rootId passedFolderIds deletableDocIds id
        deletableDocIds := deletableDocIds
        failedItems := failedDocuments ++ failedFolders
        protectedFolderIds := (topoOrder ctx).filter fun id =>
          id != rootId &&
            !canDeleteFolder db ctx rootId passedFolderIds deletableDocIds id }

/-! ### The checks on a tree -/

section

variable {db : Database} (rootId : NodeId) (user : User) (now : Instant)
  (includeDeleted : Bool)

theorem loadSubtree_folderMap (id : NodeId) :
    (loadSubtree db rootId user now includeDeleted).arguments.folderMap id =
      restrict (isLoadedFolder db rootId includeDeleted) db.folder? id := by
  have hnodes : ∀ n ∈ db.folders.filter (isLoadedFolder db rootId includeDeleted),
      n ∈ db.nodes := by
    intro n hn
    exact (mem_folders.mp (mem_filter.mp hn).1).1
  refine Option.ext ?_
  intro folder
  show (db.folders.filter (isLoadedFolder db rootId includeDeleted)).find?
    (fun n => n.id == id) = some folder ↔ _
  rw [find?_id_eq_some hnodes, mem_filter, mem_folders, restrict,
    Option.filter_eq_some_iff, folder?_eq_some]
  constructor
  · rintro ⟨⟨⟨hmem, htype⟩, hload⟩, hid⟩
    exact ⟨⟨hmem, hid, htype⟩, hload⟩
  · rintro ⟨⟨hmem, hid, htype⟩, hload⟩
    exact ⟨⟨⟨hmem, htype⟩, hload⟩, hid⟩

def loadedChain (db : Database) (rootId : NodeId) (includeDeleted : Bool) (node : Node) :
    List Node :=
  (inheritedChain db node).takeWhile (isLoadedFolder db rootId includeDeleted)

/-- With the subtree loaded a check gives what it gives over all folders. -/
theorem checkLoaded_eq (hdb : db.Acyclic) {node : Node} (hnode : node ∈ db.nodes)
    (access : AccessType) :
    checkLoaded db (loadSubtree db rootId user now includeDeleted) user access node =
      .ok (verdict db (loadSubtree db rootId user now includeDeleted).arguments user access
        (loadedChain db rootId includeDeleted node) node) := by
  have hmap : (loadSubtree db rootId user now includeDeleted).arguments.folderMap =
      restrict (isLoadedFolder db rootId includeDeleted) db.folder? := by
    funext id
    exact loadSubtree_folderMap rootId user now includeDeleted id
  have hchain := (hdb.climbs_inheritedChain hnode).restrict
    (isLoadedFolder db rootId includeDeleted)
  rw [← hmap] at hchain
  rw [checkLoaded, checkAccessForObject_eq db user access rfl hchain]
  rfl

/-- The item passes its own check in the analysis. -/
def selfDeletable (db : Database) (ctx : SubtreeContext) (user : User) (permission : String)
    (item : Node) : Bool := decide (canDelete db ctx user permission item = .ok true)

def containerReadable (db : Database) (ctx : SubtreeContext) (user : User) (item : Node) : Bool :=
  match item.parentId.bind ctx.arguments.folderMap with
  | none => false
  | some container => decide (checkLoaded db ctx user .read container = .ok true)

theorem decide_ok_true {r : Except DeletionError Bool} {b : Bool} (h : r = .ok b) :
    decide (r = .ok true) = b := by
  subst h
  cases b <;> decide

variable {item : Node}

/-- An item's own check does not fail. -/
theorem canDelete_eq (hdb : db.Acyclic) (hitem : item ∈ db.nodes) (perm : String) :
    canDelete db (loadSubtree db rootId user now includeDeleted) user perm item =
      .ok (selfDeletable db (loadSubtree db rootId user now includeDeleted) user perm item) := by
  obtain ⟨b, hb⟩ : ∃ b, canDelete db (loadSubtree db rootId user now includeDeleted) user
      perm item = .ok b := by
    unfold canDelete
    split
    · exact ⟨_, checkLoaded_eq rootId user now includeDeleted hdb hitem .write⟩
    · exact ⟨false, rfl⟩
  rw [selfDeletable, decide_ok_true hb, hb]

/-- The report of an item. -/
def failedItemOf (item : Node) (parentId : NodeId) : FailedItem :=
  ⟨item.type, item.id, item.name, parentId, "permission_denied"⟩

theorem reportFailure_eq (hdb : db.Acyclic) {container : Node} {parentId : NodeId}
    (hpar : item.parentId = some parentId) (hcontr : db.folder? parentId = some container)
    (hload : isLoadedFolder db rootId includeDeleted container = true) :
    reportFailure db (loadSubtree db rootId user now includeDeleted) user item =
      .ok (if containerReadable db (loadSubtree db rootId user now includeDeleted) user item
        then [failedItemOf item parentId] else []) := by
  have hfound : (loadSubtree db rootId user now includeDeleted).arguments.folderMap parentId =
      some container := by
    rw [loadSubtree_folderMap, restrict, hcontr, Option.filter_some, hload, if_pos rfl]
  have hcheck := checkLoaded_eq rootId user now includeDeleted hdb
    (folder?_eq_some.mp hcontr).1 .read
  have hreadable : containerReadable db (loadSubtree db rootId user now includeDeleted) user
      item = verdict db (loadSubtree db rootId user now includeDeleted).arguments user .read
        (loadedChain db rootId includeDeleted container) container := by
    rw [containerReadable, hpar, Option.bind_some, hfound]
    exact decide_ok_true hcheck
  unfold reportFailure
  rw [hpar, hreadable]
  simp only [hfound, hcheck]
  cases verdict db (loadSubtree db rootId user now includeDeleted).arguments user .read
    (loadedChain db rootId includeDeleted container) container <;> rfl

def ContainerLoaded (db : Database) (rootId : NodeId) (includeDeleted : Bool) (item : Node) :
    Prop :=
  ∃ parentId container, item.parentId = some parentId ∧ db.folder? parentId = some container ∧
    isLoadedFolder db rootId includeDeleted container = true

/-- The reports about the listed items. -/
def failuresOf (db : Database) (ctx : SubtreeContext) (user : User) (permission : String)
    (items : List Node) : List FailedItem :=
  (items.filter fun item => !selfDeletable db ctx user permission item &&
    containerReadable db ctx user item).filterMap fun item => item.parentId.map (failedItemOf item)

variable {items : List Node}

/-- The checks of a list of items, as a filter. -/
theorem checkItems_eq (hdb : db.Acyclic) (perm : String) (hitems : ∀ item ∈ items,
      item ∈ db.nodes ∧ ContainerLoaded db rootId includeDeleted item) :
    checkItems db (loadSubtree db rootId user now includeDeleted) user perm items =
      .ok ((items.filter (selfDeletable db (loadSubtree db rootId user now includeDeleted) user
          perm)).map Node.id,
        failuresOf db (loadSubtree db rootId user now includeDeleted) user perm items) := by
  induction items with
  | nil => rfl
  | cons item rest ih =>
    obtain ⟨hmem, parentId, container, hpar, hcontr, hload⟩ :=
      hitems item mem_cons_self
    have hrest := ih fun i hi => hitems i (mem_cons_of_mem _ hi)
    rw [checkItems, canDelete_eq rootId user now includeDeleted hdb hmem, hrest,
      reportFailure_eq rootId user now includeDeleted hdb hpar hcontr hload]
    unfold failuresOf
    cases hself : selfDeletable db (loadSubtree db rootId user now includeDeleted) user
        perm item with
    | true =>
      simp only [hself, filter_cons]
      rfl
    | false =>
      cases hread : containerReadable db (loadSubtree db rootId user now includeDeleted) user
          item with
      | true =>
        simp only [hself, hread, filter_cons, Bool.not_false, Bool.true_and, if_true,
          filterMap_cons, hpar]
        rfl
      | false =>
        simp only [hself, hread, filter_cons]
        rfl

theorem failuresOf_eq_nil (perm : String) {ctx : SubtreeContext}
    (hitems : ∀ item ∈ items, item.parentId ≠ none) :
    failuresOf db ctx user perm items = [] ↔
      ∀ item ∈ items, selfDeletable db ctx user perm item = false →
        containerReadable db ctx user item = false := by
  rw [failuresOf, filterMap_eq_nil_iff]
  constructor
  · intro h item hitem hself
    by_contra hread
    rw [Bool.not_eq_false] at hread
    have hnone := h item (mem_filter.mpr ⟨hitem, by rw [hself, hread]; rfl⟩)
    rw [Option.map_eq_none_iff] at hnone
    exact hitems item hitem hnone
  · intro h item hitem
    obtain ⟨hmem, htest⟩ := mem_filter.mp hitem
    rw [Bool.and_eq_true, Bool.not_eq_true'] at htest
    rw [h item hmem htest.1] at htest
    cases htest.2

end

/-! ### The loaded folders form a subtree -/

section

variable {db : Database} {rootId : NodeId} {includeDeleted : Bool} {folder : Node}

theorem mem_folders_of_subtree (h : Derivable (subtreeNext db includeDeleted)
      (db.folders.filter fun f => f.id == rootId) folder) : folder ∈ db.folders := by
  cases h with
  | anchor hmem | next _ hmem => exact (mem_filter.mp hmem).1

variable {id : NodeId}

theorem mem_allFolderIdsToLoad : id ∈ allFolderIdsToLoad db rootId includeDeleted ↔ id = rootId ∨
      ∃ folder, Derivable (subtreeNext db includeDeleted)
        (db.folders.filter fun f => f.id == rootId) folder ∧ folder.id = id := by
  rw [allFolderIdsToLoad, mem_dedup, mem_append, mem_singleton, allSubfolderIds,
    mem_filter, mem_map]
  simp only [mem_recursiveRows_iff (fun _ => mem_folders_of_subtree) (Nat.le_succ _)]
  constructor
  · rintro (⟨h, -⟩ | h)
    · exact Or.inr h
    · exact Or.inl h
  · rintro (h | h)
    · exact Or.inr h
    · by_cases hid : id = rootId
      · exact Or.inr hid
      · exact Or.inl ⟨h, by simpa using hid⟩

variable {root : Node}

theorem containerLoaded_of_loaded (hroot : db.folder? rootId = some root)
    (hrootLoaded : isLoadedFolder db rootId includeDeleted root = true)
    (hfol : folder ∈ db.folders)
    (hload : isLoadedFolder db rootId includeDeleted folder = true)
    (hne : folder.id ≠ rootId) : ContainerLoaded db rootId includeDeleted folder := by
  rw [isLoadedFolder, Bool.and_eq_true, contains_iff_mem, mem_allFolderIdsToLoad] at hload
  rcases hload.1 with h | ⟨row, hrow, hid⟩
  · exact absurd h hne
  obtain rfl : row = folder := eq_of_id_eq
    (mem_folders.mp (mem_folders_of_subtree hrow)).1 (mem_folders.mp hfol).1 hid
  cases hrow with
  | anchor hanch => exact absurd (by simpa using (mem_filter.mp hanch).2) hne
  | @next above _ habove hnext =>
    have hstep := (mem_filter.mp hnext).2
    rw [Bool.and_eq_true, beq_iff_eq] at hstep
    obtain ⟨hmem, htype⟩ := mem_folders.mp (mem_folders_of_subtree habove)
    refine ⟨above.id, above, hstep.1, folder?_eq_some.mpr ⟨hmem, rfl, htype⟩, ?_⟩
    by_cases hrootId : above.id = rootId
    · have : above = root := by
        rw [← folder?_key hroot] at hrootId
        exact eq_of_id_eq hmem (folder?_eq_some.mp hroot).1 hrootId
      rw [this]
      exact hrootLoaded
    · rw [isLoadedFolder, Bool.and_eq_true, contains_iff_mem, mem_allFolderIdsToLoad]
      refine ⟨Or.inr ⟨above, habove, rfl⟩, ?_⟩
      cases includeDeleted with
      | true => rfl
      | false =>
        -- below the root the query only follows folders in status `OK`
        cases habove with
        | anchor hanch => exact absurd (by simpa using (mem_filter.mp hanch).2) hrootId
        | next _ hnext' =>
          have hst := (mem_filter.mp hnext').2
          simp only [Bool.false_or, Bool.and_eq_true, beq_iff_eq] at hst
          simp [hst.2]

variable {user : User} {now : Instant}

/-- The folders that are loaded. -/
theorem mem_loadSubtree_folders : folder ∈ (loadSubtree db rootId user now includeDeleted).folders ↔
      folder ∈ db.folders ∧ isLoadedFolder db rootId includeDeleted folder = true :=
  mem_filter

variable {doc : Node}

/-- The documents that are loaded. -/
theorem mem_loadSubtree_documents :
    doc ∈ (loadSubtree db rootId user now includeDeleted).documents ↔
      doc ∈ db.documents ∧ ContainerLoaded db rootId includeDeleted doc ∧
        (includeDeleted || doc.notDeleted) = true := by
  show doc ∈ db.documents.filter _ ↔ _
  rw [mem_filter, Bool.and_eq_true, contains_iff_mem]
  simp only [mem_map, mem_filter]
  constructor
  · rintro ⟨hdoc, ⟨id, ⟨container, ⟨hfol, hload⟩, rfl⟩, hid⟩, hst⟩
    obtain ⟨hmem, htype⟩ := mem_folders.mp hfol
    exact ⟨hdoc, ⟨container.id, container, hid.symm,
      folder?_eq_some.mpr ⟨hmem, rfl, htype⟩, hload⟩, hst⟩
  · rintro ⟨hdoc, ⟨id, container, hpar, hcontr, hload⟩, hst⟩
    obtain ⟨hmem, rfl, htype⟩ := folder?_eq_some.mp hcontr
    exact ⟨hdoc, ⟨container.id, ⟨container, ⟨mem_folders.mpr ⟨hmem, htype⟩, hload⟩, rfl⟩,
      hpar.symm⟩, hst⟩

theorem loadedFolderIds_nodup (user : User) (now : Instant) :
    ((loadSubtree db rootId user now includeDeleted).folders.map Node.id).Nodup :=
  db.folderIds_nodup.sublist (filter_sublist.map Node.id)

variable {parentId : NodeId}

theorem loadedParent_eq_some :
    loadedParent (loadSubtree db rootId user now includeDeleted) id = some parentId ↔
      (∃ folder, db.folder? id = some folder ∧
        isLoadedFolder db rootId includeDeleted folder = true ∧
        folder.parentId = some parentId) ∧ parentId ≠ "" ∧
        parentId ∈ (loadSubtree db rootId user now includeDeleted).folders.map Node.id := by
  rw [loadedParent, loadSubtree_folderMap, Option.filter_eq_some_iff, Option.bind_eq_some_iff,
    Bool.and_eq_true, bne_iff_ne, contains_iff_mem]
  refine and_congr_left ?_
  intro _
  refine exists_congr ?_
  intro folder
  rw [restrict, Option.filter_eq_some_iff, and_assoc]

/-- The number of folders from a folder up to the top. -/
def depth (db : Database) (id : NodeId) : ℕ :=
  (climb db.folder? Node.parentId (db.nodes.length + 1) (some id)).length

theorem depth_parent (hdb : db.Acyclic)
    (hfol : db.folder? id = some folder) (hpar : folder.parentId = some parentId) :
    depth db id = depth db parentId + 1 := by
  obtain ⟨chain, hchain⟩ := hdb folder (folder?_eq_some.mp hfol).1
  have hwhole := Climbs.step hfol hchain
  have hlen := climbs_length_le_nodes hwhole
  rw [hpar] at hchain
  rw [length_cons] at hlen
  rw [depth, depth, hwhole.climb_eq (by rw [length_cons]; omega), hchain.climb_eq (by omega),
    length_cons]

theorem loadedParent_mem :
    ∀ k ∈ (loadSubtree db rootId user now includeDeleted).folders.map Node.id,
      ∀ p, loadedParent (loadSubtree db rootId user now includeDeleted) k = some p →
        p ∈ (loadSubtree db rootId user now includeDeleted).folders.map Node.id := by
  intro k _ p hp
  exact (loadedParent_eq_some.mp hp).2.2

theorem loadedParent_depth (hdb : db.Acyclic) :
    ∀ k ∈ (loadSubtree db rootId user now includeDeleted).folders.map Node.id,
      ∀ p, loadedParent (loadSubtree db rootId user now includeDeleted) k = some p →
        depth db p < depth db k := by
  intro k _ p hp
  obtain ⟨⟨folder, hfol, -, hpar⟩, -⟩ := loadedParent_eq_some.mp hp
  rw [depth_parent hdb hfol hpar]
  omega

/-- Something at or below the folder keeps it: a folder that fails its check, or a document with
an active current revision that is not deletable. -/
def HasUndeletableContent (db : Database) (ctx : SubtreeContext) (rootId : NodeId)
    (user : User) (includeDeleted : Bool) (id : NodeId) : Prop :=
  ∃ g ∈ ctx.folders, Below (loadedParent ctx) g.id id ∧
    ((g.id ≠ rootId ∧ selfDeletable db ctx user "delete_directory" g = false) ∨
      ∃ doc ∈ ctx.documents, doc.parentId = some g.id ∧ currentRevisionActive db doc = true ∧
        ¬(doc ∈ checkedDocuments ctx includeDeleted ∧
          selfDeletable db ctx user "delete_document" doc = true))

/-- What an analysis tells its caller, item by item. -/
structure SubtreeSpec (db : Database) (ctx : SubtreeContext) (rootId : NodeId) (user : User)
    (includeDeleted : Bool) (result : SubtreeAnalysis) : Prop where
  mem_deletableDocIds : ∀ id, id ∈ result.deletableDocIds ↔
    ∃ doc ∈ checkedDocuments ctx includeDeleted, doc.id = id ∧
      selfDeletable db ctx user "delete_document" doc = true
  failedItems_eq_nil : result.failedItems = [] ↔
    (∀ doc ∈ checkedDocuments ctx includeDeleted,
      selfDeletable db ctx user "delete_document" doc = false →
        containerReadable db ctx user doc = false) ∧
    ∀ folder ∈ checkedFolders ctx rootId,
      selfDeletable db ctx user "delete_directory" folder = false →
        containerReadable db ctx user folder = false
  mem_deletableFolderIds : ∀ id, id ∈ result.deletableFolderIds ↔
    (∃ folder ∈ checkedFolders ctx rootId, folder.id = id) ∧
      ¬ HasUndeletableContent db ctx rootId user includeDeleted id
  mem_protectedFolderIds : ∀ id, id ∈ result.protectedFolderIds ↔
    (∃ folder ∈ checkedFolders ctx rootId, folder.id = id) ∧
      HasUndeletableContent db ctx rootId user includeDeleted id

variable {ctx : SubtreeContext}

theorem mem_checkedDocuments : doc ∈ checkedDocuments ctx includeDeleted ↔
      doc ∈ ctx.documents ∧ (includeDeleted || doc.status == .ok) = true :=
  mem_filter

theorem mem_checkedFolders :
    folder ∈ checkedFolders ctx rootId ↔ folder ∈ ctx.folders ∧ folder.id ≠ rootId := by
  rw [checkedFolders, mem_filter, bne_iff_ne]

theorem mem_map_id_filter {rows : List Node} (hrows : ∀ n ∈ rows, n ∈ db.nodes) {test : Node → Bool}
    {node : Node} (hnode : node ∈ db.nodes) :
    node.id ∈ (rows.filter test).map Node.id ↔ node ∈ rows ∧ test node = true := by
  rw [mem_map]
  constructor
  · rintro ⟨row, hrow, hid⟩
    obtain ⟨hmem, htest⟩ := mem_filter.mp hrow
    obtain rfl := eq_of_id_eq (hrows row hmem) hnode hid
    exact ⟨hmem, htest⟩
  · intro h
    exact ⟨node, mem_filter.mpr h, rfl⟩

/-- The folders that pass step 7. -/
def passedFolders (db : Database) (ctx : SubtreeContext) (rootId : NodeId) (user : User) :
    List NodeId :=
  ((checkedFolders ctx rootId).filter (selfDeletable db ctx user "delete_directory")).map Node.id

/-- The documents that pass step 6. -/
def passedDocuments (db : Database) (ctx : SubtreeContext) (user : User) (includeDeleted : Bool) :
    List NodeId :=
  ((checkedDocuments ctx includeDeleted).filter (selfDeletable db ctx user "delete_document")).map
    Node.id

theorem undeletableMark_iff (user : User)
    (hfols : ∀ n ∈ ctx.folders, n ∈ db.nodes) (hdocs : ∀ n ∈ ctx.documents, n ∈ db.nodes)
    {g : Node} (hg : g ∈ ctx.folders) :
    (!folderSelfDeletable rootId (passedFolders db ctx rootId user) g.id ||
        folderHasUndeletableDoc db ctx (passedDocuments db ctx user includeDeleted) g.id) = true ↔
      (g.id ≠ rootId ∧ selfDeletable db ctx user "delete_directory" g = false) ∨
        ∃ doc ∈ ctx.documents, doc.parentId = some g.id ∧ currentRevisionActive db doc = true ∧
          ¬(doc ∈ checkedDocuments ctx includeDeleted ∧
            selfDeletable db ctx user "delete_document" doc = true) := by
  have hcheckedFolders : ∀ n ∈ checkedFolders ctx rootId, n ∈ db.nodes := by
    intro n hn
    exact hfols n (mem_checkedFolders.mp hn).1
  rw [Bool.or_eq_true]
  refine or_congr ?_ ?_
  · rw [folderSelfDeletable, passedFolders, Bool.not_eq_true', Bool.or_eq_false_iff,
      beq_eq_false_iff_ne]
    refine and_congr_right ?_
    intro hne
    rw [← Bool.not_eq_true, contains_iff_mem, mem_map_id_filter hcheckedFolders (hfols g hg),
      mem_checkedFolders, not_and, Bool.not_eq_true]
    constructor
    · intro h
      exact h ⟨hg, hne⟩
    · intro h _
      exact h
  · rw [folderHasUndeletableDoc, passedDocuments, any_eq_true]
    refine exists_congr ?_
    intro doc
    refine and_congr_right ?_
    intro hdoc
    have hchecked : ∀ n ∈ checkedDocuments ctx includeDeleted, n ∈ db.nodes := by
      intro n hn
      exact hdocs n (mem_checkedDocuments.mp hn).1
    rw [Bool.and_eq_true, Bool.and_eq_true, beq_iff_eq, Bool.not_eq_true', ← Bool.not_eq_true,
      contains_iff_mem, mem_map_id_filter hchecked (hdocs doc hdoc), and_comm]

section

variable {user : User} {now : Instant}

theorem mem_nodes_of_mem_folders :
    ∀ n ∈ (loadSubtree db rootId user now includeDeleted).folders, n ∈ db.nodes := by
  intro n hn
  exact (mem_folders.mp (mem_loadSubtree_folders.mp hn).1).1

theorem mem_nodes_of_mem_documents :
    ∀ n ∈ (loadSubtree db rootId user now includeDeleted).documents, n ∈ db.nodes := by
  intro n hn
  exact (mem_documents.mp (mem_loadSubtree_documents.mp hn).1).1

/-- Without cycles every folder is put in order. -/
theorem mem_topoOrder (hdb : db.Acyclic) {id : NodeId} :
    id ∈ topoOrder (loadSubtree db rootId user now includeDeleted) ↔
      ∃ folder ∈ (loadSubtree db rootId user now includeDeleted).folders, folder.id = id := by
  rw [topoOrder, mem_leafOrder (loadedFolderIds_nodup user now) loadedParent_mem
    (loadedParent_depth hdb), mem_map]

theorem length_topoOrder (hdb : db.Acyclic) :
    (topoOrder (loadSubtree db rootId user now includeDeleted)).length =
      (loadSubtree db rootId user now includeDeleted).folders.length := by
  rw [topoOrder, length_leafOrder (loadedFolderIds_nodup user now) loadedParent_mem
    (loadedParent_depth hdb), length_map]

/-- The marks say whether anything below cannot be deleted. -/
theorem hasUndeletableContent_iff (hdb : db.Acyclic) {id : NodeId}
    (hid : ∃ folder ∈ (loadSubtree db rootId user now includeDeleted).folders, folder.id = id) :
    hasUndeletableContent db (loadSubtree db rootId user now includeDeleted) rootId
        (passedFolders db (loadSubtree db rootId user now includeDeleted) rootId user)
        (passedDocuments db (loadSubtree db rootId user now includeDeleted) user includeDeleted)
        id = true ↔
      HasUndeletableContent db (loadSubtree db rootId user now includeDeleted) rootId user
        includeDeleted id := by
  have hmem : id ∈ (loadSubtree db rootId user now includeDeleted).folders.map Node.id :=
    mem_map.mpr hid
  rw [hasUndeletableContent, topoOrder, bubbleUp_leafOrder (loadedFolderIds_nodup user now)
    loadedParent_mem (loadedParent_depth hdb) hmem]
  constructor
  · rintro ⟨g, hg, hbelow, hmark⟩
    obtain ⟨folder, hfol, rfl⟩ := mem_map.mp hg
    exact ⟨folder, hfol, hbelow, (undeletableMark_iff user mem_nodes_of_mem_folders
      mem_nodes_of_mem_documents hfol).mp hmark⟩
  · rintro ⟨folder, hfol, hbelow, hmark⟩
    exact ⟨folder.id, mem_map_of_mem hfol, hbelow, (undeletableMark_iff user
      mem_nodes_of_mem_folders mem_nodes_of_mem_documents hfol).mpr hmark⟩

theorem canDeleteFolder_iff (hdb : db.Acyclic) {folder : Node}
    (hfol : folder ∈ checkedFolders (loadSubtree db rootId user now includeDeleted) rootId) :
    canDeleteFolder db (loadSubtree db rootId user now includeDeleted) rootId
        (passedFolders db (loadSubtree db rootId user now includeDeleted) rootId user)
        (passedDocuments db (loadSubtree db rootId user now includeDeleted) user includeDeleted)
        folder.id = true ↔
      ¬ HasUndeletableContent db (loadSubtree db rootId user now includeDeleted) rootId
        user includeDeleted folder.id := by
  obtain ⟨hload, hne⟩ := mem_checkedFolders.mp hfol
  have hcont := hasUndeletableContent_iff hdb ⟨folder, hload, rfl⟩
  rw [canDeleteFolder, Bool.and_eq_true, Bool.not_eq_true', ← Bool.not_eq_true, hcont]
  constructor
  · exact And.right
  intro hnone
  refine ⟨?_, hnone⟩
  by_contra hself
  rw [Bool.not_eq_true] at hself
  refine hnone ⟨folder, hload, Relation.ReflTransGen.refl, ?_⟩
  refine (undeletableMark_iff user mem_nodes_of_mem_folders mem_nodes_of_mem_documents hload).mp ?_
  rw [hself, Bool.not_false, Bool.true_or]

end

/-- **What the analysis of a folder returns.** -/
theorem fetchSubtreeForDeletion_spec (user : User) (now : Instant) (hdb : db.Acyclic)
    (hroot : db.folder? rootId = some root)
    (hrootLoaded : isLoadedFolder db rootId includeDeleted root = true) :
    ∃ result, fetchSubtreeForDeletion db rootId user now includeDeleted = .ok result ∧
      SubtreeSpec db (loadSubtree db rootId user now includeDeleted) rootId user
        includeDeleted result := by
  have hdocItems : ∀ doc ∈ checkedDocuments (loadSubtree db rootId user now includeDeleted)
      includeDeleted, doc ∈ db.nodes ∧ ContainerLoaded db rootId includeDeleted doc := by
    intro doc hdoc
    have hmem := (mem_checkedDocuments.mp hdoc).1
    exact ⟨mem_nodes_of_mem_documents doc hmem, (mem_loadSubtree_documents.mp hmem).2.1⟩
  have hfolderItems : ∀ folder ∈ checkedFolders (loadSubtree db rootId user now includeDeleted)
      rootId, folder ∈ db.nodes ∧ ContainerLoaded db rootId includeDeleted folder := by
    intro folder hfol
    obtain ⟨hmem, hne⟩ := mem_checkedFolders.mp hfol
    obtain ⟨hfols, hload⟩ := mem_loadSubtree_folders.mp hmem
    exact ⟨mem_nodes_of_mem_folders folder hmem,
      containerLoaded_of_loaded hroot hrootLoaded hfols hload hne⟩
  have hpars : ∀ {items : List Node}, (∀ item ∈ items, item ∈ db.nodes ∧
      ContainerLoaded db rootId includeDeleted item) → ∀ item ∈ items, item.parentId ≠ none := by
    intro items hitems item hitem hnone
    obtain ⟨-, parentId, -, hpar, -⟩ := hitems item hitem
    rw [hnone] at hpar
    cases hpar
  have hpassedDocs : checkItems db (loadSubtree db rootId user now includeDeleted) user
      "delete_document" _ = .ok (passedDocuments db _ user includeDeleted, _) :=
    checkItems_eq rootId user now includeDeleted hdb _ hdocItems
  have hpassedFolders : checkItems db (loadSubtree db rootId user now includeDeleted) user
      "delete_directory" _ = .ok (passedFolders db _ rootId user, _) :=
    checkItems_eq rootId user now includeDeleted hdb _ hfolderItems
  rw [fetchSubtreeForDeletion]
  simp only [hpassedDocs, hpassedFolders, length_topoOrder hdb, ne_eq]
  refine ⟨_, rfl, ?_, ?_, ?_, ?_⟩
  · intro id
    simp only [passedDocuments, mem_map, mem_filter]
    exact ⟨fun ⟨doc, ⟨hdoc, hself⟩, hid⟩ => ⟨doc, hdoc, hid, hself⟩,
      fun ⟨doc, hdoc, hid, hself⟩ => ⟨doc, ⟨hdoc, hself⟩, hid⟩⟩
  · rw [append_eq_nil_iff, failuresOf_eq_nil user _ (hpars hdocItems),
      failuresOf_eq_nil user _ (hpars hfolderItems)]
  · intro id
    rw [mem_filter, mem_topoOrder hdb, Bool.and_eq_true, bne_iff_ne]
    constructor
    · rintro ⟨⟨folder, hfol, rfl⟩, hne, hcan⟩
      have hchecked := mem_checkedFolders.mpr ⟨hfol, hne⟩
      exact ⟨⟨folder, hchecked, rfl⟩, (canDeleteFolder_iff hdb hchecked).mp hcan⟩
    · rintro ⟨⟨folder, hchecked, rfl⟩, hnone⟩
      obtain ⟨hfol, hne⟩ := mem_checkedFolders.mp hchecked
      exact ⟨⟨folder, hfol, rfl⟩, hne, (canDeleteFolder_iff hdb hchecked).mpr hnone⟩
  · intro id
    rw [mem_filter, mem_topoOrder hdb, Bool.and_eq_true, bne_iff_ne, Bool.not_eq_true',
      ← Bool.not_eq_true]
    constructor
    · rintro ⟨⟨folder, hfol, rfl⟩, hne, hcan⟩
      have hchecked := mem_checkedFolders.mpr ⟨hfol, hne⟩
      rw [canDeleteFolder_iff hdb hchecked, not_not] at hcan
      exact ⟨⟨folder, hchecked, rfl⟩, hcan⟩
    · rintro ⟨⟨folder, hchecked, rfl⟩, hhas⟩
      obtain ⟨hfol, hne⟩ := mem_checkedFolders.mp hchecked
      rw [canDeleteFolder_iff hdb hchecked, not_not]
      exact ⟨⟨folder, hfol, rfl⟩, hne, hhas⟩

end

end Cfms.Documents
