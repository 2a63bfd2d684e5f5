import Cfms.Documents.Purge
import Cfms.Lib.Run

/-!
# The folder hierarchy under concurrent requests

Requests run one after another, except that a directory move may perform its checks, let other
requests through, and commit later: nothing locks the two subtrees in between.  The state is the
database and the moves in flight.

Every request keeps the folders connected to the root directory except two: the commit of a move
and the restore of a directory put a folder under a target, and that keeps the tree exactly when
the target is not at or below the folder at that moment.  The checks do not guarantee this.  The
move checks it earlier, through the row filter, and the restore does not check it.
-/

namespace Cfms.Documents

open Access Lib.Forest Lib.RecursiveQuery Lib.Run List Database

/-! ### Parent links -/

/-- The parent link of a folder row, deleted or not. -/
def parentOf (db : Database) (id : NodeId) : Option NodeId := (db.folder? id).bind Node.parentId

/-- The root directory stands alone on top and every folder row reaches it. -/
structure IsTree (db : Database) : Prop where
  root : ∃ root, db.folder? rootDirectoryId = some root ∧ root.parentId = none
  reaches : ∀ folder ∈ db.folders, Below (parentOf db) folder.id rootDirectoryId

section

variable {db db' : Database} {id : NodeId}

theorem parentOf_eq_some {parentId : NodeId} : parentOf db id = some parentId ↔
      ∃ folder ∈ db.nodes, folder.id = id ∧ folder.type = .directory ∧
        folder.parentId = some parentId := by
  rw [parentOf, Option.bind_eq_some_iff]
  constructor
  · rintro ⟨folder, hfol, hpar⟩
    obtain ⟨hmem, hid, htype⟩ := folder?_eq_some.mp hfol
    exact ⟨folder, hmem, hid, htype, hpar⟩
  · rintro ⟨folder, hmem, hid, htype, hpar⟩
    exact ⟨folder, folder?_eq_some.mpr ⟨hmem, hid, htype⟩, hpar⟩

theorem IsTree.below (htree : IsTree db) {folder : Node}
    (h : db.folder? id = some folder) : Below (parentOf db) id rootDirectoryId := by
  obtain ⟨hmem, rfl, htype⟩ := folder?_eq_some.mp h
  exact htree.reaches folder (mem_folders.mpr ⟨hmem, htype⟩)

theorem IsTree.parentOf_root (htree : IsTree db) : parentOf db rootDirectoryId = none := by
  obtain ⟨root, hroot, hpar⟩ := htree.root
  rw [parentOf, hroot, Option.bind_some, hpar]

variable {f : Node → Node}

theorem folder?_mapNodes (hf : ∀ node, (f node).id = node.id)
    (htype : ∀ node, (f node).type = node.type) (id : NodeId) :
    (db.mapNodes f hf).folder? id = (db.folder? id).map f := by
  rw [folder?, node?_mapNodes, Option.filter_map]
  congr 2
  funext node
  simp only [Function.comp_apply, Node.isFolder, htype]

theorem IsTree.of_folder?_map (htree : IsTree db)
    (hfol : ∀ id, db'.folder? id = (db.folder? id).map f)
    (hpar : ∀ node, (f node).parentId = node.parentId) : IsTree db' := by
  have hlinks : parentOf db' = parentOf db := by
    funext id
    rw [parentOf, hfol, Option.bind_map]
    congr 1
    funext node
    exact hpar node
  refine ⟨?_, ?_⟩
  · obtain ⟨root, hroot, hnone⟩ := htree.root
    exact ⟨f root, by rw [hfol, hroot, Option.map_some], by rw [hpar, hnone]⟩
  · intro folder hmem
    have hfound : db'.folder? folder.id = some folder := by
      obtain ⟨hnode, htype⟩ := mem_folders.mp hmem
      exact folder?_eq_some.mpr ⟨hnode, rfl, htype⟩
    rw [hfol, Option.map_eq_some_iff] at hfound
    obtain ⟨old, hold, -⟩ := hfound
    rw [hlinks]
    exact htree.below hold

end

/-! ### Changes that keep the tree -/

section

variable {db db' : Database} {f : Node → Node}

theorem IsTree.mapNodes (htree : IsTree db) (hf : ∀ node, (f node).id = node.id)
    (htype : ∀ node, (f node).type = node.type) (hpar : ∀ node, (f node).parentId = node.parentId) :
    IsTree (db.mapNodes f hf) :=
  htree.of_folder?_map (folder?_mapNodes hf htype) hpar

theorem IsTree.insert (htree : IsTree db) {node parent : Node} {parentId : NodeId}
    (hprow : db.folder? parentId = some parent) (hpar : node.parentId = some parent.id)
    (hnodes : db'.nodes = db.nodes ++ [node]) : IsTree db' := by
  have hold : ∀ {id : NodeId}, Below (parentOf db) id rootDirectoryId →
      Below (parentOf db') id rootDirectoryId := by
    intro id h
    refine h.transfer (P := fun _ => True) ?_ trivial
    intro c p _ hup
    obtain ⟨folder, hmem, hrow⟩ := parentOf_eq_some.mp hup
    refine ⟨parentOf_eq_some.mpr ⟨folder, ?_, hrow⟩, trivial⟩
    rw [hnodes]
    exact mem_append_left _ hmem
  refine ⟨?_, ?_⟩
  · obtain ⟨root, hroot, hnone⟩ := htree.root
    obtain ⟨hmem, hid, htype⟩ := folder?_eq_some.mp hroot
    refine ⟨root, folder?_eq_some.mpr ⟨?_, hid, htype⟩, hnone⟩
    rw [hnodes]
    exact mem_append_left _ hmem
  · intro folder hfol
    obtain ⟨hmem, htype⟩ := mem_folders.mp hfol
    rw [hnodes] at hmem
    rcases mem_append.mp hmem with hmem | hmem
    · exact hold (htree.reaches folder (mem_folders.mpr ⟨hmem, htype⟩))
    obtain rfl := mem_singleton.mp hmem
    have hlink : parentOf db' folder.id = some parent.id :=
      parentOf_eq_some.mpr ⟨folder, by rw [hnodes]; simp, rfl, htype, hpar⟩
    obtain ⟨hpmem, -, hptype⟩ := folder?_eq_some.mp hprow
    exact Below.head hlink (hold (htree.reaches parent (mem_folders.mpr ⟨hpmem, hptype⟩)))

theorem IsTree.removeNodes (htree : IsTree db) {gone : Node → Bool}
    (hroot : ∀ root, db.folder? rootDirectoryId = some root → gone root = false)
    (hbelow : ∀ parent ∈ db.nodes, gone parent = true → parent.type = .directory →
      ∀ child ∈ db.nodes, child.parentId = some parent.id → gone child = true) :
    IsTree (db.removeNodes gone) := by
  have hkept : ∀ node, node ∈ (db.removeNodes gone).nodes ↔ node ∈ db.nodes ∧ gone node = false := by
    intro node
    show node ∈ db.nodes.filter _ ↔ _
    rw [mem_filter, Bool.not_eq_true']
  refine ⟨?_, ?_⟩
  · obtain ⟨root, hrow, hnone⟩ := htree.root
    obtain ⟨hmem, hid, htype⟩ := folder?_eq_some.mp hrow
    exact ⟨root, folder?_eq_some.mpr ⟨(hkept root).mpr ⟨hmem, hroot root hrow⟩, hid, htype⟩,
      hnone⟩
  · intro folder hfol
    obtain ⟨hmem, htype⟩ := mem_folders.mp hfol
    obtain ⟨hnode, hstays⟩ := (hkept folder).mp hmem
    -- along the path to the root every folder stays, since the one below it stays
    refine (htree.reaches folder (mem_folders.mpr ⟨hnode, htype⟩)).transfer
      (P := fun id => ∀ row, db.folder? id = some row → gone row = false) ?_ ?_
    · intro c p hc hup
      obtain ⟨row, hrmem, rfl, hrtype, hrparent⟩ := parentOf_eq_some.mp hup
      have hrow := hc row (folder?_eq_some.mpr ⟨hrmem, rfl, hrtype⟩)
      refine ⟨parentOf_eq_some.mpr ⟨row, (hkept row).mpr ⟨hrmem, hrow⟩, rfl, hrtype, hrparent⟩, ?_⟩
      intro above habove
      obtain ⟨hamem, rfl, hatype⟩ := folder?_eq_some.mp habove
      by_contra hgone
      rw [Bool.not_eq_false] at hgone
      rw [hbelow above hamem hgone hatype row hrmem hrparent] at hrow
      cases hrow
    · intro row hrow
      obtain ⟨hrmem, hrid, -⟩ := folder?_eq_some.mp hrow
      rw [eq_of_id_eq hrmem hnode hrid]
      exact hstays

theorem parentOf_mapNodes_update (hf : ∀ node, (f node).id = node.id)
    (htype : ∀ node, (f node).type = node.type) {folderId targetId : NodeId} {folder : Node}
    (hfol : db.folder? folderId = some folder) (hset : (f folder).parentId = some targetId)
    (hother : ∀ node, node.id ≠ folderId → (f node).parentId = node.parentId) :
    parentOf (db.mapNodes f hf) = Function.update (parentOf db) folderId (some targetId) := by
  funext id
  rw [parentOf, folder?_mapNodes hf htype, Option.bind_map]
  by_cases hid : id = folderId
  · rw [hid, Function.update_self, hfol]
    exact hset
  · rw [Function.update_of_ne hid, parentOf]
    cases hrow : db.folder? id with
    | none => rfl
    | some row =>
      have hrid := folder?_key hrow
      exact hother row (by rw [hrid]; exact hid)

section

variable {f : Node → Node} (hf : ∀ node, (f node).id = node.id)
  (htype : ∀ node, (f node).type = node.type) {folderId targetId : NodeId} {folder target : Node}
  (hfol : db.folder? folderId = some folder) (htgt : db.folder? targetId = some target)
  (hset : (f folder).parentId = some targetId)
  (hother : ∀ node, node.id ≠ folderId → (f node).parentId = node.parentId)

include hfol htgt hset hother htype

theorem IsTree.reattach (htree : IsTree db) (hnot : ¬ Below (parentOf db) targetId folderId) :
    IsTree (db.mapNodes f hf) := by
  have hne : rootDirectoryId ≠ folderId := by
    intro heq
    exact hnot (heq ▸ htree.below htgt)
  refine ⟨?_, ?_⟩
  · obtain ⟨root, hroot, hnone⟩ := htree.root
    refine ⟨f root, by rw [folder?_mapNodes hf htype, hroot, Option.map_some], ?_⟩
    rw [hother root (by rw [folder?_key hroot]; exact hne), hnone]
  · intro moved hmoved
    obtain ⟨hmem, hmtype⟩ := mem_folders.mp hmoved
    have hrow : (db.mapNodes f hf).folder? moved.id = some moved :=
      folder?_eq_some.mpr ⟨hmem, rfl, hmtype⟩
    rw [folder?_mapNodes hf htype, Option.map_eq_some_iff] at hrow
    obtain ⟨old, hold, -⟩ := hrow
    rw [parentOf_mapNodes_update hf htype hfol hset hother]
    exact reattach_connected (htree.below htgt) hnot (htree.below hold)

/-- Putting a folder other than the root directory under a target keeps the tree exactly when
the target is not at or below the folder. -/
theorem IsTree.reattach_iff (htree : IsTree db) (hne : folderId ≠ rootDirectoryId) :
    IsTree (db.mapNodes f hf) ↔ ¬ Below (parentOf db) targetId folderId := by
  constructor
  · intro htree'
    have hrow : (db.mapNodes f hf).folder? folderId = some (f folder) := by
      rw [folder?_mapNodes hf htype, hfol, Option.map_some]
    have hreach := htree'.below hrow
    rw [parentOf_mapNodes_update hf htype hfol hset hother] at hreach
    exact (reattach_connected_iff hne htree.parentOf_root (htree.below hfol)
      (htree.below htgt)).mp hreach
  · exact htree.reattach hf htype hfol htgt hset hother

end

end

/-! ### The effect of each request -/

section

variable {db db' : Database} {actor : Actor} {code : ℕ} {message : String}

theorem markDeleted_type (nodeIds : List NodeId) (opId : String) (node : Node) :
    (markDeleted nodeIds opId node).type = node.type := by
  unfold markDeleted
  split <;> rfl

theorem markDeleted_parentId (nodeIds : List NodeId) (opId : String) (node : Node) :
    (markDeleted nodeIds opId node).parentId = node.parentId := by
  unfold markDeleted
  split <;> rfl

theorem setParent_type (nodeId parentId : NodeId) (node : Node) :
    (setParent nodeId parentId node).type = node.type := by
  unfold setParent
  split <;> rfl

theorem setParent_parentId_self (parentId : NodeId) (node : Node) :
    (setParent node.id parentId node).parentId = some parentId := by
  rw [setParent, if_pos rfl]

variable {nodeId : NodeId} {node : Node}

theorem setParent_parentId_of_ne (parentId : NodeId)
    (h : node.id ≠ nodeId) : (setParent nodeId parentId node).parentId = node.parentId := by
  rw [setParent, if_neg h]

theorem restoreOperation_type (opId : Option String) (node : Node) :
    (restoreOperation opId node).type = node.type := by
  unfold restoreOperation
  split <;> rfl

theorem restoreOperation_parentId (opId : Option String) (node : Node) :
    (restoreOperation opId node).parentId = node.parentId := by
  unfold restoreOperation
  split <;> rfl

theorem restoreNode_type (nodeId : NodeId) (name : String) (parentId : NodeId) (node : Node) :
    (restoreNode nodeId name parentId node).type = node.type := by
  unfold restoreNode
  split <;> rfl

theorem restoreNode_parentId_self (name : String) (parentId : NodeId)
    (h : node.id = nodeId) : (restoreNode nodeId name parentId node).parentId = some parentId := by
  rw [restoreNode, if_pos h]

theorem restoreNode_parentId_of_ne (name : String) (parentId : NodeId)
    (h : node.id ≠ nodeId) : (restoreNode nodeId name parentId node).parentId = node.parentId := by
  rw [restoreNode, if_neg h]

variable {folder : Node}

theorem folder?_of_liveFolder? {id : NodeId} (h : db.liveFolder? id = some folder) :
    db.folder? id = some folder := (Option.filter_eq_some_iff.mp h).1

variable {folderId : NodeId}

/-- **The commit of a directory move keeps the tree exactly when the target is outside.** -/
theorem moveCommit_isTree_iff (htree : IsTree db) {targetId : NodeId}
    (hne : folderId ≠ rootDirectoryId) (hfol : db.folder? folderId = some folder)
    (h : moveCommit db folderId targetId = .committed code message db') :
    IsTree db' ↔ ¬ Below (parentOf db) targetId folderId := by
  obtain ⟨-, target, -, htgt, rfl⟩ := moveCommit_committed h
  have hset : (setParent folderId targetId folder).parentId = some targetId := by
    rw [← folder?_key hfol]
    exact setParent_parentId_self targetId folder
  exact htree.reattach_iff (setParent_id _ _) (setParent_type _ _) hfol htgt hset
    (fun _ => setParent_parentId_of_ne targetId) hne

theorem IsTree.mapNodes_document (htree : IsTree db) {f : Node → Node}
    (hf : ∀ node, (f node).id = node.id) (htype : ∀ node, (f node).type = node.type) {doc : Node}
    (hmem : doc ∈ db.nodes) (hdocument : doc.type = .document)
    (hother : ∀ node, node.id ≠ doc.id → f node = node) : IsTree (db.mapNodes f hf) := by
  refine htree.of_folder?_map (f := id) ?_ (fun _ => rfl)
  intro id
  rw [folder?_mapNodes hf htype]
  cases hrow : db.folder? id with
  | none => rfl
  | some row =>
    obtain ⟨hrmem, -, hrtype⟩ := folder?_eq_some.mp hrow
    have hne : row.id ≠ doc.id := by
      intro heq
      rw [eq_of_id_eq hrmem hmem heq, hdocument] at hrtype
      cases hrtype
    rw [Option.map_some, hother row hne]
    rfl

theorem restoreDirectory_isTree_iff (htree : IsTree db)
    {targetParentId : Option (Option NodeId)} {newName : Option String}
    (hfol : db.folder? folderId = some folder)
    (h : restoreDirectory db actor folderId targetParentId newName = .committed code message db') :
    IsTree db' ↔ ¬ Below (parentOf db) (orRoot (targetParentId.getD folder.parentId)) folderId := by
  obtain ⟨hne, found, target, hfound, -, htgt, -, rfl⟩ := restoreDirectory_committed h
  rw [hfol] at hfound
  cases hfound
  have hmapped := htree.mapNodes (restoreOperation_id folder.statusOperationId)
    (restoreOperation_type _) (restoreOperation_parentId _)
  have hlinks : parentOf (db.mapNodes (restoreOperation folder.statusOperationId)
      (restoreOperation_id _)) = parentOf db := by
    funext id
    rw [parentOf, folder?_mapNodes (restoreOperation_id _) (restoreOperation_type _),
      Option.bind_map]
    congr 1
    funext node
    exact restoreOperation_parentId _ node
  have hrow : (db.mapNodes (restoreOperation folder.statusOperationId)
      (restoreOperation_id _)).folder? folderId =
        some (restoreOperation folder.statusOperationId folder) := by
    rw [folder?_mapNodes (restoreOperation_id _) (restoreOperation_type _), hfol, Option.map_some]
  have htargetRow : (db.mapNodes (restoreOperation folder.statusOperationId)
      (restoreOperation_id _)).folder? target.id =
        some (restoreOperation folder.statusOperationId target) := by
    rw [folder?_mapNodes (restoreOperation_id _) (restoreOperation_type _),
      folder?_key htgt, htgt, Option.map_some]
  have hset : (restoreNode folderId (newName.getD folder.name) target.id
      (restoreOperation folder.statusOperationId folder)).parentId = some target.id := by
    refine restoreNode_parentId_self _ _ ?_
    rw [restoreOperation_id]
    exact folder?_key hfol
  rw [hmapped.reattach_iff (restoreNode_id _ _ _) (restoreNode_type _ _ _) hrow htargetRow hset
    (fun _ => restoreNode_parentId_of_ne _ _) hne, hlinks, folder?_key htgt]

theorem purgedWith_of_parent
    (htype : folder.type = .directory) (hgone : purgedWith db folderId folder = true)
    (hnode : node ∈ db.nodes) (hpar : node.parentId = some folder.id) :
    purgedWith db folderId node = true := by
  rw [purgedWith, Bool.or_eq_true, beq_iff_eq, contains_iff_mem, mem_cascadeBelow_iff] at hgone
  rw [purgedWith, Bool.or_eq_true, contains_iff_mem, mem_cascadeBelow_iff]
  refine Or.inr ?_
  rcases hgone with hid | hbelow
  · refine Derivable.anchor (mem_filter.mpr ⟨hnode, ?_⟩)
    rw [hpar, hid]
    simp
  · exact Derivable.next hbelow (mem_cascadeNext.mpr ⟨htype, hnode, hpar⟩)

theorem IsTree.purgedWith (htree : IsTree db) (hne : folderId ≠ rootDirectoryId) :
    IsTree (db.removeNodes (purgedWith db folderId)) := by
  refine htree.removeNodes ?_ ?_
  · intro root hroot
    obtain ⟨root', hroot', hnone⟩ := htree.root
    rw [hroot] at hroot'
    cases hroot'
    have hid : (root.id == folderId) = false := by
      rw [folder?_key hroot]
      simpa using hne.symm
    rw [Documents.purgedWith, hid, Bool.false_or, ← Bool.not_eq_true, contains_iff_mem,
      mem_cascadeBelow_iff]
    intro hbelow
    cases hbelow with
    | anchor hmem =>
      have hpar := (mem_filter.mp hmem).2
      rw [hnone] at hpar
      cases hpar
    | next _ hnext =>
      obtain ⟨-, -, hpar⟩ := mem_cascadeNext.mp hnext
      rw [hnone] at hpar
      cases hpar
  · intro parent _ hgone htype child hchild hpar
    exact purgedWith_of_parent htype hgone hchild hpar

/-- The condition on a request: a directory goes under a target that is not at or below it. -/
def TargetOutside (db : Database) : Request → Prop
  | .moveDirectory _ folderId targetFolderId =>
    ¬ Below (parentOf db) (orRoot targetFolderId) folderId
  | .restoreDirectory _ folderId targetParentId _ => ∀ folder, db.folder? folderId = some folder →
    ¬ Below (parentOf db) (orRoot (targetParentId.getD folder.parentId)) folderId
  | _ => True

/-- **Every accepted request that meets the condition keeps the tree.** -/
theorem handle_isTree (htree : IsTree db) {request : Request} (hout : TargetOutside db request)
    (h : handle db request = .committed code message db') : IsTree db' := by
  cases request with
  | createDirectory actor parentId name inheritParent submitted newId =>
    obtain ⟨parent, node, hpar, -, -, hlink, -, -, hnodes⟩ := createDirectory_committed h
    exact htree.insert (folder?_of_liveFolder? hpar) hlink hnodes
  | moveDirectory actor folderId targetFolderId =>
    obtain ⟨hne, folder, target, hfol, htgt, -, -, hcomm⟩ := moveDirectoryChecks_committed h
    have hrow := folder?_of_liveFolder? hfol
    have hid := folder?_key hrow
    have htid := folder?_key (folder?_of_liveFolder? htgt)
    rw [hid] at hcomm
    refine (moveCommit_isTree_iff htree hne hrow hcomm).mpr ?_
    rw [htid]
    exact hout
  | deleteDirectory actor folderId opId =>
    obtain ⟨-, -, -, -, -, rfl⟩ := deleteDirectory_committed h
    exact htree.mapNodes _ (markDeleted_type _ _) (markDeleted_parentId _ _)
  | restoreDirectory actor folderId targetParentId newName =>
    obtain ⟨-, folder, -, hfol, -⟩ := restoreDirectory_committed h
    exact (restoreDirectory_isTree_iff htree hfol h).mpr (hout folder hfol)
  | purgeDirectory actor folderId =>
    obtain ⟨⟨hne, -⟩, -, -, -, rfl⟩ := purgeDirectory_eq_committed.mp h
    exact htree.purgedWith hne
  | createDocument actor folderId title inheritParent limitAllows submitted newId revId fileId =>
    obtain ⟨folder, node, hfol, -, -, hlink, -, -, hnodes⟩ := createDocument_committed h
    exact htree.insert (folder?_of_liveFolder? hfol) hlink hnodes
  | moveDocument actor docId targetFolderId =>
    obtain ⟨doc, target, hdocument, -, rfl⟩ := moveDocument_committed h
    obtain ⟨⟨hmem, -, htype⟩, -⟩ := liveDocument?_eq_some.mp hdocument
    refine htree.mapNodes_document _ (setParent_type _ _) hmem htype ?_
    intro node hne
    rw [setParent, if_neg hne]
  | deleteDocument actor docId opId =>
    obtain ⟨-, -, rfl⟩ := deleteDocument_committed h
    exact htree.mapNodes _ (markDeleted_type _ _) (markDeleted_parentId _ _)
  | restoreDocument actor docId targetFolderId newTitle =>
    obtain ⟨doc, target, hdocument, -, -, rfl⟩ := restoreDocument_committed h
    obtain ⟨hmem, hid, htype⟩ := document?_eq_some.mp hdocument
    refine htree.mapNodes_document _ (restoreNode_type _ _ _) hmem htype ?_
    intro node hne
    rw [restoreNode, if_neg (by rw [← hid]; exact hne)]
  | purgeDocument actor docId =>
    obtain ⟨doc, hdocument, rfl⟩ := purgeDocument_committed h
    obtain ⟨hmem, hid, hdoc⟩ := document?_eq_some.mp hdocument
    -- only the doc row goes, and nothing stands below a doc
    have honly : ∀ node ∈ db.nodes, (node.id == docId) = true → node.type = .document := by
      intro node hnode hsame
      rw [eq_of_id_eq hnode hmem (by rw [hid]; simpa using hsame)]
      exact hdoc
    refine htree.removeNodes ?_ ?_
    · intro root hroot
      obtain ⟨hrmem, -, hrtype⟩ := folder?_eq_some.mp hroot
      by_contra hgone
      rw [Bool.not_eq_false] at hgone
      rw [honly root hrmem hgone] at hrtype
      cases hrtype
    · intro parent hpmem hgone hptype
      rw [honly parent hpmem hgone] at hptype
      cases hptype

end

/-! ### Runs -/

/-- A directory move that passed its checks and has not committed. -/
structure MoveInFlight where
  folderId : NodeId
  targetFolderId : NodeId
  deriving DecidableEq

structure ServerState where
  db : Database
  pending : List MoveInFlight := []

inductive Action
  /-- A request from its first query to its commit. -/
  | request (request : Request)
  | checkMove (actor : Actor) (folderId : NodeId) (targetFolderId : Option NodeId)
  /-- The commit of a move that passed its checks before. -/
  | commitMove (move : MoveInFlight)
  /-- Any other change: rules, grants, blocks, names, revisions, files. -/
  | update (db : Database)

/-- The columns that place a row in the hierarchy. -/
def placement (node : Node) : NodeId × NodeType × Option NodeId := (node.id, node.type, node.parentId)

def Outcome.database? : Outcome → Option Database
  | .committed _ _ db => some db
  | _ => none

theorem Outcome.database?_eq_some {outcome : Outcome} {db : Database} :
    outcome.database? = some db ↔ ∃ code message, outcome = .committed code message db := by
  cases outcome <;> simp [Outcome.database?]

variable (s : ServerState)

/-- One step of the server; only accepted requests count. -/
def step : Action → Option ServerState
  | .request request => (handle s.db request).database?.map fun db => { s with db := db }
  | .checkMove actor folderId targetFolderId =>
    if (moveDirectoryChecks s.db actor folderId targetFolderId fun _ _ =>
        .committed 200 Messages.success s.db).isCommitted then
      some { s with pending := ⟨folderId, orRoot targetFolderId⟩ :: s.pending }
    else none
  | .commitMove move =>
    if move ∈ s.pending then
      (moveCommit s.db move.folderId move.targetFolderId).database?.map fun db =>
        { db := db, pending := s.pending.erase move }
    else none
  | .update db =>
    if db.nodes.map placement = s.db.nodes.map placement then some { s with db := db } else none

/-- The condition on an action, in the state it meets: a directory goes under a target that is not
at or below it when the row is written. -/
def GoesOutside : Action → Prop
  | .request request => TargetOutside s.db request
  | .commitMove move => ¬ Below (parentOf s.db) move.targetFolderId move.folderId
  | _ => True

def RootOnly : Prop :=
  s.pending = [] ∧ ∃ root, s.db.nodes = [root] ∧ root.id = rootDirectoryId ∧
    root.type = .directory ∧ root.parentId = none

section

variable {s s' : ServerState}

theorem IsTree.of_rootOnly (h : RootOnly s) : IsTree s.db := by
  obtain ⟨-, root, hnodes, hid, htype, hnone⟩ := h
  have hmem : root ∈ s.db.nodes := by
    rw [hnodes]
    exact mem_singleton_self root
  refine ⟨⟨root, folder?_eq_some.mpr ⟨hmem, hid, htype⟩, hnone⟩, ?_⟩
  intro folder hfol
  have hfmem := (mem_folders.mp hfol).1
  rw [hnodes] at hfmem
  rw [mem_singleton.mp hfmem, hid]
  exact Below.refl rootDirectoryId

variable {db db' : Database}

theorem IsTree.of_placement (htree : IsTree db)
    (h : db'.nodes.map placement = db.nodes.map placement) : IsTree db' := by
  have hrow : ∀ {a b : Database}, a.nodes.map placement = b.nodes.map placement →
      ∀ node ∈ a.nodes, ∃ other ∈ b.nodes, placement other = placement node := by
    intro a b hab node hnode
    have hmem : placement node ∈ b.nodes.map placement := by
      rw [← hab]
      exact mem_map_of_mem hnode
    exact mem_map.mp hmem
  have hlinks : ∀ c p, True → parentOf db c = some p → parentOf db' c = some p ∧ True := by
    intro c p _ hup
    obtain ⟨folder, hmem, hid, htype, hpar⟩ := parentOf_eq_some.mp hup
    obtain ⟨other, hother, hsame⟩ := hrow h.symm folder hmem
    simp only [placement, Prod.mk.injEq] at hsame
    obtain ⟨hid', htype', hpar'⟩ := hsame
    refine ⟨parentOf_eq_some.mpr ⟨other, hother, ?_, ?_, ?_⟩, trivial⟩
    · rw [hid', hid]
    · rw [htype', htype]
    · rw [hpar', hpar]
  refine ⟨?_, ?_⟩
  · obtain ⟨root, hroot, hnone⟩ := htree.root
    obtain ⟨hmem, hid, htype⟩ := folder?_eq_some.mp hroot
    obtain ⟨other, hother, hsame⟩ := hrow h.symm root hmem
    simp only [placement, Prod.mk.injEq] at hsame
    obtain ⟨hid', htype', hpar'⟩ := hsame
    exact ⟨other, folder?_eq_some.mpr ⟨hother, hid'.trans hid, htype'.trans htype⟩,
      hpar'.trans hnone⟩
  · intro folder hfol
    obtain ⟨hmem, htype⟩ := mem_folders.mp hfol
    obtain ⟨other, hother, hsame⟩ := hrow h folder hmem
    simp only [placement, Prod.mk.injEq] at hsame
    obtain ⟨hid', htype', -⟩ := hsame
    rw [← hid']
    exact (htree.reaches other (mem_folders.mpr ⟨hother, htype'.trans htype⟩)).transfer
      (P := fun _ => True) hlinks trivial

variable {action : Action}

theorem step_cases (h : step s action = some s') :
    (∃ request code message, action = .request request ∧
        handle s.db request = .committed code message s'.db) ∨
      (∃ move code message, action = .commitMove move ∧
        moveCommit s.db move.folderId move.targetFolderId = .committed code message s'.db) ∨
      s'.db.nodes.map placement = s.db.nodes.map placement := by
  cases action with
  | request request =>
    obtain ⟨db, hdb, rfl⟩ := Option.map_eq_some_iff.mp h
    obtain ⟨code, message, hcomm⟩ := Outcome.database?_eq_some.mp hdb
    exact Or.inl ⟨request, code, message, rfl, hcomm⟩
  | checkMove actor folderId targetFolderId =>
    rw [step] at h
    split at h
    · cases h
      exact Or.inr (Or.inr rfl)
    · cases h
  | commitMove move =>
    rw [step] at h
    split at h
    · obtain ⟨db, hdb, rfl⟩ := Option.map_eq_some_iff.mp h
      obtain ⟨code, message, hcomm⟩ := Outcome.database?_eq_some.mp hdb
      exact Or.inr (Or.inl ⟨move, code, message, rfl, hcomm⟩)
    · cases h
  | update db =>
    rw [step] at h
    split at h
    · rename_i hsame
      cases h
      exact Or.inr (Or.inr hsame)
    · cases h

theorem moveCommit_isTree (htree : IsTree db) {nodeId targetId : NodeId}
    {code : ℕ} {message : String} (hnot : ¬ Below (parentOf db) targetId nodeId)
    (h : moveCommit db nodeId targetId = .committed code message db') : IsTree db' := by
  obtain ⟨node, target, hnode, htgt, rfl⟩ := moveCommit_committed h
  obtain ⟨hmem, rfl⟩ := node?_eq_some.mp hnode
  cases htype : node.type with
  | directory =>
    exact htree.reattach (setParent_id _ _) (setParent_type _ _)
      (folder?_eq_some.mpr ⟨hmem, rfl, htype⟩) htgt (setParent_parentId_self targetId node)
      (fun _ => setParent_parentId_of_ne targetId) hnot
  | document =>
    refine htree.mapNodes_document _ (setParent_type _ _) hmem htype ?_
    intro other hne
    rw [setParent, if_neg hne]

theorem step_isTree (htree : IsTree s.db) (hout : GoesOutside s action)
    (h : step s action = some s') : IsTree s'.db := by
  rcases step_cases h with ⟨request, code, message, rfl, hcomm⟩ |
    ⟨move, code, message, rfl, hcomm⟩ | hsame
  · exact handle_isTree htree hout hcomm
  · exact moveCommit_isTree htree hout hcomm
  · exact htree.of_placement hsame

/-- **The folder hierarchy stays a tree** in every run whose moves and restores go outside the
folder they move. -/
theorem hierarchy_stays_tree {initial : ServerState} {actions : List Action}
    (hinit : RootOnly initial) (hmeets : Meets step GoesOutside initial actions)
    (hrun : run step initial actions = some s) :
    ∀ folder ∈ s.db.folders, Below (parentOf s.db) folder.id rootDirectoryId ∧
      ¬ ∃ parentId, parentOf s.db folder.id = some parentId ∧
        Below (parentOf s.db) parentId folder.id := by
  have htree : IsTree s.db := by
    refine run_invariant (I := fun s => IsTree s.db) ?_ (IsTree.of_rootOnly hinit) hmeets hrun
    intro t action t' ht hout hstep
    exact step_isTree ht hout hstep
  intro folder hfol
  have hbelow := htree.reaches folder hfol
  exact ⟨hbelow, not_cycle_of_below htree.parentOf_root hbelow⟩

end

/-! ### Two moves that cross -/

def rootOnlyState : ServerState where
  db :=
    { nodes := [{ id := "/", type := .directory, name := "/", parentId := none }]
      nodeIds_nodup := by decide
      nodeIds_ne_empty := by decide }

def noRules : Database.SubmittedRules := ⟨[], none, [], [], [], []⟩

def organizer : Actor := ⟨⟨"organizer", ["create_directory", "move"], []⟩, 1, true⟩

def twoFolders : List Action :=
  [.request (.createDirectory organizer none "a" true noRules "A"),
    .request (.createDirectory organizer none "b" true noRules "B")]

/-- Each folder is moved into the other, both checks before either commit. -/
def crossedMoves : List Action :=
  twoFolders ++ [.checkMove organizer "A" (some "B"), .checkMove organizer "B" (some "A"),
    .commitMove ⟨"A", "B"⟩, .commitMove ⟨"B", "A"⟩]

def folderLinks : List (NodeId × Option NodeId) :=
  s.db.folders.map fun folder => (folder.id, folder.parentId)

theorem parentOf_eq_some_iff_folderLinks {s : ServerState} {id parentId : NodeId} :
    parentOf s.db id = some parentId ↔ (id, some parentId) ∈ folderLinks s := by
  rw [parentOf_eq_some, folderLinks, mem_map]
  constructor
  · rintro ⟨folder, hmem, rfl, htype, hpar⟩
    exact ⟨folder, mem_folders.mpr ⟨hmem, htype⟩, by rw [hpar]⟩
  · rintro ⟨folder, hmem, hlink⟩
    obtain ⟨hnode, htype⟩ := mem_folders.mp hmem
    obtain ⟨hid, hpar⟩ := Prod.mk.inj hlink
    exact ⟨folder, hnode, hid, htype, hpar⟩

theorem folderLinks_crossedMoves : (run step rootOnlyState crossedMoves).map folderLinks =
      some [("/", none), ("A", some "B"), ("B", some "A")] := by
  decide

theorem crossed_moves_cut_off_folders :
    RootOnly rootOnlyState ∧ ∃ s, run step rootOnlyState crossedMoves = some s ∧
      ∃ folder ∈ s.db.folders, ¬ Below (parentOf s.db) folder.id rootDirectoryId := by
  refine ⟨⟨rfl, _, rfl, rfl, rfl, rfl⟩, ?_⟩
  obtain ⟨s, hrun, hlinks⟩ := Option.map_eq_some_iff.mp folderLinks_crossedMoves
  refine ⟨s, hrun, ?_⟩
  have hrow : ("A", some "B") ∈ folderLinks s := by
    rw [hlinks]
    decide
  obtain ⟨folder, hfol, hlink⟩ := mem_map.mp hrow
  refine ⟨folder, hfol, ?_⟩
  rw [(Prod.mk.inj hlink).1]
  intro hbelow
  -- `A` and `B` lead only to each other
  have hcl := hbelow.closed (P := fun id => id = "A" ∨ id = "B") ?_ (Or.inl rfl)
  · revert hcl
    decide
  · intro c p hc hup
    rw [parentOf_eq_some_iff_folderLinks, hlinks] at hup
    rcases hc with rfl | rfl
    · exact Or.inr (by simpa using hup)
    · exact Or.inl (by simpa using hup)

def checkedMove : List Action := twoFolders ++ [.checkMove organizer "A" (some "B")]

theorem folderLinks_checkedMove : (run step rootOnlyState checkedMove).map folderLinks =
      some [("/", none), ("A", some "/"), ("B", some "/")] := by
  decide

/-- One of the two moves alone goes outside its folder, and the tree stays one. -/
theorem hierarchy_stays_tree_after_one_move :
    ∃ s, run step rootOnlyState (checkedMove ++ [.commitMove ⟨"A", "B"⟩]) = some s ∧
      folderLinks s = [("/", none), ("A", some "B"), ("B", some "/")] ∧
      ∀ folder ∈ s.db.folders, Below (parentOf s.db) folder.id rootDirectoryId ∧
        ¬ ∃ parentId, parentOf s.db folder.id = some parentId ∧
          Below (parentOf s.db) parentId folder.id := by
  have hlinks : (run step rootOnlyState (checkedMove ++ [.commitMove ⟨"A", "B"⟩])).map folderLinks =
      some [("/", none), ("A", some "B"), ("B", some "/")] := by decide
  obtain ⟨s, hrun, hafter⟩ := Option.map_eq_some_iff.mp hlinks
  refine ⟨s, hrun, hafter, hierarchy_stays_tree ⟨rfl, _, rfl, rfl, rfl, rfl⟩ ?_ hrun⟩
  rw [meets_append]
  refine ⟨⟨trivial, fun _ _ => ⟨trivial, fun _ _ => ⟨trivial, fun _ _ => trivial⟩⟩⟩, ?_⟩
  intro t ht
  have hbef := folderLinks_checkedMove
  rw [ht, Option.map_some, Option.some.injEq] at hbef
  refine ⟨?_, fun _ _ => trivial⟩
  show ¬ Below (parentOf t.db) "B" "A"
  intro hbelow
  have hcl := hbelow.closed (P := fun id => id = "B" ∨ id = "/") ?_ (Or.inl rfl)
  · revert hcl
    decide
  · intro c p hc hup
    rw [parentOf_eq_some_iff_folderLinks, hbef] at hup
    rcases hc with rfl | rfl
    · exact Or.inr (by simpa using hup)
    · revert hup
      simp

end Cfms.Documents
