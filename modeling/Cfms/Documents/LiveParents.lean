import Cfms.Documents.Hierarchy

/-!
# Live nodes stand in live folders

Requests on documents and directories, executed one at a time, from a tree of live nodes.  The
invariant is that the folder rows form a tree, that every node except the root directory stands in
a folder row, and that a live node stands in a live folder.

Two requests can break it.  A directory deletion marks a folder whose live contents it leaves
behind, because the folder counts as empty of undeletable content: a document without an active
current revision does not count, a failure in an unreadable folder is not reported, a locked item
is not looked at.  A directory restore brings back every row of the deletion it undoes, also those
whose folder was deleted by another one.
-/

namespace Cfms.Documents

open Access Lib.Climb Lib.Forest Lib.RecursiveQuery Lib.Run List Database

variable (db : Database)

/-- The node stands in a folder row, and in a live one when it is live. -/
def Housed (node : Node) : Prop :=
  ∃ folder, node.parentId = some folder.id ∧ db.folder? folder.id = some folder ∧
    (node.status ≠ .deleted → folder.status ≠ .deleted)

structure LiveParents : Prop where
  tree : IsTree db
  housed : ∀ node ∈ db.nodes, node.id ≠ rootDirectoryId → Housed db node

/-! ### Climbing from a live node -/

section

variable {db : Database}

theorem IsTree.climbs (htree : IsTree db) {id : NodeId}
    (h : Below (parentOf db) id rootDirectoryId) :
    ∃ chain, Climbs db.folder? Node.parentId (some id) chain := by
  induction h using Relation.ReflTransGen.head_induction_on with
  | refl =>
    obtain ⟨root, hroot, hnone⟩ := htree.root
    refine ⟨[root], Climbs.step hroot ?_⟩
    rw [hnone]
    exact Climbs.top
  | head hup _ ih =>
    obtain ⟨folder, hmem, hid, htype, hpar⟩ := parentOf_eq_some.mp hup
    obtain ⟨chain, hchain⟩ := ih
    refine ⟨folder :: chain, Climbs.step (folder?_eq_some.mpr ⟨hmem, hid, htype⟩) ?_⟩
    rw [hpar]
    exact hchain

theorem IsTree.acyclic (htree : IsTree db) : db.Acyclic := by
  intro node _
  cases hpar : node.parentId with
  | none => exact ⟨[], Climbs.top⟩
  | some parentId =>
    cases hfol : db.folder? parentId with
    | none => exact ⟨[], Climbs.missing hfol⟩
    | some folder => exact htree.climbs (htree.below hfol)

variable {node : Node} {parentId : NodeId}

theorem LiveParents.not_root_of_parent (h : LiveParents db)
    (hmem : node ∈ db.nodes) (hpar : node.parentId = some parentId) :
    node.id ≠ rootDirectoryId := by
  intro hid
  obtain ⟨root, hroot, hnone⟩ := h.tree.root
  obtain ⟨hrmem, hrid, -⟩ := folder?_eq_some.mp hroot
  rw [eq_of_id_eq hmem hrmem (hid.trans hrid.symm), hnone] at hpar
  cases hpar

variable {folder : Node}

theorem LiveParents.parent_live (h : LiveParents db)
    (hmem : node ∈ db.nodes) (hlive : node.status ≠ .deleted) (hpar : node.parentId = some parentId)
    (hfol : db.folder? parentId = some folder) : folder.status ≠ .deleted := by
  obtain ⟨above, hlink, habove, hst⟩ :=
    h.housed node hmem (h.not_root_of_parent hmem hpar)
  rw [hpar, Option.some.injEq] at hlink
  rw [← hlink, hfol, Option.some.injEq] at habove
  rw [habove]
  exact hst hlive

variable {chain : List Node}

theorem LiveParents.chain_live (h : LiveParents db) (hmem : node ∈ db.nodes)
    (hlive : node.status ≠ .deleted)
    (hchain : Climbs db.folder? Node.parentId node.parentId chain) :
    ∀ folder ∈ chain, folder ∈ db.nodes ∧ folder.status ≠ .deleted := by
  refine hchain.forall_mem ?_ ?_
  · intro id folder hpar hfol
    exact ⟨(folder?_eq_some.mp hfol).1, h.parent_live hmem hlive hpar hfol⟩
  · rintro folder id above ⟨hfmem, hflive⟩ hpar habove
    exact ⟨(folder?_eq_some.mp habove).1, h.parent_live hfmem hflive hpar habove⟩

theorem isDescendantOfLoop_eq {ancestorId : NodeId} {start : Option NodeId}
    (hchain : Climbs db.folder? Node.parentId start chain) {fuel : ℕ} (hfuel : chain.length < fuel)
    {visitedIds : List NodeId} (hvis : ∀ folder ∈ chain, folder.id ∉ visitedIds)
    (hlive : ∀ folder ∈ chain, folder.status ≠ .deleted) :
    isDescendantOfLoop db ancestorId fuel visitedIds (start.bind db.liveFolder?) =
      chain.any fun folder => folder.id == ancestorId := by
  induction hchain generalizing fuel visitedIds with
  | top =>
    cases fuel with
    | zero => omega
    | succ fuel => rfl
  | missing hnone =>
    cases fuel with
    | zero => omega
    | succ fuel =>
      rw [Option.bind_some, liveFolder?, hnone]
      rfl
  | @step id folder chain hfol hrest ih =>
    cases fuel with
    | zero => omega
    | succ fuel =>
      rw [length_cons] at hfuel
      have hrow : db.liveFolder? id = some folder := by
        rw [liveFolder?, hfol, Option.filter_some,
          if_pos (Node.notDeleted_iff.mpr (hlive folder mem_cons_self))]
      have hnodup := (Climbs.step hfol hrest).keys_nodup Node.id
        (fun _ _ h => folder?_key h)
      rw [map_cons, nodup_cons] at hnodup
      rw [Option.bind_some, hrow, isDescendantOfLoop, any_cons]
      by_cases hanc : folder.id = ancestorId
      · rw [hanc, beq_self_eq_true, if_pos rfl, Bool.true_or]
      have hbeq : (folder.id == ancestorId) = false := by simpa using hanc
      have hnew : visitedIds.contains folder.id = false := by
        rw [← Bool.not_eq_true, contains_iff_mem]
        exact hvis folder mem_cons_self
      rw [hbeq, hnew]
      refine ih (by omega) ?_ ?_
      · intro above habove hmem
        rcases mem_cons.mp hmem with heq | hmem
        · exact hnodup.1 (heq ▸ mem_map_of_mem habove)
        · exact hvis above (mem_cons_of_mem _ habove) hmem
      · intro above habove
        exact hlive above (mem_cons_of_mem _ habove)

variable {target : Node}

theorem LiveParents.not_below_of_isDescendantOf (h : LiveParents db)
    (hmem : target ∈ db.nodes) (hlive : target.status ≠ .deleted) (hne : target.id ≠ folder.id)
    (hnot : isDescendantOf db target folder = false) :
    ¬ Below (parentOf db) target.id folder.id := by
  obtain ⟨chain, hchain⟩ := h.tree.acyclic target hmem
  have habove := h.chain_live hmem hlive hchain
  have hlen := climbs_length_le_nodes hchain
  rw [isDescendantOf, parentFolder, isDescendantOfLoop_eq hchain (by omega)
    (fun _ _ => not_mem_nil) (fun f hf => (habove f hf).2), any_eq_false] at hnot
  intro hbelow
  have hcl := hbelow.closed (P := fun id => id = target.id ∨ ∃ f ∈ chain, f.id = id) ?_ (Or.inl rfl)
  · rcases hcl with heq | ⟨f, hf, heq⟩
    · exact hne heq.symm
    · exact hnot f hf (by simpa using heq)
  · intro c p hc hup
    obtain ⟨row, hrmem, hrid, hrtype, hrparent⟩ := parentOf_eq_some.mp hup
    -- the parent is a row, since every node but the root stands in one
    obtain ⟨above, hlink, hrow, -⟩ := h.housed row hrmem (h.not_root_of_parent hrmem hrparent)
    rw [hrparent, Option.some.injEq] at hlink
    refine Or.inr ⟨above, ?_, hlink.symm⟩
    rcases hc with rfl | ⟨f, hf, rfl⟩
    · rw [eq_of_id_eq hrmem hmem hrid, hlink] at hrparent
      rw [hrparent] at hchain
      exact hchain.mem_start hrow
    · rw [eq_of_id_eq hrmem (habove f hf).1 hrid, hlink] at hrparent
      exact hchain.mem_up hf hrparent hrow

theorem LiveParents.not_below_of_deleted (h : LiveParents db)
    (hmem : target ∈ db.nodes) (hlive : target.status ≠ .deleted)
    (hfol : db.folder? folder.id = some folder) (hdel : folder.status = .deleted) :
    ¬ Below (parentOf db) target.id folder.id := by
  intro hbelow
  have hcl := hbelow.closed
    (P := fun id => ∀ row ∈ db.nodes, row.id = id → row.status ≠ .deleted) ?_ ?_
  · exact hcl folder (folder?_eq_some.mp hfol).1 rfl hdel
  · intro c p hc hup row hrow hrid
    obtain ⟨below, hbmem, hbid, -, hbparent⟩ := parentOf_eq_some.mp hup
    obtain ⟨above, hlink, habove, hst⟩ :=
      h.housed below hbmem (h.not_root_of_parent hbmem hbparent)
    rw [hbparent, Option.some.injEq] at hlink
    rw [eq_of_id_eq hrow (folder?_eq_some.mp habove).1 (hrid.trans hlink)]
    exact hst (hc below hbmem hbid)
  · intro row hrow hrid
    rw [eq_of_id_eq hrow hmem hrid]
    exact hlive

end

/-! ### Directory deletion -/

variable (actor : Actor)

/-- What a deletion of `folderId` loads. -/
def deletionContext (folderId : NodeId) : SubtreeContext :=
  loadSubtree db folderId actor.user actor.now false

/-- A live item that the deletion does not mark: a document that is locked or fails its check, or a
locked folder, which the subtree query skips. -/
def StaysBehind (folderId : NodeId) (item : Node) : Prop :=
  (item.type = .document ∧ ¬(item.status = .ok ∧
      selfDeletable db (deletionContext db actor folderId) actor.user "delete_document" item = true)) ∨
    (item.type = .directory ∧ item.status = .locked)

/-- Something in the subtree fails its check where the user can read the folder that holds it. -/
def FailureReported (folderId : NodeId) : Prop :=
  ∃ item, containerReadable db (deletionContext db actor folderId) actor.user item = true ∧
    ((item ∈ checkedDocuments (deletionContext db actor folderId) false ∧ selfDeletable db
        (deletionContext db actor folderId) actor.user "delete_document" item = false) ∨
      (item ∈ checkedFolders (deletionContext db actor folderId) folderId ∧ selfDeletable db
        (deletionContext db actor folderId) actor.user "delete_directory" item = false))

/-- A folder of the subtree that survives the deletion.  Below the root that is a folder with
undeletable content; the root also survives when a failure is reported. -/
def FolderKept (folderId id : NodeId) : Prop :=
  (id ≠ folderId ∧ HasUndeletableContent db (deletionContext db actor folderId) folderId actor.user
      false id) ∨
    (id = folderId ∧ (FailureReported db actor folderId ∨
      ∃ folder ∈ checkedFolders (deletionContext db actor folderId) folderId,
        HasUndeletableContent db (deletionContext db actor folderId) folderId actor.user false
          folder.id))

/-- The condition on a deletion: what stays behind stands in a folder that survives. -/
def DeletionLeavesNoOrphan (folderId : NodeId) : Prop :=
  ∀ item ∈ db.nodes, item.status ≠ .deleted → StaysBehind db actor folderId item →
    ∀ container ∈ (deletionContext db actor folderId).folders, item.parentId = some container.id →
      FolderKept db actor folderId container.id

section

variable {db : Database} {actor : Actor} {folderId : NodeId} {opId : String}
  {analysis : SubtreeAnalysis}

variable {node : Node}

theorem markDeleted_live_iff {nodeIds : List NodeId} :
    (markDeleted nodeIds opId node).status ≠ .deleted ↔
      node.id ∉ nodeIds ∧ node.status ≠ .deleted := by
  unfold markDeleted
  split
  · rename_i hmem
    simp [contains_iff_mem.mp hmem]
  · rename_i hmem
    rw [contains_iff_mem] at hmem
    simp [hmem]

theorem mem_deletionMarks_iff
    (hspec : SubtreeSpec db (deletionContext db actor folderId) folderId actor.user false analysis)
    (hnode : node ∈ db.nodes) :
    node.id ∈ deletionMarks folderId analysis ↔
      BulkDeletable db folderId actor.user actor.now false node ∨
        (node.id = folderId ∧ ¬ FolderKept db actor folderId folderId) := by
  have hreported : analysis.failedItems = [] ↔ ¬ FailureReported db actor folderId := by
    rw [hspec.failedItems_eq_nil]
    constructor
    · rintro ⟨hdocs, hfols⟩ ⟨item, hread, ⟨hmem, hself⟩ | ⟨hmem, hself⟩⟩
      · rw [hdocs item hmem hself] at hread
        cases hread
      · rw [hfols item hmem hself] at hread
        cases hread
    · intro hnone
      refine ⟨?_, ?_⟩
      · intro doc hdoc hself
        by_contra hread
        exact hnone ⟨doc, by simpa using hread, Or.inl ⟨hdoc, hself⟩⟩
      · intro folder hfol hself
        by_contra hread
        exact hnone ⟨folder, by simpa using hread, Or.inr ⟨hfol, hself⟩⟩
  have hprot : analysis.protectedFolderIds = [] ↔
      ¬ ∃ folder ∈ checkedFolders (deletionContext db actor folderId) folderId,
        HasUndeletableContent db (deletionContext db actor folderId) folderId actor.user false
          folder.id := by
    rw [eq_nil_iff_forall_not_mem]
    simp only [hspec.mem_protectedFolderIds]
    constructor
    · rintro hnone ⟨folder, hfol, hcont⟩
      exact hnone folder.id ⟨⟨folder, hfol, rfl⟩, hcont⟩
    · rintro hnone id ⟨⟨folder, hfol, rfl⟩, hcont⟩
      exact hnone ⟨folder, hfol, hcont⟩
  have hroot : analysis.protectedFolderIds = [] ∧ analysis.failedItems = [] ↔
      ¬ FolderKept db actor folderId folderId := by
    rw [hprot, hreported, FolderKept]
    simp only [ne_eq, not_true_eq_false, false_and, true_and, false_or, not_or]
    exact and_comm
  rw [deletionMarks, mem_append, mem_append, mem_deletable_iff hspec hnode]
  refine or_congr_right ?_
  rw [← hroot]
  simp only [beq_iff_eq, length_eq_zero_iff, Bool.and_eq_true]
  split
  · rename_i hempty
    rw [mem_singleton]
    exact ⟨fun hid => ⟨hid, hempty⟩, And.left⟩
  · rename_i hnot
    simp [hnot]

variable {root : Node} {container child : Node}

theorem mem_deletionContext_folders
    (hcontr : container ∈ (deletionContext db actor folderId).folders)
    (hroot : db.folder? folderId = some root)
    (hchild : child ∈ db.nodes) (htype : child.type = .directory) (hst : child.status = .ok)
    (hpar : child.parentId = some container.id) :
    child ∈ (deletionContext db actor folderId).folders := by
  obtain ⟨hmem, hload⟩ := mem_loadSubtree_folders.mp hcontr
  have hfol : child ∈ db.folders := mem_folders.mpr ⟨hchild, htype⟩
  refine mem_loadSubtree_folders.mpr ⟨hfol, ?_⟩
  rw [isLoadedFolder, Bool.and_eq_true, contains_iff_mem, mem_allFolderIdsToLoad] at hload ⊢
  have hnext : child ∈ subtreeNext db false container := by
    refine mem_filter.mpr ⟨hfol, ?_⟩
    rw [hpar, hst]
    simp
  refine ⟨Or.inr ⟨child, ?_, rfl⟩, by rw [Node.notDeleted, hst]; rfl⟩
  rcases hload.1 with hid | ⟨row, hrow, hid⟩
  · obtain ⟨hrmem, hrid, hrtype⟩ := folder?_eq_some.mp hroot
    refine Derivable.next (Derivable.anchor (mem_filter.mpr ⟨hmem, ?_⟩)) hnext
    simpa using hid
  · have hsame := eq_of_id_eq (mem_folders.mp (mem_folders_of_subtree hrow)).1
      (mem_folders.mp hmem).1 hid
    rw [hsame] at hrow
    exact Derivable.next hrow hnext

theorem HasUndeletableContent.parent (hchild : child ∈ (deletionContext db actor folderId).folders)
    (hcontr : container ∈ (deletionContext db actor folderId).folders)
    (hpar : child.parentId = some container.id)
    (h : HasUndeletableContent db (deletionContext db actor folderId) folderId actor.user false
      child.id) :
    HasUndeletableContent db (deletionContext db actor folderId) folderId actor.user false
      container.id := by
  obtain ⟨g, hg, hbelow, hmark⟩ := h
  refine ⟨g, hg, below_cases.mpr (Or.inr ⟨child.id, hbelow, ?_⟩), hmark⟩
  obtain ⟨hfol, hload⟩ := mem_loadSubtree_folders.mp hchild
  obtain ⟨hmem, htype⟩ := mem_folders.mp hfol
  have hnonempty := db.nodeIds_ne_empty container (mem_nodes_of_mem_folders container hcontr)
  exact loadedParent_eq_some.mpr ⟨⟨child, folder?_eq_some.mpr ⟨hmem, rfl, htype⟩, hload,
    hpar⟩, hnonempty, mem_map_of_mem hcontr⟩

variable {folder : Node}

theorem below_of_mem_deletionContext (h : folder ∈ (deletionContext db actor folderId).folders) :
    Below (parentOf db) folder.id folderId := by
  obtain ⟨hmem, hload⟩ := mem_loadSubtree_folders.mp h
  rw [isLoadedFolder, Bool.and_eq_true, contains_iff_mem, mem_allFolderIdsToLoad] at hload
  rcases hload.1 with hid | ⟨row, hrow, hid⟩
  · rw [hid]
    exact Below.refl folderId
  · rw [← hid]
    clear hid
    induction hrow with
    | anchor hanch =>
      have hid := (mem_filter.mp hanch).2
      rw [beq_iff_eq] at hid
      rw [hid]
      exact Below.refl folderId
    | next _ hnext ih =>
      obtain ⟨hfol, hstep⟩ := mem_filter.mp hnext
      rw [Bool.and_eq_true, beq_iff_eq] at hstep
      obtain ⟨hnode, htype⟩ := mem_folders.mp hfol
      exact Below.head (parentOf_eq_some.mpr ⟨_, hnode, rfl, htype, hstep.1⟩) ih

theorem not_folderKept_of_marked
    (hspec : SubtreeSpec db (deletionContext db actor folderId) folderId actor.user false analysis)
    (hroot : db.liveFolder? folderId = some root)
    (hfol : db.folder? folder.id = some folder)
    (hmarked : folder.id ∈ deletionMarks folderId analysis) :
    folder ∈ (deletionContext db actor folderId).folders ∧ ¬ FolderKept db actor folderId folder.id := by
  obtain ⟨hmem, -, htype⟩ := folder?_eq_some.mp hfol
  rcases (mem_deletionMarks_iff hspec hmem).mp hmarked with (⟨hdoc, -⟩ | ⟨hcheck, hnone⟩) | ⟨hid, hnot⟩
  · have hdocument := (mem_loadSubtree_documents.mp (mem_checkedDocuments.mp hdoc).1).1
    rw [(mem_documents.mp hdocument).2] at htype
    cases htype
  · obtain ⟨hload, hne⟩ := mem_checkedFolders.mp hcheck
    refine ⟨hload, ?_⟩
    rintro (⟨-, hcont⟩ | ⟨hid, -⟩)
    · exact hnone hcont
    · exact hne hid
  · rw [hid]
    refine ⟨mem_loadSubtree_folders.mpr ⟨mem_folders.mpr ⟨hmem, htype⟩, ?_⟩, hnot⟩
    have hrow := folder?_of_liveFolder? hroot
    obtain ⟨⟨hrmem, hrid, -⟩, hlive⟩ := liveFolder?_eq_some.mp hroot
    rw [eq_of_id_eq hmem hrmem (hid.trans hrid.symm)]
    exact isLoadedFolder_root hrow (Or.inr (Node.notDeleted_iff.mpr hlive))

/-- **A deletion that meets its condition marks a folder only with all its live contents.** -/
theorem marked_of_folder_marked (h : LiveParents db)
    (hspec : SubtreeSpec db (deletionContext db actor folderId) folderId actor.user false analysis)
    (hcond : DeletionLeavesNoOrphan db actor folderId)
    (hroot : db.liveFolder? folderId = some root) (hnode : node ∈ db.nodes)
    (hlive : node.status ≠ .deleted) (hpar : node.parentId = some folder.id)
    (hfol : db.folder? folder.id = some folder)
    (hmarked : folder.id ∈ deletionMarks folderId analysis) :
    node.id ∈ deletionMarks folderId analysis := by
  obtain ⟨hload, hnotKept⟩ := not_folderKept_of_marked hspec hroot hfol hmarked
  have hgoes : ¬ StaysBehind db actor folderId node := by
    intro hstays
    exact hnotKept (hcond node hnode hlive hstays folder hload hpar)
  rw [mem_deletionMarks_iff hspec hnode]
  refine Or.inl ?_
  cases htype : node.type with
  | document =>
    have hok : node.status = .ok ∧ selfDeletable db (deletionContext db actor folderId) actor.user
        "delete_document" node = true := by
      by_contra hnot
      exact hgoes (Or.inl ⟨htype, hnot⟩)
    obtain ⟨hfmem, hflive⟩ := mem_loadSubtree_folders.mp hload
    refine Or.inl ⟨mem_checkedDocuments.mpr ⟨mem_loadSubtree_documents.mpr
      ⟨mem_documents.mpr ⟨hnode, htype⟩, ⟨folder.id, folder, hpar, hfol, hflive⟩, ?_⟩,
      ?_⟩, hok.2⟩
    · rw [Node.notDeleted, hok.1]
      rfl
    · rw [hok.1]
      rfl
  | directory =>
    have hok : node.status = .ok := by
      cases hst : node.status with
      | ok => rfl
      | deleted => exact absurd hst hlive
      | locked => exact absurd (Or.inr ⟨htype, hst⟩) hgoes
    have hchild := mem_deletionContext_folders hload (folder?_of_liveFolder? hroot) hnode htype hok
      hpar
    -- the root of the deletion does not stand in a folder below it
    have hne : node.id ≠ folderId := by
      intro hid
      have hup : parentOf db folderId = some folder.id :=
        parentOf_eq_some.mpr ⟨node, hnode, hid, htype, hpar⟩
      have hreach := h.tree.below (folder?_of_liveFolder? hroot)
      exact not_cycle_of_below h.tree.parentOf_root hreach
        ⟨folder.id, hup, below_of_mem_deletionContext hload⟩
    refine Or.inr ⟨mem_checkedFolders.mpr ⟨hchild, hne⟩, ?_⟩
    intro hcont
    by_cases hid : folder.id = folderId
    · exact hnotKept (Or.inr ⟨hid, Or.inr ⟨node, mem_checkedFolders.mpr ⟨hchild, hne⟩, hcont⟩⟩)
    · exact hnotKept (Or.inl ⟨hid, HasUndeletableContent.parent hchild hload hpar hcont⟩)

end

/-! ### Directory restore -/

/-- The condition on a restore: every other row of the same deletion stands in a folder that is
live, comes back with it, or is the restored folder. -/
def RestoreLeavesNoOrphan (folderId : NodeId) : Prop :=
  ∀ restored, db.folder? folderId = some restored → ∀ node ∈ db.nodes, node.id ≠ folderId →
    node.status = .deleted → node.statusOperationId = restored.statusOperationId →
      ∀ folder, node.parentId = some folder.id → db.folder? folder.id = some folder →
        folder.status ≠ .deleted ∨ folder.statusOperationId = restored.statusOperationId ∨
          folder.id = folderId

/-! ### Requests, one at a time -/

/-- The condition on a request, in the state it meets. -/
def LeavesNoOrphan : Request → Prop
  | .deleteDirectory actor folderId _ => DeletionLeavesNoOrphan db actor folderId
  | .restoreDirectory _ folderId _ _ => RestoreLeavesNoOrphan db folderId
  | _ => True

section

variable {db db' : Database}

theorem housed_mapNodes {f : Node → Node} (hf : ∀ node, (f node).id = node.id)
    (htype : ∀ node, (f node).type = node.type)
    (hhoused : ∀ node ∈ db.nodes, node.id ≠ rootDirectoryId → ∃ folder,
      (f node).parentId = some folder.id ∧ db.folder? folder.id = some folder ∧
        ((f node).status ≠ .deleted → (f folder).status ≠ .deleted)) :
    ∀ node ∈ (db.mapNodes f hf).nodes, node.id ≠ rootDirectoryId →
      Housed (db.mapNodes f hf) node := by
  intro node hnode hne
  obtain ⟨old, hold, rfl⟩ := mem_map.mp hnode
  rw [hf] at hne
  obtain ⟨folder, hpar, hfol, hst⟩ := hhoused old hold hne
  refine ⟨f folder, by rw [hf]; exact hpar, ?_, hst⟩
  rw [hf, folder?_mapNodes hf htype, hfol, Option.map_some]

theorem housed_insert (h : LiveParents db) {node parent : Node} {parentId : NodeId}
    (hprow : db.liveFolder? parentId = some parent) (hpar : node.parentId = some parent.id)
    (hnodes : db'.nodes = db.nodes ++ [node]) :
    ∀ other ∈ db'.nodes, other.id ≠ rootDirectoryId → Housed db' other := by
  have hfol : ∀ {folder : Node}, db.folder? folder.id = some folder →
      db'.folder? folder.id = some folder := by
    intro folder hrow
    obtain ⟨hmem, -, htype⟩ := folder?_eq_some.mp hrow
    refine folder?_eq_some.mpr ⟨?_, rfl, htype⟩
    rw [hnodes]
    exact mem_append_left _ hmem
  intro other hother hne
  rw [hnodes] at hother
  rcases mem_append.mp hother with hother | hother
  · obtain ⟨folder, hlink, hrow, hst⟩ := h.housed other hother hne
    exact ⟨folder, hlink, hfol hrow, hst⟩
  · rw [mem_singleton.mp hother]
    obtain ⟨⟨hmem, -, htype⟩, hlive⟩ := liveFolder?_eq_some.mp hprow
    exact ⟨parent, hpar, hfol (folder?_eq_some.mpr ⟨hmem, rfl, htype⟩), fun _ => hlive⟩

theorem housed_removeNodes (h : LiveParents db) {gone : Node → Bool}
    (hbelow : ∀ folder ∈ db.nodes, folder.type = .directory → gone folder = true →
      ∀ node ∈ db.nodes, node.parentId = some folder.id → gone node = true) :
    ∀ node ∈ (db.removeNodes gone).nodes, node.id ≠ rootDirectoryId →
      Housed (db.removeNodes gone) node := by
  intro node hnode hne
  obtain ⟨hmem, hstays⟩ := mem_filter.mp hnode
  obtain ⟨folder, hlink, hrow, hst⟩ := h.housed node hmem hne
  obtain ⟨hfmem, -, hftype⟩ := folder?_eq_some.mp hrow
  refine ⟨folder, hlink, folder?_eq_some.mpr ⟨mem_filter.mpr ⟨hfmem, ?_⟩, rfl, hftype⟩,
    hst⟩
  by_contra hgone
  rw [Bool.not_eq_true', Bool.not_eq_false] at hgone
  rw [hbelow folder hfmem hftype hgone node hmem hlink] at hstays
  cases hstays

end

section

variable {db db' : Database} {actor : Actor} {code : ℕ} {message : String}

theorem setParent_status (nodeId parentId : NodeId) (node : Node) :
    (setParent nodeId parentId node).status = node.status := by
  unfold setParent
  split <;> rfl

variable {node : Node}

theorem restoreOperation_live_iff {opId : Option String} :
    (restoreOperation opId node).status ≠ .deleted ↔ node.status ≠ .deleted ∨
        (opId.any (· != "") = true ∧ node.statusOperationId = opId) := by
  unfold restoreOperation
  split
  · rename_i hrow
    simp only [Bool.and_eq_true, beq_iff_eq] at hrow
    simp [hrow.1.1, hrow.1.2]
  · rename_i hrow
    simp only [Bool.and_eq_true, beq_iff_eq, not_and] at hrow
    refine ⟨Or.inl, ?_⟩
    rintro (hlive | ⟨hany, hop⟩)
    · exact hlive
    · exact hrow ⟨hany, hop⟩

variable {name : String} {nodeId : NodeId}

theorem restoreNode_live_iff {parentId : NodeId} :
    (restoreNode nodeId name parentId node).status ≠ .deleted ↔
      node.status ≠ .deleted ∨ node.id = nodeId := by
  unfold restoreNode
  split
  · rename_i hid
    simp [hid]
  · rename_i hid
    simp [hid]

variable {target : Node}

variable (h : LiveParents db)

include h

theorem housed_setParent {targetId : NodeId}
    (htgt : db.liveFolder? targetId = some target) :
    ∀ node ∈ (db.mapNodes (setParent nodeId target.id) (setParent_id _ _)).nodes,
      node.id ≠ rootDirectoryId →
        Housed (db.mapNodes (setParent nodeId target.id) (setParent_id _ _)) node := by
  refine housed_mapNodes (setParent_id _ _) (setParent_type _ _) ?_
  intro node hnode hne
  simp only [setParent_status]
  by_cases hid : node.id = nodeId
  · obtain ⟨⟨hmem, -, htype⟩, hlive⟩ := liveFolder?_eq_some.mp htgt
    refine ⟨target, ?_, folder?_eq_some.mpr ⟨hmem, rfl, htype⟩, fun _ => hlive⟩
    rw [← hid]
    exact setParent_parentId_self target.id node
  · obtain ⟨folder, hlink, hrow, hst⟩ := h.housed node hnode hne
    exact ⟨folder, by rw [setParent_parentId_of_ne _ hid]; exact hlink, hrow, hst⟩

theorem housed_markDeleted {nodeIds : List NodeId} (opId : String)
    (hmarks : ∀ node ∈ db.nodes, node.status ≠ .deleted → ∀ folder,
      node.parentId = some folder.id → db.folder? folder.id = some folder → folder.id ∈ nodeIds →
        node.id ∈ nodeIds) :
    ∀ node ∈ (db.mapNodes (markDeleted nodeIds opId) (markDeleted_id _ _)).nodes,
      node.id ≠ rootDirectoryId →
        Housed (db.mapNodes (markDeleted nodeIds opId) (markDeleted_id _ _)) node := by
  refine housed_mapNodes (markDeleted_id _ _) (markDeleted_type _ _) ?_
  intro node hnode hne
  obtain ⟨folder, hlink, hrow, hst⟩ := h.housed node hnode hne
  refine ⟨folder, by rw [markDeleted_parentId]; exact hlink, hrow, ?_⟩
  intro hafter
  obtain ⟨hunmarked, hlive⟩ := markDeleted_live_iff.mp hafter
  refine markDeleted_live_iff.mpr ⟨?_, hst hlive⟩
  intro hmarked
  exact hunmarked (hmarks node hnode hlive folder hlink hrow hmarked)

theorem housed_restoreNode {docId : NodeId}
    (htgt : db.folder? target.id = some target) (hok : target.status = .ok) :
    ∀ node ∈ (db.mapNodes (restoreNode docId name target.id) (restoreNode_id _ _ _)).nodes,
      node.id ≠ rootDirectoryId →
        Housed (db.mapNodes (restoreNode docId name target.id) (restoreNode_id _ _ _)) node := by
  refine housed_mapNodes (restoreNode_id _ _ _) (restoreNode_type _ _ _) ?_
  intro node hnode hne
  by_cases hid : node.id = docId
  · refine ⟨target, restoreNode_parentId_self _ _ hid, htgt, ?_⟩
    intro _
    refine restoreNode_live_iff.mpr (Or.inl ?_)
    rw [hok]
    decide
  · obtain ⟨folder, hlink, hrow, hst⟩ := h.housed node hnode hne
    refine ⟨folder, by rw [restoreNode_parentId_of_ne _ _ hid]; exact hlink, hrow, ?_⟩
    intro hafter
    refine restoreNode_live_iff.mpr (Or.inl (hst ?_))
    exact (restoreNode_live_iff.mp hafter).resolve_right hid

theorem housed_restoreDirectory {folderId : NodeId}
    {restored : Node} (hrestored : db.folder? folderId = some restored)
    (hcond : RestoreLeavesNoOrphan db folderId)
    (htgt : db.folder? target.id = some target) (hok : target.status = .ok) :
    ∀ node ∈ ((db.mapNodes (restoreOperation restored.statusOperationId)
        (restoreOperation_id _)).mapNodes (restoreNode folderId name target.id)
          (restoreNode_id _ _ _)).nodes,
      node.id ≠ rootDirectoryId → Housed ((db.mapNodes (restoreOperation restored.statusOperationId)
        (restoreOperation_id _)).mapNodes (restoreNode folderId name target.id)
          (restoreNode_id _ _ _)) node := by
  have hrowAfter : ∀ {folder : Node}, db.folder? folder.id = some folder →
      (db.mapNodes (restoreOperation restored.statusOperationId) (restoreOperation_id _)).folder?
        (restoreOperation restored.statusOperationId folder).id =
          some (restoreOperation restored.statusOperationId folder) := by
    intro folder hrow
    rw [restoreOperation_id, folder?_mapNodes (restoreOperation_id _) (restoreOperation_type _), hrow,
      Option.map_some]
  refine housed_mapNodes (restoreNode_id _ _ _) (restoreNode_type _ _ _) ?_
  intro node hnode hne
  obtain ⟨old, hold, rfl⟩ := mem_map.mp hnode
  rw [restoreOperation_id] at hne
  by_cases hid : old.id = folderId
  · refine ⟨restoreOperation restored.statusOperationId target, ?_, hrowAfter htgt, ?_⟩
    · rw [restoreNode_parentId_self _ _ (by rw [restoreOperation_id]; exact hid), restoreOperation_id]
    · intro _
      refine restoreNode_live_iff.mpr (Or.inl (restoreOperation_live_iff.mpr (Or.inl ?_)))
      rw [hok]
      decide
  · obtain ⟨folder, hlink, hrow, hst⟩ := h.housed old hold hne
    have hidAfter : (restoreOperation restored.statusOperationId old).id ≠ folderId := by
      rw [restoreOperation_id]
      exact hid
    refine ⟨restoreOperation restored.statusOperationId folder, ?_, hrowAfter hrow, ?_⟩
    · rw [restoreNode_parentId_of_ne _ _ hidAfter, restoreOperation_parentId, restoreOperation_id]
      exact hlink
    · intro hafter
      rw [restoreNode_live_iff, restoreOperation_live_iff, restoreOperation_id] at hafter ⊢
      by_cases hlive : old.status = .deleted
      · rcases hafter with (hnot | ⟨hany, hop⟩) | heq
        · exact absurd hlive hnot
        · rcases hcond restored hrestored old hold hid hlive hop folder hlink hrow with
            hfol | hfol | hfol
          · exact Or.inl (Or.inl hfol)
          · exact Or.inl (Or.inr ⟨hany, hfol⟩)
          · exact Or.inr hfol
        · exact absurd heq hid
      · exact Or.inl (Or.inl (hst hlive))

variable {request : Request}

theorem LiveParents.targetOutside
    (hcomm : handle db request = .committed code message db') : TargetOutside db request := by
  cases request with
  | moveDirectory actor folderId targetFolderId =>
    obtain ⟨-, folder, target, hfol, htgt, hne, hnot, -⟩ := moveDirectoryChecks_committed hcomm
    obtain ⟨⟨hmem, hid, -⟩, hlive⟩ := liveFolder?_eq_some.mp htgt
    have hfid := folder?_key (folder?_of_liveFolder? hfol)
    have hout := h.not_below_of_isDescendantOf hmem hlive hne hnot
    rw [hid, hfid] at hout
    exact hout
  | restoreDirectory actor folderId targetParentId newName =>
    obtain ⟨-, restored, target, hrestored, hdel, htgt, hok, -⟩ :=
      restoreDirectory_committed hcomm
    intro folder hfol
    rw [hrestored, Option.some.injEq] at hfol
    rw [← hfol]
    obtain ⟨hmem, hid, -⟩ := folder?_eq_some.mp htgt
    obtain ⟨hrmem, hrid, hrtype⟩ := folder?_eq_some.mp hrestored
    have hout := h.not_below_of_deleted hmem (by rw [hok]; decide)
      (folder?_eq_some.mpr ⟨hrmem, rfl, hrtype⟩) hdel
    rw [hid, hrid] at hout
    exact hout
  | _ => trivial

/-- **An accepted request that leaves no orphan keeps live nodes in live folders.** -/
theorem handle_liveParents (hcond : LeavesNoOrphan db request)
    (hcomm : handle db request = .committed code message db') : LiveParents db' := by
  refine ⟨handle_isTree h.tree (h.targetOutside hcomm) hcomm, ?_⟩
  cases request with
  | createDirectory actor parentId name inheritParent submitted newId =>
    obtain ⟨parent, node, hpar, -, -, hlink, -, -, hnodes⟩ := createDirectory_committed hcomm
    exact housed_insert h hpar hlink hnodes
  | moveDirectory actor folderId targetFolderId =>
    obtain ⟨-, folder, target, -, htgt, -, -, hmove⟩ := moveDirectoryChecks_committed hcomm
    obtain ⟨-, -, -, -, rfl⟩ := moveCommit_committed hmove
    exact housed_setParent h htgt
  | deleteDirectory actor folderId opId =>
    obtain ⟨-, root, analysis, hroot, han, rfl⟩ := deleteDirectory_committed hcomm
    obtain ⟨⟨-, -, -⟩, hlive⟩ := liveFolder?_eq_some.mp hroot
    have hrow := folder?_of_liveFolder? hroot
    obtain ⟨result, hres, hspec⟩ := fetchSubtreeForDeletion_spec actor.user actor.now
      h.tree.acyclic hrow (isLoadedFolder_root hrow (Or.inr (Node.notDeleted_iff.mpr hlive)))
    rw [han] at hres
    cases hres
    refine housed_markDeleted h opId ?_
    intro node hnode hnlive folder hlink hfol hmarked
    exact marked_of_folder_marked h hspec hcond hroot hnode hnlive hlink hfol hmarked
  | restoreDirectory actor folderId targetParentId newName =>
    obtain ⟨-, restored, target, hrestored, -, htgt, hok, rfl⟩ := restoreDirectory_committed hcomm
    rw [← folder?_key htgt] at htgt
    exact housed_restoreDirectory h hrestored hcond htgt hok
  | purgeDirectory actor folderId =>
    obtain ⟨-, -, -, -, rfl⟩ := purgeDirectory_eq_committed.mp hcomm
    refine housed_removeNodes h ?_
    intro folder _ htype hgone node hnode hlink
    exact purgedWith_of_parent htype hgone hnode hlink
  | createDocument actor folderId title inheritParent limitAllows submitted newId revId fileId =>
    obtain ⟨folder, node, hfol, -, -, hlink, -, -, hnodes⟩ := createDocument_committed hcomm
    exact housed_insert h hfol hlink hnodes
  | moveDocument actor docId targetFolderId =>
    obtain ⟨document, target, -, htgt, rfl⟩ := moveDocument_committed hcomm
    exact housed_setParent h htgt
  | deleteDocument actor docId opId =>
    obtain ⟨document, hdocument, rfl⟩ := deleteDocument_committed hcomm
    obtain ⟨⟨hmem, hid, htype⟩, -⟩ := liveDocument?_eq_some.mp hdocument
    refine housed_markDeleted h opId ?_
    intro node _ _ folder _ hfol hmarked
    obtain ⟨hfmem, -, hftype⟩ := folder?_eq_some.mp hfol
    rw [mem_singleton, ← hid] at hmarked
    rw [eq_of_id_eq hfmem hmem hmarked, htype] at hftype
    cases hftype
  | restoreDocument actor docId targetFolderId newTitle =>
    obtain ⟨document, target, -, htgt, hok, rfl⟩ := restoreDocument_committed hcomm
    exact housed_restoreNode h htgt hok
  | purgeDocument actor docId =>
    obtain ⟨document, hdocument, rfl⟩ := purgeDocument_committed hcomm
    obtain ⟨hmem, hid, htype⟩ := document?_eq_some.mp hdocument
    refine housed_removeNodes h ?_
    intro folder hfol hftype hgone
    rw [beq_iff_eq, ← hid] at hgone
    rw [eq_of_id_eq hfol hmem hgone, htype] at hftype
    cases hftype

end

/-! ### Runs -/

inductive Turn
  | request (request : Request)
  /-- Any other change: rules, grants, blocks, names, revisions, files. -/
  | update (db : Database)

/-- The columns the requests on documents and directories own. -/
def lifecycle (node : Node) : NodeId × NodeType × Option NodeId × EntityStatus × Option String :=
  (node.id, node.type, node.parentId, node.status, node.statusOperationId)

/-- One accepted request, or a change that leaves place and status of every node alone. -/
def turn : Turn → Option Database
  | .request request => (handle db request).database?
  | .update db' => if db'.nodes.map lifecycle = db.nodes.map lifecycle then some db' else none

/-- The condition on a turn, in the state it meets. -/
def TurnLeavesNoOrphan : Turn → Prop
  | .request request => LeavesNoOrphan db request
  | .update _ => True

structure LiveTree : Prop where
  tree : IsTree db
  live : ∀ node ∈ db.nodes, node.status ≠ .deleted
  placed : ∀ node ∈ db.nodes, node.id ≠ rootDirectoryId →
    ∃ folder ∈ db.folders, node.parentId = some folder.id

section

variable {db db' : Database}

theorem LiveTree.liveParents (h : LiveTree db) : LiveParents db := by
  refine ⟨h.tree, ?_⟩
  intro node hnode hne
  obtain ⟨folder, hfol, hlink⟩ := h.placed node hnode hne
  obtain ⟨hmem, htype⟩ := mem_folders.mp hfol
  exact ⟨folder, hlink, folder?_eq_some.mpr ⟨hmem, rfl, htype⟩, fun _ => h.live folder hmem⟩

theorem LiveParents.of_lifecycle (h : LiveParents db)
    (hsame : db'.nodes.map lifecycle = db.nodes.map lifecycle) : LiveParents db' := by
  have hplacement : db'.nodes.map placement = db.nodes.map placement := by
    have hcongr := congrArg (map fun l => (l.1, l.2.1, l.2.2.1)) hsame
    rw [map_map, map_map] at hcongr
    exact hcongr
  have hrow : ∀ {a b : Database}, a.nodes.map lifecycle = b.nodes.map lifecycle →
      ∀ node ∈ a.nodes, ∃ other ∈ b.nodes, lifecycle other = lifecycle node := by
    intro a b hab node hnode
    have hmem : lifecycle node ∈ b.nodes.map lifecycle := by
      rw [← hab]
      exact mem_map_of_mem hnode
    exact mem_map.mp hmem
  refine ⟨h.tree.of_placement hplacement, ?_⟩
  intro node hnode hne
  obtain ⟨old, hold, holdRow⟩ := hrow hsame node hnode
  simp only [lifecycle, Prod.mk.injEq] at holdRow
  obtain ⟨hid, -, hpar, hst, -⟩ := holdRow
  obtain ⟨folder, hlink, hfol, hlive⟩ := h.housed old hold (by rw [hid]; exact hne)
  obtain ⟨hfmem, -, hftype⟩ := folder?_eq_some.mp hfol
  obtain ⟨above, habove, haboveRow⟩ := hrow hsame.symm folder hfmem
  simp only [lifecycle, Prod.mk.injEq] at haboveRow
  obtain ⟨haid, hatype, -, hastatus, -⟩ := haboveRow
  refine ⟨above, ?_, folder?_eq_some.mpr ⟨habove, rfl, hatype.trans hftype⟩, ?_⟩
  · rw [← hpar, hlink, haid]
  · rw [← hst, hastatus]
    exact hlive

theorem turn_liveParents {t : Turn} (h : LiveParents db) (hcond : TurnLeavesNoOrphan db t)
    (hturn : turn db t = some db') : LiveParents db' := by
  cases t with
  | request request =>
    obtain ⟨code, message, hcomm⟩ := Outcome.database?_eq_some.mp hturn
    exact handle_liveParents h hcond hcomm
  | update after =>
    rw [turn] at hturn
    split at hturn
    · rename_i hsame
      cases hturn
      exact h.of_lifecycle hsame
    · cases hturn

/-- **No live node hangs under a deleted folder** after any run from a tree of live nodes in which
the directory deletions and restores leave no orphan. -/
theorem live_nodes_stand_in_live_folders {initial : Database} {turns : List Turn}
    (hinit : LiveTree initial) (hmeets : Meets turn TurnLeavesNoOrphan initial turns)
    (hrun : run turn initial turns = some db) :
    ∀ node ∈ db.nodes, node.id ≠ rootDirectoryId → node.status ≠ .deleted →
      ∃ folder, node.parentId = some folder.id ∧ db.liveFolder? folder.id = some folder := by
  have hpars : LiveParents db := by
    refine run_invariant ?_ hinit.liveParents hmeets hrun
    intro before t after hbef hcond hturn
    exact turn_liveParents hbef hcond hturn
  intro node hnode hne hlive
  obtain ⟨folder, hlink, hfol, hst⟩ := hpars.housed node hnode hne
  obtain ⟨hmem, -, htype⟩ := folder?_eq_some.mp hfol
  exact ⟨folder, hlink, liveFolder?_eq_some.mpr ⟨⟨hmem, rfl, htype⟩, hst hlive⟩⟩

end

/-! ### A document left behind -/

def author : Actor :=
  ⟨⟨"author", ["create_directory", "create_document", "delete_directory", "delete_document"], []⟩, 1,
    true⟩

/-- A user who may delete directories and not documents. -/
def tidier : Actor := ⟨⟨"tidier", ["delete_directory"], []⟩, 1, true⟩

/-- The folder `f` holds the folder `s`, and `s` a document whose file has not been uploaded. -/
def unfinishedUpload : List Turn :=
  [.request (.createDirectory author none "f" true noRules "f"),
    .request (.createDirectory author (some "f") "s" true noRules "s"),
    .request (.createDocument author (some "s") "d" true true noRules "d" "r" "x")]

def orphans : List Node :=
  db.nodes.filter fun node => node.id != rootDirectoryId && node.notDeleted &&
    (node.parentId.bind db.liveFolder?).isNone

theorem mem_orphans {db : Database} {node : Node} :
    node ∈ orphans db ↔ node ∈ db.nodes ∧ node.id ≠ rootDirectoryId ∧ node.status ≠ .deleted ∧
      ¬ ∃ folder, node.parentId = some folder.id ∧ db.liveFolder? folder.id = some folder := by
  have hkey : ∀ {id : NodeId} {folder : Node}, db.liveFolder? id = some folder → folder.id = id :=
    fun h => folder?_key (folder?_of_liveFolder? h)
  rw [orphans, mem_filter, Bool.and_eq_true, Bool.and_eq_true, bne_iff_ne, Node.notDeleted_iff,
    and_assoc, Option.isNone_iff_eq_none, Option.bind_eq_none_iff]
  refine and_congr_right fun _ => and_congr_right fun _ => and_congr_right fun _ => ?_
  constructor
  · rintro hnone ⟨folder, hlink, hfol⟩
    rw [hnone folder.id hlink] at hfol
    cases hfol
  · intro hnot id hlink
    cases hfol : db.liveFolder? id with
    | none => rfl
    | some folder =>
      refine absurd ⟨folder, ?_, ?_⟩ hnot
      · rw [hlink, hkey hfol]
      · rw [hkey hfol]
        exact hfol

theorem liveTree_rootOnlyState : LiveTree rootOnlyState.db := by
  refine ⟨IsTree.of_rootOnly ⟨rfl, _, rfl, rfl, rfl, rfl⟩, by decide, ?_⟩
  intro node hnode hne
  exact absurd (by rw [mem_singleton.mp hnode]; rfl) hne

theorem orphans_after_deletion : (run turn rootOnlyState.db (unfinishedUpload ++
      [.request (.deleteDirectory tidier "f" "op")])).map (fun db => (orphans db).map Node.id) =
        some ["d"] := by
  decide

/-- The deletion of `f` marks `s` and leaves the document `d` in it live. -/
theorem deletion_leaves_document_behind :
    LiveTree rootOnlyState.db ∧ ∃ db, run turn rootOnlyState.db (unfinishedUpload ++
        [.request (.deleteDirectory tidier "f" "op")]) = some db ∧
      ∃ node ∈ db.nodes, node.id ≠ rootDirectoryId ∧ node.status ≠ .deleted ∧
        ¬ ∃ folder, node.parentId = some folder.id ∧ db.liveFolder? folder.id = some folder := by
  refine ⟨liveTree_rootOnlyState, ?_⟩
  obtain ⟨db, hrun, horphans⟩ := Option.map_eq_some_iff.mp orphans_after_deletion
  refine ⟨db, hrun, ?_⟩
  obtain ⟨node, hnode, -⟩ : ∃ node ∈ orphans db, node.id = "d" := by
    rw [← mem_map, horphans]
    exact mem_singleton_self "d"
  exact ⟨node, mem_orphans.mp hnode⟩

/-- Nothing the analysis looks at is locked or fails its check. -/
def nothingStaysBehind (folderId : NodeId) : Bool :=
  db.nodes.all fun item => item.status == .ok && (item.type == .directory ||
    selfDeletable db (deletionContext db actor folderId) actor.user "delete_document" item)

theorem nothingStaysBehind_author :
    (run turn rootOnlyState.db unfinishedUpload).map (nothingStaysBehind · author "f") =
      some true := by
  decide

/-- A user who may delete both deletes `f` with everything in it. -/
theorem live_nodes_stand_in_live_folders_after_full_deletion :
    ∃ db, run turn rootOnlyState.db (unfinishedUpload ++
        [.request (.deleteDirectory author "f" "op")]) = some db ∧
      (db.nodes.filter Node.notDeleted).map Node.id = ["/"] ∧
      ∀ node ∈ db.nodes, node.id ≠ rootDirectoryId → node.status ≠ .deleted →
        ∃ folder, node.parentId = some folder.id ∧ db.liveFolder? folder.id = some folder := by
  have hafter : (run turn rootOnlyState.db (unfinishedUpload ++
      [.request (.deleteDirectory author "f" "op")])).map
        (fun db => (db.nodes.filter Node.notDeleted).map Node.id) = some ["/"] := by decide
  obtain ⟨db, hrun, hlive⟩ := Option.map_eq_some_iff.mp hafter
  refine ⟨db, hrun, hlive, live_nodes_stand_in_live_folders liveTree_rootOnlyState ?_ hrun⟩
  rw [meets_append]
  refine ⟨⟨trivial, fun _ _ => ⟨trivial, fun _ _ => ⟨trivial, fun _ _ => trivial⟩⟩⟩, ?_⟩
  intro before hbef
  refine ⟨?_, fun _ _ => trivial⟩
  have hnone := nothingStaysBehind_author
  rw [hbef, Option.map_some, Option.some.injEq, nothingStaysBehind, all_eq_true] at hnone
  intro item hitem _ hstays
  have hpass := hnone item hitem
  simp only [Bool.and_eq_true, Bool.or_eq_true, beq_iff_eq] at hpass
  rcases hstays with ⟨htype, hnot⟩ | ⟨-, hlock⟩
  · rcases hpass.2 with hdir | hself
    · rw [htype] at hdir
      cases hdir
    · exact absurd ⟨hpass.1, hself⟩ hnot
  · rw [hpass.1] at hlock
    cases hlock

end Cfms.Documents
