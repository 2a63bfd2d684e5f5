import Cfms.Documents.BulkDeletion
import Cfms.Documents.Handlers

/-!
# What a directory purge removes

A purge that commits removes everything below the folder, by the ORM or by database cascades.
The handler stops only on reported failures, and a failure is reported only when the user can read
the folder around the item.  A second stop is the foreign key of the revisions: a document that
only a cascade removes must have none left.  Between the two lies the gap that
`purge_removes_only_deletable_iff` describes.
-/

namespace Cfms.Documents

open Access Lib.Climb Lib.Forest Lib.LeafOrder Lib.RecursiveQuery List Database

section

variable {db : Database} {folderId : NodeId} {folder node : Node} {user : User} {now : Instant}

theorem mem_nodes_of_cascade (h : Derivable (cascadeNext db)
    (db.nodes.filter fun child => child.parentId == some folderId) node) : node ∈ db.nodes := by
  cases h with
  | anchor hmem => exact (mem_filter.mp hmem).1
  | @next above _ _ hmem =>
    unfold cascadeNext at hmem
    split at hmem
    · exact (mem_filter.mp hmem).1
    · cases hmem

theorem mem_cascadeBelow_iff : node ∈ cascadeBelow db folderId ↔ Derivable (cascadeNext db)
    (db.nodes.filter fun child => child.parentId == some folderId) node :=
  mem_recursiveRows_iff (fun _ => mem_nodes_of_cascade) (Nat.le_succ _)

theorem mem_cascadeNext {above : Node} : node ∈ cascadeNext db above ↔
      above.type = .directory ∧ node ∈ db.nodes ∧ node.parentId = some above.id := by
  unfold cascadeNext
  split
  · rename_i htype
    rw [Node.isFolder_iff] at htype
    rw [mem_filter, beq_iff_eq]
    exact ⟨fun h => ⟨htype, h⟩, fun h => h.2⟩
  · rename_i htype
    rw [Node.isFolder_iff] at htype
    exact ⟨fun h => absurd h (not_mem_nil), fun h => absurd h.1 htype⟩

theorem depth_lt_of_cascade (hdb : db.Acyclic) (h : Derivable (cascadeNext db)
    (db.nodes.filter fun child => child.parentId == some folderId) node)
    (htype : node.type = .directory) : depth db folderId < depth db node.id := by
  induction h with
  | @anchor node hmem =>
    obtain ⟨hnode, hpar⟩ := mem_filter.mp hmem
    rw [depth_parent hdb (folder?_eq_some.mpr ⟨hnode, rfl, htype⟩) (by simpa using hpar)]
    omega
  | @next above node _ hmem ih =>
    obtain ⟨habove, hnode, hpar⟩ := mem_cascadeNext.mp hmem
    have hlt := ih habove
    rw [depth_parent hdb (folder?_eq_some.mpr ⟨hnode, rfl, htype⟩) hpar]
    omega

theorem isLoadedFolder_of_cascade (hfol : db.folder? folderId = some folder)
    (h : Derivable (cascadeNext db)
      (db.nodes.filter fun child => child.parentId == some folderId) node)
    (htype : node.type = .directory) :
    Derivable (subtreeNext db true) (db.folders.filter fun f => f.id == folderId) node := by
  obtain ⟨hmem, hid, hdir⟩ := folder?_eq_some.mp hfol
  induction h with
  | @anchor node hanch =>
    obtain ⟨hnode, hpar⟩ := mem_filter.mp hanch
    refine Derivable.next (Derivable.anchor (mem_filter.mpr
      ⟨mem_folders.mpr ⟨hmem, hdir⟩, by simpa using hid⟩)) ?_
    refine mem_filter.mpr ⟨mem_folders.mpr ⟨hnode, htype⟩, ?_⟩
    rw [hid, hpar]
    rfl
  | @next above node _ hnext ih =>
    obtain ⟨habove, hnode, hpar⟩ := mem_cascadeNext.mp hnext
    refine Derivable.next (ih habove) (mem_filter.mpr ⟨mem_folders.mpr ⟨hnode, htype⟩, ?_⟩)
    rw [hpar]
    simp

theorem cascade_of_subtree (h : Derivable (subtreeNext db true)
    (db.folders.filter fun f => f.id == folderId) node) :
    node.id = folderId ∨ Derivable (cascadeNext db)
      (db.nodes.filter fun child => child.parentId == some folderId) node := by
  induction h with
  | anchor hmem => exact Or.inl (by simpa using (mem_filter.mp hmem).2)
  | @next above node habove hnext ih =>
    obtain ⟨hnode, hstep⟩ := mem_filter.mp hnext
    rw [Bool.and_eq_true, beq_iff_eq] at hstep
    obtain ⟨hmem, -⟩ := mem_folders.mp hnode
    refine Or.inr ?_
    rcases ih with hid | hcasc
    · refine Derivable.anchor (mem_filter.mpr ⟨hmem, ?_⟩)
      rw [hstep.1, hid]
      simp
    · exact Derivable.next hcasc (mem_cascadeNext.mpr
        ⟨(mem_folders.mp (mem_folders_of_subtree habove)).2, hmem, hstep.1⟩)

theorem isLoadedFolder_true_iff (hfol : db.folder? folderId = some folder)
    (hnode : node ∈ db.folders) :
    isLoadedFolder db folderId true node = true ↔
      node.id = folderId ∨ node ∈ cascadeBelow db folderId := by
  obtain ⟨hmem, htype⟩ := mem_folders.mp hnode
  rw [isLoadedFolder, Bool.true_or, Bool.and_true, contains_iff_mem, mem_allFolderIdsToLoad,
    mem_cascadeBelow_iff]
  constructor
  · rintro (hid | ⟨row, hrow, hid⟩)
    · exact Or.inl hid
    · obtain rfl := eq_of_id_eq (mem_folders.mp (mem_folders_of_subtree hrow)).1
        hmem hid
      exact cascade_of_subtree hrow
  · rintro (hid | hcasc)
    · exact Or.inl hid
    · exact Or.inr ⟨node, isLoadedFolder_of_cascade hfol hcasc htype, rfl⟩

/-- **What lies below a folder is what the analysis looks at.** -/
theorem mem_cascadeBelow (hdb : db.Acyclic) (hfol : db.folder? folderId = some folder) :
    node ∈ cascadeBelow db folderId ↔ node ∈ (loadSubtree db folderId user now true).documents ∨
        node ∈ checkedFolders (loadSubtree db folderId user now true) folderId := by
  rw [mem_loadSubtree_documents, mem_checkedFolders, mem_loadSubtree_folders]
  constructor
  · intro hbelow
    have hcasc := mem_cascadeBelow_iff.mp hbelow
    have hnode := mem_nodes_of_cascade hcasc
    cases htype : node.type with
    | directory =>
      have hmem := mem_folders.mpr ⟨hnode, htype⟩
      have hlt := depth_lt_of_cascade hdb hcasc htype
      refine Or.inr ⟨⟨hmem, (isLoadedFolder_true_iff hfol hmem).mpr (Or.inr hbelow)⟩, ?_⟩
      intro hid
      rw [hid] at hlt
      omega
    | document =>
      refine Or.inl ⟨mem_documents.mpr ⟨hnode, htype⟩, ?_, rfl⟩
      obtain ⟨hmem, hid, hdir⟩ := folder?_eq_some.mp hfol
      cases hcasc with
      | anchor hanch =>
        have hpar := (mem_filter.mp hanch).2
        exact ⟨folderId, folder, by simpa using hpar, hfol,
          (isLoadedFolder_true_iff hfol (mem_folders.mpr ⟨hmem, hdir⟩)).mpr (Or.inl hid)⟩
      | @next above _ habove hnext =>
        obtain ⟨haboveType, -, hpar⟩ := mem_cascadeNext.mp hnext
        have haboveMem := mem_nodes_of_cascade habove
        exact ⟨above.id, above, hpar, folder?_eq_some.mpr ⟨haboveMem, rfl, haboveType⟩,
          (isLoadedFolder_true_iff hfol (mem_folders.mpr ⟨haboveMem, haboveType⟩)).mpr
            (Or.inr (mem_cascadeBelow_iff.mpr habove))⟩
  · rintro (⟨hdoc, ⟨parentId, container, hpar, hcontr, hload⟩, -⟩ | ⟨⟨hmem, hload⟩, hne⟩)
    · obtain ⟨hcmem, rfl, hctype⟩ := folder?_eq_some.mp hcontr
      have hdocMem := (mem_documents.mp hdoc).1
      rw [mem_cascadeBelow_iff]
      rcases (isLoadedFolder_true_iff hfol (mem_folders.mpr ⟨hcmem, hctype⟩)).mp hload
        with hid | hbelow
      · refine Derivable.anchor (mem_filter.mpr ⟨hdocMem, ?_⟩)
        rw [hpar, hid]
        simp
      · exact Derivable.next (mem_cascadeBelow_iff.mp hbelow)
          (mem_cascadeNext.mpr ⟨hctype, hdocMem, hpar⟩)
    · rcases (isLoadedFolder_true_iff hfol hmem).mp hload with hid | hbelow
      · exact absurd hid hne
      · exact hbelow

end

/-! ### The gap -/

variable (db : Database) (actor : Actor)

/-- The purge gets past its guards. -/
def PurgeAdmitted (folderId : NodeId) : Prop :=
  folderId ≠ rootDirectoryId ∧ actor.holds "purge" = true ∧ ∃ folder,
    db.folder? folderId = some folder ∧ folder.status = .deleted ∧
      actor.allows db folder .write = .ok true

def FailsBelow (folderId : NodeId) (item : Node) : Prop :=
  (item ∈ (loadSubtree db folderId actor.user actor.now true).documents ∧
      selfDeletable db (loadSubtree db folderId actor.user actor.now true) actor.user
        "delete_document" item = false) ∨
    (item ∈ checkedFolders (loadSubtree db folderId actor.user actor.now true) folderId ∧
      selfDeletable db (loadSubtree db folderId actor.user actor.now true) actor.user
        "delete_directory" item = false)

/-- No foreign key of a revision stops the cascade, after what may be deleted has been deleted. -/
def CascadePasses (folderId : NodeId) : Prop :=
  ∀ removed : NodeId → Bool,
    (∀ node ∈ db.nodes, removed node.id = true ↔
      BulkDeletable db folderId actor.user actor.now true node) →
    revisionsRemain db folderId removed removed = false

/-- Items fail below the folder, all of them in folders that the user cannot read, and no foreign
key of a revision stops the cascade. -/
def UnreportedFailure (folderId : NodeId) : Prop :=
  (∃ item, FailsBelow db actor folderId item) ∧
    (∀ item, FailsBelow db actor folderId item →
      containerReadable db (loadSubtree db folderId actor.user actor.now true) actor.user item =
        false) ∧
    CascadePasses db actor folderId

section

variable {db : Database} {actor : Actor} {folderId : NodeId} {folder node : Node}
  {analysis : SubtreeAnalysis}

theorem failedItems_eq_nil_iff (hspec : SubtreeSpec db
    (loadSubtree db folderId actor.user actor.now true) folderId actor.user true analysis) :
    analysis.failedItems = [] ↔ ∀ item, FailsBelow db actor folderId item →
      containerReadable db (loadSubtree db folderId actor.user actor.now true) actor.user item =
        false := by
  rw [hspec.failedItems_eq_nil]
  constructor
  · rintro ⟨hdocs, hfols⟩ item (⟨hmem, hself⟩ | ⟨hmem, hself⟩)
    · exact hdocs item (mem_checkedDocuments.mpr ⟨hmem, rfl⟩) hself
    · exact hfols item hmem hself
  · intro h
    refine ⟨?_, ?_⟩
    · intro doc hdoc hself
      exact h doc (Or.inl ⟨(mem_checkedDocuments.mp hdoc).1, hself⟩)
    · intro f hf hself
      exact h f (Or.inr ⟨hf, hself⟩)

theorem revisionsRemain_congr {removed purged removed' : NodeId → Bool}
    (hfols : ∀ folder ∈ db.folders, removed folder.id = removed' folder.id)
    (hdocs : ∀ doc ∈ db.documents, purged doc.id = removed' doc.id) :
    revisionsRemain db folderId removed purged = revisionsRemain db folderId removed' removed' := by
  have hload : ormLoadedFolders db folderId removed = ormLoadedFolders db folderId removed' := by
    unfold ormLoadedFolders
    congr 1
    funext row
    exact filter_congr fun child hchild => by rw [hfols child hchild]
  unfold revisionsRemain
  rw [Bool.eq_iff_iff, any_eq_true, any_eq_true]
  refine exists_congr fun doc => and_congr_right fun hdoc => ?_
  unfold ormDeletes
  rw [hload]
  cases htype : doc.isDocument with
  | false => rfl
  | true =>
    rw [hdocs doc (mem_filter.mpr ⟨mem_nodes_of_cascade (mem_cascadeBelow_iff.mp hdoc), htype⟩)]

theorem folder_id_ne_document_id {doc : Node} (hfol : folder ∈ db.folders) (hdoc : doc ∈ db.documents) :
    folder.id ≠ doc.id := by
  intro hid
  have hdirType := (mem_folders.mp hfol).2
  rw [eq_of_id_eq (mem_folders.mp hfol).1 (mem_documents.mp hdoc).1 hid,
    (mem_documents.mp hdoc).2] at hdirType
  cases hdirType

/-- The sets of the analysis are those of the items that may be deleted. -/
theorem cascadePasses_iff (hspec : SubtreeSpec db
    (loadSubtree db folderId actor.user actor.now true) folderId actor.user true analysis) :
    CascadePasses db actor folderId ↔
      revisionsRemain db folderId (analysis.deletableFolderIds.contains ·)
        (analysis.deletableDocIds.contains ·) = false := by
  have hdocs : ∀ doc ∈ db.documents, analysis.deletableDocIds.contains doc.id = true ↔
      BulkDeletable db folderId actor.user actor.now true doc := by
    intro doc hdoc
    rw [← mem_deletable_iff hspec (mem_documents.mp hdoc).1, contains_iff_mem]
    refine (or_iff_left fun hmem => ?_).symm
    obtain ⟨⟨row, hrow, hid⟩, -⟩ := (hspec.mem_deletableFolderIds _).mp hmem
    exact folder_id_ne_document_id (mem_loadSubtree_folders.mp (mem_checkedFolders.mp hrow).1).1 hdoc
      hid
  have hfols : ∀ row ∈ db.folders, analysis.deletableFolderIds.contains row.id = true ↔
      BulkDeletable db folderId actor.user actor.now true row := by
    intro row hrow
    rw [← mem_deletable_iff hspec (mem_folders.mp hrow).1, contains_iff_mem]
    refine (or_iff_right fun hmem => ?_).symm
    obtain ⟨doc, hdoc, hid, -⟩ := (hspec.mem_deletableDocIds _).mp hmem
    exact folder_id_ne_document_id hrow
      (mem_loadSubtree_documents.mp (mem_checkedDocuments.mp hdoc).1).1 hid.symm
  have hcongr : ∀ removed : NodeId → Bool,
      (∀ node ∈ db.nodes, removed node.id = true ↔
        BulkDeletable db folderId actor.user actor.now true node) →
      revisionsRemain db folderId (analysis.deletableFolderIds.contains ·)
        (analysis.deletableDocIds.contains ·) = revisionsRemain db folderId removed removed := by
    intro removed hrem
    refine revisionsRemain_congr (fun row hrow => ?_) fun doc hdoc => ?_
    · rw [Bool.eq_iff_iff, hfols row hrow, hrem row (mem_folders.mp hrow).1]
    · rw [Bool.eq_iff_iff, hdocs doc hdoc, hrem doc (mem_documents.mp hdoc).1]
  constructor
  · intro h
    have hboth : ∀ node ∈ db.nodes,
        (analysis.deletableDocIds.contains node.id || analysis.deletableFolderIds.contains node.id) =
          true ↔ BulkDeletable db folderId actor.user actor.now true node := by
      intro node hnode
      rw [Bool.or_eq_true, contains_iff_mem, contains_iff_mem, mem_deletable_iff hspec hnode]
    exact (hcongr (fun id => analysis.deletableDocIds.contains id ||
      analysis.deletableFolderIds.contains id) hboth).trans (h _ hboth)
  · intro h removed hrem
    exact (hcongr removed hrem).symm.trans h

theorem not_bulkDeletable_of_fails (h : FailsBelow db actor folderId node) :
    ¬ BulkDeletable db folderId actor.user actor.now true node := by
  have htypes : ∀ n, n ∈ (loadSubtree db folderId actor.user actor.now true).documents →
      n ∈ checkedFolders (loadSubtree db folderId actor.user actor.now true) folderId → False := by
    intro n hdoc hfol
    exact folder_id_ne_document_id (mem_loadSubtree_folders.mp (mem_checkedFolders.mp hfol).1).1
      (mem_loadSubtree_documents.mp hdoc).1 rfl
  rcases h with ⟨hmem, hself⟩ | ⟨hmem, hself⟩
  · rintro (⟨-, hpass⟩ | ⟨hfol, -⟩)
    · rw [hself] at hpass
      cases hpass
    · exact htypes node hmem hfol
  · rintro (⟨hdoc, -⟩ | ⟨-, hnone⟩)
    · exact htypes node (mem_checkedDocuments.mp hdoc).1 hmem
    · obtain ⟨hload, hne⟩ := mem_checkedFolders.mp hmem
      exact hnone ⟨node, hload, Relation.ReflTransGen.refl, Or.inl ⟨hne, hself⟩⟩

theorem bulkDeletable_of_no_failure (hnone : ∀ item, ¬ FailsBelow db actor folderId item)
    (hnode : node ∈ (loadSubtree db folderId actor.user actor.now true).documents ∨
      node ∈ checkedFolders (loadSubtree db folderId actor.user actor.now true) folderId) :
    BulkDeletable db folderId actor.user actor.now true node := by
  have hdocs : ∀ doc ∈ (loadSubtree db folderId actor.user actor.now true).documents,
      selfDeletable db (loadSubtree db folderId actor.user actor.now true) actor.user
        "delete_document" doc = true := by
    intro doc hdoc
    by_contra hself
    exact hnone doc (Or.inl ⟨hdoc, by simpa using hself⟩)
  rcases hnode with hdoc | hfol
  · exact Or.inl ⟨mem_checkedDocuments.mpr ⟨hdoc, rfl⟩, hdocs node hdoc⟩
  refine Or.inr ⟨hfol, ?_⟩
  rintro ⟨g, hg, -, ⟨hne, hself⟩ | ⟨doc, hdoc, -, -, hnot⟩⟩
  · exact hnone g (Or.inr ⟨mem_checkedFolders.mpr ⟨hg, hne⟩, hself⟩)
  · exact hnot ⟨mem_checkedDocuments.mpr ⟨hdoc, rfl⟩, hdocs doc hdoc⟩

theorem not_mem_removeNodes_purgedWith (hnode : node ∈ db.nodes) (hne : node.id ≠ folderId) :
    node ∉ (db.removeNodes (purgedWith db folderId)).nodes ↔ node ∈ cascadeBelow db folderId := by
  have hid : (node.id == folderId) = false := by simpa using hne
  show node ∉ db.nodes.filter _ ↔ _
  rw [mem_filter, purgedWith, hid, Bool.false_or, Bool.not_eq_true', ← Bool.not_eq_true,
    contains_iff_mem, not_and, not_not]
  exact ⟨fun h => h hnode, fun h _ => h⟩

/-- **A purge removes only what its caller may delete, exactly when it is refused or no failure
below goes unreported.** -/
theorem purge_removes_only_deletable_iff (hdb : db.Acyclic) :
    (∀ code message db', purgeDirectory db actor folderId = .committed code message db' →
        ∀ node ∈ db.nodes, node ∉ db'.nodes → node.id ≠ folderId → ∃ analysis,
          fetchSubtreeForDeletion db folderId actor.user actor.now true = .ok analysis ∧
            (node.id ∈ analysis.deletableDocIds ∨ node.id ∈ analysis.deletableFolderIds)) ↔
      ¬(PurgeAdmitted db actor folderId ∧ UnreportedFailure db actor folderId) := by
  constructor
  · rintro hproperty ⟨hadm, ⟨item, hfails⟩, hunreadable, hpasses⟩
    obtain ⟨-, -, folder, hfol, -, -⟩ := id hadm
    obtain ⟨analysis, han, hspec⟩ := fetchSubtreeForDeletion_spec actor.user actor.now hdb hfol
      (isLoadedFolder_root hfol (Or.inl rfl))
    have hcomm := purgeDirectory_eq_committed.mpr ⟨hadm, ⟨analysis, han,
      (failedItems_eq_nil_iff hspec).mpr hunreadable, (cascadePasses_iff hspec).mp hpasses⟩,
      rfl, rfl, rfl⟩
    -- the failing item lies below the folder, so the purge removes it
    have hbelow : item ∈ cascadeBelow db folderId := by
      rw [mem_cascadeBelow hdb hfol]
      exact hfails.imp And.left And.left
    have hnode := mem_nodes_of_cascade (mem_cascadeBelow_iff.mp hbelow)
    have hne : item.id ≠ folderId := by
      intro hid
      rcases hfails with ⟨hdoc, -⟩ | ⟨hcheck, -⟩
      · obtain ⟨hfmem, hfid, hftype⟩ := folder?_eq_some.mp hfol
        exact folder_id_ne_document_id (mem_folders.mpr ⟨hfmem, hftype⟩)
          (mem_loadSubtree_documents.mp hdoc).1 (hfid.trans hid.symm)
      · exact (mem_checkedFolders.mp hcheck).2 hid
    obtain ⟨other, hother, hdel⟩ := hproperty _ _ _ hcomm item hnode
      ((not_mem_removeNodes_purgedWith hnode hne).mpr hbelow) hne
    rw [han] at hother
    cases hother
    exact not_bulkDeletable_of_fails hfails ((mem_deletable_iff hspec hnode).mp hdel)
  · intro hnot code message db' hcomm node hnode hgone hne
    obtain ⟨hadm, ⟨analysis, han, hfail, hremain⟩, -, -, rfl⟩ :=
      purgeDirectory_eq_committed.mp hcomm
    obtain ⟨-, -, folder, hfol, -, -⟩ := id hadm
    obtain ⟨result, hres, hspec⟩ := fetchSubtreeForDeletion_spec actor.user actor.now hdb hfol
      (isLoadedFolder_root hfol (Or.inl rfl))
    rw [han] at hres
    cases hres
    have hnone : ∀ item, ¬ FailsBelow db actor folderId item := by
      intro item hfails
      exact hnot ⟨hadm, ⟨item, hfails⟩, (failedItems_eq_nil_iff hspec).mp hfail,
        (cascadePasses_iff hspec).mpr hremain⟩
    have hbelow := (not_mem_removeNodes_purgedWith hnode hne).mp hgone
    refine ⟨analysis, han, (mem_deletable_iff hspec hnode).mpr ?_⟩
    exact bulkDeletable_of_no_failure hnone ((mem_cascadeBelow hdb hfol).mp hbelow)

end

/-! ### A purge through an unreadable folder -/

/-- The deleted folder `f` grants `cleaner` write access and asks readers for the group `staff`;
the deleted folder `s` stands in it. -/
def unreadableFolderDatabase : Database where
  nodes := [{ id := "/", type := .directory, name := "/", parentId := none },
    { id := "f", type := .directory, name := "f", parentId := some "/", status := .deleted,
      accessRuleSetId := some "r" },
    { id := "s", type := .directory, name := "s", parentId := some "f", status := .deleted }]
  nodeIds_nodup := by decide
  nodeIds_ne_empty := by decide
  ruleSets := [⟨"r", "f"⟩]
  rules := [⟨0, "r", .read, .all⟩]
  ruleGroups := [⟨"g", 0, 0, .all, .all, true, .all, false⟩]
  ruleMemberships := [⟨"g", "staff"⟩]
  objectAccessEntries := [⟨.user, "cleaner", .directory, "f", .write, 0, none⟩]

/-- A user who may purge but not delete directories. -/
def purgingActor : Actor := ⟨⟨"cleaner", ["purge"], []⟩, 1, true⟩

def committedNodeIds : Outcome → Option (List NodeId)
  | .committed _ _ db => some (db.nodes.map Node.id)
  | _ => none

/-- The purge of `f` removes `s`, which the analysis did not declare deletable. -/
theorem purge_removes_undeletable_folder : unreadableFolderDatabase.Acyclic ∧
      committedNodeIds (purgeDirectory unreadableFolderDatabase purgingActor "f") = some ["/"] ∧
      (fetchSubtreeForDeletion unreadableFolderDatabase "f" purgingActor.user purgingActor.now
        true).map (fun analysis => (analysis.deletableDocIds, analysis.deletableFolderIds)) =
        .ok ([], []) := by
  decide

def deletingActor : Actor := ⟨⟨"cleaner", ["purge", "delete_directory"], []⟩, 1, true⟩

/-- With the right to delete directories nothing below `f` fails, and the purge goes through. -/
theorem purge_removes_only_deletable_for_deleter :
    committedNodeIds (purgeDirectory unreadableFolderDatabase deletingActor "f") = some ["/"] ∧
      ∀ code message db', purgeDirectory unreadableFolderDatabase deletingActor "f" =
          .committed code message db' →
        ∀ node ∈ unreadableFolderDatabase.nodes, node ∉ db'.nodes → node.id ≠ "f" → ∃ analysis,
          fetchSubtreeForDeletion unreadableFolderDatabase "f" deletingActor.user deletingActor.now
              true = .ok analysis ∧
            (node.id ∈ analysis.deletableDocIds ∨ node.id ∈ analysis.deletableFolderIds) := by
  refine ⟨by decide, (purge_removes_only_deletable_iff (by decide)).mpr ?_⟩
  rintro ⟨-, ⟨item, hfails⟩, -, -⟩
  have hdocs : (loadSubtree unreadableFolderDatabase "f" deletingActor.user deletingActor.now
      true).documents = [] := by decide
  have hfols : ∀ f ∈ checkedFolders (loadSubtree unreadableFolderDatabase "f" deletingActor.user
      deletingActor.now true) "f", selfDeletable unreadableFolderDatabase (loadSubtree
        unreadableFolderDatabase "f" deletingActor.user deletingActor.now true) deletingActor.user
        "delete_directory" f = true := by decide
  rcases hfails with ⟨hmem, -⟩ | ⟨hmem, hself⟩
  · rw [hdocs] at hmem
    cases hmem
  · rw [hfols item hmem] at hself
    cases hself

end Cfms.Documents
