import Cfms.Documents.FileReferences

/-!
# Purging documents in bulk

`purge_documents_bulk` removes documents for good: their compiled access rules, their revisions,
the files that nothing else uses, and their nodes.  Every statement runs in chunks of its keys.

The chunks join up (`purgeDocumentsBulk_ok`): a purge is one removal of the revisions, of the files
whose remaining references count zero, and of the nodes.  `purge_documents_bulk_exact` reads off
which rows are gone.
-/

namespace Cfms.Documents

open Access Lib Lib.Chunks List Database Function

attribute [ext] Database FileStore

variable (store : FileStore) (limits : QueryLimits)

namespace FileStore

/-! ### Statements -/

/-- An update of node rows. -/
def mapNodes (store : FileStore) (f : Node → Node) (hf : ∀ node, (f node).id = node.id) : FileStore :=
  { store with toDatabase := store.toDatabase.mapNodes f hf }

/-- `documents.current_revision_id` becomes null where the condition holds. -/
def clearCurrentWhere (clear : Node → Bool) (node : Node) : Node :=
  if clear node then { node with currentRevisionId := none } else node

theorem clearCurrentWhere_id (clear : Node → Bool) (node : Node) :
    (clearCurrentWhere clear node).id = node.id := by
  unfold clearCurrentWhere
  split <;> rfl

@[simp] theorem clearCurrentWhere_false : clearCurrentWhere (fun _ => false) = id := rfl

/-- `Document.current_revision_id: None` for the documents of a chunk. -/
def clearCurrentRevisions (documentIds : List NodeId) : FileStore :=
  store.mapNodes
    (clearCurrentWhere fun node => node.isDocument && documentIds.contains node.id)
    (clearCurrentWhere_id _)

/-- `DocumentRevision.parent_revision_id: None` for the revisions of a chunk. -/
def clearParentRevisions (revisionIds : List String) : FileStore :=
  { store with
    parentRevisionId := fun id =>
      if revisionIds.contains id then none else store.parentRevisionId id }

/-- `DELETE` on `document_revisions`.  The foreign keys of the rows that point to a deleted one,
`documents.current_revision_id` and `parent_revision_id`, become null. -/
def deleteRevisions (revisionIds : List String) : FileStore :=
  { store with
    toDatabase :=
      { store.toDatabase.mapNodes
          (clearCurrentWhere fun node => node.currentRevisionId.any (revisionIds.contains ·))
          (clearCurrentWhere_id _) with
        revisions := store.revisions.filter fun revision => !revisionIds.contains revision.id }
    revisionIds_nodup :=
      store.revisionIds_nodup.sublist (List.filter_sublist.map DocumentRevision.id)
    revisionFileIds_ne_empty := fun revision hrev =>
      store.revisionFileIds_ne_empty revision (List.mem_filter.mp hrev).1
    parentRevisionId := fun id =>
      (store.parentRevisionId id).filter fun parent => !revisionIds.contains parent }

/-- `DELETE` on `file_tasks` by the file. -/
def deleteFileTasks (fileIds : List String) : FileStore :=
  { store with fileTasks := store.fileTasks.delete fun _ row => fileIds.contains row.fileId }

/-- The rows of `files` go; the foreign key of `file_tasks` takes their tasks along. -/
def dropFiles (fileIds : List String) : FileStore :=
  { store.deleteFileTasks fileIds with
    toDatabase :=
      { store.toDatabase with
        files := store.files.filter fun file => !fileIds.contains file.id }
    fileIds_nodup := store.fileIds_nodup.sublist (List.filter_sublist.map File.id) }

/-- A revision or another table refers to the file. -/
def isUsed (fileId : String) : Bool :=
  (store.revisions.any fun revision => revision.fileId == fileId) || store.otherUses.contains fileId

inductive StoreError
  /-- `ValueError`, with the targets that are not documents. -/
  | invalidTargets (ids : List NodeId)
  | integrityError
  deriving DecidableEq

/-- `DELETE` on `files`; the foreign keys without a cascade refuse to lose a row in use. -/
def deleteFiles (fileIds : List String) : Except StoreError FileStore :=
  if store.files.any fun file => fileIds.contains file.id && store.isUsed file.id then
    .error .integrityError
  else .ok (store.dropFiles fileIds)

/-- `DELETE` on `nodes`, restricted to documents. -/
def deleteDocumentNodes (documentIds : List NodeId) : FileStore :=
  { store with
    toDatabase := store.toDatabase.removeNodes fun node =>
      documentIds.contains node.id && node.isDocument
    revisionIds_nodup :=
      store.revisionIds_nodup.sublist (List.filter_sublist.map DocumentRevision.id)
    revisionFileIds_ne_empty := fun revision hrev =>
      store.revisionFileIds_ne_empty revision (List.mem_filter.mp hrev).1 }

/-! ### Compiled access rules -/

/-- `Node.access_rule_set_id: None`. -/
def clearRuleSetOf (nodeIds : List NodeId) (node : Node) : Node :=
  if nodeIds.contains node.id then { node with accessRuleSetId := none } else node

theorem clearRuleSetOf_id (nodeIds : List NodeId) (node : Node) :
    (clearRuleSetOf nodeIds node).id = node.id := by
  unfold clearRuleSetOf
  split <;> rfl

def dropRuleSets (nodeIds : List NodeId) : FileStore :=
  { store with
    toDatabase :=
      { store.toDatabase with
        ruleSets := store.ruleSets.filter fun ruleSet => !nodeIds.contains ruleSet.nodeId } }

/-- One chunk of `delete_compiled_access_rules_for_targets`, for documents. -/
def deleteCompiledRulesOfChunk (chunk : List NodeId) : Except StoreError FileStore :=
  let isTarget := fun id => (store.document? id).isSome
  if !chunk.all isTarget then .error (.invalidTargets (chunk.filter fun id => !isTarget id))
  else if !store.ruleSets.any fun ruleSet => chunk.contains ruleSet.nodeId then .ok store
  else .ok ((store.mapNodes (clearRuleSetOf chunk) (clearRuleSetOf_id _)).dropRuleSets chunk)

/-- `delete_compiled_access_rules_for_targets`, for documents. -/
def deleteCompiledRules (store : FileStore) (documentIds : List NodeId) :
    Except StoreError FileStore :=
  (batched limits.queryChunkSize (documentIds.filter (· != "")).dedup).foldlM
    deleteCompiledRulesOfChunk store

/-! ### The purge -/

def uploadSessions (fileIds : List String) : List (String × String) :=
  store.fileTasks.entries.filterMap fun row =>
    if fileIds.contains row.2.fileId then
      row.2.task.uploadSessionId.map fun session => (row.2.fileId, session)
    else none

def collectUploadSessions (store : FileStore) :
    List (List String) → FileStore × List (String × String)
  | [] => (store, [])
  | chunk :: chunks =>
    let (rest, sessions) := collectUploadSessions (store.deleteFileTasks chunk) chunks
    (rest, store.uploadSessions chunk ++ sessions)

def queueDeferredFileDeletion (path : String) (uploadSessionIds : List String) : FileStore :=
  { store with pendingDeleteFiles := store.pendingDeleteFiles ++ [(path, uploadSessionIds)] }

def revisionData (store : FileStore) (documentIds : List NodeId) : List DocumentRevision :=
  (batched limits.queryChunkSize documentIds).flatMap fun chunk =>
    store.revisions.filter fun revision => chunk.contains revision.documentId

def deletableFileIds (store : FileStore) (documentIds : List NodeId) : List String :=
  let fileIds := (((store.revisionData limits documentIds).map DocumentRevision.fileId).filter
    (· != "")).dedup
  fileIds.filter fun fileId => store.batchCountOtherRevisions limits fileIds documentIds fileId == 0

def purgeDocumentsBulk (store : FileStore) (documentIds : List NodeId) :
    Except StoreError FileStore := do
  let chunks := fun ids : List String => batched limits.queryChunkSize ids
  if documentIds.isEmpty then return store
  let store ← store.deleteCompiledRules limits documentIds
  let revisionData := store.revisionData limits documentIds
  if revisionData.isEmpty then
    return (chunks documentIds).foldl deleteDocumentNodes store
  let revIds := revisionData.map DocumentRevision.id
  let deletable := store.deletableFileIds limits documentIds
  let store := (chunks documentIds).foldl clearCurrentRevisions store
  let store := (chunks revIds).foldl clearParentRevisions store
  let (store, sessions) := store.collectUploadSessions (chunks deletable)
  let deletableFiles := (chunks deletable).flatMap fun chunk =>
    store.files.filter fun file => chunk.contains file.id
  let store := (chunks revIds).foldl deleteRevisions store
  let store := deletableFiles.foldl
    (fun store file => store.queueDeferredFileDeletion (store.filePath file.id)
      ((sessions.filter fun session => session.1 == file.id).map Prod.snd))
    store
  let store ← (chunks (deletableFiles.map File.id)).foldlM deleteFiles store
  return (chunks documentIds).foldl deleteDocumentNodes store

/-! ### Chunks join up -/

section

variable (limits : QueryLimits) (store : FileStore)

theorem clearCurrentRevisions_chunks (ids : List NodeId) :
    (batched limits.queryChunkSize ids).foldl clearCurrentRevisions store =
      store.clearCurrentRevisions ids := by
  apply foldl_batched limits.queryChunkSize_pos
  · intro store
    apply FileStore.ext
    all_goals try rfl
    show store.nodes.map _ = store.nodes
    simp
  · intro store a b
    apply FileStore.ext
    all_goals try rfl
    show (store.nodes.map _).map _ = store.nodes.map _
    rw [map_map]
    congr 1
    funext node
    simp only [clearCurrentWhere, comp_apply]
    grind

theorem clearParentRevisions_chunks (ids : List String) :
    (batched limits.queryChunkSize ids).foldl clearParentRevisions store =
      store.clearParentRevisions ids := by
  apply foldl_batched limits.queryChunkSize_pos
  · intro store
    rfl
  · intro store a b
    apply FileStore.ext
    all_goals try rfl
    funext id
    simp only [clearParentRevisions]
    grind

theorem deleteFileTasks_nil : store.deleteFileTasks [] = store := by
  apply FileStore.ext
  all_goals try rfl
  apply AList.ext
  show store.fileTasks.entries.filter _ = store.fileTasks.entries
  simp

theorem deleteFileTasks_append (a b : List String) :
    (store.deleteFileTasks a).deleteFileTasks b = store.deleteFileTasks (a ++ b) := by
  apply FileStore.ext
  all_goals try rfl
  apply AList.ext
  show (store.fileTasks.entries.filter _).filter _ = store.fileTasks.entries.filter _
  rw [filter_filter]
  grind

theorem deleteRevisions_chunks (ids : List String) :
    (batched limits.queryChunkSize ids).foldl deleteRevisions store = store.deleteRevisions ids := by
  apply foldl_batched limits.queryChunkSize_pos
  · intro store
    apply FileStore.ext
    all_goals try rfl
    · show store.nodes.map _ = store.nodes
      simp
    · show store.revisions.filter _ = store.revisions
      simp
    · funext id
      show (store.parentRevisionId id).filter _ = store.parentRevisionId id
      cases store.parentRevisionId id <;> rfl
  · intro store a b
    apply FileStore.ext
    all_goals try rfl
    · show (store.nodes.map _).map _ = store.nodes.map _
      rw [map_map]
      congr 1
      funext node
      cases hcur : node.currentRevisionId with
      | none => simp [clearCurrentWhere, hcur]
      | some revId =>
        by_cases ha : revId ∈ a
        · simp [clearCurrentWhere, hcur, ha]
        · simp [clearCurrentWhere, hcur, ha]
    · show (store.revisions.filter _).filter _ = store.revisions.filter _
      rw [filter_filter]
      grind
    · funext id
      show ((store.parentRevisionId id).filter _).filter _ = (store.parentRevisionId id).filter _
      rw [Option.filter_filter]
      grind

theorem deleteDocumentNodes_chunks (ids : List NodeId) :
    (batched limits.queryChunkSize ids).foldl deleteDocumentNodes store =
      store.deleteDocumentNodes ids := by
  apply foldl_batched limits.queryChunkSize_pos
  · intro store
    apply FileStore.ext
    all_goals try rfl
    all_goals simp [deleteDocumentNodes, removeNodes]
  · intro store a b
    apply FileStore.ext
    all_goals try rfl
    · show (store.nodes.filter _).filter _ = store.nodes.filter _
      rw [filter_filter]
      grind
    · show (store.ruleSets.filter _).filter _ = store.ruleSets.filter _
      simp [deleteDocumentNodes, removeNodes]
      grind
    · show (store.revisions.filter _).filter _ = store.revisions.filter _
      simp [deleteDocumentNodes, removeNodes]
      grind

end

/-! ### What the parts of a purge leave -/

def withRules (f : Node → Node) (hf : ∀ node, (f node).id = node.id)
    (ruleSets : List CompiledAccessRuleSet) : FileStore :=
  { store with toDatabase := { store.toDatabase.mapNodes f hf with ruleSets } }

/-- Rule sets went, and the rows of the given nodes were changed in other columns than their type. -/
def RulesCleared (nodeIds : List NodeId) (store store' : FileStore) : Prop :=
  ∃ (f : Node → Node) (hf : ∀ node, (f node).id = node.id) (ruleSets : List CompiledAccessRuleSet),
    store' = store.withRules f hf ruleSets ∧ (∀ node, (f node).type = node.type) ∧
      ∀ node, node.id ∉ nodeIds → f node = node

variable {limits : QueryLimits} {store : FileStore} {a b : List NodeId}

theorem RulesCleared.trans {store₁ store₂ : FileStore}
    (h₁ : RulesCleared a store store₁) (h₂ : RulesCleared b store₁ store₂) :
    RulesCleared (a ++ b) store store₂ := by
  obtain ⟨f, hf, ruleSets, rfl, htype, hout⟩ := h₁
  obtain ⟨g, hg, ruleSets', rfl, htype', hout'⟩ := h₂
  refine ⟨g ∘ f, fun node => (hg _).trans (hf _), ruleSets', ?_, fun node => ?_, fun node hnode => ?_⟩
  · apply FileStore.ext
    all_goals try rfl
    show (store.nodes.map f).map g = store.nodes.map (g ∘ f)
    rw [map_map]
  · exact (htype' _).trans (htype _)
  rw [mem_append, not_or] at hnode
  show g (f node) = node
  rw [hout node hnode.1, hout' node hnode.2]

theorem RulesCleared.refl (nodeIds : List NodeId) (store : FileStore) :
    RulesCleared nodeIds store store := by
  refine ⟨id, fun _ => rfl, store.ruleSets, ?_, fun _ => rfl, fun _ _ => rfl⟩
  apply FileStore.ext
  all_goals try rfl
  show store.nodes = store.nodes.map id
  rw [map_id]

variable {store' : FileStore}

theorem RulesCleared.mono (hsub : ∀ id ∈ a, id ∈ b)
    (h : RulesCleared a store store') : RulesCleared b store store' := by
  obtain ⟨f, hf, ruleSets, heq, htype, hout⟩ := h
  exact ⟨f, hf, ruleSets, heq, htype, fun node hnode => hout node fun hmem => hnode (hsub _ hmem)⟩

theorem RulesCleared.document?_isSome {nodeIds : List NodeId}
    (h : RulesCleared nodeIds store store') (id : NodeId) :
    (store'.document? id).isSome = (store.document? id).isSome := by
  obtain ⟨f, hf, ruleSets, rfl, htype, -⟩ := h
  show (((store.toDatabase.mapNodes f hf).node? id).filter Node.isDocument).isSome = _
  rw [node?_mapNodes, document?]
  cases store.node? id with
  | none => rfl
  | some node =>
    rw [Option.map_some, Option.filter_some, Option.filter_some, Node.isDocument, htype,
      Node.isDocument]
    split <;> rfl

theorem deleteCompiledRulesOfChunk_ok {chunk : List NodeId}
    (hchunk : ∀ id ∈ chunk, (store.document? id).isSome) :
    ∃ store', store.deleteCompiledRulesOfChunk chunk = .ok store' ∧
      RulesCleared chunk store store' := by
  have hall : (chunk.all fun id => (store.document? id).isSome) = true := by simpa using hchunk
  rw [deleteCompiledRulesOfChunk, hall]
  simp only [Bool.not_true, Bool.false_eq_true, if_false]
  split
  · exact ⟨store, rfl, RulesCleared.refl chunk store⟩
  refine ⟨_, rfl, clearRuleSetOf chunk, clearRuleSetOf_id chunk, _, rfl, fun node => ?_,
    fun node hnode => ?_⟩
  · unfold clearRuleSetOf
    split <;> rfl
  · simp [clearRuleSetOf, hnode]

variable {docIds : List NodeId}

/-- The rules of documents are deleted without an error. -/
theorem deleteCompiledRules_ok (limits : QueryLimits)
    (hdocs : ∀ id ∈ docIds, (store.document? id).isSome) :
    ∃ store', store.deleteCompiledRules limits docIds = .ok store' ∧
      RulesCleared docIds store store' := by
  have hchunks : ∀ (chunks : List (List NodeId)) (store : FileStore),
      (∀ id ∈ chunks.flatten, (store.document? id).isSome) →
      ∃ store', chunks.foldlM deleteCompiledRulesOfChunk store = .ok store' ∧
        RulesCleared chunks.flatten store store' := by
    intro chunks
    induction chunks with
    | nil => exact fun store _ => ⟨store, rfl, RulesCleared.refl _ store⟩
    | cons chunk chunks ih =>
      intro store hall
      obtain ⟨store₁, hstore₁, hclr₁⟩ :=
        deleteCompiledRulesOfChunk_ok fun id hid => hall id (mem_append_left _ hid)
      obtain ⟨store₂, hstore₂, hclr₂⟩ := ih store₁ fun id hid => by
        rw [hclr₁.document?_isSome]
        exact hall id (mem_append_right _ hid)
      refine ⟨store₂, ?_, hclr₁.trans hclr₂⟩
      rw [foldlM_cons, hstore₁]
      exact hstore₂
  have hsub : ∀ id ∈ (batched limits.queryChunkSize (docIds.filter (· != "")).dedup).flatten,
      id ∈ docIds := by
    intro id hid
    rw [batched_flatten limits.queryChunkSize_pos, mem_dedup] at hid
    exact (mem_filter.mp hid).1
  obtain ⟨store', hstore', hclr⟩ := hchunks _ store fun id hid => hdocs id (hsub id hid)
  exact ⟨store', hstore', hclr.mono hsub⟩

theorem collectUploadSessions_fst (chunks : List (List String)) :
    ∀ store : FileStore,
      (store.collectUploadSessions chunks).1 = store.deleteFileTasks chunks.flatten := by
  induction chunks with
  | nil => exact fun store => store.deleteFileTasks_nil.symm
  | cons chunk chunks ih =>
    intro store
    show ((store.deleteFileTasks chunk).collectUploadSessions chunks).1 = _
    rw [ih, deleteFileTasks_append, flatten_cons]

theorem foldl_queueDeferredFileDeletion (files : List File) (sessions : File → List String) :
    ∀ store : FileStore,
      files.foldl (fun store file =>
          store.queueDeferredFileDeletion (store.filePath file.id) (sessions file)) store =
        { store with
          pendingDeleteFiles := store.pendingDeleteFiles ++
            files.map fun file => (store.filePath file.id, sessions file) } := by
  induction files with
  | nil =>
    intro store
    apply FileStore.ext
    all_goals try rfl
    exact (append_nil _).symm
  | cons file files ih =>
    intro store
    rw [foldl_cons, ih]
    apply FileStore.ext
    all_goals try rfl
    show (store.pendingDeleteFiles ++ [_]) ++ _ = _
    rw [append_assoc]
    rfl

theorem dropFiles_append (store : FileStore) (a b : List String) :
    (store.dropFiles a).dropFiles b = store.dropFiles (a ++ b) := by
  apply FileStore.ext
  all_goals try rfl
  · show (store.files.filter _).filter _ = store.files.filter _
    rw [filter_filter]
    grind
  · show ((store.deleteFileTasks a).deleteFileTasks b).fileTasks = _
    rw [deleteFileTasks_append]
    rfl

/-- Files that nothing uses are deleted in any chunks alike. -/
theorem deleteFiles_chunks {fileIds : List String}
    (hfree : ∀ file ∈ store.files, file.id ∈ fileIds → store.isUsed file.id = false) :
    (batched limits.queryChunkSize fileIds).foldlM deleteFiles store =
      .ok (store.dropFiles fileIds) := by
  have hchunks : ∀ (chunks : List (List String)) (store : FileStore),
      (∀ file ∈ store.files, file.id ∈ chunks.flatten → store.isUsed file.id = false) →
      chunks.foldlM deleteFiles store = .ok (store.dropFiles chunks.flatten) := by
    intro chunks
    induction chunks with
    | nil =>
      intro store _
      show Except.ok store = Except.ok _
      congr 1
      apply FileStore.ext
      all_goals try rfl
      · show store.files = store.files.filter _
        simp
      · show store.fileTasks = (store.deleteFileTasks []).fileTasks
        rw [deleteFileTasks_nil]
    | cons chunk chunks ih =>
      intro store hfree
      rw [flatten_cons] at hfree ⊢
      have hchunk : (store.files.any fun file =>
          chunk.contains file.id && store.isUsed file.id) = false := by
        rw [any_eq_false]
        intro file hfile huse
        rw [Bool.and_eq_true, contains_iff_mem] at huse
        rw [hfree file hfile (mem_append_left _ huse.1)] at huse
        exact Bool.false_ne_true huse.2
      rw [foldlM_cons, deleteFiles, hchunk]
      show chunks.foldlM deleteFiles (store.dropFiles chunk) = _
      rw [ih, dropFiles_append]
      intro file hfile hmem
      exact hfree file (mem_filter.mp hfile).1 (mem_append_right _ hmem)
  rw [hchunks _ _ (by rw [batched_flatten limits.queryChunkSize_pos]; exact hfree),
    batched_flatten limits.queryChunkSize_pos]

/-! ### The purged store -/

def isSpare (store : FileStore) (documentIds : List NodeId) (fileId : String) : Bool :=
  (store.revisions.any fun revision =>
    documentIds.contains revision.documentId && revision.fileId == fileId) &&
    store.remainingReferences documentIds fileId == 0

def purgesNode (documentIds : List NodeId) (node : Node) : Bool :=
  documentIds.contains node.id && node.isDocument

def purgesRevision (store : FileStore) (documentIds : List NodeId) (revisionId : String) : Bool :=
  store.revisions.any fun revision =>
    documentIds.contains revision.documentId && revision.id == revisionId

structure Purged (store : FileStore) (documentIds : List NodeId) (store' : FileStore) : Prop where
  revisions : store'.revisions =
    store.revisions.filter fun revision => !documentIds.contains revision.documentId
  nodes : store'.nodes = (store.nodes.filter fun node => !purgesNode documentIds node).map
    (clearCurrentWhere fun node => node.currentRevisionId.any (store.purgesRevision documentIds))
  files : store'.files = store.files.filter fun file => !store.isSpare documentIds file.id
  fileTasks : store'.fileTasks =
    store.fileTasks.delete fun _ row => store.isSpare documentIds row.fileId
  parentRevisionId : ∀ revision ∈ store'.revisions,
    store'.parentRevisionId revision.id =
      (store.parentRevisionId revision.id).filter fun parent =>
        !store.purgesRevision documentIds parent
  revisionCreatedTime : store'.revisionCreatedTime = store.revisionCreatedTime
  otherTables : store'.otherTables = store.otherTables
  queued : ∃ queued, store'.pendingDeleteFiles = store.pendingDeleteFiles ++ queued ∧
    (queued.map Prod.fst).Perm
      ((store.files.filter fun file => store.isSpare documentIds file.id).map fun file =>
        store.filePath file.id)

theorem mem_revisionData {rev : DocumentRevision} :
    rev ∈ store.revisionData limits docIds ↔
      rev ∈ store.revisions ∧ rev.documentId ∈ docIds := by
  have hchunk := exists_mem_batched (l := docIds) (a := rev.documentId)
    limits.queryChunkSize_pos
  simp only [revisionData, mem_flatMap, mem_filter, contains_iff_mem, ← hchunk]
  constructor
  · rintro ⟨chunk, hbatched, hrev, hdocument⟩
    exact ⟨hrev, chunk, hbatched, hdocument⟩
  · rintro ⟨hrev, chunk, hbatched, hdocument⟩
    exact ⟨chunk, hbatched, hrev, hdocument⟩

variable {fileId : String}

/-- The query finds the files that only the purged documents use. -/
theorem mem_deletableFileIds (hnodup : docIds.Nodup) :
    fileId ∈ store.deletableFileIds limits docIds ↔ store.isSpare docIds fileId = true := by
  have hmem : fileId ∈ (((store.revisionData limits docIds).map
      DocumentRevision.fileId).filter (· != "")).dedup ↔
      ∃ rev ∈ store.revisions, rev.documentId ∈ docIds ∧ rev.fileId = fileId := by
    rw [mem_dedup, mem_filter, mem_map]
    constructor
    · rintro ⟨⟨rev, hrev, hfile⟩, -⟩
      rw [mem_revisionData] at hrev
      exact ⟨rev, hrev.1, hrev.2, hfile⟩
    · rintro ⟨rev, hrev, hdocument, rfl⟩
      exact ⟨⟨rev, mem_revisionData.mpr ⟨hrev, hdocument⟩, rfl⟩,
        by simpa using store.revisionFileIds_ne_empty rev hrev⟩
  rw [deletableFileIds, mem_filter, isSpare, Bool.and_eq_true]
  constructor
  · rintro ⟨hfile, hcount⟩
    rw [batchCountOtherRevisions_apply (nodup_dedup _) hnodup hfile] at hcount
    refine ⟨?_, hcount⟩
    simpa using hmem.mp hfile
  · rintro ⟨hany, hcount⟩
    have hfile := hmem.mpr (by simpa using hany)
    rw [batchCountOtherRevisions_apply (nodup_dedup _) hnodup hfile]
    exact ⟨hfile, hcount⟩

theorem isSpare_iff :
    store.isSpare docIds fileId = true ↔
      (∃ rev ∈ store.revisions, rev.documentId ∈ docIds ∧ rev.fileId = fileId) ∧
        (∀ rev ∈ store.revisions, rev.fileId = fileId → rev.documentId ∈ docIds) ∧
        fileId ∉ store.otherUses := by
  simp only [isSpare, remainingReferences, Bool.and_eq_true, any_eq_true, beq_iff_eq,
    Nat.add_eq_zero_iff, countP_eq_zero, count_eq_zero,
    Bool.not_eq_true', not_and, Bool.not_eq_false, contains_eq_mem, decide_eq_true_eq]

theorem purgesRevision_iff {revId : String} :
    store.purgesRevision docIds revId = true ↔
      revId ∈ (store.revisionData limits docIds).map DocumentRevision.id := by
  simp only [purgesRevision,
    mem_map, mem_revisionData]
  grind

theorem clearCurrentWhere_type (clear : Node → Bool) (node : Node) :
    (clearCurrentWhere clear node).type = node.type := by
  unfold clearCurrentWhere
  split <;> rfl

theorem filter_purgesNode_map {f : Node → Node}
    (hid : ∀ node, (f node).id = node.id) (htype : ∀ node, (f node).type = node.type)
    (hsame : ∀ node ∈ store.nodes, purgesNode docIds node = false → f node = node) :
    ((store.nodes.map f).filter fun node => !purgesNode docIds node) =
      store.nodes.filter fun node => !purgesNode docIds node := by
  have hpred : ((fun node => !purgesNode docIds node) ∘ f) =
      fun node => !purgesNode docIds node := by
    funext node
    simp only [comp_apply, purgesNode, Node.isDocument, hid, htype]
  rw [filter_map, hpred]
  refine (map_congr_left fun node hnode => ?_).trans (map_id _)
  rw [mem_filter, Bool.not_eq_true'] at hnode
  exact hsame node hnode.1 hnode.2

theorem deleteDocumentNodes_revisions
    (hnone : ∀ rev ∈ store.revisions, rev.documentId ∉ docIds) :
    (store.deleteDocumentNodes docIds).revisions = store.revisions := by
  show store.revisions.filter _ = store.revisions
  rw [filter_eq_self]
  intro rev hrev
  rw [Bool.not_eq_true', any_eq_false]
  intro node _ hgone
  simp only [Bool.and_eq_true, contains_iff_mem, beq_iff_eq] at hgone
  exact hnone rev hrev (hgone.2 ▸ hgone.1.1)

variable {cleared : FileStore}

/-- A purge of documents without revisions. -/
theorem Purged.of_noRevisions (hclr : RulesCleared docIds store cleared)
    (hdocs : ∀ node ∈ store.nodes, node.id ∈ docIds → node.type = .document)
    (hnone : ∀ rev ∈ store.revisions, rev.documentId ∉ docIds) :
    Purged store docIds (cleared.deleteDocumentNodes docIds) := by
  obtain ⟨f, hf, ruleSets, rfl, htype, hout⟩ := hclr
  have hspare : ∀ fileId, store.isSpare docIds fileId = false := by
    intro fileId
    rw [Bool.eq_false_iff, Ne, isSpare_iff]
    rintro ⟨⟨rev, hrev, hdocument, -⟩, -⟩
    exact hnone rev hrev hdocument
  have hpurges : store.purgesRevision docIds = fun _ => false := by
    funext revId
    rw [purgesRevision, any_eq_false]
    intro rev hrev
    simp [hnone rev hrev]
  refine
    { revisions := ?_, nodes := ?_, files := ?_, fileTasks := ?_, parentRevisionId := ?_,
      revisionCreatedTime := rfl, otherTables := rfl, queued := ⟨[], ?_, ?_⟩ }
  · rw [deleteDocumentNodes_revisions (by exact hnone)]
    refine (filter_eq_self.mpr fun rev hrev => ?_).symm
    simpa using hnone rev hrev
  · rw [hpurges]
    simp only [Option.any_false, clearCurrentWhere_false, map_id]
    refine filter_purgesNode_map hf htype fun node hnode hkept => hout node fun hmem => ?_
    simp [purgesNode, hmem, Node.isDocument, hdocs node hnode hmem] at hkept
  · simp only [hspare]
    show store.files = store.files.filter _
    simp
  · apply AList.ext
    simp only [hspare]
    show store.fileTasks.entries = store.fileTasks.entries.filter _
    simp
  · intro rev _
    rw [hpurges]
    show store.parentRevisionId rev.id = _
    cases store.parentRevisionId rev.id <;> rfl
  · show store.pendingDeleteFiles = _
    rw [append_nil]
  · simp [hspare]

/-- The store before the nodes go: the statements of `purge_documents_bulk` on the whole lists. -/
def purgedRows (store : FileStore) (documentIds : List NodeId) (revIds deletable : List String)
    (deletableFiles : List File) (sessions : File → List String) : FileStore :=
  ({ ((((store.clearCurrentRevisions documentIds).clearParentRevisions revIds).deleteFileTasks
      deletable).deleteRevisions revIds) with
    pendingDeleteFiles := store.pendingDeleteFiles ++
      deletableFiles.map fun file : File => (store.filePath file.id, sessions file) }).dropFiles
    (deletableFiles.map File.id)

variable {revIds : List String}

theorem deleteRevisions_revisions
    (hrevIds : ∀ id, id ∈ revIds ↔ store.purgesRevision docIds id = true) :
    (store.revisions.filter fun rev => !revIds.contains rev.id) =
      store.revisions.filter fun rev => !docIds.contains rev.documentId := by
  refine filter_congr fun rev hrev => ?_
  congr 1
  rw [Bool.eq_iff_iff, contains_iff_mem, hrevIds, purgesRevision, any_eq_true,
    contains_iff_mem]
  constructor
  · rintro ⟨other, hother, hboth⟩
    rw [Bool.and_eq_true, contains_iff_mem, beq_iff_eq] at hboth
    rw [← inj_on_of_nodup_map store.revisionIds_nodup hother hrev hboth.2]
    exact hboth.1
  · intro hdocument
    exact ⟨rev, hrev, by simpa using hdocument⟩

/-- A purge of documents with revisions. -/
theorem Purged.of_rows (hclr : RulesCleared docIds store cleared)
    (hdocs : ∀ node ∈ store.nodes, node.id ∈ docIds → node.type = .document)
    {deletable : List String} {deletableFiles : List File} {sessions : File → List String}
    (hrevIds : ∀ id, id ∈ revIds ↔ store.purgesRevision docIds id = true)
    (hdel : ∀ id, id ∈ deletable ↔ store.isSpare docIds id = true)
    (hfiles : deletableFiles.Perm
      (store.files.filter fun file => store.isSpare docIds file.id)) :
    Purged store docIds
      ((cleared.purgedRows docIds revIds deletable deletableFiles sessions).deleteDocumentNodes
        docIds) := by
  obtain ⟨f, hf, ruleSets, rfl, htype, hout⟩ := hclr
  have hcont : ∀ id, revIds.contains id = store.purgesRevision docIds id := by
    intro id
    rw [Bool.eq_iff_iff, contains_iff_mem, hrevIds]
  have hspare : ∀ id, deletable.contains id = store.isSpare docIds id := by
    intro id
    rw [Bool.eq_iff_iff, contains_iff_mem, hdel]
  have hgone : ∀ id, id ∈ deletableFiles.map File.id →
      store.isSpare docIds id = true := by
    intro id hid
    obtain ⟨file, hfile, rfl⟩ := mem_map.mp hid
    exact (mem_filter.mp (hfiles.mem_iff.mp hfile)).2
  have hrevs := deleteRevisions_revisions hrevIds
  have hleft : ∀ rev ∈ store.revisions.filter fun rev => !revIds.contains rev.id,
      rev.documentId ∉ docIds := by
    intro rev hrev
    rw [hrevs, mem_filter] at hrev
    simpa using hrev.2
  refine
    { revisions := ?_, nodes := ?_, files := ?_, fileTasks := ?_, parentRevisionId := ?_,
      revisionCreatedTime := rfl, otherTables := rfl, queued := ⟨_, rfl, ?_⟩ }
  · rw [deleteDocumentNodes_revisions (by exact hleft)]
    exact hrevs
  · have hpurges : (fun node : Node => node.currentRevisionId.any (revIds.contains ·)) =
        fun node => node.currentRevisionId.any (store.purgesRevision docIds) := by
      funext node
      congr 1
      funext id
      exact hcont id
    have hpred : ((fun node => !purgesNode docIds node) ∘
        clearCurrentWhere fun node => node.currentRevisionId.any (revIds.contains ·)) =
        fun node => !purgesNode docIds node := by
      funext node
      simp only [comp_apply, purgesNode, Node.isDocument, clearCurrentWhere_id,
        clearCurrentWhere_type]
    show (((store.nodes.map f).map _).map
      (clearCurrentWhere fun node => node.currentRevisionId.any (revIds.contains ·))).filter
        (fun node => !purgesNode docIds node) = _
    rw [filter_map, hpred, map_map, filter_purgesNode_map, hpurges]
    · exact fun node => (clearCurrentWhere_id _ _).trans (hf node)
    · exact fun node => (clearCurrentWhere_type _ _).trans (htype node)
    intro node hnode hkept
    have houter : node.id ∉ docIds := by
      intro hmem
      simp [purgesNode, hmem, Node.isDocument, hdocs node hnode hmem] at hkept
    rw [comp_apply, hout node houter]
    simp [clearCurrentWhere, houter]
  · show store.files.filter _ = store.files.filter _
    refine filter_congr fun file hfile => ?_
    congr 1
    rw [Bool.eq_iff_iff, contains_iff_mem]
    refine ⟨hgone _, fun h => mem_map_of_mem (hfiles.mem_iff.mpr ?_)⟩
    exact mem_filter.mpr ⟨hfile, h⟩
  · apply AList.ext
    show (store.fileTasks.entries.filter _).filter _ = store.fileTasks.entries.filter _
    rw [filter_filter]
    refine filter_congr fun row _ => ?_
    show (!(deletableFiles.map File.id).contains row.2.fileId && !deletable.contains row.2.fileId) =
      !store.isSpare docIds row.2.fileId
    rw [hspare]
    by_cases hrow : store.isSpare docIds row.2.fileId
    · simp [hrow]
    · have hnot : row.2.fileId ∉ deletableFiles.map File.id := fun hmem => hrow (hgone _ hmem)
      simp only [contains_eq_mem, hnot, decide_false, Bool.not_false, Bool.true_and]
  · intro rev hrev
    rw [deleteDocumentNodes_revisions (by exact hleft)] at hrev
    have hnot : rev.id ∉ revIds := by
      simpa using (mem_filter.mp hrev).2
    show Option.filter _ (if revIds.contains rev.id then none
      else store.parentRevisionId rev.id) = _
    rw [contains_eq_mem, decide_eq_false hnot]
    congr 1
    funext parent
    rw [hcont]
  · rw [map_map]
    exact hfiles.map _

/-- The chunks of files come to the spare files in some order. -/
theorem loadedFiles_perm (hnodup : docIds.Nodup) {files : List File}
    (hfiles : files = store.files) :
    ((batched limits.queryChunkSize (store.deletableFileIds limits docIds)).flatMap
      fun chunk => files.filter fun file => chunk.contains file.id).Perm
      (store.files.filter fun file => store.isSpare docIds file.id) := by
  have hdist : (store.deletableFileIds limits docIds).Nodup :=
    (nodup_dedup _).filter _
  subst hfiles
  have hperm := flatMap_filter_mem_perm store.files File.id
    (batched limits.queryChunkSize (store.deletableFileIds limits docIds))
    (by rw [batched_flatten limits.queryChunkSize_pos]; exact hdist)
  refine hperm.trans (List.Perm.of_eq (filter_congr fun file _ => ?_))
  rw [batched_flatten limits.queryChunkSize_pos, Bool.eq_iff_iff, contains_iff_mem,
    mem_deletableFileIds hnodup]

theorem isUsed_eq_false {left : FileStore} (hspare : store.isSpare docIds fileId = true)
    (hleft : ∀ rev ∈ left.revisions,
      rev ∈ store.revisions ∧ rev.documentId ∉ docIds)
    (huses : left.otherUses = store.otherUses) : left.isUsed fileId = false := by
  obtain ⟨-, hown, hother⟩ := isSpare_iff.mp hspare
  rw [isUsed, Bool.or_eq_false_iff, huses, any_eq_false]
  constructor
  · intro rev hrev hfile
    exact (hleft rev hrev).2 (hown rev (hleft rev hrev).1 (by simpa using hfile))
  · simpa using hother

theorem documents_of_isSome
    (hdocs : ∀ id ∈ docIds, (store.document? id).isSome) {node : Node}
    (hnode : node ∈ store.nodes) (hmem : node.id ∈ docIds) : node.type = .document := by
  obtain ⟨doc, hdocument⟩ := Option.isSome_iff_exists.mp (hdocs _ hmem)
  obtain ⟨hdoc, hid, htype⟩ := document?_eq_some.mp hdocument
  rwa [eq_of_id_eq hnode hdoc hid.symm]

/-- **A bulk purge of documents succeeds, and removes what `Purged` says.** -/
theorem purgeDocumentsBulk_ok (limits : QueryLimits) (hnodup : docIds.Nodup)
    (hdocs : ∀ id ∈ docIds, (store.document? id).isSome) :
    ∃ store', store.purgeDocumentsBulk limits docIds = .ok store' ∧
      Purged store docIds store' := by
  have htypes : ∀ node ∈ store.nodes, node.id ∈ docIds → node.type = .document :=
    fun _ => documents_of_isSome hdocs
  obtain ⟨cleared, hrules, hclr⟩ := deleteCompiledRules_ok limits hdocs
  have hdata : cleared.revisionData limits docIds = store.revisionData limits docIds := by
    obtain ⟨f, hf, ruleSets, rfl, -, -⟩ := hclr
    rfl
  have hdel : cleared.deletableFileIds limits docIds =
      store.deletableFileIds limits docIds := by
    obtain ⟨f, hf, ruleSets, rfl, -, -⟩ := hclr
    rfl
  have hfiles : cleared.files = store.files := by
    obtain ⟨f, hf, ruleSets, rfl, -, -⟩ := hclr
    rfl
  have hok : ∀ (s : FileStore) (f : FileStore → Except StoreError FileStore),
      (Except.ok s >>= f) = f s := fun _ _ => rfl
  rw [purgeDocumentsBulk]
  cases hids : docIds with
  | nil =>
    refine ⟨store, rfl, ?_⟩
    have hempty := deleteDocumentNodes_chunks limits store []
    have hnone := Purged.of_noRevisions (RulesCleared.refl [] store) (by simp) (by simp)
    rwa [← hempty] at hnone
  | cons first rest =>
    rw [← hids]
    have hne : docIds.isEmpty = false := by rw [hids]; rfl
    simp only [hne, hrules, hok, hdata, hdel]
    by_cases hrows : (store.revisionData limits docIds).isEmpty
    · refine ⟨_, if_pos hrows, ?_⟩
      rw [deleteDocumentNodes_chunks]
      refine Purged.of_noRevisions hclr htypes fun rev hrev hdocument => ?_
      have hmem : rev ∈ store.revisionData limits docIds :=
        mem_revisionData.mpr ⟨hrev, hdocument⟩
      rw [isEmpty_iff.mp hrows] at hmem
      exact not_mem_nil hmem
    · rw [if_neg hrows]
      simp only [clearCurrentRevisions_chunks, clearParentRevisions_chunks, deleteRevisions_chunks,
        collectUploadSessions_fst, batched_flatten limits.queryChunkSize_pos,
        foldl_queueDeferredFileDeletion, deleteDocumentNodes_chunks]
      rw [deleteFiles_chunks]
      · refine ⟨_, rfl, Purged.of_rows hclr htypes (fun id => ?_) (fun id => ?_) ?_⟩
        · exact purgesRevision_iff.symm
        · exact mem_deletableFileIds hnodup
        · exact loadedFiles_perm hnodup hfiles
      · intro file _ hload
        obtain ⟨loaded, hmem, hid⟩ := mem_map.mp hload
        have hspare := (mem_filter.mp ((loadedFiles_perm hnodup hfiles).mem_iff.mp hmem)).2
        rw [hid] at hspare
        obtain ⟨f, hf, ruleSets, rfl, -, -⟩ := hclr
        refine isUsed_eq_false hspare (fun rev hrev => ?_) rfl
        have hleft : rev ∈ store.revisions.filter fun rev =>
            !((store.revisionData limits docIds).map DocumentRevision.id).contains rev.id :=
          hrev
        rw [deleteRevisions_revisions fun id => purgesRevision_iff.symm, mem_filter] at hleft
        exact ⟨hleft.1, by simpa using hleft.2⟩

/-! ### Which rows are gone -/

/-- What a purge removes, exactly, and what it queues for deletion in the storage. -/
structure PurgeExact (limits : QueryLimits) (store : FileStore) (documentIds : List NodeId)
    (store' : FileStore) : Prop where
  revisions : ∀ revision, revision ∈ store'.revisions ↔
    revision ∈ store.revisions ∧ revision.documentId ∉ documentIds
  nodes : ∀ id, (∃ node ∈ store'.nodes, node.id = id) ↔
    (∃ node ∈ store.nodes, node.id = id) ∧ id ∉ documentIds
  files : ∀ file, file ∈ store'.files ↔ file ∈ store.files ∧
    ¬ ((∃ revision ∈ store.revisions, revision.documentId ∈ documentIds ∧
          revision.fileId = file.id) ∧
        (¬ ∃ revision ∈ store.revisions, revision.documentId ∉ documentIds ∧
          revision.fileId = file.id) ∧
        file.id ∉ store.otherUses)
  queued : ∃ queued, store'.pendingDeleteFiles = store.pendingDeleteFiles ++ queued ∧
    (queued.map Prod.fst).Perm
      ((store.files.filter fun file => !store'.files.contains file).map fun file =>
        store.filePath file.id)
  counts : ∀ fileIds : List String, fileIds.Nodup → ∀ fileId ∈ fileIds,
    store.batchCountOtherRevisions limits fileIds documentIds fileId =
      store.remainingReferences documentIds fileId

/-- `purge_documents_bulk` removes the revisions and the nodes of exactly the given documents, and
a file exactly when only removed revisions refer to it, whatever the sizes of the chunks. -/
theorem purge_documents_bulk_exact (limits : QueryLimits) (store : FileStore)
    (docIds : List NodeId) (hnodup : docIds.Nodup)
    (hdocs : ∀ id ∈ docIds, (store.document? id).isSome) :
    ∃ store', store.purgeDocumentsBulk limits docIds = .ok store' ∧
      PurgeExact limits store docIds store' := by
  obtain ⟨store', hpurge, hpurged⟩ := purgeDocumentsBulk_ok limits hnodup hdocs
  have hfiles : ∀ file, file ∈ store'.files ↔
      file ∈ store.files ∧ store.isSpare docIds file.id = false := by
    intro file
    rw [hpurged.files, mem_filter, Bool.not_eq_true']
  refine ⟨store', hpurge, ?_, fun id => ?_, fun file => ?_, ?_, ?_⟩
  · intro rev
    rw [hpurged.revisions]
    simp
  · simp only [hpurged.nodes, mem_map, mem_filter]
    constructor
    · rintro ⟨_, ⟨node, ⟨hnode, hkept⟩, rfl⟩, rfl⟩
      rw [clearCurrentWhere_id]
      refine ⟨⟨node, hnode, rfl⟩, fun hmem => ?_⟩
      simp [purgesNode, hmem, Node.isDocument, documents_of_isSome hdocs hnode hmem] at hkept
    · rintro ⟨⟨node, hnode, rfl⟩, hmem⟩
      exact ⟨_, ⟨node, ⟨hnode, by simp [purgesNode, hmem]⟩, rfl⟩, clearCurrentWhere_id _ _⟩
  · rw [hfiles, Bool.eq_false_iff, Ne, isSpare_iff]
    refine and_congr_right fun _ => not_congr (and_congr_right fun _ => and_congr_left fun _ => ?_)
    constructor
    · rintro hown ⟨rev, hrev, hdocument, hfile⟩
      exact hdocument (hown rev hrev hfile)
    · intro hnone rev hrev hfile
      by_contra hdocument
      exact hnone ⟨rev, hrev, hdocument, hfile⟩
  · obtain ⟨queued, hpend, hperm⟩ := hpurged.queued
    refine ⟨queued, hpend, hperm.trans (List.Perm.of_eq ?_)⟩
    congr 1
    refine filter_congr fun file hfile => ?_
    rw [Bool.eq_iff_iff, Bool.not_eq_true', contains_eq_mem, decide_eq_false_iff_not, hfiles]
    simp [hfile]
  · intro fileIds hfileIds fileId hfileId
    exact batchCountOtherRevisions_apply hfileIds hnodup hfileId

def sharedFiles : FileStore where
  nodes :=
    [{ id := "/", type := .directory, name := "/", parentId := none },
      { id := "report", type := .document, name := "report", parentId := some "/" },
      { id := "copy", type := .document, name := "copy", parentId := some "/" }]
  nodeIds_nodup := by decide
  nodeIds_ne_empty := by decide
  revisions :=
    [⟨"r1", "report", "draft"⟩, ⟨"r2", "report", "shared"⟩, ⟨"r3", "report", "portrait"⟩,
      ⟨"r4", "copy", "shared"⟩]
  files := [⟨"draft", true⟩, ⟨"shared", true⟩, ⟨"portrait", true⟩]
  revisionIds_nodup := by decide
  fileIds_nodup := by decide
  revisionFileIds_ne_empty := by decide
  otherTables :=
    [{ name := "users", foreignKeys := [⟨"files", none, ["avatar_id"]⟩]
       rows := [fun column => if column = "avatar_id" then some "portrait" else none] }]
  tableNames_nodup := by decide

theorem sharedFiles_purge :
    ∃ store', sharedFiles.purgeDocumentsBulk queryLimits ["report"] = .ok store' ∧
      PurgeExact queryLimits sharedFiles ["report"] store' :=
  purge_documents_bulk_exact queryLimits sharedFiles ["report"] (by decide) (by decide)

/-- With chunks of one key only the file that nothing else refers to can be deleted. -/
example : sharedFiles.deletableFileIds ⟨1, 1, by decide⟩ ["report"] = ["draft"] := by
  decide +kernel

end FileStore

end Cfms.Documents
