import Cfms.Documents.EffectiveRevision
import Cfms.Lib.RowNumber

/-!
# Three ways to find the effective revision

`Document.get_latest_revision` climbs from the current revision of one document.
`fetch_latest_active_revisions_by_document` does it for a list of documents, chunk by chunk: a
recursive query over the chains of parents, and a second query for the documents of the chunk whose
chain has no active revision.  `_effective_active_revision_details_subquery` ranks both sources in a
single query.

Where the parent links form a forest and the revisions of a document have different creation times,
`effective_revisions_agree` shows that all three find the same revision, or none.  `Listing` has the
batch query for the rows of one document, with the times that a listing orders by.
-/

namespace Cfms.Documents

open Access Lib Lib.Climb Lib.Chunks Lib.RecursiveQuery List Lib.RowNumber AList

/-- The columns that the search reads besides: creation times of documents, sizes of files and the
database's `lower`. -/
structure DetailColumns where
  lower : String → String
  createdTime : NodeId → Instant
  fileSize : String → Option ℤ

/-- A row of `current_revision_chain`, or of `search_current_chain`. -/
structure CurrentChainRow where
  documentId : NodeId
  revisionId : String
  createdTime : Instant
  fileId : String
  parentRevisionId : Option String
  fileActive : Bool
  depth : ℕ
  deriving DecidableEq

/-- A row of `active_choices`. -/
structure ActiveChoice where
  documentId : NodeId
  revisionId : String
  createdTime : Instant
  fileId : String
  sourceRank : ℕ
  deriving DecidableEq

/-- A row of the search's document selectable. -/
structure DocumentDetails where
  id : NodeId
  name : String
  nameSortKey : String
  parentId : Option NodeId
  createdTime : Instant
  inherit : Bool
  lastModified : Instant
  size : Option ℤ
  type : String := "document"
  typeRank : ℕ := 1
  deriving DecidableEq

variable (store : FileStore)

namespace FileStore

/-! ### The queries -/

/-- `document_revisions` joined with `files`. -/
def revisionFiles : List (DocumentRevision × File) :=
  store.revisions.flatMap fun revision =>
    (store.files.filter fun file => file.id == revision.fileId).map fun file => (revision, file)

def chainRow (documentId : NodeId) (depth : ℕ) (joined : DocumentRevision × File) :
    CurrentChainRow where
  documentId
  revisionId := joined.1.id
  createdTime := store.revisionCreatedTime joined.1.id
  fileId := joined.1.fileId
  parentRevisionId := store.parentRevisionId joined.1.id
  fileActive := joined.2.active
  depth

def chainAnchor (documents : List Node) : List CurrentChainRow :=
  documents.flatMap fun document =>
    (store.revisionFiles.filter fun joined => document.currentRevisionId == some joined.1.id).map
      (store.chainRow document.id 0)

def chainNext (row : CurrentChainRow) : List CurrentChainRow :=
  (store.revisionFiles.filter fun joined => row.parentRevisionId == some joined.1.id).map
    (store.chainRow row.documentId (row.depth + 1))

/-- The recursive table; it has a row for every ancestor (`mem_currentRevisionChain`). -/
def currentRevisionChain (documents : List Node) : List CurrentChainRow :=
  recursiveRows store.chainNext (store.chainAnchor documents) store.revisions.length

/-- The rows of the chains with `row_number` 1: by depth, among the active ones. -/
def currentFirst (order : RowOrder) (documents : List Node) : List CurrentChainRow :=
  firstRows order CurrentChainRow.documentId CurrentChainRow.depth
    ((store.currentRevisionChain documents).filter CurrentChainRow.fileActive)

/-- The revisions with `row_number` 1: by `created_time` descending. -/
def newestFirst (order : RowOrder) (rows : List (DocumentRevision × File)) :
    List (DocumentRevision × File) :=
  firstRows order (fun joined => joined.1.documentId)
    (fun joined => OrderDual.toDual (store.revisionCreatedTime joined.1.id)) rows

/-- `revision_ids_by_document` after the recursive query of a chunk. -/
def assignCurrentChain (order : RowOrder) (revisionIdsByDocument : OrderedDict NodeId String)
    (chunkIds : List NodeId) : OrderedDict NodeId String :=
  assignRows CurrentChainRow.documentId CurrentChainRow.revisionId revisionIdsByDocument
    (store.currentFirst order
      (store.documents.filter fun document => chunkIds.contains document.id))

/-- `revision_ids_by_document` after the query for the remaining documents. -/
def assignNewest (order : RowOrder) (revisionIdsByDocument : OrderedDict NodeId String)
    (fallbackDocumentIds : List NodeId) : OrderedDict NodeId String :=
  assignRows (fun joined => joined.1.documentId) (fun joined => joined.1.id) revisionIdsByDocument
    (store.newestFirst order (store.revisionFiles.filter fun joined =>
      fallbackDocumentIds.contains joined.1.documentId && joined.2.active))

/-- A chunk of `fetch_latest_active_revisions_by_document`. -/
def fetchChunk (order : RowOrder) (revisionIdsByDocument : OrderedDict NodeId String)
    (chunkIds : List NodeId) : OrderedDict NodeId String :=
  let found := store.assignCurrentChain order revisionIdsByDocument chunkIds
  let fallbackDocumentIds := chunkIds.filter fun documentId => (found.lookup documentId).isNone
  if fallbackDocumentIds.isEmpty then found
  else store.assignNewest order found fallbackDocumentIds

/-- `revisions_by_id`, read in chunks. -/
def revisionsById (order : RowOrder) (limits : QueryLimits) (revisionIds : List String) :
    OrderedDict String DocumentRevision :=
  assignRows DocumentRevision.id id ∅ ((batched limits.queryChunkSize revisionIds).flatMap
    fun chunk => order.arrange
      (store.revisions.filter fun revision => chunk.contains revision.id))

def loadRevisions (order : RowOrder) (limits : QueryLimits)
    (revisionIdsByDocument : OrderedDict NodeId String) : OrderedDict NodeId DocumentRevision :=
  let found := store.revisionsById order limits (revisionIdsByDocument.entries.map Sigma.snd)
  assignRows Prod.fst Prod.snd ∅ (revisionIdsByDocument.entries.filterMap fun entry =>
    (found.lookup entry.2).map fun revision => (entry.1, revision))

def fetchLatestActiveRevisionsByDocument (order : RowOrder) (limits : QueryLimits)
    (documentIds : List NodeId) : OrderedDict NodeId DocumentRevision :=
  if documentIds.isEmpty then ∅
  else
    let revisionIdsByDocument := (batched limits.queryChunkSize documentIds).foldl
      (store.fetchChunk order) ∅
    if revisionIdsByDocument.entries.isEmpty then ∅
    else store.loadRevisions order limits revisionIdsByDocument

/-- The rows of `matched_documents` joined with their active revisions. -/
def matchedRevisions (documents : List Node) : List (DocumentRevision × File) :=
  documents.flatMap fun document => store.revisionFiles.filter fun joined =>
    document.id == joined.1.documentId && joined.2.active

def currentChoice (row : CurrentChainRow) : ActiveChoice where
  documentId := row.documentId
  revisionId := row.revisionId
  createdTime := row.createdTime
  fileId := row.fileId
  sourceRank := 0

def fallbackChoice (joined : DocumentRevision × File) : ActiveChoice where
  documentId := joined.1.documentId
  revisionId := joined.1.id
  createdTime := store.revisionCreatedTime joined.1.id
  fileId := joined.1.fileId
  sourceRank := 1

/-- `active_choices`: `current_first` and `fallback_first`. -/
def activeChoices (order : RowOrder) (documents : List Node) : List ActiveChoice :=
  (store.currentFirst order documents).map currentChoice ++
    (store.newestFirst order (store.matchedRevisions documents)).map store.fallbackChoice

/-- The rows of `effective_ranked` with `effective_row_number` 1. -/
def effectiveRanked (order : RowOrder) (documents : List Node) : List ActiveChoice :=
  firstRows order ActiveChoice.documentId ActiveChoice.sourceRank
    (store.activeChoices order documents)

def documentDetails (columns : DetailColumns) (document : Node) (choice : ActiveChoice)
    (file : File) : DocumentDetails where
  id := document.id
  name := document.name
  nameSortKey := columns.lower document.name
  parentId := document.parentId
  createdTime := columns.createdTime document.id
  inherit := document.inherit
  lastModified := choice.createdTime
  size := columns.fileSize file.id

/-- `_effective_active_revision_details_subquery`. -/
def effectiveActiveRevisionDetails (order : RowOrder) (columns : DetailColumns)
    (documentFilters : Node → Bool) : List DocumentDetails :=
  let matchedDocuments := store.documents.filter documentFilters
  matchedDocuments.flatMap fun document =>
    ((store.effectiveRanked order matchedDocuments).filter fun choice =>
      document.id == choice.documentId).flatMap fun choice =>
        (store.files.filter fun file => choice.fileId == file.id).map fun file =>
          documentDetails columns document choice file

/-! ### What the tables promise -/

/-- The foreign keys of `document_revisions` that may not be null. -/
structure RevisionsLinked : Prop where
  document : ∀ revision ∈ store.revisions, ∃ document ∈ store.documents,
    document.id = revision.documentId
  file : ∀ revision ∈ store.revisions, ∃ file ∈ store.files, file.id = revision.fileId

/-- The creation times tell the revisions of a document apart. -/
def DistinctTimes : Prop :=
  ∀ a ∈ store.revisions, ∀ b ∈ store.revisions, a.documentId = b.documentId →
    store.revisionCreatedTime a.id = store.revisionCreatedTime b.id → a = b

variable {store : FileStore} {order : RowOrder} {documents : List Node} {doc : Node}
  {row : CurrentChainRow} {joined : DocumentRevision × File} {rev : DocumentRevision}

theorem mem_revisionFiles : joined ∈ store.revisionFiles ↔
    joined.1 ∈ store.revisions ∧ joined.2 ∈ store.files ∧ joined.2.id = joined.1.fileId := by
  rw [revisionFiles, mem_flatMap]
  constructor
  · rintro ⟨rev, hrev, hjoin⟩
    obtain ⟨file, hfile, rfl⟩ := mem_map.mp hjoin
    rw [mem_filter, beq_iff_eq] at hfile
    exact ⟨hrev, hfile⟩
  · rintro ⟨hrev, hfile, hid⟩
    exact ⟨joined.1, hrev, mem_map.mpr ⟨joined.2, mem_filter.mpr ⟨hfile, beq_iff_eq.mpr hid⟩, rfl⟩⟩

theorem RevisionsLinked.exists_joined (h : store.RevisionsLinked) (hmem : rev ∈ store.revisions) :
    ∃ file, (rev, file) ∈ store.revisionFiles := by
  obtain ⟨file, hfile, hid⟩ := h.file rev hmem
  exact ⟨file, mem_revisionFiles.mpr ⟨hmem, hfile, hid⟩⟩

theorem file_unique {file other : File} (h : (rev, file) ∈ store.revisionFiles)
    (h' : (rev, other) ∈ store.revisionFiles) : file = other := by
  obtain ⟨-, hfile, hid⟩ := mem_revisionFiles.mp h
  obtain ⟨-, hother, hid'⟩ := mem_revisionFiles.mp h'
  exact inj_on_of_nodup_map store.fileIds_nodup hfile hother (hid.trans hid'.symm)

theorem isActive_eq (h : joined ∈ store.revisionFiles) :
    store.isActive joined.1 = joined.2.active := by
  obtain ⟨hrev, hfile, hid⟩ := mem_revisionFiles.mp h
  rw [isActive]
  cases hfound : store.files.find? fun file => file.id == joined.1.fileId with
  | none =>
    rw [find?_eq_none] at hfound
    exact absurd (beq_iff_eq.mpr hid) (hfound joined.2 hfile)
  | some found =>
    have hfoundId : found.id = joined.1.fileId := by simpa using find?_some hfound
    rw [inj_on_of_nodup_map store.fileIds_nodup (mem_of_find?_eq_some hfound) hfile
      (hfoundId.trans hid.symm)]
    rfl

theorem bind_revision? {id : Option String} :
    id.bind store.revision? = some rev ↔ id = some rev.id ∧ rev ∈ store.revisions := by
  rw [Option.bind_eq_some_iff]
  constructor
  · rintro ⟨_, rfl, hrev⟩
    obtain ⟨hmem, rfl⟩ := revision?_eq_some.mp hrev
    exact ⟨rfl, hmem⟩
  · rintro ⟨rfl, hmem⟩
    exact ⟨_, rfl, revision?_eq_some.mpr ⟨hmem, rfl⟩⟩

/-! ### The recursive table -/

/-- The revisions that `get_latest_revision` climbs through. -/
def ancestors (store : FileStore) (document : Node) : List DocumentRevision :=
  climb store.revision? store.upRevision (store.revisions.length + 1) document.currentRevisionId

theorem Acyclic.ancestry (h : store.Acyclic) (doc : Node) :
    store.Ancestry doc.currentRevisionId (store.ancestors doc) := by
  obtain ⟨l, hl⟩ := h.exists_ancestry doc.currentRevisionId
  rw [ancestors, Climbs.climb_eq hl (Nat.lt_succ_of_le hl.length_le)]
  exact hl

/-- Round `k` has the `k`th ancestor of each document. -/
theorem mem_chainRounds (hlink : store.RevisionsLinked) (hacyc : store.Acyclic) {k : ℕ} :
    row ∈ rounds store.chainNext (store.chainAnchor documents) k ↔
      ∃ doc ∈ documents, ∃ joined ∈ store.revisionFiles, (store.ancestors doc)[k]? = some joined.1 ∧
          row = store.chainRow doc.id k joined := by
  induction k generalizing row with
  | zero =>
    show row ∈ store.chainAnchor documents ↔ _
    rw [chainAnchor, mem_flatMap]
    refine exists_congr fun doc => and_congr_right fun _ => ?_
    rw [(hacyc.ancestry doc).getElem?_zero, mem_map]
    refine exists_congr fun joined => ?_
    rw [mem_filter, beq_iff_eq, bind_revision?]
    constructor
    · rintro ⟨⟨hjoin, hcur⟩, rfl⟩
      exact ⟨hjoin, ⟨hcur, (mem_revisionFiles.mp hjoin).1⟩, rfl⟩
    · rintro ⟨hjoin, ⟨hcur, -⟩, rfl⟩
      exact ⟨⟨hjoin, hcur⟩, rfl⟩
  | succ k ih =>
    rw [mem_rounds_succ]
    constructor
    · rintro ⟨below, hbelow, hnext⟩
      obtain ⟨doc, hdoc, child, hchild, hplace, rfl⟩ := ih.mp hbelow
      obtain ⟨joined, hjoin, rfl⟩ := mem_map.mp hnext
      rw [mem_filter, beq_iff_eq] at hjoin
      refine ⟨doc, hdoc, joined, hjoin.1, ?_, rfl⟩
      rw [(hacyc.ancestry doc).getElem?_succ, hplace]
      exact bind_revision?.mpr ⟨hjoin.2, (mem_revisionFiles.mp hjoin.1).1⟩
    · rintro ⟨doc, hdoc, joined, hjoin, hplace, rfl⟩
      rw [(hacyc.ancestry doc).getElem?_succ] at hplace
      obtain ⟨child, hchild, hup⟩ := Option.bind_eq_some_iff.mp hplace
      have hchildMem : child ∈ store.revisions :=
        (hacyc.ancestry doc).mem_revisions (mem_of_getElem? hchild)
      obtain ⟨file, hfile⟩ := hlink.exists_joined hchildMem
      refine ⟨store.chainRow doc.id k (child, file),
        ih.mpr ⟨doc, hdoc, _, hfile, hchild, rfl⟩, mem_map.mpr ⟨joined, ?_, rfl⟩⟩
      exact mem_filter.mpr ⟨hjoin, beq_iff_eq.mpr (bind_revision?.mp hup).1⟩

theorem mem_currentRevisionChain (hlink : store.RevisionsLinked) (hacyc : store.Acyclic) :
    row ∈ store.currentRevisionChain documents ↔
      ∃ doc ∈ documents, ∃ joined ∈ store.revisionFiles, ∃ k,
        (store.ancestors doc)[k]? = some joined.1 ∧ row = store.chainRow doc.id k joined := by
  rw [currentRevisionChain, mem_recursiveRows]
  constructor
  · rintro ⟨k, -, hrow⟩
    obtain ⟨doc, hdoc, joined, hjoin, hplace, rfl⟩ :=
      (mem_chainRounds hlink hacyc).mp hrow
    exact ⟨doc, hdoc, joined, hjoin, k, hplace, rfl⟩
  · rintro ⟨doc, hdoc, joined, hjoin, k, hplace, rfl⟩
    obtain ⟨hlt, -⟩ := List.getElem?_eq_some_iff.mp hplace
    have hlen := (hacyc.ancestry doc).length_le
    exact ⟨k, by omega, (mem_chainRounds hlink hacyc).mpr ⟨doc, hdoc, joined, hjoin, hplace, rfl⟩⟩

/-! ### The first active revision of the chain -/

def Shows (store : FileStore) (documentId : NodeId) (revision : DocumentRevision)
    (row : CurrentChainRow) : Prop :=
  row.documentId = documentId ∧ row.revisionId = revision.id ∧
    row.createdTime = store.revisionCreatedTime revision.id ∧ row.fileId = revision.fileId

theorem eq_of_document_id {other : Node} (hdocs : documents ⊆ store.documents)
    (hdoc : doc ∈ documents) (hother : other ∈ documents) (hid : doc.id = other.id) :
    doc = other :=
  Database.eq_of_id_eq (Database.mem_documents.mp (hdocs hdoc)).1
    (Database.mem_documents.mp (hdocs hother)).1 hid

/-- The rows of a document have different depths. -/
theorem ranksApart_depth (hlink : store.RevisionsLinked) (hacyc : store.Acyclic)
    (hdocs : documents ⊆ store.documents) :
    RanksApart CurrentChainRow.documentId CurrentChainRow.depth
      ((store.currentRevisionChain documents).filter CurrentChainRow.fileActive) := by
  intro a ha b hb hkey hdepth
  obtain ⟨doc, hdoc, joined, hjoin, k, hplace, rfl⟩ :=
    (mem_currentRevisionChain hlink hacyc).mp (mem_of_mem_filter ha)
  obtain ⟨other, hother, joined', hjoin', k', hplace', rfl⟩ :=
    (mem_currentRevisionChain hlink hacyc).mp (mem_of_mem_filter hb)
  obtain rfl : k = k' := hdepth
  obtain rfl := eq_of_document_id hdocs hdoc hother hkey
  obtain ⟨rev, file⟩ := joined
  obtain ⟨rev', file'⟩ := joined'
  obtain rfl : rev = rev' := Option.some.inj (hplace.symm.trans hplace')
  rw [file_unique hjoin hjoin']

theorem currentFirst_shows (hlink : store.RevisionsLinked) (hacyc : store.Acyclic)
    (hdocs : documents ⊆ store.documents) (h : row ∈ store.currentFirst order documents) :
    ∃ doc ∈ documents, ∃ rev, (store.ancestors doc).find? store.isActive = some rev ∧
        store.Shows doc.id rev row := by
  obtain ⟨hrow, hleast⟩ := (mem_firstRows (ranksApart_depth hlink hacyc hdocs)).mp h
  rw [mem_filter] at hrow
  obtain ⟨doc, hdoc, joined, hjoin, k, hplace, rfl⟩ :=
    (mem_currentRevisionChain hlink hacyc).mp hrow.1
  have hact : joined.2.active = true := hrow.2
  refine ⟨doc, hdoc, joined.1, ?_, rfl, rfl, rfl, rfl⟩
  rw [List.find?_eq_some_iff_getElem]
  obtain ⟨hlt, hget⟩ := List.getElem?_eq_some_iff.mp hplace
  refine ⟨(isActive_eq hjoin).trans hact, k, hlt, hget, fun j hj => ?_⟩
  rw [Bool.not_eq_true']
  by_contra hearlier
  rw [Bool.not_eq_false] at hearlier
  -- an active rev below would have a row of smaller depth
  have hbelow : (store.ancestors doc)[j]? = some (store.ancestors doc)[j] :=
    getElem?_eq_getElem (hj.trans hlt)
  have hmem : (store.ancestors doc)[j] ∈ store.revisions :=
    (hacyc.ancestry doc).mem_revisions (mem_of_getElem? hbelow)
  obtain ⟨file, hfile⟩ := hlink.exists_joined hmem
  have hle := hleast (store.chainRow doc.id j (_, file))
    (mem_filter.mpr ⟨(mem_currentRevisionChain hlink hacyc).mpr
      ⟨doc, hdoc, _, hfile, j, hbelow, rfl⟩, (isActive_eq hfile).symm.trans hearlier⟩) rfl
  exact absurd hle (Nat.not_le.mpr hj)

/-- A document with an active ancestor has a first row. -/
theorem exists_currentFirst (hlink : store.RevisionsLinked) (hacyc : store.Acyclic)
    (hdocs : documents ⊆ store.documents) (hdoc : doc ∈ documents)
    (hact : (store.ancestors doc).find? store.isActive = some rev) :
    ∃ row ∈ store.currentFirst order documents, store.Shows doc.id rev row := by
  obtain ⟨hrev, k, hlt, hget, -⟩ := find?_eq_some_iff_getElem.mp hact
  have hplace : (store.ancestors doc)[k]? = some rev :=
    List.getElem?_eq_some_iff.mpr ⟨hlt, hget⟩
  have hmem : rev ∈ store.revisions :=
    (hacyc.ancestry doc).mem_revisions (mem_of_getElem? hplace)
  obtain ⟨file, hfile⟩ := hlink.exists_joined hmem
  have hrow : store.chainRow doc.id k (rev, file) ∈
      (store.currentRevisionChain documents).filter CurrentChainRow.fileActive :=
    mem_filter.mpr ⟨(mem_currentRevisionChain hlink hacyc).mpr
      ⟨doc, hdoc, _, hfile, k, hplace, rfl⟩, (isActive_eq hfile).symm.trans hrev⟩
  obtain ⟨first, hfirst, hkey⟩ : ∃ first ∈ store.currentFirst order documents,
      first.documentId = doc.id := exists_firstRow hrow
  obtain ⟨other, hother, shown, hshown, hshows⟩ :=
    currentFirst_shows hlink hacyc hdocs hfirst
  obtain rfl := eq_of_document_id hdocs hdoc hother (hkey.symm.trans hshows.1)
  rw [hact] at hshown
  cases hshown
  exact ⟨first, hfirst, hshows⟩

/-! ### The newest active revision -/

variable {docId : NodeId}

/-- The climb's fallback: the newest active revision. -/
theorem newestActiveRevision_eq_ok_iff (htimes : store.DistinctTimes) :
    store.newestActiveRevision docId = .ok rev ↔ (rev ∈ store.revisions ∧ rev.documentId = docId ∧
        store.isActive rev = true) ∧
      ∀ other ∈ store.revisions, other.documentId = docId → store.isActive other = true →
        store.revisionCreatedTime other.id ≤ store.revisionCreatedTime rev.id := by
  have hmem : ∀ other, other ∈ (store.revisionsOf docId).filter store.isActive ↔
      other ∈ store.revisions ∧ other.documentId = docId ∧ store.isActive other = true := by
    intro other
    rw [mem_filter, revisionsOf, mem_filter, beq_iff_eq, and_assoc]
  have hnew : largest (fun rev => store.revisionCreatedTime rev.id)
      ((store.revisionsOf docId).filter store.isActive) = some rev ↔
        rev ∈ (store.revisionsOf docId).filter store.isActive ∧
        ∀ other ∈ (store.revisionsOf docId).filter store.isActive,
          store.revisionCreatedTime other.id ≤ store.revisionCreatedTime rev.id := by
    refine largest_eq_some_iff_of_injective fun a ha b hb hsame => ?_
    obtain ⟨hamem, hadocument, -⟩ := (hmem a).mp ha
    obtain ⟨hbmem, hbdocument, -⟩ := (hmem b).mp hb
    exact htimes a hamem b hbmem (hadocument.trans hbdocument.symm) hsame
  rw [hmem] at hnew
  rw [newestActiveRevision]
  constructor
  · intro h
    split at h
    · cases h
    split at h
    · cases h
    rename_i found hfound
    cases h
    obtain ⟨hrev, hlat⟩ := hnew.mp hfound
    exact ⟨hrev, fun other hother hdoc hact =>
      hlat other ((hmem other).mpr ⟨hother, hdoc, hact⟩)⟩
  · rintro ⟨hrev, hlat⟩
    have hfound := hnew.mpr ⟨hrev, fun other hother =>
      hlat other ((hmem other).mp hother).1 ((hmem other).mp hother).2.1
        ((hmem other).mp hother).2.2⟩
    have hsome := List.mem_of_mem_filter ((hmem rev).mpr hrev)
    rw [if_neg (by rw [List.isEmpty_iff]; exact List.ne_nil_of_mem hsome), hfound]

structure ActiveRowsOf (store : FileStore) (wanted : NodeId → Prop)
    (rows : List (DocumentRevision × File)) : Prop where
  mem_iff : ∀ joined, joined ∈ rows ↔
    joined ∈ store.revisionFiles ∧ wanted joined.1.documentId ∧ joined.2.active = true

section

variable {wanted : NodeId → Prop} {rows : List (DocumentRevision × File)}

theorem ActiveRowsOf.ranksApart (h : store.ActiveRowsOf wanted rows) (htimes : store.DistinctTimes) :
    RanksApart (fun joined : DocumentRevision × File => joined.1.documentId)
      (fun joined => OrderDual.toDual (store.revisionCreatedTime joined.1.id)) rows := by
  rintro ⟨a, file⟩ ha ⟨b, file'⟩ hb hkey htime
  have hjoin := ((h.mem_iff _).mp ha).1
  have hjoin' := ((h.mem_iff _).mp hb).1
  obtain rfl := htimes a (mem_revisionFiles.mp hjoin).1 b (mem_revisionFiles.mp hjoin').1 hkey htime
  rw [file_unique hjoin hjoin']

theorem ActiveRowsOf.newestFirst_eq (h : store.ActiveRowsOf wanted rows)
    (hlink : store.RevisionsLinked) (htimes : store.DistinctTimes)
    (hjoin : joined ∈ store.newestFirst order rows) :
    wanted joined.1.documentId ∧ store.newestActiveRevision joined.1.documentId = .ok joined.1 := by
  rw [newestFirst, mem_firstRows (h.ranksApart htimes)] at hjoin
  obtain ⟨hmem, hnew⟩ := hjoin
  obtain ⟨hrow, hwanted, hact⟩ := (h.mem_iff _).mp hmem
  refine ⟨hwanted, (newestActiveRevision_eq_ok_iff htimes).mpr
    ⟨⟨(mem_revisionFiles.mp hrow).1, rfl, (isActive_eq hrow).trans hact⟩,
      fun other hother hdoc hotherActive => ?_⟩⟩
  obtain ⟨file, hfile⟩ := hlink.exists_joined hother
  have hotherFile : file.active = true := (isActive_eq hfile).symm.trans hotherActive
  exact hnew (other, file) ((h.mem_iff _).mpr ⟨hfile, hdoc ▸ hwanted, hotherFile⟩) hdoc

theorem ActiveRowsOf.exists_newestFirst (h : store.ActiveRowsOf wanted rows)
    (hlink : store.RevisionsLinked) (htimes : store.DistinctTimes) {docId : NodeId}
    (hwanted : wanted docId)
    (hnew : store.newestActiveRevision docId = .ok rev) :
    ∃ joined ∈ store.newestFirst order rows, joined.1 = rev := by
  obtain ⟨⟨hmem, rfl, hact⟩, -⟩ := (newestActiveRevision_eq_ok_iff htimes).mp hnew
  obtain ⟨file, hfile⟩ := hlink.exists_joined hmem
  have hrow : (rev, file) ∈ rows :=
    (h.mem_iff _).mpr ⟨hfile, hwanted, (isActive_eq hfile).symm.trans hact⟩
  obtain ⟨first, hfirst, hkey⟩ : ∃ first ∈ store.newestFirst order rows,
      first.1.documentId = rev.documentId := exists_firstRow hrow
  obtain ⟨-, hfound⟩ := h.newestFirst_eq hlink htimes hfirst
  rw [hkey, hnew] at hfound
  cases hfound
  exact ⟨first, hfirst, rfl⟩

end

/-! ### The dictionary -/

/-- What `get_latest_revision` gives for the document of an id. -/
def effectiveRevision? (store : FileStore) (documentId : NodeId) : Option DocumentRevision :=
  (store.documents.find? fun document => document.id == documentId).bind fun document =>
    (store.getLatestRevision document).toOption

theorem effectiveRevision?_of_document (hdoc : doc ∈ store.documents) :
    store.effectiveRevision? doc.id = (store.getLatestRevision doc).toOption := by
  rw [effectiveRevision?]
  cases hfound : store.documents.find? fun other => other.id == doc.id with
  | none =>
    rw [find?_eq_none] at hfound
    exact absurd (beq_self_eq_true _) (hfound doc hdoc)
  | some found =>
    have hid : found.id = doc.id := by simpa using find?_some hfound
    rw [eq_of_document_id (List.Subset.refl _) (mem_of_find?_eq_some hfound) hdoc hid]
    rfl

theorem toOption_getLatestRevision (hacyc : store.Acyclic) (doc : Node) :
    (store.getLatestRevision doc).toOption = ((store.ancestors doc).find? store.isActive).or
        (store.newestActiveRevision doc.id).toOption := by
  rw [(hacyc.ancestry doc).getLatestRevision_eq]
  cases (store.ancestors doc).find? store.isActive <;> rfl

theorem effectiveRevision?_mem (hacyc : store.Acyclic)
    (h : store.effectiveRevision? docId = some rev) : rev ∈ store.revisions := by
  obtain ⟨doc, -, hlat⟩ := Option.bind_eq_some_iff.mp h
  rw [toOption_getLatestRevision hacyc] at hlat
  rcases Option.or_eq_some_iff.mp hlat with hfirst | ⟨-, hnew⟩
  · exact (hacyc.ancestry doc).mem_revisions (mem_of_find?_eq_some hfirst)
  cases hres : store.newestActiveRevision doc.id with
  | error e =>
    rw [hres] at hnew
    cases hnew
  | ok newest =>
    rw [hres] at hnew
    cases hnew
    exact newestActiveRevision_mem hres

/-- The first row shows what the climb finds. -/
theorem effectiveRevision?_of_currentFirst (hlink : store.RevisionsLinked)
    (hacyc : store.Acyclic) (hdocs : documents ⊆ store.documents)
    (h : row ∈ store.currentFirst order documents) :
    ∃ rev, store.effectiveRevision? row.documentId = some rev ∧ row.revisionId = rev.id := by
  obtain ⟨doc, hdoc, rev, hfirst, hid, hshown, -⟩ :=
    currentFirst_shows hlink hacyc hdocs h
  refine ⟨rev, ?_, hshown⟩
  rw [hid, effectiveRevision?_of_document (hdocs hdoc), toOption_getLatestRevision hacyc, hfirst]
  rfl

/-- Without a row the climb falls back as well. -/
theorem effectiveRevision?_of_no_row (hlink : store.RevisionsLinked) (hacyc : store.Acyclic)
    (htimes : store.DistinctTimes) (hdocs : documents ⊆ store.documents)
    (hall : ∀ doc ∈ store.documents, doc.id = docId → doc ∈ documents)
    (hnone : ∀ row ∈ store.currentFirst order documents, row.documentId ≠ docId) :
    store.effectiveRevision? docId = (store.newestActiveRevision docId).toOption := by
  by_cases hexists : ∃ doc ∈ store.documents, doc.id = docId
  · obtain ⟨doc, hdoc, rfl⟩ := hexists
    rw [effectiveRevision?_of_document hdoc, toOption_getLatestRevision hacyc]
    cases hfirst : (store.ancestors doc).find? store.isActive with
    | none => rfl
    | some rev =>
      obtain ⟨row, hrow, hshows⟩ : ∃ row ∈ store.currentFirst order documents,
          store.Shows doc.id rev row :=
        exists_currentFirst hlink hacyc hdocs (hall doc hdoc rfl) hfirst
      exact absurd hshows.1 (hnone row hrow)
  · have hmiss : store.effectiveRevision? docId = none := by
      rw [effectiveRevision?, find?_eq_none.mpr fun doc hdoc hid =>
        hexists ⟨doc, hdoc, beq_iff_eq.mp hid⟩]
      rfl
    rw [hmiss]
    cases hnew : store.newestActiveRevision docId with
    | error e => rfl
    | ok rev =>
      obtain ⟨⟨hmem, rfl, -⟩, -⟩ := (newestActiveRevision_eq_ok_iff htimes).mp hnew
      exact absurd (hlink.document rev hmem) hexists

theorem fetchChunk_eq (dict : OrderedDict NodeId String) (chunkIds : List NodeId) :
    store.fetchChunk order dict chunkIds =
      store.assignNewest order (store.assignCurrentChain order dict chunkIds)
        (chunkIds.filter fun docId =>
          ((store.assignCurrentChain order dict chunkIds).lookup docId).isNone) := by
  rw [fetchChunk]
  split
  · next hempty =>
    rw [isEmpty_iff.mp hempty]
    simp [assignNewest, newestFirst, firstRows, assignRows]
  · rfl

variable {dict : OrderedDict NodeId String} {chunkIds : List NodeId}

variable (hlink : store.RevisionsLinked)

include hlink

theorem assignCurrentChain_lookup (hacyc : store.Acyclic) :
    (docId ∈ chunkIds ∧ (store.assignCurrentChain order dict chunkIds).lookup docId =
        (store.effectiveRevision? docId).map DocumentRevision.id ∧
        store.effectiveRevision? docId ≠ none) ∨
    ((store.assignCurrentChain order dict chunkIds).lookup docId = dict.lookup docId ∧
      ∀ row ∈ store.currentFirst order (store.documents.filter fun doc => chunkIds.contains doc.id),
          row.documentId ≠ docId) := by
  have hdocs : (store.documents.filter fun doc => chunkIds.contains doc.id) ⊆
      store.documents := fun _ h => mem_of_mem_filter h
  by_cases hrow : ∃ row ∈ store.currentFirst order
      (store.documents.filter fun doc => chunkIds.contains doc.id),
        row.documentId = docId
  · obtain ⟨row, hrow, rfl⟩ := hrow
    obtain ⟨rev, heff, hid⟩ :=
      effectiveRevision?_of_currentFirst hlink hacyc hdocs hrow
    obtain ⟨doc, hdoc, -, -, hshown, -⟩ :=
      currentFirst_shows hlink hacyc hdocs hrow
    refine .inl ⟨?_, ?_, by rw [heff]; exact Option.some_ne_none _⟩
    · rw [hshown]
      exact contains_iff_mem.mp (mem_filter.mp hdoc).2
    · rw [heff]
      refine lookup_assignRows_of_mem (fun other hother hkey => ?_) ⟨row, hrow, rfl⟩
      obtain ⟨found, hfound, hotherId⟩ :=
        effectiveRevision?_of_currentFirst hlink hacyc hdocs hother
      rw [hkey, heff] at hfound
      cases hfound
      exact hotherId
  · push Not at hrow
    exact .inr ⟨lookup_assignRows_of_notMem hrow, hrow⟩

theorem assignNewest_lookup (htimes : store.DistinctTimes)
    {fallbackIds : List NodeId} :
    (store.assignNewest order dict fallbackIds).lookup docId = if docId ∈ fallbackIds then
        ((store.newestActiveRevision docId).toOption.map DocumentRevision.id).or (dict.lookup docId)
      else dict.lookup docId := by
  have hrows : store.ActiveRowsOf (· ∈ fallbackIds) (store.revisionFiles.filter fun joined =>
      fallbackIds.contains joined.1.documentId && joined.2.active) := by
    refine ⟨fun joined => ?_⟩
    rw [mem_filter, Bool.and_eq_true, contains_iff_mem]
  by_cases hrow : ∃ joined ∈ store.newestFirst order (store.revisionFiles.filter fun joined =>
      fallbackIds.contains joined.1.documentId && joined.2.active), joined.1.documentId = docId
  · obtain ⟨joined, hjoin, rfl⟩ := hrow
    obtain ⟨hwanted, hnew⟩ := hrows.newestFirst_eq hlink htimes hjoin
    rw [if_pos hwanted, hnew]
    refine lookup_assignRows_of_mem (fun other hother hkey => ?_) ⟨joined, hjoin, rfl⟩
    obtain ⟨-, hfound⟩ := hrows.newestFirst_eq hlink htimes hother
    rw [hkey, hnew] at hfound
    rw [Except.ok.inj hfound]
  · split
    · next hwanted =>
      cases hnew : store.newestActiveRevision docId with
      | error e =>
        push Not at hrow
        exact lookup_assignRows_of_notMem hrow
      | ok rev =>
        obtain ⟨⟨-, hdoc, -⟩, -⟩ := (newestActiveRevision_eq_ok_iff htimes).mp hnew
        obtain ⟨joined, hjoin, rfl⟩ := hrows.exists_newestFirst hlink htimes hwanted hnew
        exact absurd ⟨joined, hjoin, hdoc⟩ hrow
    · push Not at hrow
      exact lookup_assignRows_of_notMem hrow

/-- A chunk gives its documents their revisions in effect, as long as the entries so far are
right. -/
theorem fetchChunk_lookup (hacyc : store.Acyclic)
    (htimes : store.DistinctTimes)
    (hdict : dict.lookup docId = none ∨ dict.lookup docId =
      (store.effectiveRevision? docId).map DocumentRevision.id) :
    (store.fetchChunk order dict chunkIds).lookup docId = if docId ∈ chunkIds then
        (store.effectiveRevision? docId).map DocumentRevision.id
      else dict.lookup docId := by
  have hfall : docId ∈ (chunkIds.filter fun docId =>
      ((store.assignCurrentChain order dict chunkIds).lookup docId).isNone) ↔
      docId ∈ chunkIds ∧
        (store.assignCurrentChain order dict chunkIds).lookup docId = none := by
    rw [mem_filter, Option.isNone_iff_eq_none]
  have hcases : (docId ∈ chunkIds ∧ (store.assignCurrentChain order dict chunkIds).lookup
      docId = _ ∧ _) ∨ _ := assignCurrentChain_lookup hlink hacyc
  rw [fetchChunk_eq, assignNewest_lookup hlink htimes]
  rcases hcases with ⟨hmem, hlook, hsome⟩ | ⟨hlook, hnone⟩
  · rw [if_neg, if_pos hmem, hlook]
    rw [hfall, hlook, Option.map_eq_none_iff]
    exact fun h => hsome h.2
  · rw [hlook] at hfall ⊢
    by_cases hmem : docId ∈ chunkIds
    · have hnew := effectiveRevision?_of_no_row hlink hacyc htimes
        (fun _ h => mem_of_mem_filter h) (fun doc hdoc hid => mem_filter.mpr
          ⟨hdoc, contains_iff_mem.mpr (hid ▸ hmem)⟩) hnone
      rw [if_pos hmem]
      cases hold : dict.lookup docId with
      | none => rw [if_pos (hfall.mpr ⟨hmem, hold⟩), hnew, Option.or_none]
      | some revId =>
        have hkept : ¬ dict.lookup docId = none := by
          rw [hold]
          exact Option.some_ne_none _
        rw [if_neg fun h => hkept (hfall.mp h).2, ← hold]
        exact hdict.resolve_left hkept
    · rw [if_neg fun h => hmem (hfall.mp h).1, if_neg hmem]

theorem foldl_fetchChunk_lookup (hacyc : store.Acyclic)
    (htimes : store.DistinctTimes) (chunks : List (List NodeId))
    (hdict : dict.lookup docId = none ∨ dict.lookup docId =
      (store.effectiveRevision? docId).map DocumentRevision.id) :
    (chunks.foldl (store.fetchChunk order) dict).lookup docId = if docId ∈ chunks.flatten then
        (store.effectiveRevision? docId).map DocumentRevision.id
      else dict.lookup docId := by
  induction chunks generalizing dict with
  | nil => rfl
  | cons chunkIds chunks ih =>
    have hchunk : (store.fetchChunk order dict chunkIds).lookup docId =
        if docId ∈ chunkIds then _ else _ := fetchChunk_lookup hlink hacyc htimes hdict
    rw [foldl_cons, flatten_cons]
    by_cases hmem : docId ∈ chunkIds
    · rw [if_pos hmem] at hchunk
      rw [ih (.inr hchunk), hchunk, if_pos (mem_append_left _ hmem)]
      split <;> rfl
    · rw [if_neg hmem] at hchunk
      rw [ih (hchunk ▸ hdict), hchunk]
      refine if_congr ?_ rfl rfl
      rw [mem_append]
      exact ⟨.inr, fun h => h.resolve_left hmem⟩

omit hlink

variable {limits : QueryLimits}

theorem revisionsById_lookup {revisionIds : List String}
    (hmem : rev ∈ store.revisions) (hid : rev.id ∈ revisionIds) :
    (store.revisionsById order limits revisionIds).lookup rev.id = some rev := by
  refine lookup_assignRows_of_mem (fun other hother hsame => ?_) ⟨rev, ?_, rfl⟩
  · obtain ⟨chunk, -, hother⟩ := mem_flatMap.mp hother
    rw [(order.perm _).mem_iff] at hother
    exact inj_on_of_nodup_map store.revisionIds_nodup (mem_of_mem_filter hother) hmem hsame
  · obtain ⟨chunk, hchunk, hin⟩ := (exists_mem_batched limits.queryChunkSize_pos).mpr hid
    refine mem_flatMap.mpr ⟨chunk, hchunk, ?_⟩
    rw [(order.perm _).mem_iff, mem_filter, contains_iff_mem]
    exact ⟨hmem, hin⟩

theorem loadRevisions_lookup {found : NodeId → Option DocumentRevision}
    (hfound : ∀ key rev, found key = some rev → rev ∈ store.revisions)
    (hdict : ∀ key, dict.lookup key = (found key).map DocumentRevision.id) (docId : NodeId) :
    (store.loadRevisions order limits dict).lookup docId = found docId := by
  have hentry : ∀ (key : NodeId) (rev : DocumentRevision),
      (key, rev) ∈ (dict.entries.filterMap fun entry =>
        ((store.revisionsById order limits (dict.entries.map Sigma.snd)).lookup entry.2).map
          fun rev => (entry.1, rev)) ↔ found key = some rev := by
    intro key rev
    have hload : ∀ rev, found key = some rev → ⟨key, rev.id⟩ ∈ dict.entries ∧
        (store.revisionsById order limits (dict.entries.map Sigma.snd)).lookup rev.id =
          some rev := by
      intro rev hrev
      have hmem : (⟨key, rev.id⟩ : (_ : NodeId) × String) ∈ dict.entries := by
        refine mem_lookup_iff.mp ?_
        rw [hdict key, hrev]
        rfl
      exact ⟨hmem, revisionsById_lookup (hfound key rev hrev) (mem_map.mpr ⟨_, hmem, rfl⟩)⟩
    rw [mem_filterMap]
    constructor
    · rintro ⟨⟨other, revId⟩, hmem, hrev⟩
      obtain ⟨shown, hshown, hsame⟩ := Option.map_eq_some_iff.mp hrev
      cases hsame
      have hlook : dict.lookup other = some revId := mem_lookup_iff.mpr hmem
      rw [hdict other] at hlook
      obtain ⟨effective, heff, rfl⟩ := Option.map_eq_some_iff.mp hlook
      rw [(hload effective heff).2] at hshown
      cases hshown
      exact heff
    · intro hrev
      obtain ⟨hmem, hlook⟩ := hload rev hrev
      refine ⟨⟨key, rev.id⟩, hmem, ?_⟩
      rw [hlook]
      rfl
  cases hres : found docId with
  | none =>
    refine (lookup_assignRows_of_notMem ?_).trans (lookup_empty docId)
    rintro ⟨key, rev⟩ hmem rfl
    rw [(hentry key rev).mp hmem] at hres
    cases hres
  | some rev =>
    refine lookup_assignRows_of_mem ?_ ⟨(docId, rev), (hentry _ _).mpr hres, rfl⟩
    rintro ⟨key, other⟩ hmem rfl
    exact Option.some.inj (((hentry key other).mp hmem).symm.trans hres)

/-- The batch query finds what the climb finds. -/
theorem fetchLatestActiveRevisions_lookup (hlink : store.RevisionsLinked)
    (hacyc : store.Acyclic) (htimes : store.DistinctTimes) (limits : QueryLimits)
    (docIds : List NodeId) (docId : NodeId) :
    (store.fetchLatestActiveRevisionsByDocument order limits docIds).lookup docId =
      if docId ∈ docIds then store.effectiveRevision? docId else none := by
  have hids : ∀ id, ((batched limits.queryChunkSize docIds).foldl
      (store.fetchChunk order) ∅).lookup id =
        (if id ∈ docIds then store.effectiveRevision? id else none).map DocumentRevision.id := by
    intro id
    rw [foldl_fetchChunk_lookup hlink hacyc htimes _ (.inl (lookup_empty id)),
      batched_flatten limits.queryChunkSize_pos]
    split <;> rfl
  have hfound : ∀ key rev,
      (if key ∈ docIds then store.effectiveRevision? key else none) = some rev →
        rev ∈ store.revisions := by
    intro key rev h
    exact effectiveRevision?_mem hacyc (Option.ite_none_right_eq_some.mp h).2
  unfold fetchLatestActiveRevisionsByDocument
  by_cases hempty : docIds.isEmpty = true
  · rw [if_pos hempty, isEmpty_iff.mp hempty, lookup_empty, if_neg not_mem_nil]
  rw [if_neg hempty]
  by_cases hnothing : ((batched limits.queryChunkSize docIds).foldl
      (store.fetchChunk order) ∅).entries.isEmpty = true
  · have hnone := hids docId
    rw [show (batched limits.queryChunkSize docIds).foldl (store.fetchChunk order) ∅ = ∅
      from ext (isEmpty_iff.mp hnothing)] at hnone
    rw [if_pos hnothing, lookup_empty, Option.map_eq_none_iff.mp hnone.symm]
  · dsimp only
    rw [if_neg hnothing]
    exact loadRevisions_lookup hfound hids docId

/-! ### The single query -/

variable {choice : ActiveChoice} {documentFilters : Node → Bool} {columns : DetailColumns}

theorem matchedRevisions_rows (documents : List Node) :
    store.ActiveRowsOf (fun id => ∃ doc ∈ documents, doc.id = id)
      (store.matchedRevisions documents) := by
  refine ⟨fun joined => ?_⟩
  rw [matchedRevisions, mem_flatMap]
  simp only [mem_filter, Bool.and_eq_true, beq_iff_eq]
  constructor
  · rintro ⟨doc, hdoc, hjoin, hid, hact⟩
    exact ⟨hjoin, ⟨doc, hdoc, hid⟩, hact⟩
  · rintro ⟨hjoin, ⟨doc, hdoc, hid⟩, hact⟩
    exact ⟨doc, hdoc, hjoin, hid, hact⟩

def ShownBy (store : FileStore) (documentId : NodeId) (revision : DocumentRevision)
    (choice : ActiveChoice) : Prop :=
  choice.documentId = documentId ∧ choice.revisionId = revision.id ∧
    choice.createdTime = store.revisionCreatedTime revision.id ∧ choice.fileId = revision.fileId

theorem ranksApart_source (documents : List Node) :
    RanksApart ActiveChoice.documentId ActiveChoice.sourceRank
      (store.activeChoices order documents) := by
  intro a ha b hb hkey hrank
  rw [activeChoices, mem_append, mem_map, mem_map] at ha hb
  rcases ha with ⟨row, hrow, rfl⟩ | ⟨joined, hjoin, rfl⟩
  · rcases hb with ⟨row', hrow', rfl⟩ | ⟨joined', -, rfl⟩
    · rw [inj_on_of_nodup_map firstRows_nodup hrow hrow' hkey]
    · cases hrank
  · rcases hb with ⟨row', -, rfl⟩ | ⟨joined', hjoin', rfl⟩
    · cases hrank
    · rw [inj_on_of_nodup_map firstRows_nodup hjoin hjoin' hkey]

theorem effectiveRanked_nodup :
    ((store.effectiveRanked order documents).map ActiveChoice.documentId).Nodup := firstRows_nodup

theorem effectiveRanked_shows (hlink : store.RevisionsLinked) (hacyc : store.Acyclic)
    (htimes : store.DistinctTimes) (hdocs : documents ⊆ store.documents)
    (h : choice ∈ store.effectiveRanked order documents) :
    ∃ doc ∈ documents, ∃ rev, (store.getLatestRevision doc).toOption = some rev ∧
        store.ShownBy doc.id rev choice := by
  obtain ⟨hmem, hleast⟩ := (mem_firstRows (ranksApart_source documents)).mp h
  rw [activeChoices, mem_append, mem_map, mem_map] at hmem
  rcases hmem with ⟨row, hrow, rfl⟩ | ⟨joined, hjoin, rfl⟩
  · obtain ⟨doc, hdoc, rev, hfirst, hshows⟩ :=
      currentFirst_shows hlink hacyc hdocs hrow
    refine ⟨doc, hdoc, rev, ?_, hshows⟩
    rw [toOption_getLatestRevision hacyc, hfirst]
    rfl
  · obtain ⟨⟨doc, hdoc, hid⟩, hnew⟩ :=
      (matchedRevisions_rows documents).newestFirst_eq hlink htimes hjoin
    refine ⟨doc, hdoc, joined.1, ?_, hid.symm, rfl, rfl, rfl⟩
    rw [toOption_getLatestRevision hacyc, hid, hnew]
    cases hfirst : (store.ancestors doc).find? store.isActive with
    | none => rfl
    | some rev =>
      -- a row of the chain would have been ranked before this one
      obtain ⟨row, hrow, hshown, -⟩ : ∃ row ∈ store.currentFirst order documents,
          store.Shows doc.id rev row :=
        exists_currentFirst hlink hacyc hdocs hdoc hfirst
      have hle : (1 : ℕ) ≤ 0 := hleast (currentChoice row)
        (mem_append_left _ (mem_map_of_mem hrow)) (hshown.trans hid)
      exact absurd hle (by decide)

theorem exists_effectiveRanked (hlink : store.RevisionsLinked) (hacyc : store.Acyclic)
    (htimes : store.DistinctTimes) (hdocs : documents ⊆ store.documents)
    (hdoc : doc ∈ documents)
    (hlat : (store.getLatestRevision doc).toOption = some rev) :
    ∃ choice ∈ store.effectiveRanked order documents, store.ShownBy doc.id rev choice := by
  have hchoice : ∃ choice ∈ store.activeChoices order documents, choice.documentId = doc.id := by
    rw [toOption_getLatestRevision hacyc] at hlat
    rcases Option.or_eq_some_iff.mp hlat with hfirst | ⟨-, hnew⟩
    · obtain ⟨row, hrow, hshown, -⟩ : ∃ row ∈ store.currentFirst order documents,
          store.Shows doc.id rev row :=
        exists_currentFirst hlink hacyc hdocs hdoc hfirst
      exact ⟨_, mem_append_left _ (mem_map_of_mem hrow), hshown⟩
    · cases hres : store.newestActiveRevision doc.id with
      | error e =>
        rw [hres] at hnew
        cases hnew
      | ok newest =>
        obtain ⟨⟨-, hid, -⟩, -⟩ := (newestActiveRevision_eq_ok_iff htimes).mp hres
        obtain ⟨joined, hjoin, rfl⟩ : ∃ joined ∈ store.newestFirst order
            (store.matchedRevisions documents), joined.1 = newest :=
          (matchedRevisions_rows documents).exists_newestFirst hlink htimes
            ⟨doc, hdoc, rfl⟩ hres
        exact ⟨_, mem_append_right _ (mem_map_of_mem hjoin), hid⟩
  obtain ⟨cand, hcand, hid⟩ := hchoice
  obtain ⟨choice, hmem, hkey⟩ : ∃ choice ∈ store.effectiveRanked order documents,
      choice.documentId = cand.documentId := exists_firstRow hcand
  obtain ⟨other, hother, shown, hshown, hshows⟩ :=
    effectiveRanked_shows hlink hacyc htimes hdocs hmem
  obtain rfl := eq_of_document_id hdocs hdoc hother (hid.symm.trans (hkey.symm.trans hshows.1))
  rw [hlat] at hshown
  cases hshown
  exact ⟨choice, hmem, hshows⟩

def detailsOf (store : FileStore) (columns : DetailColumns) (document : Node)
    (revision : DocumentRevision) : DocumentDetails where
  id := document.id
  name := document.name
  nameSortKey := columns.lower document.name
  parentId := document.parentId
  createdTime := columns.createdTime document.id
  inherit := document.inherit
  lastModified := store.revisionCreatedTime revision.id
  size := columns.fileSize revision.fileId

/-- So does the ranked query. -/
theorem effectiveActiveRevisionDetails_eq (hlink : store.RevisionsLinked)
    (hacyc : store.Acyclic) (htimes : store.DistinctTimes) :
    store.effectiveActiveRevisionDetails order columns documentFilters =
      (store.documents.filter documentFilters).filterMap fun doc =>
        (store.getLatestRevision doc).toOption.map (store.detailsOf columns doc) := by
  have hdocs : store.documents.filter documentFilters ⊆ store.documents :=
    fun _ h => mem_of_mem_filter h
  have hrow : ∀ doc ∈ store.documents.filter documentFilters,
      (((store.effectiveRanked order (store.documents.filter documentFilters)).filter fun choice =>
        doc.id == choice.documentId).flatMap fun choice =>
          (store.files.filter fun file => choice.fileId == file.id).map fun file =>
            documentDetails columns doc choice file) =
      ((store.getLatestRevision doc).toOption.map (store.detailsOf columns doc)).toList := by
    intro doc hdoc
    cases hlat : (store.getLatestRevision doc).toOption with
    | none =>
      rw [filter_eq_nil_iff.mpr]
      · rfl
      intro choice hchoice hid
      obtain ⟨other, hother, rev, hrev, hshown, -⟩ :=
        effectiveRanked_shows hlink hacyc htimes hdocs hchoice
      obtain rfl := eq_of_document_id hdocs hdoc hother ((beq_iff_eq.mp hid).trans hshown)
      rw [hlat] at hrev
      cases hrev
    | some rev =>
      obtain ⟨choice, hchoice, hid, -, htime, hfileId⟩ : ∃ choice ∈ store.effectiveRanked order
          (store.documents.filter documentFilters), store.ShownBy doc.id rev choice :=
        exists_effectiveRanked hlink hacyc htimes hdocs hdoc hlat
      have heff : store.effectiveRevision? doc.id = some rev := by
        rw [effectiveRevision?_of_document (hdocs hdoc), hlat]
      obtain ⟨file, hfile, hfileRow⟩ :=
        hlink.file rev (effectiveRevision?_mem hacyc heff)
      rw [← hid, filter_key_eq_singleton effectiveRanked_nodup hchoice, flatMap_singleton, hfileId,
        ← hfileRow, filter_key_eq_singleton store.fileIds_nodup hfile, map_singleton,
        documentDetails, htime, hfileRow]
      rfl
  rw [filterMap_eq_flatMap_toList]
  exact flatMap_congr hrow

/-! ### Agreement -/

theorem getLatestRevision_ends (hacyc : store.Acyclic) (doc : Node) :
    store.getLatestRevision doc ≠ .error .endless := by
  rw [(hacyc.ancestry doc).getLatestRevision_eq]
  cases (store.ancestors doc).find? store.isActive with
  | some rev =>
    intro h
    cases h
  | none =>
    show store.newestActiveRevision doc.id ≠ .error .endless
    intro h
    rw [newestActiveRevision] at h
    split at h
    · cases h
    · split at h <;> cases h

/-- The dictionary has what `get_latest_revision` returns for each of the requested documents, and
the ranking of the single query chooses the same revision. -/
theorem effective_revisions_agree (store : FileStore) (order : RowOrder) (limits : QueryLimits)
    (columns : DetailColumns) (docIds : List NodeId) (documentFilters : Node → Bool)
    (hlink : store.RevisionsLinked) (hacyc : store.Acyclic) (htimes : store.DistinctTimes) :
    (∀ doc ∈ store.documents, store.getLatestRevision doc ≠ .error .endless) ∧
    (∀ doc ∈ store.documents, doc.id ∈ docIds →
      (store.fetchLatestActiveRevisionsByDocument order limits docIds).lookup doc.id =
        (store.getLatestRevision doc).toOption) ∧
    (∀ docId, docId ∉ docIds →
      (store.fetchLatestActiveRevisionsByDocument order limits docIds).lookup docId = none) ∧
    (∀ doc ∈ store.documents, documentFilters doc = true → ∀ rev ∈ store.revisions,
        (store.getLatestRevision doc).toOption = some rev ↔
          ∃ choice ∈ store.effectiveRanked order (store.documents.filter documentFilters),
            choice.documentId = doc.id ∧ choice.revisionId = rev.id) ∧
    store.effectiveActiveRevisionDetails order columns documentFilters =
      (store.documents.filter documentFilters).filterMap fun doc =>
        (store.getLatestRevision doc).toOption.map (store.detailsOf columns doc) := by
  have hdocs : store.documents.filter documentFilters ⊆ store.documents :=
    fun _ h => mem_of_mem_filter h
  refine ⟨fun doc _ => getLatestRevision_ends hacyc doc, fun doc hdoc hmem =>
    ?_, fun docId hmem => ?_, fun doc hdoc hfilt rev hrev => ?_,
    effectiveActiveRevisionDetails_eq hlink hacyc htimes⟩
  · rw [fetchLatestActiveRevisions_lookup hlink hacyc htimes, if_pos hmem,
      effectiveRevision?_of_document hdoc]
  · rw [fetchLatestActiveRevisions_lookup hlink hacyc htimes, if_neg hmem]
  have hmatch := mem_filter.mpr ⟨hdoc, hfilt⟩
  constructor
  · intro hlat
    obtain ⟨choice, hchoice, hid, hshown, -⟩ : ∃ choice ∈ store.effectiveRanked order
        (store.documents.filter documentFilters), store.ShownBy doc.id rev choice :=
      exists_effectiveRanked hlink hacyc htimes hdocs hmatch hlat
    exact ⟨choice, hchoice, hid, hshown⟩
  · rintro ⟨choice, hchoice, hid, hchosen⟩
    obtain ⟨other, hother, found, hfound, hshown, hfoundId, -⟩ :=
      effectiveRanked_shows hlink hacyc htimes hdocs hchoice
    obtain rfl := eq_of_document_id hdocs hmatch hother (hid.symm.trans hshown)
    have heff : store.effectiveRevision? doc.id = some found := by
      rw [effectiveRevision?_of_document hdoc, hfound]
    rw [hfound, inj_on_of_nodup_map store.revisionIds_nodup
      (effectiveRevision?_mem hacyc heff) hrev (hfoundId.symm.trans hchosen)]

/-- While the upload of a new revision is pending, all three show the old one. -/
theorem effective_revisions_agree_report :
    ((reportStore false).fetchLatestActiveRevisionsByDocument RowOrder.written queryLimits
        ["report"]).lookup "report" = some oldRevision ∧
      ((reportStore false).effectiveActiveRevisionDetails RowOrder.written ⟨id, fun _ => 0,
        fun _ => none⟩ fun _ => true).map DocumentDetails.lastModified = [1] := by
  obtain ⟨-, hfetch, -, -, hdetails⟩ := effective_revisions_agree (reportStore false)
    RowOrder.written queryLimits ⟨id, fun _ => 0, fun _ => none⟩ ["report"] (fun _ => true)
    ⟨by decide, by decide⟩ (reportStore_acyclic false) (by unfold DistinctTimes; decide)
  have hlat : (reportStore false).getLatestRevision (report "new") = .ok oldRevision := by decide
  refine ⟨?_, ?_⟩
  · exact (hfetch (report "new") (by decide) (by decide)).trans (by rw [hlat]; rfl)
  · rw [hdetails]
    decide

end FileStore

end Cfms.Documents
