import Cfms.Documents.Rows
import Cfms.Files.Tasks
import Cfms.Lib.Chunks
import Cfms.Lib.Table
import Mathlib.Data.List.Sort

/-!
# References to files

Revisions, avatars and the tables of extensions refer to rows of `files` by foreign keys.  A key
with `ON DELETE CASCADE` marks metadata of the file, every other one a use of it.  The queries of
`include/domains/documents/queries/file_references.py` and `revisions.py` find the uses by
reflection and count them, in chunks of the keys.

Each query has one lemma that says what it computes, whatever the sizes of the chunks:
`countFileReferences_apply`, `batchCountOtherRevisions_apply`, `mem_findUnreachableFileIds`.
-/

namespace Cfms.Documents

open Access Lib Lib.Chunks List
open Files (FileTask)

/-! ### Tables -/

/-- A foreign key as the inspector reports it. -/
structure ForeignKey where
  referredTable : String
  ondelete : Option String
  constrainedColumns : List String
  deriving DecidableEq

/-- A table as the inspector reflects it, with the text values of its rows by column. -/
structure ReflectedTable where
  name : String
  foreignKeys : List ForeignKey
  rows : List (String → Option String)

/-- A row of `file_tasks` with its file. -/
structure FileTaskRow where
  fileId : String
  task : FileTask
  deriving DecidableEq

/-- The database of the revision and file commands, with the queue of the session's deferred file
deletions: paths, each with the upload sessions to abort. -/
structure FileStore extends Database where
  revisionIds_nodup : (revisions.map DocumentRevision.id).Nodup
  fileIds_nodup : (files.map File.id).Nodup
  revisionFileIds_ne_empty : ∀ revision ∈ revisions, revision.fileId ≠ ""
  revisionCreatedTime : String → Instant := fun _ => 0
  parentRevisionId : String → Option String := fun _ => none
  filePath : String → String := id
  fileTasks : Table String FileTaskRow := ∅
  otherTables : List ReflectedTable := []
  tableNames_nodup : ("document_revisions" :: otherTables.map ReflectedTable.name).Nodup
  pendingDeleteFiles : List (String × List String) := []

/-- How many values one statement binds. -/
structure QueryLimits where
  queryChunkSize : ℕ
  maxParamSize : ℕ
  queryChunkSize_pos : 0 < queryChunkSize

/-- `QUERY_CHUNK_SIZE` and `MAX_PARAM_SIZE`. -/
def queryLimits : QueryLimits := ⟨576, 950, by decide⟩

/-! ### Reflection -/

/-- A use of a file, and not metadata that goes with it. -/
def ForeignKey.isFileUse (key : ForeignKey) : Bool :=
  key.referredTable == "files" && (key.ondelete.getD "").toUpper != "CASCADE"

variable (table : ReflectedTable)

def ReflectedTable.fileColumns : List String :=
  ((table.foreignKeys.filter ForeignKey.isFileUse).flatMap
    ForeignKey.constrainedColumns).dedup.insertionSort (· ≤ ·)

def ReflectedTable.columnValues (column : String) : List String :=
  table.rows.filterMap fun row => row column

def ReflectedTable.fileUses : List String :=
  table.fileColumns.flatMap table.columnValues

/-- The foreign keys of `document_revisions`. -/
def revisionKeys : List ForeignKey :=
  [⟨"documents", none, ["document_id"]⟩, ⟨"files", none, ["file_id"]⟩,
    ⟨"document_revisions", some "SET NULL", ["parent_revision_id"]⟩]

variable (store : FileStore) (limits : QueryLimits)

namespace FileStore

/-- `document_revisions`, reflected. -/
def documentRevisions : ReflectedTable where
  name := "document_revisions"
  foreignKeys := revisionKeys
  rows := store.revisions.map fun revision column =>
    match column with
    | "id" => some revision.id
    | "document_id" => some revision.documentId
    | "file_id" => some revision.fileId
    | "parent_revision_id" => store.parentRevisionId revision.id
    | _ => none

def getFileReferences : List (ReflectedTable × String) :=
  (store.documentRevisions :: store.otherTables).flatMap fun table =>
    table.fileColumns.map fun column => (table, column)

/-! ### Counting references -/

def executeQuery (chunkIds : List String) : List (String × ℕ) :=
  groupSums (store.getFileReferences.flatMap fun (table, column) =>
    groupCounts ((table.columnValues column).filter fun value => chunkIds.contains value) id)

/-- `count_file_references` for given files; a file that is left out of the mapping stands at
zero. -/
def countFileReferences (store : FileStore) (fileIds : List String) : String → ℕ :=
  (batched limits.queryChunkSize fileIds).foldl
    (fun result chunk => tally result (store.executeQuery chunk)) fun _ => 0

def excludedCounts (fChunk eChunk : List String) : List (String × ℕ) :=
  groupCounts
    (store.revisions.filter fun revision =>
      fChunk.contains revision.fileId && eChunk.contains revision.documentId)
    DocumentRevision.fileId

/-- `batch_count_other_revisions`; the subtraction stops at zero, as `max(0, …)`. -/
def batchCountOtherRevisions (store : FileStore) (fileIds : List String)
    (excludeDocIds : List NodeId) : String → ℕ :=
  let totalRefs := store.countFileReferences limits fileIds
  let excludeChunkSize := max 1 (limits.maxParamSize - limits.queryChunkSize)
  let excluded := (batched limits.queryChunkSize fileIds).foldl
    (fun counts fChunk =>
      (batched excludeChunkSize excludeDocIds).foldl
        (fun counts eChunk => tally counts (store.excludedCounts fChunk eChunk)) counts)
    fun _ => 0
  fun fileId => totalRefs fileId - excluded fileId

/-! ### Reachability -/

/-- The files of a chunk that a revision outside the excluded ones refers to, in a document that is
not deleted. -/
def activeRevisionFiles (chunk : List String)
    (excludedDocumentIds excludedRevisionIds : List String) : List String :=
  (store.revisions.filter fun revision =>
    chunk.contains revision.fileId && (store.document? revision.documentId).any Node.notDeleted &&
      (excludedDocumentIds.isEmpty || !excludedDocumentIds.contains revision.documentId) &&
      (excludedRevisionIds.isEmpty || !excludedRevisionIds.contains revision.id)).map
    DocumentRevision.fileId

def otherReferencedFiles (chunk : List String) : List String :=
  (store.getFileReferences.filter fun (table, _) => table.name != "document_revisions").flatMap
    fun (table, column) => (table.columnValues column).filter fun value => chunk.contains value

def findUnreachableFileIds (store : FileStore)
    (candidateFileIds excludedDocumentIds excludedRevisionIds : List String) : List String :=
  if candidateFileIds.isEmpty then []
  else
    let reachable := (batched limits.queryChunkSize candidateFileIds).flatMap fun chunk =>
      store.activeRevisionFiles chunk excludedDocumentIds excludedRevisionIds ++
        store.otherReferencedFiles chunk
    candidateFileIds.filter fun fileId => !reachable.contains fileId

def findUnreachableDocumentFileIds (store : FileStore) (documentIds : List NodeId) : List String :=
  if documentIds.isEmpty then []
  else
    store.findUnreachableFileIds limits
      ((store.revisions.filter fun revision => documentIds.contains revision.documentId).map
        DocumentRevision.fileId).dedup
      documentIds []

def findUnreachableRevisionFileIds (store : FileStore) (revisionIds : List String) : List String :=
  if revisionIds.isEmpty then []
  else
    store.findUnreachableFileIds limits
      ((store.revisions.filter fun revision => revisionIds.contains revision.id).map
        DocumentRevision.fileId).dedup
      [] revisionIds

/-! ### What the queries compute -/

/-- The uses of files in the tables other than `document_revisions`. -/
def otherUses : List String := store.otherTables.flatMap ReflectedTable.fileUses

def remainingReferences (excludeDocIds : List NodeId) (fileId : String) : ℕ :=
  (store.revisions.countP fun revision =>
    revision.fileId == fileId && !excludeDocIds.contains revision.documentId) +
    store.otherUses.count fileId

variable {store : FileStore} {limits : QueryLimits}

theorem documentRevisions_fileColumns : store.documentRevisions.fileColumns = ["file_id"] := by
  show ((revisionKeys.filter ForeignKey.isFileUse).flatMap
    ForeignKey.constrainedColumns).dedup.insertionSort (· ≤ ·) = ["file_id"]
  decide +kernel

theorem documentRevisions_columnValues : store.documentRevisions.columnValues "file_id" =
      store.revisions.map DocumentRevision.fileId := by
  rw [ReflectedTable.columnValues, documentRevisions, filterMap_map, ← filterMap_eq_map]
  rfl

theorem sum_getFileReferences (key : String) : (store.getFileReferences.map fun reference =>
      (reference.1.columnValues reference.2).count key).sum =
      (store.revisions.map DocumentRevision.fileId).count key + store.otherUses.count key := by
  have huses : ∀ tables : List ReflectedTable,
      ((tables.flatMap fun table => table.fileColumns.map fun column => (table, column)).map
        fun reference => (reference.1.columnValues reference.2).count key).sum =
        (tables.flatMap ReflectedTable.fileUses).count key := by
    intro tables
    induction tables with
    | nil => rfl
    | cons table tables ih =>
      rw [flatMap_cons, map_append, sum_append, flatMap_cons, count_append]
      congr 1
      rw [ReflectedTable.fileUses, count_flatMap, map_map]
      rfl
  rw [getFileReferences, huses, flatMap_cons, count_append, ReflectedTable.fileUses,
    documentRevisions_fileColumns, flatMap_singleton, documentRevisions_columnValues]
  rfl

theorem sumAt_executeQuery (chunk : List String) (key : String) :
    sumAt (store.executeQuery chunk) key = if key ∈ chunk then
        (store.revisions.map DocumentRevision.fileId).count key + store.otherUses.count key
      else 0 := by
  rw [executeQuery, sumAt_groupSums, sumAt_flatMap]
  simp only [sumAt_groupCounts, map_id]
  by_cases hkey : key ∈ chunk
  · have hcount : ∀ values : List String,
        (values.filter fun value => chunk.contains value).count key = values.count key := by
      intro values
      exact count_filter (by simpa using hkey)
    simp only [hcount, hkey]
    exact sum_getFileReferences key
  · have hcount : ∀ values : List String,
        (values.filter fun value => chunk.contains value).count key = 0 := by
      intro values
      rw [count_eq_zero]
      simp [hkey]
    simp only [hcount, hkey]
    exact sum_eq_zero (by simp)

theorem foldl_tally {α : Type*} (queries : List α) (rows : α → List (String × ℕ)) (d : String → ℕ)
    (key : String) :
    queries.foldl (fun result query => tally result (rows query)) d key =
      d key + (queries.map fun query => sumAt (rows query) key).sum := by
  induction queries generalizing d with
  | nil => rfl
  | cons query queries ih =>
    rw [foldl_cons, ih, tally_apply, map_cons, sum_cons, Nat.add_assoc]

variable {fileIds : List String}

theorem countFileReferences_apply (hfileIds : fileIds.Nodup) (fileId : String) :
    store.countFileReferences limits fileIds fileId = if fileId ∈ fileIds then
        (store.revisions.map DocumentRevision.fileId).count fileId + store.otherUses.count fileId
      else 0 := by
  have hflat := batched_flatten limits.queryChunkSize_pos fileIds
  rw [countFileReferences, foldl_tally, Nat.zero_add]
  simp only [sumAt_executeQuery]
  rw [sum_ite_mem _ (by rw [hflat]; exact hfileIds)]
  simp only [hflat]

theorem sumAt_excludedCounts (fChunk eChunk : List String) (key : String) :
    sumAt (store.excludedCounts fChunk eChunk) key = if key ∈ fChunk then
        store.revisions.countP fun rev =>
          rev.fileId == key && decide (rev.documentId ∈ eChunk)
      else 0 := by
  rw [excludedCounts, sumAt_groupCounts, count, countP_map, countP_filter]
  split
  · rename_i hkey
    refine countP_congr fun rev _ => ?_
    by_cases hfile : rev.fileId = key
    · simp [hfile, hkey]
    · simp [hfile]
  · rename_i hkey
    rw [countP_eq_zero]
    intro rev _ hrev
    simp only [Function.comp_apply, Bool.and_eq_true, beq_iff_eq, contains_iff_mem] at hrev
    exact hkey (hrev.1 ▸ hrev.2.1)

variable {fileId : String}

/-- `batch_count_other_revisions` counts the references that stay, whatever the sizes of the
chunks. -/
theorem batchCountOtherRevisions_apply {excludeDocIds : List NodeId}
    (hfileIds : fileIds.Nodup) (hdocuments : excludeDocIds.Nodup)
    (hfileId : fileId ∈ fileIds) :
    store.batchCountOtherRevisions limits fileIds excludeDocIds fileId =
      store.remainingReferences excludeDocIds fileId := by
  have hchunk : 0 < max 1 (limits.maxParamSize - limits.queryChunkSize) := by omega
  have hfiles := batched_flatten limits.queryChunkSize_pos fileIds
  have hdocs := batched_flatten hchunk excludeDocIds
  -- the double loop counts the revisions of the excluded documents
  have hexcl : ∀ (fChunks : List (List String)) (d : String → ℕ),
      fChunks.foldl (fun counts fChunk =>
          (batched (max 1 (limits.maxParamSize - limits.queryChunkSize)) excludeDocIds).foldl
            (fun counts eChunk => tally counts (store.excludedCounts fChunk eChunk)) counts)
          d fileId =
        d fileId + (fChunks.map fun fChunk =>
          if fileId ∈ fChunk then
            store.revisions.countP fun rev =>
              rev.fileId == fileId && decide (rev.documentId ∈ excludeDocIds)
          else 0).sum := by
    intro fChunks
    induction fChunks with
    | nil => intro d; rfl
    | cons fChunk fChunks ih =>
      intro d
      rw [foldl_cons, ih, foldl_tally, map_cons, Nat.add_assoc]
      congr 2
      simp only [sumAt_excludedCounts]
      by_cases hmem : fileId ∈ fChunk
      · simp only [hmem, if_true]
        rw [sum_countP_mem store.revisions DocumentRevision.documentId _ _
          (by rw [hdocs]; exact hdocuments)]
        simp only [hdocs]
      · simp [hmem]
  have htotal : (store.revisions.map DocumentRevision.fileId).count fileId =
      (store.revisions.countP fun rev =>
        rev.fileId == fileId && decide (rev.documentId ∈ excludeDocIds)) +
      store.revisions.countP fun rev =>
        rev.fileId == fileId && !excludeDocIds.contains rev.documentId := by
    rw [count, countP_map]
    induction store.revisions with
    | nil => rfl
    | cons rev revisions ih =>
      simp only [countP_cons, contains_eq_mem] at ih ⊢
      by_cases hdoc : rev.documentId ∈ excludeDocIds
      · simp [hdoc]
        omega
      · simp [hdoc]
        omega
  simp only [batchCountOtherRevisions]
  rw [hexcl, countFileReferences_apply hfileIds, sum_ite_mem _ (by rw [hfiles]; exact hfileIds)]
  simp only [hfiles, hfileId, if_true]
  rw [remainingReferences]
  omega

/-! ### Reachable files -/

/-- A document that is not deleted still has a revision with the file, outside the excluded
documents and revisions, or another table refers to it. -/
def ReachableOutside (store : FileStore) (documentIds revisionIds : List String) (fileId : String) :
    Prop :=
  (∃ revision ∈ store.revisions, revision.fileId = fileId ∧
    (∃ document, store.liveDocument? revision.documentId = some document) ∧
    revision.documentId ∉ documentIds ∧ revision.id ∉ revisionIds) ∨ fileId ∈ store.otherUses

/-- The resource-reachability rule: a document that is not deleted or another table refers to the
file. -/
def Reachable (store : FileStore) (fileId : String) : Prop := store.ReachableOutside [] [] fileId

variable {chunk excludedDocumentIds excludedRevisionIds : List String}

theorem mem_activeRevisionFiles :
    fileId ∈ store.activeRevisionFiles chunk excludedDocumentIds excludedRevisionIds ↔
      fileId ∈ chunk ∧ ∃ rev ∈ store.revisions, rev.fileId = fileId ∧
        (∃ doc, store.liveDocument? rev.documentId = some doc) ∧
        rev.documentId ∉ excludedDocumentIds ∧ rev.id ∉ excludedRevisionIds := by
  have hkept : ∀ (excluded : List String) (id : String),
      (excluded.isEmpty || !excluded.contains id) = true ↔ id ∉ excluded := by
    intro excluded id
    cases excluded <;> simp
  have hlive : ∀ id, (store.document? id).any Node.notDeleted = true ↔
      ∃ doc, store.liveDocument? id = some doc := by
    intro id
    rw [Option.any_eq_true]
    exact exists_congr fun doc => Option.filter_eq_some_iff.symm
  rw [activeRevisionFiles, mem_map]
  constructor
  · rintro ⟨rev, hrev, rfl⟩
    rw [mem_filter, Bool.and_eq_true, Bool.and_eq_true, Bool.and_eq_true, hkept, hkept, hlive,
      contains_iff_mem] at hrev
    obtain ⟨hmem, ⟨⟨hchunk, hdocument⟩, hout⟩, hother⟩ := hrev
    exact ⟨hchunk, rev, hmem, rfl, hdocument, hout, hother⟩
  · rintro ⟨hchunk, rev, hmem, rfl, hdocument, hout, hother⟩
    refine ⟨rev, ?_, rfl⟩
    rw [mem_filter, Bool.and_eq_true, Bool.and_eq_true, Bool.and_eq_true, hkept, hkept, hlive,
      contains_iff_mem]
    exact ⟨hmem, ⟨⟨hchunk, hdocument⟩, hout⟩, hother⟩

theorem mem_otherReferencedFiles :
    fileId ∈ store.otherReferencedFiles chunk ↔ fileId ∈ chunk ∧ fileId ∈ store.otherUses := by
  have hname : ∀ table ∈ store.otherTables, table.name ≠ "document_revisions" := by
    intro table htable hname
    exact (nodup_cons.mp store.tableNames_nodup).1 (hname ▸ mem_map_of_mem htable)
  simp only [otherReferencedFiles, getFileReferences, otherUses, ReflectedTable.fileUses,
    mem_flatMap, mem_filter, mem_map, contains_iff_mem, bne_iff_ne]
  constructor
  · rintro ⟨_, ⟨⟨table, htable, column, hcolumn, rfl⟩, hother⟩, hvalue, hchunk⟩
    rcases mem_cons.mp htable with rfl | htable
    · exact absurd rfl hother
    · exact ⟨hchunk, table, htable, column, hcolumn, hvalue⟩
  · rintro ⟨hchunk, table, htable, column, hcolumn, hvalue⟩
    exact ⟨(table, column), ⟨⟨table, mem_cons_of_mem _ htable, column, hcolumn, rfl⟩,
      hname table htable⟩, hvalue, hchunk⟩

/-- `_find_unreachable_file_ids` returns the candidates without another use, whatever the size of
the chunks. -/
theorem mem_findUnreachableFileIds {candidateFileIds : List String} :
    fileId ∈ store.findUnreachableFileIds limits candidateFileIds excludedDocumentIds
        excludedRevisionIds ↔
      fileId ∈ candidateFileIds ∧
        ¬ store.ReachableOutside excludedDocumentIds excludedRevisionIds fileId := by
  have hchunk := exists_mem_batched (l := candidateFileIds) (a := fileId) limits.queryChunkSize_pos
  rw [findUnreachableFileIds]
  split
  · rename_i hempty
    rw [isEmpty_iff.mp hempty]
    simp
  · simp only [mem_filter, Bool.not_eq_true', contains_eq_mem, decide_eq_false_iff_not,
      mem_flatMap, mem_append, mem_activeRevisionFiles, mem_otherReferencedFiles]
    refine and_congr_right fun hcand => not_congr ?_
    obtain ⟨chunk, hbatched, hfile⟩ := hchunk.mpr hcand
    constructor
    · rintro ⟨_, _, ⟨_, huse⟩ | ⟨_, huse⟩⟩
      · exact .inl huse
      · exact .inr huse
    · rintro (huse | huse)
      · exact ⟨chunk, hbatched, .inl ⟨hfile, huse⟩⟩
      · exact ⟨chunk, hbatched, .inr ⟨hfile, huse⟩⟩

theorem mem_findUnreachableDocumentFileIds {docIds : List NodeId} :
    fileId ∈ store.findUnreachableDocumentFileIds limits docIds ↔
      (∃ rev ∈ store.revisions, rev.documentId ∈ docIds ∧
        rev.fileId = fileId) ∧ ¬ store.ReachableOutside docIds [] fileId := by
  rw [findUnreachableDocumentFileIds]
  split
  · rename_i hempty
    rw [isEmpty_iff.mp hempty]
    simp
  · rw [mem_findUnreachableFileIds]
    simp [and_assoc]

theorem mem_findUnreachableRevisionFileIds {revisionIds : List String} :
    fileId ∈ store.findUnreachableRevisionFileIds limits revisionIds ↔
      (∃ rev ∈ store.revisions, rev.id ∈ revisionIds ∧ rev.fileId = fileId) ∧
        ¬ store.ReachableOutside [] revisionIds fileId := by
  rw [findUnreachableRevisionFileIds]
  split
  · rename_i hempty
    rw [isEmpty_iff.mp hempty]
    simp
  · rw [mem_findUnreachableFileIds]
    simp [and_assoc]

end FileStore

end Cfms.Documents
