import Cfms.Access.Search
import Cfms.Documents.CursorPagination
import Mathlib.Data.List.MinMax
import Mathlib.Data.Prod.Lex
import Mathlib.Data.Sum.Order

/-!
# Directory listings and search

The paged queries of `include/domains/documents/queries/listing.py` with the handlers' paged parts.
Each query is translated as the query it is: a `WHERE` is a filter of the table, `ORDER BY` sorts by
the tuple of its columns, a limit takes rows from the front, and the conditions on the last key
are written out as the source writes them.

A `ListingDatabase` adds the columns these queries read to the access-control tables, as functions
of the row's primary key.  The sort-key values (texts, numbers and times) are compared by one
total order, the instance `LinearOrder (CursorValue T)`; `SqlText` stands for the database's
`lower` and its case-insensitive `LIKE`.
-/

namespace Cfms.Documents

open Access Lib.Keyset Lib.RecursiveQuery

/-- The text functions of the database. -/
structure SqlText where
  lower : String → String
  icontains : String → String → Bool

/-- The tables with the further columns the listings read: creation times of folders and documents
and of revisions, the parents of revisions, and of a file its recorded size, the size the storage
reports and the hash. -/
structure ListingDatabase (T : Type) extends Database where
  createdTime : NodeId → T
  revisionCreatedTime : String → T
  parentRevisionId : String → Option String
  fileSize : String → Option ℤ
  storedSize : String → Option ℤ
  fileSha256 : String → Option String

variable {T : Type} (db : ListingDatabase T)

namespace ListingDatabase

def size (db : ListingDatabase T) (fileId : String) : Option ℤ :=
  match db.fileSize fileId with
  | some size => some size
  | none => db.storedSize fileId

/-! ### The revision a document shows -/

/-- `document_revisions` joined with `files`. -/
def joinedRevisions : List (DocumentRevision × File) :=
  db.revisions.flatMap fun revision =>
    (db.files.filter fun file => file.id == revision.fileId).map fun file => (revision, file)

/-- A row of `current_revision_chain`. -/
structure ChainRow where
  documentId : NodeId
  revisionId : String
  fileId : String
  parentRevisionId : Option String
  fileActive : Bool
  depth : ℕ

def chainRow (documentId : NodeId) (depth : ℕ) (joined : DocumentRevision × File) : ChainRow where
  documentId
  revisionId := joined.1.id
  fileId := joined.2.id
  parentRevisionId := db.parentRevisionId joined.1.id
  fileActive := joined.2.active
  depth

def currentChainAnchor (document : Node) : List ChainRow :=
  (db.joinedRevisions.filter fun joined => document.currentRevisionId == some joined.1.id).map
    (chainRow db document.id 0)

def currentChainNext (row : ChainRow) : List ChainRow :=
  (db.joinedRevisions.filter fun joined => row.parentRevisionId == some joined.1.id).map
    (chainRow db row.documentId (row.depth + 1))

/-- The recursive table for one document: a chain of revisions is no longer than the table. -/
def currentChain (document : Node) : List ChainRow :=
  recursiveRows db.currentChainNext (db.currentChainAnchor document) db.revisions.length

/-- The first active revision up the current chain: `ROW_NUMBER` by depth. -/
def currentFirst (document : Node) : Option ChainRow :=
  ((db.currentChain document).filter ChainRow.fileActive).argmin ChainRow.depth

def activeRevisions (documentId : NodeId) : List (DocumentRevision × File) :=
  db.joinedRevisions.filter fun joined => joined.1.documentId == documentId && joined.2.active

variable [LinearOrder (CursorValue T)]

/-- The newest active revision: `ROW_NUMBER` by `created_time` descending, the first row of equal
ones. -/
def fallbackFirst (documentId : NodeId) : Option (DocumentRevision × File) :=
  (db.activeRevisions documentId).argmax fun joined =>
    CursorValue.float (db.revisionCreatedTime joined.1.id)

def activeRevisionExists (documentId : NodeId) : Bool :=
  db.joinedRevisions.any fun joined => joined.1.documentId == documentId && joined.2.active

/-- The entry of `revision_ids_by_document` for a document row. -/
def latestRevisionId? (document : Node) : Option String :=
  match db.currentFirst document with
  | some row => some row.revisionId
  | none => (db.fallbackFirst document.id).map fun joined => joined.1.id

/-- The entry of `fetch_latest_active_revisions_by_document` for a document row. -/
def latestActiveRevision? (document : Node) : Option DocumentRevision :=
  (db.latestRevisionId? document).bind fun revisionId =>
    db.revisions.find? fun revision => revision.id == revisionId

end ListingDatabase

/-! ### Directory listings -/

/-- `[type_rank, name_sort_key, id]`. -/
structure DirectoryKey where
  typeRank : ℤ
  name : String
  id : String

def DirectoryKey.values (key : DirectoryKey) : List (CursorValue T) :=
  [.int key.typeRank, .str key.name, .str key.id]

/-- `type_rank, name, id = last_key`. -/
def DirectoryKey.ofValues? : List (CursorValue T) → Option DirectoryKey
  | [.int typeRank, .str name, .str id] => some ⟨typeRank, name, id⟩
  | _ => none

/-- `last_modified`, `sha256` and `size` of a listed document. -/
structure RevisionDetails (T : Type) where
  lastModified : T
  sha256 : Option String
  size : Option ℤ

/-- An entry of a listing.  Folders have no `title`; a listing of deleted items has the
`status_operation_id` in place of the revision's details. -/
structure ListingItem (T : Type) where
  type : NodeType
  id : NodeId
  name : String
  createdTime : T
  title : Option String := none
  revision : Option (RevisionDetails T) := none
  statusOperationId : Option (Option String) := none

variable [LinearOrder (CursorValue T)]

def nameIdAfterFilter (name id lastName lastId : CursorValue T) : Bool :=
  decide (name > lastName) || (decide (name = lastName) && decide (id > lastId))

section

variable (sql : SqlText) (db : ListingDatabase T)

/-- The columns `lower(name)` and `id`, by which the rows of one type are ordered. -/
def nameIdColumns (row : Node) : CursorValue T ×ₗ CursorValue T :=
  toLex (.str (sql.lower row.name), .str row.id)

def rowsAfter (T : Type) [LinearOrder (CursorValue T)] (rows : List Node)
    (lastKey : Option DirectoryKey) : List Node :=
  orderBy (nameIdColumns (T := T) sql) (rows.filter fun row =>
    lastKey.all fun key => nameIdAfterFilter (T := T) (.str (sql.lower row.name)) (.str row.id)
      (.str key.name) (.str key.id))

def listedFolders (folderId : NodeId) : List Node :=
  db.folders.filter fun folder => folder.parentId == some folderId && folder.status != .deleted

def fetchDirectoryRows (folderId : NodeId) (lastKey : Option DirectoryKey) (limit : ℕ) : List Node :=
  if lastKey.any fun key => decide (key.typeRank > 0) then []
  else (rowsAfter sql T (listedFolders db folderId) lastKey).take limit

/-- The documents a listing shows: with an active revision, or the deleted ones. -/
def listedDocuments (folderId : NodeId) (includeDeleted : Bool) : List Node :=
  db.documents.filter fun document => document.parentId == some folderId &&
    if includeDeleted then document.status == .deleted
    else document.status != .deleted && db.activeRevisionExists document.id

def fetchDocumentRows (folderId : NodeId) (lastKey : Option DirectoryKey) (limit : ℕ)
    (includeDeleted : Bool) : List Node :=
  if lastKey.any fun key => decide (key.typeRank > 1) then []
  else
    (rowsAfter sql T (listedDocuments db folderId includeDeleted)
      (lastKey.filter fun key => decide (key.typeRank = 1))).take limit

def directoryItemCursorKey (typeRank : ℤ) (row : Node) : DirectoryKey :=
  ⟨typeRank, sql.lower row.name, row.id⟩

/-- The entry of a folder. -/
def folderItem (row : Node) : Fetched DirectoryKey (ListingItem T) where
  item := { type := .directory, id := row.id, name := row.name, createdTime := db.createdTime row.id }
  cursorKey := directoryItemCursorKey sql 0 row

/-- The entry of a document with the revision it shows. -/
def documentItem (row : Node) (latestRevision : DocumentRevision) :
    Fetched DirectoryKey (ListingItem T) where
  item :=
    { type := .document
      id := row.id
      name := row.name
      createdTime := db.createdTime row.id
      title := some row.name
      revision := some
        { lastModified := db.revisionCreatedTime latestRevision.id
          sha256 := db.fileSha256 latestRevision.fileId
          size := db.size latestRevision.fileId } }
  cursorKey := directoryItemCursorKey sql 1 row

def fetchDirectoryListingItems (folderId : NodeId) (lastKey : Option DirectoryKey) (limit : ℕ) :
    List (Fetched DirectoryKey (ListingItem T)) :=
  let items := (fetchDirectoryRows sql db folderId lastKey limit).map (folderItem sql db)
  let remaining := (limit : ℤ) - items.length
  if remaining ≤ 0 then items
  else
    let documentRows := fetchDocumentRows sql db folderId lastKey remaining.toNat false
    items ++ documentRows.filterMap fun row =>
      (db.latestActiveRevision? row).map (documentItem sql db row)

def deletedFolders (folderId : NodeId) : List Node :=
  db.folders.filter fun folder => folder.parentId == some folderId && folder.status == .deleted

def deletedFolderItem (row : Node) : Fetched DirectoryKey (ListingItem T) where
  item :=
    { type := .directory
      id := row.id
      name := row.name
      createdTime := db.createdTime row.id
      statusOperationId := some row.statusOperationId }
  cursorKey := directoryItemCursorKey sql 0 row

def deletedDocumentItem (row : Node) : Fetched DirectoryKey (ListingItem T) where
  item :=
    { type := .document
      id := row.id
      name := row.name
      createdTime := db.createdTime row.id
      title := some row.name
      statusOperationId := some row.statusOperationId }
  cursorKey := directoryItemCursorKey sql 1 row

def fetchDeletedListingItems (folderId : NodeId) (lastKey : Option DirectoryKey) (limit : ℕ) :
    List (Fetched DirectoryKey (ListingItem T)) :=
  let folderRows :=
    if lastKey.any fun key => decide (key.typeRank = 0) then
      some (rowsAfter sql T (deletedFolders db folderId) lastKey)
    else if lastKey.any fun key => decide (key.typeRank > 0) then none
    else some (rowsAfter sql T (deletedFolders db folderId) none)
  let items :=
    match folderRows with
    | some rows => (rows.take limit).map (deletedFolderItem sql db)
    | none => []
  let remaining := (limit : ℤ) - items.length
  if remaining ≤ 0 then items
  else
    items ++ (fetchDocumentRows sql db folderId lastKey remaining.toNat true).map
      (deletedDocumentItem sql db)

/-- The paged part of `core.directory.list` and of `core.directory.deleted_item.list`. -/
def directoryQuery (action : String) (folderId : NodeId)
    (fetch : Option DirectoryKey → ℕ → List (Fetched DirectoryKey (ListingItem T))) :
    PagedQuery T DirectoryKey (ListingItem T) where
  action
  sort := "type_name_id:asc"
  filters := [("folder_id", .str folderId)]
  valueTypes := [[.int], [.str], [.str]]
  keyValues := DirectoryKey.values
  ofValues? := DirectoryKey.ofValues?
  fetch

/-- `RequestListDirectoryHandler`, from the decoding of the cursor on. -/
def listDirectory (folderId : NodeId) : PagedQuery T DirectoryKey (ListingItem T) :=
  directoryQuery "core.directory.list" folderId (fetchDirectoryListingItems sql db folderId)

/-- `RequestListDeletedItemsHandler`, from the decoding of the cursor on. -/
def listDeletedItems (folderId : NodeId) : PagedQuery T DirectoryKey (ListingItem T) :=
  directoryQuery "core.directory.deleted_item.list" folderId (fetchDeletedListingItems sql db folderId)

end

/-! ### Search -/

inductive SortBy
  | name
  | createdTime
  | size
  | lastModified
  deriving DecidableEq

inductive SortOrder
  | asc
  | desc
  deriving DecidableEq

def SortBy.text : SortBy → String
  | .name => "name"
  | .createdTime => "created_time"
  | .size => "size"
  | .lastModified => "last_modified"

def SortOrder.text : SortOrder → String
  | .asc => "asc"
  | .desc => "desc"

/-- `[primary, type_rank, id]`. -/
structure SearchKey (T : Type) where
  primary : CursorValue T
  typeRank : ℤ
  id : String

def SearchKey.values (key : SearchKey T) : List (CursorValue T) :=
  [key.primary, .int key.typeRank, .str key.id]

def SearchKey.ofValues? : List (CursorValue T) → Option (SearchKey T)
  | [primary, .int typeRank, .str id] => some ⟨primary, typeRank, id⟩
  | _ => none

/-- A row of `search_candidates`. -/
structure SearchRow (T : Type) where
  id : NodeId
  name : String
  nameSortKey : String
  parentId : Option NodeId
  createdTime : T
  lastModified : Option T
  size : Option ℤ
  type : NodeType
  typeRank : ℤ
  inherit : Bool

/-- A search result: `last_modified` and `size` are removed from folders. -/
structure SearchItem (T : Type) where
  id : NodeId
  name : String
  parentId : Option NodeId
  createdTime : T
  type : NodeType
  typeRank : ℤ
  lastModified : Option (Option T)
  size : Option (Option ℤ)

/-- The arguments of a search. -/
structure SearchRequest where
  query : String
  sortBy : SortBy
  sortOrder : SortOrder
  searchDocuments : Bool
  searchDirectories : Bool

section

variable (sql : SqlText) (db : ListingDatabase T)

/-- The row of a folder in the candidate query. -/
def folderSearchRow (folder : Node) : SearchRow T where
  id := folder.id
  name := folder.name
  nameSortKey := sql.lower folder.name
  parentId := folder.parentId
  createdTime := db.createdTime folder.id
  lastModified := none
  size := some 0
  type := .directory
  typeRank := 0
  inherit := folder.inherit

/-- The effective revision of a document: the first up the current chain, else the newest active
one. -/
def effectiveRevision? (document : Node) : Option (String × String) :=
  let currentRows := (db.currentFirst document).toList.map fun row => (row.revisionId, row.fileId)
  let fallbackRows := (db.fallbackFirst document.id).toList.map fun joined =>
    (joined.1.id, joined.2.id)
  (currentRows ++ fallbackRows).head?

/-- The row of a document in the candidate query, a join with its effective revision. -/
def documentSearchRow? (document : Node) : Option (SearchRow T) :=
  (effectiveRevision? db document).map fun effective =>
    { id := document.id
      name := document.name
      nameSortKey := sql.lower document.name
      parentId := document.parentId
      createdTime := db.createdTime document.id
      lastModified := some (db.revisionCreatedTime effective.1)
      size := db.fileSize effective.2
      type := .document
      typeRank := 1
      inherit := document.inherit }

def searchCandidateSelectable (query : String) (searchDocuments searchDirectories : Bool) :
    Option (List (SearchRow T)) :=
  let folders := (db.folders.filter fun folder =>
    folder.status != .deleted && sql.icontains folder.name query).map (folderSearchRow sql db)
  let documents := (db.documents.filter fun document =>
    document.status != .deleted && sql.icontains document.name query).filterMap
      (documentSearchRow? sql db)
  match searchDirectories, searchDocuments with
  | true, true => some (folders ++ documents)
  | true, false => some folders
  | false, true => some documents
  | false, false => none

def searchPrimaryColumn (sortBy : SortBy) (row : SearchRow T) : CursorValue T :=
  match sortBy with
  | .name => .str row.nameSortKey
  | .size => .int (row.size.getD 0)
  | .lastModified => .float (row.lastModified.getD row.createdTime)
  | .createdTime => .float row.createdTime

def searchItemCursorKey (sortBy : SortBy) (row : SearchRow T) : SearchKey T where
  primary :=
    match sortBy with
    | .name => .str row.nameSortKey
    | .size => .int (row.size.getD 0)
    | .lastModified =>
      match row.lastModified with
      | some lastModified => .float lastModified
      | none => .float row.createdTime
    | .createdTime => .float row.createdTime
  typeRank := row.typeRank
  id := row.id

def applySearchCursorFilter (sortBy : SortBy) (sortOrder : SortOrder) (lastKey : SearchKey T)
    (row : SearchRow T) : Bool :=
  let primary := searchPrimaryColumn sortBy row
  let primaryComparison :=
    if sortOrder = .desc then decide (primary < lastKey.primary)
    else decide (primary > lastKey.primary)
  primaryComparison || (decide (primary = lastKey.primary) &&
    (decide (row.typeRank > lastKey.typeRank) || (decide (row.typeRank = lastKey.typeRank) &&
      decide ((.str row.id : CursorValue T) > .str lastKey.id))))

/-- A value in a column ordered up or down. -/
def directed (sortOrder : SortOrder) (value : CursorValue T) :
    (CursorValue T) ⊕ₗ (CursorValue T)ᵒᵈ :=
  match sortOrder with
  | .asc => toLex (Sum.inl value)
  | .desc => toLex (Sum.inr (OrderDual.toDual value))

/-- `_search_ordering`, as the tuple the rows are ordered by. -/
def searchOrdering (sortBy : SortBy) (sortOrder : SortOrder) (row : SearchRow T) :
    ((CursorValue T) ⊕ₗ (CursorValue T)ᵒᵈ) ×ₗ (ℤ ×ₗ CursorValue T) :=
  toLex (directed sortOrder (searchPrimaryColumn sortBy row), toLex (row.typeRank, .str row.id))

/-- A candidate as the visibility filter reads it. -/
def SearchRow.candidate (row : SearchRow T) : SearchCandidate :=
  ⟨row.type, row.id, row.parentId, row.inherit⟩

def searchResult (sortBy : SortBy) (row : SearchRow T) : Fetched (SearchKey T) (SearchItem T) where
  item :=
    { id := row.id
      name := row.name
      parentId := row.parentId
      createdTime := row.createdTime
      type := row.type
      typeRank := row.typeRank
      lastModified := if row.type = .directory then none else some row.lastModified
      size := if row.type = .directory then none else some row.size }
  cursorKey := searchItemCursorKey sortBy row

variable (user : User) (now : Instant)

def visibleRows (candidates : List (SearchRow T)) : List (SearchRow T) :=
  candidates.filter fun row =>
    visibleSearchFilter db.toDatabase (candidates.map SearchRow.candidate) user now row.candidate

def fetchVisibleSearchCandidateRows (request : SearchRequest) (lastKey : Option (SearchKey T))
    (limit : ℕ) : List (Fetched (SearchKey T) (SearchItem T)) :=
  match searchCandidateSelectable sql db request.query request.searchDocuments
      request.searchDirectories with
  | none => []
  | some candidates =>
    let rows := (visibleRows db user now candidates).filter fun row =>
      lastKey.all fun key => applySearchCursorFilter request.sortBy request.sortOrder key row
    ((orderBy (searchOrdering request.sortBy request.sortOrder) rows).take limit).map
      (searchResult request.sortBy)

/-- `RequestSearchHandler`, from the decoding of the cursor on. -/
def searchQuery (request : SearchRequest) : PagedQuery T (SearchKey T) (SearchItem T) where
  action := "core.search.query"
  sort := request.sortBy.text ++ ":" ++ request.sortOrder.text
  filters :=
    [("query", .str request.query), ("sort_by", .str request.sortBy.text),
      ("sort_order", .str request.sortOrder.text), ("search_documents", .bool request.searchDocuments),
      ("search_directories", .bool request.searchDirectories)]
  valueTypes := [[.int, .float, .str], [.int], [.str]]
  keyValues := SearchKey.values
  ofValues? := SearchKey.ofValues?
  fetch := fetchVisibleSearchCandidateRows sql db user now request

end

end Cfms.Documents
