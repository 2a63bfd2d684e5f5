import Cfms.Documents.Listing

/-!
# The rows of a directory listing

A directory listing reads fixed rows from a position on: the folders in the order of `lower(name)`
and `id`, followed by the documents in that order, cut by one limit that two queries share.  The
key of a row selects what comes behind it in either query (`listingRowsAfter_some`), and no document
is dropped after the limit, since a listed document has an active revision and the lookup finds one
(`documents_not_dropped`).  The listing of deleted items has the same form.
-/

namespace Cfms.Documents

open Access Lib.Keyset Lib.RecursiveQuery List Database

variable {T : Type} [LinearOrder (CursorValue T)]

/-! ### A listed document shows a revision -/

namespace ListingDatabase

variable {db : ListingDatabase T}

omit [LinearOrder (CursorValue T)] in
theorem mem_joinedRevisions {joined : DocumentRevision × File} (h : joined ∈ db.joinedRevisions) :
    joined.1 ∈ db.revisions := by
  obtain ⟨rev, hrev, hjoin⟩ := mem_flatMap.mp h
  obtain ⟨file, -, rfl⟩ := mem_map.mp hjoin
  exact hrev

variable {doc : Node}

omit [LinearOrder (CursorValue T)] in
theorem mem_currentChain {row : ChainRow} (h : row ∈ db.currentChain doc) :
    ∃ rev ∈ db.revisions, rev.id = row.revisionId := by
  obtain ⟨k, -, hk⟩ := mem_recursiveRows.mp h
  cases k with
  | zero =>
    obtain ⟨joined, hjoin, rfl⟩ := mem_map.mp hk
    exact ⟨joined.1, mem_joinedRevisions (mem_filter.mp hjoin).1, rfl⟩
  | succ k =>
    obtain ⟨parent, -, hrow⟩ := mem_rounds_succ.mp hk
    obtain ⟨joined, hjoin, rfl⟩ := mem_map.mp hrow
    exact ⟨joined.1, mem_joinedRevisions (mem_filter.mp hjoin).1, rfl⟩

theorem latestRevisionId?_mem {revId : String} (h : db.latestRevisionId? doc = some revId) :
    ∃ rev ∈ db.revisions, rev.id = revId := by
  unfold latestRevisionId? at h
  split at h
  · next row hrow =>
    obtain rfl : row.revisionId = revId := Option.some.inj h
    exact mem_currentChain (mem_filter.mp (argmin_mem hrow)).1
  · obtain ⟨joined, hjoin, rfl⟩ := Option.map_eq_some_iff.mp h
    have hact : joined ∈ db.activeRevisions doc.id := argmax_mem hjoin
    exact ⟨joined.1, mem_joinedRevisions (mem_filter.mp hact).1, rfl⟩

theorem latestActiveRevision?_isSome (h : db.activeRevisionExists doc.id = true) :
    ∃ rev, db.latestActiveRevision? doc = some rev := by
  obtain ⟨revId, hid⟩ : ∃ revId, db.latestRevisionId? doc = some revId := by
    unfold latestRevisionId?
    split
    · exact ⟨_, rfl⟩
    obtain ⟨joined, hjoin, hact⟩ := any_eq_true.mp h
    have hmem : joined ∈ db.activeRevisions doc.id := mem_filter.mpr ⟨hjoin, hact⟩
    have hsome : db.fallbackFirst doc.id ≠ none := by
      intro hnone
      rw [argmax_eq_none.mp hnone] at hmem
      exact not_mem_nil hmem
    obtain ⟨found, hfound⟩ := Option.ne_none_iff_exists'.mp hsome
    exact ⟨_, by rw [hfound]; rfl⟩
  obtain ⟨rev, hrev, hmem⟩ := latestRevisionId?_mem hid
  rw [latestActiveRevision?, hid]
  exact Option.isSome_iff_exists.mp (find?_isSome.mpr ⟨rev, hrev, by simpa using hmem⟩)

end ListingDatabase

/-! ### The order of a directory listing -/

section

variable {sql : SqlText} {db : ListingDatabase T}

/-- Folders before documents, then by `lower(name)`, then by `id`. -/
def directoryOrder (T : Type) [LinearOrder (CursorValue T)] (a b : DirectoryKey) : Prop :=
  a.typeRank < b.typeRank ∨ (a.typeRank = b.typeRank ∧
    ((.str a.name : CursorValue T) < .str b.name ∨ ((.str a.name : CursorValue T) = .str b.name ∧
      (.str a.id : CursorValue T) < .str b.id)))

theorem nameIdAfterFilter_eq (row last : Node) (typeRank : ℤ) :
    nameIdAfterFilter (T := T) (.str (sql.lower row.name)) (.str row.id)
        (.str (directoryItemCursorKey sql typeRank last).name)
        (.str (directoryItemCursorKey sql typeRank last).id) =
      decide (nameIdColumns (T := T) sql last < nameIdColumns sql row) := by
  rw [nameIdAfterFilter, ← Bool.decide_and, ← Bool.decide_or]
  refine decide_eq_decide.mpr ?_
  rw [nameIdColumns, nameIdColumns, Prod.Lex.toLex_lt_toLex]
  simp only [directoryItemCursorKey, eq_comm]

theorem rowsAfter_none (rows : List Node) :
    rowsAfter sql T rows none = orderBy (nameIdColumns (T := T) sql) rows := by
  simp [rowsAfter]

variable {rows : List Node}

omit [LinearOrder (CursorValue T)] in
theorem nodup_nameIdColumns (hrows : (rows.map Node.id).Nodup) :
    (rows.map (nameIdColumns (T := T) sql)).Nodup := by
  refine (nodup_map_iff_inj_on ?_).mpr ?_
  · exact List.Nodup.of_map _ hrows
  intro a ha b hb hab
  have hid : (CursorValue.str a.id : CursorValue T) = .str b.id :=
    congrArg (fun columns => (ofLex columns).2) hab
  exact inj_on_of_nodup_map hrows ha hb (CursorValue.str.inj hid)

/-- The rows after a row: what is left of the list behind it. -/
theorem rowsAfter_some (hrows : (rows.map Node.id).Nodup) {m : ℕ} {last : Node}
    (hm : 0 < m) (hlast : (rowsAfter sql T rows none)[m - 1]? = some last) (typeRank : ℤ) :
    rowsAfter sql T rows (some (directoryItemCursorKey sql typeRank last)) =
      (rowsAfter sql T rows none).drop m := by
  have hfilt : (fun row => (some (directoryItemCursorKey sql typeRank last)).all fun key =>
      nameIdAfterFilter (T := T) (.str (sql.lower row.name)) (.str row.id) (.str key.name)
        (.str key.id)) =
      fun row : Node => decide (nameIdColumns (T := T) sql last < nameIdColumns sql row) := by
    funext row
    exact nameIdAfterFilter_eq row last typeRank
  rw [rowsAfter_none] at hlast
  rw [rowsAfter, hfilt, rowsAfter_none]
  exact orderBy_after (nodup_nameIdColumns hrows) hm hlast

variable {row : Node}

theorem mem_rowsAfter_none : row ∈ rowsAfter sql T rows none ↔ row ∈ rows := by
  rw [rowsAfter_none, mem_orderBy]

variable {lastKey : Option DirectoryKey}

theorem mem_of_mem_rowsAfter (h : row ∈ rowsAfter sql T rows lastKey) : row ∈ rows :=
  (mem_filter.mp (mem_orderBy.mp h)).1

/-! ### Two queries with one limit -/

def listingRows (sql : SqlText) (folders documents : List Node)
    (folderEntry documentEntry : Node → Fetched DirectoryKey (ListingItem T)) :
    List (Fetched DirectoryKey (ListingItem T)) :=
  (rowsAfter sql T folders none).map folderEntry ++ (rowsAfter sql T documents none).map documentEntry

/-- The rows behind a last key: a key of rank `0` selects among the folders and leaves the
documents, one of rank `1` leaves no folder. -/
def listingRowsAfter (sql : SqlText) (folders documents : List Node)
    (folderEntry documentEntry : Node → Fetched DirectoryKey (ListingItem T))
    (lastKey : Option DirectoryKey) : List (Fetched DirectoryKey (ListingItem T)) :=
  (if lastKey.any fun key => decide (key.typeRank > 0) then []
    else (rowsAfter sql T folders lastKey).map folderEntry) ++
  (rowsAfter sql T documents (lastKey.filter fun key => decide (key.typeRank = 1))).map documentEntry

/-- A key that a listing issued: none, or one of a folder or a document. -/
def IssuedKey (lastKey : Option DirectoryKey) : Prop :=
  ∀ key, lastKey = some key → key.typeRank = 0 ∨ key.typeRank = 1

section

variable {folders documents : List Node}
  {folderEntry documentEntry : Node → Fetched DirectoryKey (ListingItem T)}

theorem listingRowsAfter_none :
    listingRowsAfter sql folders documents folderEntry documentEntry none =
      listingRows sql folders documents folderEntry documentEntry := rfl

/-- The key of the `m`-th row selects the rows without the first `m`, on either side of the border
between folders and documents. -/
theorem listingRowsAfter_some (hfols : (folders.map Node.id).Nodup)
    (hdocs : (documents.map Node.id).Nodup)
    (hfkey : ∀ row, (folderEntry row).cursorKey = directoryItemCursorKey sql 0 row)
    (hdkey : ∀ row, (documentEntry row).cursorKey = directoryItemCursorKey sql 1 row)
    {m : ℕ} {last : Fetched DirectoryKey (ListingItem T)} (hm : 0 < m)
    (hlast : (listingRows sql folders documents folderEntry documentEntry)[m - 1]? = some last) :
    IssuedKey (some last.cursorKey) ∧
      listingRowsAfter sql folders documents folderEntry documentEntry (some last.cursorKey) =
        (listingRows sql folders documents folderEntry documentEntry).drop m := by
  have hflen : ((rowsAfter sql T folders none).map folderEntry).length =
      (rowsAfter sql T folders none).length := length_map _
  rcases Nat.lt_or_ge (m - 1) (rowsAfter sql T folders none).length with hside | hside
  · -- the last row is a folder: the rest of the folders, and every doc
    rw [listingRows, getElem?_append_left (by omega), getElem?_map] at hlast
    obtain ⟨folder, hfol, rfl⟩ := Option.map_eq_some_iff.mp hlast
    rw [hfkey]
    refine ⟨?_, ?_⟩
    · rintro key hkey
      cases hkey
      exact Or.inl rfl
    · show (rowsAfter sql T folders (some (directoryItemCursorKey sql 0 folder))).map folderEntry ++
        (rowsAfter sql T documents none).map documentEntry = _
      rw [rowsAfter_some hfols hm hfol, listingRows, drop_append_of_le_length (by omega), map_drop]
  · -- the last row is a doc: no folder, and the rest of the documents
    rw [listingRows, getElem?_append_right (by omega), getElem?_map, hflen] at hlast
    obtain ⟨doc, hdoc, rfl⟩ := Option.map_eq_some_iff.mp hlast
    rw [hdkey]
    refine ⟨?_, ?_⟩
    · rintro key hkey
      cases hkey
      exact Or.inr rfl
    · show [] ++ (rowsAfter sql T documents (some (directoryItemCursorKey sql 1 doc))).map
        documentEntry = _
      have hpos : m - 1 - (rowsAfter sql T folders none).length =
          m - (rowsAfter sql T folders none).length - 1 := by omega
      rw [hpos] at hdoc
      have hpast : ((rowsAfter sql T folders none).map folderEntry).drop m = [] :=
        drop_of_length_le (by omega)
      rw [rowsAfter_some hdocs (by omega) hdoc, listingRows, drop_append, hpast, hflen, map_drop]

theorem directoryQuery_lists {action : String} {folderId : NodeId}
    {fetch : Option DirectoryKey → ℕ → List (Fetched DirectoryKey (ListingItem T))}
    (hfols : (folders.map Node.id).Nodup) (hdocs : (documents.map Node.id).Nodup)
    (hfkey : ∀ row, (folderEntry row).cursorKey = directoryItemCursorKey sql 0 row)
    (hdkey : ∀ row, (documentEntry row).cursorKey = directoryItemCursorKey sql 1 row)
    (hfetch : ∀ lastKey limit, IssuedKey lastKey → fetch lastKey limit =
      (listingRowsAfter sql folders documents folderEntry documentEntry lastKey).take limit) :
    (directoryQuery action folderId fetch).Lists
      (listingRows sql folders documents folderEntry documentEntry) where
  unpacks _ := rfl
  typed _ := rfl
  first limit := by
    show fetch none limit = _
    rw [hfetch none limit (fun _ h => nomatch h), listingRowsAfter_none]
  next m last limit hm hlast := by
    obtain ⟨hiss, hrows⟩ :=
      listingRowsAfter_some hfols hdocs hfkey hdkey hm hlast
    show fetch (some last.cursorKey) limit = _
    rw [hfetch _ limit hiss, hrows]

theorem listingRows_pairwise (hfols : (folders.map Node.id).Nodup)
    (hdocs : (documents.map Node.id).Nodup)
    (hfkey : ∀ row, (folderEntry row).cursorKey = directoryItemCursorKey sql 0 row)
    (hdkey : ∀ row, (documentEntry row).cursorKey = directoryItemCursorKey sql 1 row) :
    (listingRows sql folders documents folderEntry documentEntry).Pairwise fun a b =>
      directoryOrder T a.cursorKey b.cursorKey := by
  have hord : ∀ {rows : List Node} (typeRank : ℤ)
      (entry : Node → Fetched DirectoryKey (ListingItem T)), (rows.map Node.id).Nodup →
      (∀ row, (entry row).cursorKey = directoryItemCursorKey sql typeRank row) →
      ((rowsAfter sql T rows none).map entry).Pairwise fun a b =>
        directoryOrder T a.cursorKey b.cursorKey := by
    intro rows typeRank entry hrows hkey
    rw [pairwise_map, rowsAfter_none]
    refine (pairwise_orderBy_lt (nodup_nameIdColumns hrows)).imp ?_
    intro a b hab
    rw [nameIdColumns, nameIdColumns, Prod.Lex.toLex_lt_toLex] at hab
    rw [hkey, hkey]
    exact Or.inr ⟨rfl, hab⟩
  rw [listingRows, pairwise_append]
  refine ⟨hord 0 folderEntry hfols hfkey, hord 1 documentEntry hdocs hdkey, ?_⟩
  intro a ha b hb
  obtain ⟨folder, -, rfl⟩ := mem_map.mp ha
  obtain ⟨doc, -, rfl⟩ := mem_map.mp hb
  rw [hfkey, hdkey]
  exact Or.inl Int.zero_lt_one

end

/-! ### The listing of a folder -/

theorem shared_limit {β : Type} (first second : List β) (limit : ℕ) :
    (if (limit : ℤ) - ((first.take limit).length : ℤ) ≤ 0 then first.take limit
      else first.take limit ++ second.take ((limit : ℤ) - ((first.take limit).length : ℤ)).toNat) =
      (first ++ second).take limit := by
  have hrem : ((limit : ℤ) - ((first.take limit).length : ℤ)).toNat =
      limit - (first.take limit).length := by omega
  rw [← take_then_take, hrem]
  split
  · next hnone =>
    have hzero : limit - (first.take limit).length = 0 := by omega
    rw [hzero, take_zero, append_nil]
  · rfl

theorem fetchDirectoryRows_eq (folderId : NodeId) (lastKey : Option DirectoryKey) (limit : ℕ) :
    fetchDirectoryRows sql db folderId lastKey limit =
      (if lastKey.any fun key => decide (key.typeRank > 0) then []
        else rowsAfter sql T (listedFolders db folderId) lastKey).take limit := by
  unfold fetchDirectoryRows
  split
  · rw [take_nil]
  · rfl

theorem fetchDocumentRows_eq (hiss : IssuedKey lastKey)
    (folderId : NodeId) (limit : ℕ) (includeDeleted : Bool) :
    fetchDocumentRows sql db folderId lastKey limit includeDeleted =
      (rowsAfter sql T (listedDocuments db folderId includeDeleted)
        (lastKey.filter fun key => decide (key.typeRank = 1))).take limit := by
  have hrank : (lastKey.any fun key => decide (key.typeRank > 1)) = false := by
    cases lastKey with
    | none => rfl
    | some key =>
      rcases hiss key rfl with hkey | hkey <;> simp [hkey]
  rw [fetchDocumentRows, hrank]
  rfl

def shownDocument (sql : SqlText) (db : ListingDatabase T) (row : Node) :
    Fetched DirectoryKey (ListingItem T) where
  item :=
    { type := .document
      id := row.id
      name := row.name
      createdTime := db.createdTime row.id
      title := some row.name
      revision := (db.latestActiveRevision? row).map fun latestRevision =>
        { lastModified := db.revisionCreatedTime latestRevision.id
          sha256 := db.fileSha256 latestRevision.fileId
          size := db.size latestRevision.fileId } }
  cursorKey := directoryItemCursorKey sql 1 row

theorem shownDocument_eq {rev : DocumentRevision} (h : db.latestActiveRevision? row = some rev) :
    shownDocument sql db row = documentItem sql db row rev := by
  rw [shownDocument, h]
  rfl

variable {folderId : NodeId}

theorem listedDocument_revision (h : row ∈ listedDocuments db folderId false) :
    ∃ rev, db.latestActiveRevision? row = some rev := by
  have hlisted := (mem_filter.mp h).2
  simp only [Bool.false_eq_true, if_false, Bool.and_eq_true] at hlisted
  exact ListingDatabase.latestActiveRevision?_isSome hlisted.2.2

theorem documents_not_dropped (hrows : ∀ row ∈ rows, row ∈ listedDocuments db folderId false) :
    (rows.filterMap fun row => (db.latestActiveRevision? row).map (documentItem sql db row)) =
      rows.map (shownDocument sql db) := by
  induction rows with
  | nil => rfl
  | cons row rows ih =>
    obtain ⟨rev, hrev⟩ := listedDocument_revision (hrows row mem_cons_self)
    have hrest := ih fun other hother => hrows other (mem_cons_of_mem _ hother)
    rw [filterMap_cons, hrev, map_cons, shownDocument_eq hrev, ← hrest]
    rfl

theorem fetchDirectoryListingItems_eq (folderId : NodeId) (hiss : IssuedKey lastKey) (limit : ℕ) :
    fetchDirectoryListingItems sql db folderId lastKey limit =
      (listingRowsAfter sql (listedFolders db folderId) (listedDocuments db folderId false)
        (folderItem sql db) (shownDocument sql db) lastKey).take limit := by
  have hfols : (fetchDirectoryRows sql db folderId lastKey limit).map (folderItem sql db) =
      (if lastKey.any fun key => decide (key.typeRank > 0) then []
        else (rowsAfter sql T (listedFolders db folderId) lastKey).map (folderItem sql db)).take
          limit := by
    rw [fetchDirectoryRows_eq, map_take]
    split <;> rfl
  have hdocs : ∀ remaining,
      ((fetchDocumentRows sql db folderId lastKey remaining false).filterMap fun row =>
        (db.latestActiveRevision? row).map (documentItem sql db row)) =
      ((rowsAfter sql T (listedDocuments db folderId false)
        (lastKey.filter fun key => decide (key.typeRank = 1))).map (shownDocument sql db)).take
          remaining := by
    intro remaining
    rw [fetchDocumentRows_eq hiss, documents_not_dropped, map_take]
    intro row hrow
    exact mem_of_mem_rowsAfter (mem_of_mem_take hrow)
  unfold fetchDirectoryListingItems listingRowsAfter
  simp only [hfols, hdocs]
  exact shared_limit _ _ limit

omit [LinearOrder (CursorValue T)] in
theorem nodup_folders (db : ListingDatabase T) (p : Node → Bool) :
    ((db.folders.filter p).map Node.id).Nodup :=
  db.toDatabase.folderIds_nodup.sublist (filter_sublist.map Node.id)

omit [LinearOrder (CursorValue T)] in
theorem nodup_documents (db : ListingDatabase T) (p : Node → Bool) :
    ((db.documents.filter p).map Node.id).Nodup := by
  have hdocs : (db.documents.map Node.id).Nodup :=
    db.nodeIds_nodup.sublist (filter_sublist.map Node.id)
  exact hdocs.sublist (filter_sublist.map Node.id)

def directoryRows (sql : SqlText) (db : ListingDatabase T) (folderId : NodeId) :
    List (Fetched DirectoryKey (ListingItem T)) :=
  listingRows sql (listedFolders db folderId) (listedDocuments db folderId false)
    (folderItem sql db) (shownDocument sql db)

/-- The entry of a folder in the directory, or of a document in it that has an active revision. -/
def ListedIn (sql : SqlText) (db : ListingDatabase T) (folderId : NodeId)
    (row : Fetched DirectoryKey (ListingItem T)) : Prop :=
  (∃ folder ∈ db.nodes, folder.type = .directory ∧ folder.parentId = some folderId ∧
    folder.status ≠ .deleted ∧ row = folderItem sql db folder) ∨
  ∃ doc ∈ db.nodes, doc.type = .document ∧ doc.parentId = some folderId ∧
    doc.status ≠ .deleted ∧ db.activeRevisionExists doc.id = true ∧
    ∃ revision, db.latestActiveRevision? doc = some revision ∧
      row = documentItem sql db doc revision

omit [LinearOrder (CursorValue T)] in
theorem mem_listedFolders {folder : Node} :
    folder ∈ listedFolders db folderId ↔ folder ∈ db.nodes ∧ folder.type = .directory ∧
      folder.parentId = some folderId ∧ folder.status ≠ .deleted := by
  simp [listedFolders, mem_folders, and_assoc]

omit [LinearOrder (CursorValue T)] in
theorem mem_listedDocuments {doc : Node} :
    doc ∈ listedDocuments db folderId false ↔ doc ∈ db.nodes ∧
      doc.type = .document ∧ doc.parentId = some folderId ∧ doc.status ≠ .deleted ∧
      db.activeRevisionExists doc.id = true := by
  simp [listedDocuments, mem_documents, and_assoc]

theorem mem_directoryRows {row : Fetched DirectoryKey (ListingItem T)} :
    row ∈ directoryRows sql db folderId ↔ ListedIn sql db folderId row := by
  simp only [directoryRows, listingRows, mem_append, mem_map, mem_rowsAfter_none]
  constructor
  · rintro (⟨folder, hfol, rfl⟩ | ⟨doc, hdoc, rfl⟩)
    · obtain ⟨hmem, htype, hpar, hst⟩ := mem_listedFolders.mp hfol
      exact Or.inl ⟨folder, hmem, htype, hpar, hst, rfl⟩
    · obtain ⟨rev, hrev⟩ := listedDocument_revision hdoc
      obtain ⟨hmem, htype, hpar, hst, hact⟩ := mem_listedDocuments.mp hdoc
      exact Or.inr ⟨doc, hmem, htype, hpar, hst, hact, rev, hrev, shownDocument_eq hrev⟩
  · rintro (⟨folder, hmem, htype, hpar, hst, rfl⟩ |
      ⟨doc, hmem, htype, hpar, hst, hact, rev, hrev, rfl⟩)
    · exact Or.inl ⟨folder, mem_listedFolders.mpr ⟨hmem, htype, hpar, hst⟩, rfl⟩
    · exact Or.inr ⟨doc, mem_listedDocuments.mpr ⟨hmem, htype, hpar, hst, hact⟩,
        shownDocument_eq hrev⟩

theorem listDirectory_lists (folderId : NodeId) :
    (listDirectory sql db folderId).Lists (directoryRows sql db folderId) :=
  directoryQuery_lists (nodup_folders db _) (nodup_documents db _) (fun _ => rfl) (fun _ => rfl)
    fun _ limit hiss => fetchDirectoryListingItems_eq folderId hiss limit

/-! ### The listing of deleted items -/

def deletedRows (sql : SqlText) (db : ListingDatabase T) (folderId : NodeId) :
    List (Fetched DirectoryKey (ListingItem T)) :=
  listingRows sql (deletedFolders db folderId) (listedDocuments db folderId true)
    (deletedFolderItem sql db) (deletedDocumentItem sql db)

def DeletedIn (sql : SqlText) (db : ListingDatabase T) (folderId : NodeId)
    (row : Fetched DirectoryKey (ListingItem T)) : Prop :=
  ∃ node ∈ db.nodes, node.parentId = some folderId ∧ node.status = .deleted ∧
    ((node.type = .directory ∧ row = deletedFolderItem sql db node) ∨
      (node.type = .document ∧ row = deletedDocumentItem sql db node))

theorem fetchDeletedListingItems_eq (folderId : NodeId) (hiss : IssuedKey lastKey) (limit : ℕ) :
    fetchDeletedListingItems sql db folderId lastKey limit =
      (listingRowsAfter sql (deletedFolders db folderId) (listedDocuments db folderId true)
        (deletedFolderItem sql db) (deletedDocumentItem sql db) lastKey).take limit := by
  unfold fetchDeletedListingItems listingRowsAfter
  simp only [fetchDocumentRows_eq hiss]
  rw [← shared_limit]
  cases lastKey with
  | none => simp
  | some key =>
    rcases hiss key rfl with hkey | hkey
    · simp [hkey]
    · simp [hkey]

theorem mem_deletedRows {row : Fetched DirectoryKey (ListingItem T)} :
    row ∈ deletedRows sql db folderId ↔ DeletedIn sql db folderId row := by
  simp only [deletedRows, listingRows, mem_append, mem_map, mem_rowsAfter_none]
  constructor
  · rintro (⟨folder, hfol, rfl⟩ | ⟨doc, hdoc, rfl⟩)
    · simp only [deletedFolders, mem_filter, mem_folders, Bool.and_eq_true,
        beq_iff_eq] at hfol
      exact ⟨folder, hfol.1.1, hfol.2.1, hfol.2.2, Or.inl ⟨hfol.1.2, rfl⟩⟩
    · simp only [listedDocuments, mem_filter, mem_documents, Bool.and_eq_true,
        beq_iff_eq, if_true] at hdoc
      exact ⟨doc, hdoc.1.1, hdoc.2.1, hdoc.2.2, Or.inr ⟨hdoc.1.2, rfl⟩⟩
  · rintro ⟨node, hmem, hpar, hst, ⟨htype, rfl⟩ | ⟨htype, rfl⟩⟩
    · refine Or.inl ⟨node, ?_, rfl⟩
      simp [deletedFolders, mem_folders, hmem, htype, hpar, hst]
    · refine Or.inr ⟨node, ?_, rfl⟩
      simp [listedDocuments, mem_documents, hmem, htype, hpar, hst]

theorem listDeletedItems_lists (folderId : NodeId) :
    (listDeletedItems sql db folderId).Lists (deletedRows sql db folderId) :=
  directoryQuery_lists (nodup_folders db _) (nodup_documents db _) (fun _ => rfl) (fun _ => rfl)
    fun _ limit hiss => fetchDeletedListingItems_eq folderId hiss limit

end

end Cfms.Documents
