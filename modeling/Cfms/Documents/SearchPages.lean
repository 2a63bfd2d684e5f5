import Cfms.Documents.ListingPages
import Mathlib.Data.List.Infix
import Mathlib.Data.String.Basic

/-!
# Following the pages of a listing or a search

A search reads the visible candidates in the order of the primary column, up or down, then the
type, then the identifier.  The condition on the last key is that of this ordering
(`applySearchCursorFilter_eq`), so a search lists fixed rows as the directory listings do.

The pages of all three are complete exactly when the tokens of the page boundaries are short
enough (`paged_listings_complete_iff`).  A name of 255 characters outside ASCII, which the `nodes`
table holds, takes six characters each in the token's text; the server then issues a cursor that it
refuses (`long_name_ends_paging`).
-/

namespace Cfms.Documents

open Access Lib.Keyset List

variable {T : Type} [LinearOrder (CursorValue T)] {sql : SqlText} {db : ListingDatabase T}

/-! ### The order of a search -/

/-- Comparison in a column ordered up or down. -/
def directedBefore (sortOrder : SortOrder) (a b : CursorValue T) : Prop :=
  match sortOrder with
  | .asc => a < b
  | .desc => b < a

/-- By the primary column in the chosen direction, then folders before documents, then by `id`. -/
def searchOrder (sortOrder : SortOrder) (a b : SearchKey T) : Prop :=
  directedBefore sortOrder a.primary b.primary ∨ (a.primary = b.primary ∧
    (a.typeRank < b.typeRank ∨ (a.typeRank = b.typeRank ∧
      (.str a.id : CursorValue T) < .str b.id)))

variable {a b : CursorValue T}

theorem directed_lt (sortOrder : SortOrder) :
    directed sortOrder a < directed sortOrder b ↔ directedBefore sortOrder a b := by
  cases sortOrder with
  | asc => exact Sum.Lex.inl_lt_inl_iff
  | desc => exact Sum.Lex.inr_lt_inr_iff

variable {sortOrder : SortOrder}

omit [LinearOrder (CursorValue T)] in
theorem directed_inj : directed sortOrder a = directed sortOrder b ↔ a = b := by
  cases sortOrder with
  | asc => exact Sum.inl_injective.eq_iff
  | desc => exact Sum.inr_injective.eq_iff

omit [LinearOrder (CursorValue T)] in
theorem searchItemCursorKey_primary (sortBy : SortBy) (row : SearchRow T) :
    (searchItemCursorKey sortBy row).primary = searchPrimaryColumn sortBy row := by
  cases sortBy with
  | lastModified =>
    rw [searchItemCursorKey, searchPrimaryColumn]
    cases row.lastModified <;> rfl
  | name | createdTime | size => rfl

theorem searchOrdering_lt {sortBy : SortBy} {a b : SearchRow T} :
    searchOrdering sortBy sortOrder a < searchOrdering sortBy sortOrder b ↔
      searchOrder sortOrder (searchItemCursorKey sortBy a) (searchItemCursorKey sortBy b) := by
  rw [searchOrdering, searchOrdering, Prod.Lex.toLex_lt_toLex, directed_lt, directed_inj,
    Prod.Lex.toLex_lt_toLex, searchOrder, searchItemCursorKey_primary, searchItemCursorKey_primary]
  rfl

theorem applySearchCursorFilter_eq (sortBy : SortBy) (sortOrder : SortOrder)
    (last row : SearchRow T) :
    applySearchCursorFilter sortBy sortOrder (searchItemCursorKey sortBy last) row =
      decide (searchOrdering sortBy sortOrder last < searchOrdering sortBy sortOrder row) := by
  have hprimary : (if sortOrder = .desc then
        decide (searchPrimaryColumn sortBy row < (searchItemCursorKey sortBy last).primary)
      else decide (searchPrimaryColumn sortBy row > (searchItemCursorKey sortBy last).primary)) =
      decide (directed sortOrder (searchPrimaryColumn sortBy last) <
        directed sortOrder (searchPrimaryColumn sortBy row)) := by
    rw [searchItemCursorKey_primary]
    cases sortOrder with
    | asc => exact decide_eq_decide.mpr (directed_lt .asc).symm
    | desc => exact decide_eq_decide.mpr (directed_lt .desc).symm
  unfold applySearchCursorFilter
  simp only [hprimary]
  rw [← Bool.decide_and, ← Bool.decide_or, ← Bool.decide_and, ← Bool.decide_or]
  refine decide_eq_decide.mpr ?_
  rw [searchItemCursorKey_primary, searchOrdering, searchOrdering, Prod.Lex.toLex_lt_toLex,
    directed_inj, Prod.Lex.toLex_lt_toLex]
  simp only [searchItemCursorKey, eq_comm]

/-! ### The candidates have distinct identifiers -/

omit [LinearOrder (CursorValue T)] in
theorem sublist_filterMap_keys {α β κ : Type} {f : α → Option β} {ka : α → κ} {kb : β → κ}
    (hkeys : ∀ a b, f a = some b → kb b = ka a) (l : List α) :
    ((l.filterMap f).map kb).Sublist (l.map ka) := by
  induction l with
  | nil => exact List.Sublist.refl _
  | cons a l ih =>
    cases hf : f a with
    | none =>
      rw [filterMap_cons, hf]
      exact ih.cons (ka a)
    | some b =>
      rw [filterMap_cons, hf]
      show (kb b :: (l.filterMap f).map kb).Sublist (ka a :: l.map ka)
      rw [hkeys a b hf]
      exact ih.cons_cons (ka a)

theorem documentSearchRow?_id {doc : Node} {row : SearchRow T}
    (h : documentSearchRow? sql db doc = some row) : row.id = doc.id := by
  obtain ⟨effective, -, rfl⟩ := Option.map_eq_some_iff.mp h
  rfl

theorem nodup_candidates {query : String} {searchDocuments searchDirectories : Bool}
    {candidates : List (SearchRow T)}
    (h : searchCandidateSelectable sql db query searchDocuments searchDirectories = some candidates) :
    (candidates.map SearchRow.id).Nodup := by
  have hfols : ∀ p : Node → Bool,
      (((db.folders.filter p).map (folderSearchRow sql db)).map SearchRow.id) =
        (db.folders.filter p).map Node.id := by
    intro p
    rw [map_map]
    rfl
  have hdocs : ∀ p : Node → Bool,
      ((((db.documents.filter p).filterMap (documentSearchRow? sql db)).map SearchRow.id)).Sublist
        ((db.documents.filter p).map Node.id) :=
    fun p => sublist_filterMap_keys (fun _ _ => documentSearchRow?_id) _
  cases searchDirectories with
  | true =>
    cases searchDocuments with
    | true =>
      cases h
      rw [map_append, hfols, nodup_append]
      refine ⟨nodup_folders db _, (nodup_documents db _).sublist (hdocs _), ?_⟩
      rintro a ha b hb rfl
      obtain ⟨folder, hfol, rfl⟩ := mem_map.mp ha
      obtain ⟨doc, hdoc, hid⟩ := mem_map.mp ((hdocs _).subset hb)
      have hfol' := Database.mem_folders.mp (mem_filter.mp hfol).1
      have hdoc' := Database.mem_documents.mp (mem_filter.mp hdoc).1
      rw [Database.eq_of_id_eq hdoc'.1 hfol'.1 hid] at hdoc'
      rw [hfol'.2] at hdoc'
      exact NodeType.noConfusion hdoc'.2
    | false =>
      cases h
      rw [hfols]
      exact nodup_folders db _
  | false =>
    cases searchDocuments with
    | true =>
      cases h
      exact (nodup_documents db _).sublist (hdocs _)
    | false => exact nomatch h

/-! ### A search lists its rows -/

def searchRows (sql : SqlText) (db : ListingDatabase T) (user : User) (now : Instant)
    (request : SearchRequest) : List (Fetched (SearchKey T) (SearchItem T)) :=
  ((searchCandidateSelectable sql db request.query request.searchDocuments
    request.searchDirectories).elim [] fun candidates =>
      orderBy (searchOrdering request.sortBy request.sortOrder)
        (visibleRows db user now candidates)).map (searchResult request.sortBy)

/-- The result of a candidate that the user sees. -/
def FoundBy (sql : SqlText) (db : ListingDatabase T) (user : User) (now : Instant)
    (request : SearchRequest) (row : Fetched (SearchKey T) (SearchItem T)) : Prop :=
  ∃ candidates, searchCandidateSelectable sql db request.query request.searchDocuments
      request.searchDirectories = some candidates ∧
    ∃ candidate ∈ candidates,
      visibleSearchFilter db.toDatabase (candidates.map SearchRow.candidate) user now
        candidate.candidate = true ∧
      row = searchResult request.sortBy candidate

section

variable {user : User} {now : Instant} {request : SearchRequest}

omit [LinearOrder (CursorValue T)] in
theorem nodup_searchOrdering {rows : List (SearchRow T)} (hrows : (rows.map SearchRow.id).Nodup)
    (sortBy : SortBy) (sortOrder : SortOrder) :
    (rows.map (searchOrdering sortBy sortOrder)).Nodup := by
  refine (nodup_map_iff_inj_on (List.Nodup.of_map _ hrows)).mpr ?_
  intro a ha b hb hab
  have hid : (CursorValue.str a.id : CursorValue T) = .str b.id :=
    congrArg (fun place => (ofLex (ofLex place).2).2) hab
  exact inj_on_of_nodup_map hrows ha hb (CursorValue.str.inj hid)

theorem nodup_visibleRows {candidates : List (SearchRow T)}
    (h : searchCandidateSelectable sql db request.query request.searchDocuments
      request.searchDirectories = some candidates) :
    ((visibleRows db user now candidates).map
      (searchOrdering request.sortBy request.sortOrder)).Nodup :=
  nodup_searchOrdering
    ((nodup_candidates h).sublist (filter_sublist.map SearchRow.id)) _ _

theorem searchQuery_lists :
    (searchQuery sql db user now request).Lists (searchRows sql db user now request) where
  unpacks _ := rfl
  typed key := by
    obtain ⟨primary, typeRank, id⟩ := key
    cases primary <;> rfl
  first limit := by
    show fetchVisibleSearchCandidateRows sql db user now request none limit = _
    unfold fetchVisibleSearchCandidateRows searchRows
    cases searchCandidateSelectable sql db request.query request.searchDocuments
        request.searchDirectories with
    | none => exact take_nil.symm
    | some candidates => simp [map_take]
  next m last limit hm hlast := by
    show fetchVisibleSearchCandidateRows sql db user now request (some last.cursorKey) limit = _
    unfold fetchVisibleSearchCandidateRows
    unfold searchRows at hlast ⊢
    cases hcands : searchCandidateSelectable sql db request.query request.searchDocuments
        request.searchDirectories with
    | none =>
      rw [hcands] at hlast
      cases hlast
    | some candidates =>
      rw [hcands] at hlast
      rw [getElem?_map] at hlast
      obtain ⟨row, hrow, rfl⟩ := Option.map_eq_some_iff.mp hlast
      have hfilt : (fun other => (some (searchResult request.sortBy row).cursorKey).all fun key =>
          applySearchCursorFilter request.sortBy request.sortOrder key other) =
          fun other => decide (searchOrdering request.sortBy request.sortOrder row <
            searchOrdering request.sortBy request.sortOrder other) := by
        funext other
        exact applySearchCursorFilter_eq request.sortBy request.sortOrder row other
      show ((orderBy _ ((visibleRows db user now candidates).filter _)).take limit).map _ = _
      rw [hfilt, ← after_some, orderBy_after (nodup_visibleRows hcands) hm hrow, map_take, map_drop]
      rfl

theorem searchRows_pairwise : (searchRows sql db user now request).Pairwise fun a b =>
      searchOrder request.sortOrder a.cursorKey b.cursorKey := by
  unfold searchRows
  rw [pairwise_map]
  cases hcands : searchCandidateSelectable sql db request.query request.searchDocuments
      request.searchDirectories with
  | none => exact List.Pairwise.nil
  | some candidates =>
    exact (pairwise_orderBy_lt (nodup_visibleRows hcands)).imp searchOrdering_lt.mp

theorem mem_searchRows {row : Fetched (SearchKey T) (SearchItem T)} :
    row ∈ searchRows sql db user now request ↔ FoundBy sql db user now request row := by
  unfold searchRows FoundBy
  cases hcands : searchCandidateSelectable sql db request.query request.searchDocuments
      request.searchDirectories with
  | none => simp
  | some candidates =>
    simp only [Option.elim_some, mem_map, mem_orderBy, visibleRows, mem_filter,
      Option.some.injEq, exists_eq_left']
    constructor
    · rintro ⟨cand, ⟨hmem, hvisible⟩, rfl⟩
      exact ⟨cand, hmem, hvisible, rfl⟩
    · rintro ⟨cand, hmem, hvisible, rfl⟩
      exact ⟨cand, ⟨hmem, hvisible⟩, rfl⟩

end

/-! ### Complete pages -/

theorem listDirectory_pagesComplete_iff (crypto : CursorCrypto T) (sql : SqlText)
    (db : ListingDatabase T) {pageSize : ℕ} (hsize : 0 < pageSize) (folderId : NodeId) :
    (listDirectory sql db folderId).PagesComplete crypto pageSize (directoryOrder T)
        (ListedIn sql db folderId) ↔
      (listDirectory sql db folderId).BoundariesFit crypto pageSize
        (directoryRows sql db folderId) :=
  PagedQuery.pagesComplete_iff (listDirectory_lists folderId) hsize
    (listingRows_pairwise (nodup_folders db _) (nodup_documents db _) (fun _ => rfl) fun _ => rfl)
    fun _ => mem_directoryRows

/-- **The pages of the listings and of a search are complete exactly when the tokens of all page
boundaries are short enough to be sent back.** -/
theorem paged_listings_complete_iff (crypto : CursorCrypto T) (sql : SqlText)
    (db : ListingDatabase T) {pageSize : ℕ} (hsize : 0 < pageSize) :
    (∀ folderId, (listDirectory sql db folderId).PagesComplete crypto pageSize (directoryOrder T)
          (ListedIn sql db folderId) ↔
        (listDirectory sql db folderId).BoundariesFit crypto pageSize
          (directoryRows sql db folderId)) ∧
    (∀ folderId, (listDeletedItems sql db folderId).PagesComplete crypto pageSize (directoryOrder T)
          (DeletedIn sql db folderId) ↔
        (listDeletedItems sql db folderId).BoundariesFit crypto pageSize
          (deletedRows sql db folderId)) ∧
    ∀ user now request, (searchQuery sql db user now request).PagesComplete crypto pageSize
          (searchOrder request.sortOrder) (FoundBy sql db user now request) ↔
        (searchQuery sql db user now request).BoundariesFit crypto pageSize
          (searchRows sql db user now request) := by
  refine ⟨?_, ?_, ?_⟩
  · exact listDirectory_pagesComplete_iff crypto sql db hsize
  · intro folderId
    exact PagedQuery.pagesComplete_iff (listDeletedItems_lists folderId) hsize
      (listingRows_pairwise (nodup_folders db _) (nodup_documents db _) (fun _ => rfl) fun _ => rfl)
      fun _ => mem_deletedRows
  · intro user now request
    exact PagedQuery.pagesComplete_iff searchQuery_lists hsize searchRows_pairwise
      fun _ => mem_searchRows

/-! ### Two folders with long names -/

section

/-- Numbers before times before texts, each in its own order. -/
def cursorValuePlace : CursorValue ℤ → ℤ ⊕ₗ (ℤ ⊕ₗ String)
  | .int value => toLex (.inl value)
  | .float value => toLex (.inr (toLex (.inl value)))
  | .str value => toLex (.inr (toLex (.inr value)))

theorem cursorValuePlace_injective : Function.Injective cursorValuePlace := by
  intro a b h
  cases a <;> cases b <;> cases h <;> rfl

/-- The order of a database with whole-second times and a binary collation. -/
instance : LinearOrder (CursorValue ℤ) :=
  LinearOrder.lift' cursorValuePlace cursorValuePlace_injective

/-- Tokens as long as Fernet's, with the SHA-256 of `\x7b"folder_id":"/"\x7d`. -/
def cursorTokens : CursorCrypto ℤ where
  reprFloat value := (toString value).toList ++ ['.', '0']
  sha256 _ := "21fbc08eaaa06bd99e3a0022cbc66f0f9d5d15056ce0a306e289e59fdbd9fce1"
  Token := CursorPayload ℤ
  length payload := fernetLength (payload.canonicalJson fun value =>
    (toString value).toList ++ ['.', '0']).length
  encrypt _ payload := payload
  decrypt payload := some payload
  decrypt_encrypt _ _ := rfl
  length_encrypt _ _ := rfl

/-- Names in a script without letter case. -/
def caselessText : SqlText where
  lower := id
  icontains name query := decide (query.toList.IsInfix name.toList)

/-- A name of 255 characters. -/
def longName (last : Char) : String := String.ofList (List.replicate 254 '档' ++ [last])

/-- Two folders under the root, with long names. -/
def longNamesDatabase : ListingDatabase ℤ where
  nodes :=
    [{ id := "/", type := .directory, name := "/", parentId := none },
      { id := "a", type := .directory, name := longName '案', parentId := some "/" },
      { id := "b", type := .directory, name := longName '档', parentId := some "/" }]
  nodeIds_nodup := by decide
  nodeIds_ne_empty := by decide
  createdTime _ := 0
  revisionCreatedTime _ := 0
  parentRevisionId _ := none
  fileSize _ := none
  storedSize _ := none
  fileSha256 _ := none

theorem longName_json (last : Char) (hlast : (jsonChar last).length = 6) :
    (jsonString (longName last)).length = 1532 := by
  have hrepeated : (jsonChar '档').length = 6 := by decide
  have hname : (longName last).toList = replicate 254 '档' ++ [last] := String.toList_ofList
  rw [jsonString, hname, length_append, length_append, length_flatMap,
    map_append, map_replicate, sum_append, sum_replicate_nat]
  show 1 + (254 * 6 + ((jsonChar last).length + 0)) + 1 = 1532
  rw [hlast]

theorem longNames_count : (directoryRows caselessText longNamesDatabase "/").length = 2 := by
  have hfols : (listedFolders longNamesDatabase "/").length = 2 := by decide
  have hdocs : (listedDocuments longNamesDatabase "/" false).length = 0 := by decide
  rw [directoryRows, listingRows, length_append, length_map, length_map,
    rowsAfter_none, rowsAfter_none, (orderBy_perm _).length_eq, (orderBy_perm _).length_eq, hfols,
    hdocs]

theorem longNames_not_fit {row : Fetched DirectoryKey (ListingItem ℤ)}
    (h : row ∈ directoryRows caselessText longNamesDatabase "/") :
    ¬ (listDirectory caselessText longNamesDatabase "/").CursorFits cursorTokens row := by
  have hjson : ∃ last, (jsonChar last).length = 6 ∧ row.cursorKey.name = longName last := by
    rcases mem_directoryRows.mp h with ⟨folder, hmem, -, hpar, -, rfl⟩ | ⟨doc, hmem, htype, -⟩
    · rcases mem_cons.mp hmem with rfl | hmem
      · exact absurd hpar (by decide)
      rcases mem_cons.mp hmem with rfl | hmem
      · exact ⟨'案', by decide, rfl⟩
      rcases mem_cons.mp hmem with rfl | hmem
      · exact ⟨'档', by decide, rfl⟩
      · cases hmem
    · have hfols : ∀ node ∈ longNamesDatabase.nodes, node.type = .directory := by decide
      rw [hfols doc hmem] at htype
      cases htype
  obtain ⟨last, hlast, hname⟩ := hjson
  have hlong : (jsonString row.cursorKey.name).length = 1532 := by
    rw [hname]
    exact longName_json last hlast
  refine PagedQuery.not_cursorFits (.str row.cursorKey.name) ?_ ?_
  · exact mem_cons_of_mem _ mem_cons_self
  · show 1471 < (jsonString row.cursorKey.name).length
    omega

/-- The first page of one folder has a cursor that the next request refuses. -/
theorem long_name_ends_paging :
    ¬ (listDirectory caselessText longNamesDatabase "/").PagesComplete cursorTokens 1
      (directoryOrder ℤ) (ListedIn caselessText longNamesDatabase "/") := by
  intro hcompl
  have hfits := (listDirectory_pagesComplete_iff cursorTokens caselessText longNamesDatabase
    Nat.one_pos "/").mp hcompl
  have hcount := longNames_count
  have hrow := getElem?_eq_getElem
    (l := directoryRows caselessText longNamesDatabase "/") (i := 0) (by omega)
  exact longNames_not_fit (getElem_mem _) (hfits 1 _ Nat.one_pos (by omega) hrow)

/-- Pages of two items show both folders at once. -/
theorem long_names_on_one_page :
    (listDirectory caselessText longNamesDatabase "/").PagesComplete cursorTokens 2
      (directoryOrder ℤ) (ListedIn caselessText longNamesDatabase "/") := by
  refine ((paged_listings_complete_iff cursorTokens caselessText longNamesDatabase
    Nat.two_pos).1 "/").mpr ?_
  intro k row hk hlt
  have hcount := longNames_count
  omega

end

end Cfms.Documents
