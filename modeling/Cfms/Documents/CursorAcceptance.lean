import Cfms.Documents.SearchPages

/-!
# Cursors that are accepted back

`make_cursor_response` encodes the key of the last item of a page and `PaginationCursor.decode`
reads it with the next request.  Only the reader limits the length of a token, so a cursor can be
handed out that is refused: the text of the key grows with every character of a name that JSON
escapes, and the text of a cursor with more than 1471 characters makes its token too long.

`handed_out_cursors_accepted_iff` says for the three listings that nothing else goes wrong.
-/

namespace Cfms.Documents

namespace PagedQuery

variable {T K Item : Type}

def lastShown (q : PagedQuery T K Item) (pageSize : ℕ) (lastKey : Option K) : Option (Fetched K Item) :=
  ((q.fetch lastKey (pageSize + 1)).take pageSize).getLast?

def AcceptsItsCursor (crypto : CursorCrypto T) (q : PagedQuery T K Item) (pageSize vector : ℕ)
    (lastKey : Option K) : Prop :=
  ∀ token, (q.responseTo crypto pageSize vector lastKey).nextCursor = some token →
    ∃ row cursor, q.lastShown pageSize lastKey = some row ∧
      PaginationCursor.decode crypto (some token) q.action q.sort q.filters q.valueTypes =
        .ok (some cursor) ∧
      cursor.last = q.keyValues row.cursorKey

/-- When there is a next page, the text of the cursor to it has at most 1471 characters. -/
def CursorTextFits (crypto : CursorCrypto T) (q : PagedQuery T K Item) (pageSize : ℕ)
    (lastKey : Option K) : Prop :=
  pageSize < (q.fetch lastKey (pageSize + 1)).length → ∀ row, q.lastShown pageSize lastKey = some row →
    (((q.cursorOf row).payload crypto).canonicalJson crypto.reprFloat).length ≤ 1471

variable {crypto : CursorCrypto T} {q : PagedQuery T K Item}

theorem nextCursor_eq (pageSize vector : ℕ) (lastKey : Option K) :
    (q.responseTo crypto pageSize vector lastKey).nextCursor =
      if pageSize < (q.fetch lastKey (pageSize + 1)).length then
        (q.lastShown pageSize lastKey).map fun row => (q.cursorOf row).encode crypto vector
      else none := by
  by_cases hmore : pageSize < (q.fetch lastKey (pageSize + 1)).length
  · simp [responseTo, makeCursorResponse, lastShown, cursorOf]
  · simp [responseTo, makeCursorResponse, hmore]

/-- **A cursor is accepted back exactly when its text is short enough.** -/
theorem acceptsItsCursor_iff
    (htyped : ∀ key, requireCursorTypes (q.keyValues key) q.valueTypes = .ok ())
    (pageSize vector : ℕ) (lastKey : Option K) :
    q.AcceptsItsCursor crypto pageSize vector lastKey ↔ q.CursorTextFits crypto pageSize lastKey := by
  unfold AcceptsItsCursor
  rw [nextCursor_eq]
  constructor
  · intro h hmore row hrow
    rw [if_pos hmore, hrow] at h
    obtain ⟨_, cursor, -, hdecode, -⟩ := h _ rfl
    by_contra hlong
    have hnot : ¬ q.CursorFits crypto row := by
      rw [CursorFits, paginationCursorMaxLength, fernetLength_le_iff]
      exact hlong
    rw [decode_of_not_fits vector hnot] at hdecode
    cases hdecode
  · intro h token htoken
    by_cases hmore : pageSize < (q.fetch lastKey (pageSize + 1)).length
    · rw [if_pos hmore] at htoken
      obtain ⟨row, hrow, rfl⟩ := Option.map_eq_some_iff.mp htoken
      have hfits : q.CursorFits crypto row := by
        rw [CursorFits, paginationCursorMaxLength, fernetLength_le_iff]
        exact h hmore row hrow
      exact ⟨row, _, hrow, decode_of_typed htyped vector hfits, rfl⟩
    · rw [if_neg hmore] at htoken
      cases htoken

end PagedQuery

open PagedQuery

variable {T : Type}

theorem directoryKey_typed (key : DirectoryKey) :
    requireCursorTypes (T := T) key.values [[.int], [.str], [.str]] = .ok () := rfl

theorem searchKey_typed (key : SearchKey T) :
    requireCursorTypes key.values [[.int, .float, .str], [.int], [.str]] = .ok () := by
  obtain ⟨primary, typeRank, id⟩ := key
  cases primary <;> rfl

variable [LinearOrder (CursorValue T)]

/-- **Every cursor that is handed out is accepted back**, in the directory listing, the listing of
deleted items and the search, exactly when the text of the cursor has at most 1471 characters. -/
theorem handed_out_cursors_accepted_iff (crypto : CursorCrypto T) (sql : SqlText)
    (db : ListingDatabase T) (pageSize vector : ℕ) :
    (∀ folderId lastKey,
      (listDirectory sql db folderId).AcceptsItsCursor crypto pageSize vector lastKey ↔
        (listDirectory sql db folderId).CursorTextFits crypto pageSize lastKey) ∧
    (∀ folderId lastKey,
      (listDeletedItems sql db folderId).AcceptsItsCursor crypto pageSize vector lastKey ↔
        (listDeletedItems sql db folderId).CursorTextFits crypto pageSize lastKey) ∧
    ∀ user now request lastKey,
      (searchQuery sql db user now request).AcceptsItsCursor crypto pageSize vector lastKey ↔
        (searchQuery sql db user now request).CursorTextFits crypto pageSize lastKey :=
  ⟨fun _ lastKey => acceptsItsCursor_iff directoryKey_typed pageSize vector lastKey,
    fun _ lastKey => acceptsItsCursor_iff directoryKey_typed pageSize vector lastKey,
    fun _ _ _ lastKey => acceptsItsCursor_iff searchKey_typed pageSize vector lastKey⟩

/-- The first page of one folder with a long name hands out a cursor that is refused. -/
theorem long_name_cursor_refused :
    ¬ (listDirectory caselessText longNamesDatabase "/").AcceptsItsCursor cursorTokens 1 0 none := by
  intro hacc
  have hfits := (acceptsItsCursor_iff directoryKey_typed 1 0 none).mp hacc
  obtain ⟨first, second, hrows⟩ := List.length_eq_two.mp longNames_count
  have hfetch : (listDirectory caselessText longNamesDatabase "/").fetch none 2 = [first, second] := by
    rw [(listDirectory_lists "/").first 2, hrows]
    rfl
  have hlast : (listDirectory caselessText longNamesDatabase "/").lastShown 1 none = some first := by
    unfold lastShown
    rw [hfetch]
    rfl
  have htext := hfits (by rw [hfetch]; exact Nat.one_lt_two) first hlast
  have hmem : first ∈ directoryRows caselessText longNamesDatabase "/" := by
    rw [hrows]
    exact List.mem_cons_self
  refine longNames_not_fit hmem ?_
  rw [CursorFits, paginationCursorMaxLength, fernetLength_le_iff]
  exact htext

end Cfms.Documents
