import Cfms.Lib.Keyset

/-!
# Cursor pagination

`include/domains/pagination.py`.  A cursor is a Fernet token around the canonical JSON text of the
action, the sort, a hash of the filters and the key of the last item shown.  A request with a
cursor is answered when the token is not longer than `PAGINATION_CURSOR_MAX_LENGTH`, decrypts, and
was issued for the same action, sort and filters.

A `CursorCrypto` stands for the pieces outside the repository: the text of a float, SHA-256 and
Fernet under the server's cursor key.  A token's plaintext is kept as the payload its JSON text
denotes; the text itself, with every character outside printable ASCII escaped, decides how long
the token is.

A `PagedQuery` is a paged endpoint: it decodes the cursor, fetches one item more than a page holds
and makes the cursor response.  `pagesComplete_iff` says when following its cursors reads every item.
-/

namespace Cfms.Documents

open Lib.Keyset List

/-! ### Cursor values and their JSON text -/

/-- A value of a cursor key.  `T` is the type of the `Double` columns. -/
inductive CursorValue (T : Type)
  | int (value : ℤ)
  | float (value : T)
  | str (value : String)

inductive CursorValueType
  | int
  | float
  | str
  deriving DecidableEq

inductive FilterValue
  | str (value : String)
  | bool (value : Bool)
  deriving DecidableEq

/-- `\uXXXX`. -/
def unicodeEscape (code : ℕ) : List Char :=
  ['\\', 'u', Nat.digitChar (code / 4096 % 16), Nat.digitChar (code / 256 % 16),
    Nat.digitChar (code / 16 % 16), Nat.digitChar (code % 16)]

/-- A character of a JSON string under `ensure_ascii`; one outside the basic plane becomes a
surrogate pair. -/
def jsonChar (c : Char) : List Char :=
  if c = '"' then ['\\', '"']
  else if c = '\\' then ['\\', '\\']
  else if c = '\n' then ['\\', 'n']
  else if c = '\r' then ['\\', 'r']
  else if c = '\t' then ['\\', 't']
  else if c.toNat = 12 then ['\\', 'f']
  else if c.toNat = 8 then ['\\', 'b']
  else if 32 ≤ c.toNat ∧ c.toNat ≤ 126 then [c]
  else if c.toNat < 65536 then unicodeEscape c.toNat
  else unicodeEscape (55296 + (c.toNat - 65536) / 1024) ++
    unicodeEscape (56320 + (c.toNat - 65536) % 1024)

def jsonString (s : String) : List Char := ['"'] ++ s.toList.flatMap jsonChar ++ ['"']

/-- Parts joined with the separator `,`. -/
def jsonJoin (parts : List (List Char)) : List Char := List.intercalate [','] parts

/-- An object with `sort_keys`, its values already rendered. -/
def jsonObject (fields : List (String × List Char)) : List Char :=
  ['{'] ++ jsonJoin ((fields.insertionSort fun a b => a.1 ≤ b.1).map fun field =>
    jsonString field.1 ++ [':'] ++ field.2) ++ ['}']

def FilterValue.json : FilterValue → List Char
  | .str value => jsonString value
  | .bool true => "true".toList
  | .bool false => "false".toList

def CursorValue.json {T : Type} (reprFloat : T → List Char) : CursorValue T → List Char
  | .int value => (toString value).toList
  | .float value => reprFloat value
  | .str value => jsonString value

/-- What a cursor token carries, under the keys `aad`, `a`, `s`, `f` and `k`. -/
structure CursorPayload (T : Type) where
  aad : String
  action : String
  sort : String
  filtersHash : String
  last : List (CursorValue T)

/-- `_canonical_json` of a payload. -/
def CursorPayload.canonicalJson {T : Type} (reprFloat : T → List Char) (payload : CursorPayload T) :
    List Char :=
  jsonObject
    [("aad", jsonString payload.aad), ("a", jsonString payload.action),
      ("s", jsonString payload.sort), ("f", jsonString payload.filtersHash),
      ("k", ['['] ++ jsonJoin (payload.last.map (CursorValue.json reprFloat)) ++ [']'])]

/-! ### Tokens -/

/-- The length of a Fernet token: version, timestamp, vector, padded text and signature, in
padded base 64. -/
def fernetLength (plaintext : ℕ) : ℕ :=
  4 * ((1 + 8 + 16 + 16 * (plaintext / 16 + 1) + 32 + 2) / 3)

theorem fernetLength_le_iff {plaintext : ℕ} : fernetLength plaintext ≤ 2048 ↔ plaintext ≤ 1471 := by
  unfold fernetLength
  omega

/-- The code outside the repository that cursors rest on.  The first argument of `encrypt` is the
time and the vector a token is made with. -/
structure CursorCrypto (T : Type) where
  reprFloat : T → List Char
  sha256 : List Char → String
  Token : Type
  length : Token → ℕ
  encrypt : ℕ → CursorPayload T → Token
  decrypt : Token → Option (CursorPayload T)
  decrypt_encrypt : ∀ vector payload, decrypt (encrypt vector payload) = some payload
  length_encrypt : ∀ vector payload,
    length (encrypt vector payload) = fernetLength (payload.canonicalJson reprFloat).length

def paginationCursorMaxLength : ℕ := 2048

def cursorAad : String := "pagination-cursor-v2"

def invalidCursor : String := "Invalid cursor"

def cursorMismatch : String := "Cursor does not match this request"

abbrev Filters := List (String × FilterValue)

variable {T : Type} (crypto : CursorCrypto T)

def filtersHash (filters : Filters) : String :=
  crypto.sha256 (jsonObject (filters.map fun filter => (filter.1, filter.2.json)))

structure PaginationCursor (T : Type) where
  action : String
  sort : String
  filters : Filters
  last : List (CursorValue T)

namespace PaginationCursor

/-- The payload `encode` encrypts. -/
def payload (cursor : PaginationCursor T) : CursorPayload T where
  aad := cursorAad
  action := cursor.action
  sort := cursor.sort
  filtersHash := filtersHash crypto cursor.filters
  last := cursor.last

def encode (vector : ℕ) (cursor : PaginationCursor T) : crypto.Token :=
  crypto.encrypt vector (cursor.payload crypto)

end PaginationCursor

/-- `_matches_cursor_type`, with one type or a tuple of them. -/
def CursorValue.matchesCursorType (value : CursorValue T) (expected : List CursorValueType) : Bool :=
  match value with
  | .int _ => expected.contains .int
  | .float _ => expected.contains .float
  | .str _ => expected.contains .str

def requireCursorTypes (last : List (CursorValue T)) (valueTypes : List (List CursorValueType)) :
    Except String Unit :=
  if last.length ≠ valueTypes.length then .error invalidCursor
  else if (last.zip valueTypes).all fun pair => pair.1.matchesCursorType pair.2 then .ok ()
  else .error invalidCursor

/-- `PaginationCursor.decode`, without a time to live. -/
def PaginationCursor.decode (token : Option crypto.Token) (action sort : String) (filters : Filters)
    (valueTypes : List (List CursorValueType)) : Except String (Option (PaginationCursor T)) :=
  match token with
  | none => .ok none
  | some token =>
    if crypto.length token > paginationCursorMaxLength then .error invalidCursor
    else
      match crypto.decrypt token with
      | none => .error invalidCursor
      | some data =>
        if data.aad ≠ cursorAad then .error invalidCursor
        else if data.action ≠ action ∨ data.sort ≠ sort then .error cursorMismatch
        else if data.filtersHash ≠ filtersHash crypto filters then .error cursorMismatch
        else do
          requireCursorTypes data.last valueTypes
          return some ⟨action, sort, filters, data.last⟩

/-! ### Responses -/

/-- An item with its internal `_cursor_key`, which `_strip_internal_pagination_fields` removes. -/
structure Fetched (K Item : Type) where
  item : Item
  cursorKey : K

/-- The response data of a paged request. -/
structure CursorResponse (Item Token : Type) extends Page Item Token where
  pageSize : ℕ

def makeCursorResponse {K Item : Type} (vector : ℕ) (items : List (Fetched K Item)) (pageSize : ℕ)
    (action sort : String) (filters : Filters) (cursorKey : Fetched K Item → List (CursorValue T)) :
    CursorResponse Item crypto.Token :=
  let hasMore := decide (items.length > pageSize)
  let pageItems := items.take pageSize
  let nextCursor :=
    if hasMore then
      pageItems.getLast?.map fun last =>
        PaginationCursor.encode crypto vector ⟨action, sort, filters, cursorKey last⟩
    else none
  { items := pageItems.map Fetched.item, pageSize, nextCursor, hasMore }

/-- A paged endpoint: what its cursors are bound to, how a key is written into a cursor and
unpacked again, and the query behind it. -/
structure PagedQuery (T K Item : Type) where
  action : String
  sort : String
  filters : Filters
  valueTypes : List (List CursorValueType)
  keyValues : K → List (CursorValue T)
  ofValues? : List (CursorValue T) → Option K
  fetch : Option K → ℕ → List (Fetched K Item)

namespace PagedQuery

variable {K Item : Type}

/-- The cursor that points behind an item. -/
def cursorOf (q : PagedQuery T K Item) (row : Fetched K Item) : PaginationCursor T :=
  ⟨q.action, q.sort, q.filters, q.keyValues row.cursorKey⟩

/-- The cursor response for `page_size + 1` fetched items. -/
def responseTo (q : PagedQuery T K Item) (pageSize vector : ℕ) (lastKey : Option K) :
    CursorResponse Item crypto.Token :=
  makeCursorResponse crypto vector (q.fetch lastKey (pageSize + 1)) pageSize q.action q.sort q.filters
    fun row => q.keyValues row.cursorKey

/-- The paged part of a handler: decode the cursor, fetch, respond.  Keys of the expected types
unpack, so the second error is never raised. -/
def respond (q : PagedQuery T K Item) (pageSize vector : ℕ) (cursor : Option crypto.Token) :
    Except String (CursorResponse Item crypto.Token) :=
  match PaginationCursor.decode crypto cursor q.action q.sort q.filters q.valueTypes with
  | .error message => .error message
  | .ok none => .ok (q.responseTo crypto pageSize vector none)
  | .ok (some decoded) =>
    match q.ofValues? decoded.last with
    | none => .error invalidCursor
    | some lastKey => .ok (q.responseTo crypto pageSize vector (some lastKey))

/-- A client's request for page `n`; an error response carries no page. -/
def request (q : PagedQuery T K Item) (pageSize : ℕ) (vectors : ℕ → ℕ) (n : ℕ)
    (cursor : Option crypto.Token) : Option (Page Item crypto.Token) :=
  (q.respond crypto pageSize (vectors n) cursor).toOption.map CursorResponse.toPage

def ListsUnlimited (q : PagedQuery T K Item) (all : List (Fetched K Item)) : Prop :=
  ∃ enough, ∀ limit, enough ≤ limit → q.fetch none limit = all

/-- Following the cursors from the first page on reads the list an unlimited query returns, which
has every matching item once, in the declared order. -/
def PagesComplete (q : PagedQuery T K Item) (pageSize : ℕ) (declared : K → K → Prop)
    (isMatch : Fetched K Item → Prop) : Prop :=
  ∀ vectors, ∃ pages all, Follows (q.request crypto pageSize vectors) 0 none pages ∧
    q.ListsUnlimited all ∧ pages.flatten = all.map Fetched.item ∧
    all.Pairwise (fun a b => declared a.cursorKey b.cursorKey) ∧ ∀ row, row ∈ all ↔ isMatch row

/-- The token behind an item is short enough to be sent back. -/
def CursorFits (q : PagedQuery T K Item) (row : Fetched K Item) : Prop :=
  fernetLength (((q.cursorOf row).payload crypto).canonicalJson crypto.reprFloat).length ≤
    paginationCursorMaxLength

/-- The tokens of the page boundaries are short enough: of the `k`-th page's last item, for every
`k` whose page is not the last one. -/
def BoundariesFit (q : PagedQuery T K Item) (pageSize : ℕ) (rows : List (Fetched K Item)) : Prop :=
  ∀ k row, 0 < k → k * pageSize < rows.length → rows[k * pageSize - 1]? = some row →
    q.CursorFits crypto row

/-! ### Long keys -/

theorem length_le_jsonJoin {part : List Char} {parts : List (List Char)} (h : part ∈ parts) :
    part.length ≤ (jsonJoin parts).length := by
  have hparts : part.length ≤ parts.flatten.length :=
    (sublist_flatten_of_mem h).length_le
  refine hparts.trans ?_
  clear h hparts
  induction parts with
  | nil => exact Nat.le_refl 0
  | cons first rest ih =>
    cases rest with
    | nil => simp [jsonJoin]
    | cons second rest =>
      have hjoin : jsonJoin (first :: second :: rest) = first ++ [','] ++ jsonJoin (second :: rest) := by
        simp [jsonJoin]
      rw [hjoin]
      simp only [flatten_cons, length_append] at ih ⊢
      omega

theorem length_le_jsonObject (key : String) {value : List Char} {fields : List (String × List Char)}
    (h : (key, value) ∈ fields) : value.length ≤ (jsonObject fields).length := by
  have hsort : (key, value) ∈ fields.insertionSort fun a b => a.1 ≤ b.1 :=
    (perm_insertionSort _ fields).mem_iff.mpr h
  have hpart := length_le_jsonJoin (mem_map_of_mem
    (f := fun field : String × List Char => jsonString field.1 ++ [':'] ++ field.2) hsort)
  simp only [jsonObject, length_append] at hpart ⊢
  omega

variable {row : Fetched K Item}

theorem not_cursorFits {crypto : CursorCrypto T} {q : PagedQuery T K Item}
    (value : CursorValue T) (hvalue : value ∈ q.keyValues row.cursorKey)
    (hlong : 1471 < (value.json crypto.reprFloat).length) : ¬ q.CursorFits crypto row := by
  have hlast : (['['] ++ jsonJoin ((q.keyValues row.cursorKey).map
      (CursorValue.json crypto.reprFloat)) ++ [']']).length ≤
        (((q.cursorOf row).payload crypto).canonicalJson crypto.reprFloat).length := by
    refine length_le_jsonObject "k" ?_
    simp [cursorOf, PaginationCursor.payload]
  have hjoin := length_le_jsonJoin (mem_map_of_mem (f := CursorValue.json crypto.reprFloat) hvalue)
  rw [CursorFits, paginationCursorMaxLength, fernetLength_le_iff]
  simp only [length_append] at hlast
  omega

/-! ### Complete pages -/

structure Lists (q : PagedQuery T K Item) (rows : List (Fetched K Item)) : Prop where
  unpacks : ∀ key, q.ofValues? (q.keyValues key) = some key
  typed : ∀ key, requireCursorTypes (q.keyValues key) q.valueTypes = .ok ()
  first : ∀ limit, q.fetch none limit = rows.take limit
  next : ∀ m last limit, 0 < m → rows[m - 1]? = some last →
    q.fetch (some last.cursorKey) limit = (rows.drop m).take limit

variable {crypto : CursorCrypto T} {q : PagedQuery T K Item} {rows : List (Fetched K Item)}

theorem decode_of_typed (htyped : ∀ key, requireCursorTypes (q.keyValues key) q.valueTypes = .ok ())
    (vector : ℕ) (hfits : q.CursorFits crypto row) :
    PaginationCursor.decode crypto (some ((q.cursorOf row).encode crypto vector)) q.action q.sort
      q.filters q.valueTypes = .ok (some (q.cursorOf row)) := by
  have hlen := crypto.length_encrypt vector ((q.cursorOf row).payload crypto)
  simp only [PaginationCursor.decode, PaginationCursor.encode, hlen, crypto.decrypt_encrypt]
  -- the payload was made for the same action, sort and filters
  rw [if_neg (not_lt.mpr hfits), if_neg (fun h => h rfl),
    if_neg (fun h => h.elim (fun h => h rfl) (fun h => h rfl)), if_neg (fun h => h rfl)]
  show (requireCursorTypes (q.keyValues row.cursorKey) q.valueTypes).bind _ = _
  rw [htyped]
  rfl

theorem decode_of_not_fits (vector : ℕ) (hlong : ¬ q.CursorFits crypto row) :
    PaginationCursor.decode crypto (some ((q.cursorOf row).encode crypto vector)) q.action q.sort
      q.filters q.valueTypes = .error invalidCursor := by
  have hlen := crypto.length_encrypt vector ((q.cursorOf row).payload crypto)
  simp only [PaginationCursor.decode, PaginationCursor.encode, hlen]
  rw [if_pos (not_le.mp hlong)]

/-- A cursor stands for a position: none for the first, a token for the position behind the row it
was made from. -/
def StandsFor (crypto : CursorCrypto T) (q : PagedQuery T K Item) (rows : List (Fetched K Item))
    (m : ℕ) (cursor : Option crypto.Token) : Prop :=
  (m = 0 ∧ cursor = none) ∨
    ∃ row vector, 0 < m ∧ rows[m - 1]? = some row ∧
      cursor = some ((q.cursorOf row).encode crypto vector)

/-- The cursor for a position is short enough. -/
def Accepted (crypto : CursorCrypto T) (q : PagedQuery T K Item) (rows : List (Fetched K Item))
    (m : ℕ) : Prop :=
  ∀ row, 0 < m → rows[m - 1]? = some row → q.CursorFits crypto row

variable {pageSize : ℕ}

theorem responseTo_spec {m : ℕ} (hsize : 0 < pageSize) (vector : ℕ) {lastKey : Option K}
    (hfetch : q.fetch lastKey (pageSize + 1) = (rows.drop m).take (pageSize + 1)) :
    (q.responseTo crypto pageSize vector lastKey).items =
        ((rows.map Fetched.item).drop m).take pageSize ∧
      (q.responseTo crypto pageSize vector lastKey).hasMore =
        decide (m + pageSize < (rows.map Fetched.item).length) ∧
      (m + pageSize < (rows.map Fetched.item).length → StandsFor crypto q rows (m + pageSize)
          (q.responseTo crypto pageSize vector lastKey).nextCursor) := by
  have hcut : (q.fetch lastKey (pageSize + 1)).take pageSize = (rows.drop m).take pageSize := by
    rw [hfetch, take_take, Nat.min_eq_left (Nat.le_succ pageSize)]
  have hmore : (q.responseTo crypto pageSize vector lastKey).hasMore =
      decide (m + pageSize < rows.length) := by
    show decide ((q.fetch lastKey (pageSize + 1)).length > pageSize) = _
    rw [hfetch, length_take, length_drop]
    exact decide_eq_decide.mpr (by omega)
  rw [length_map]
  refine ⟨?_, hmore, ?_⟩
  · show ((q.fetch lastKey (pageSize + 1)).take pageSize).map Fetched.item = _
    rw [hcut, map_take, map_drop]
  · intro hgo
    have hlast : ((rows.drop m).take pageSize).getLast? = rows[m + pageSize - 1]? := by
      rw [getLast?_eq_getElem?, length_take, length_drop, getElem?_take,
        if_pos (by omega), getElem?_drop]
      congr 1
      omega
    have hnext : (q.responseTo crypto pageSize vector lastKey).nextCursor =
        rows[m + pageSize - 1]?.map fun last => (q.cursorOf last).encode crypto vector := by
      show (if (q.responseTo crypto pageSize vector lastKey).hasMore then
        ((q.fetch lastKey (pageSize + 1)).take pageSize).getLast?.map _ else none) = _
      rw [hmore, if_pos (by simpa using hgo), hcut, hlast]
      rfl
    have hrow := getElem?_eq_getElem (l := rows) (i := m + pageSize - 1) (by omega)
    refine Or.inr ⟨_, vector, by omega, hrow, ?_⟩
    rw [hnext, hrow]
    rfl

theorem serves (hlists : q.Lists rows) (hsize : 0 < pageSize) (vectors : ℕ → ℕ) :
    Serves (q.request crypto pageSize vectors) (rows.map Fetched.item) pageSize
      (StandsFor crypto q rows) (Accepted crypto q rows) where
  answered := by
    rintro n m cursor (⟨rfl, rfl⟩ | ⟨row, vector, hm, hrow, rfl⟩) hacc
    · exact ⟨_, rfl, responseTo_spec hsize (vectors n) (hlists.first (pageSize + 1))⟩
    have hresponse : q.respond crypto pageSize (vectors n)
          (some ((q.cursorOf row).encode crypto vector)) =
        .ok (q.responseTo crypto pageSize (vectors n) (some row.cursorKey)) := by
      unfold respond
      rw [decode_of_typed hlists.typed vector (hacc row hm hrow)]
      show (match q.ofValues? (q.keyValues row.cursorKey) with
        | none => _
        | some lastKey => _) = _
      rw [hlists.unpacks]
    refine ⟨_, by rw [request, hresponse]; rfl, ?_⟩
    exact responseTo_spec hsize (vectors n) (hlists.next m row (pageSize + 1) hm hrow)
  refused := by
    rintro n m cursor (⟨rfl, rfl⟩ | ⟨row, vector, hm, hrow, rfl⟩) href
    · exact absurd (fun _ hpos _ => absurd hpos (lt_irrefl 0)) href
    have hlong : ¬ q.CursorFits crypto row := by
      intro hfits
      refine href fun row' _ hrow' => ?_
      obtain rfl : row = row' := Option.some.inj (hrow.symm.trans hrow')
      exact hfits
    unfold request respond
    rw [decode_of_not_fits vector hlong]
    rfl

/-- **The pages are complete exactly when the tokens of all page boundaries fit.** -/
theorem pagesComplete_iff (hlists : q.Lists rows) (hsize : 0 < pageSize)
    {declared : K → K → Prop} {isMatch : Fetched K Item → Prop}
    (hdecl : rows.Pairwise fun a b => declared a.cursorKey b.cursorKey)
    (hmatch : ∀ row, row ∈ rows ↔ isMatch row) :
    q.PagesComplete crypto pageSize declared isMatch ↔ q.BoundariesFit crypto pageSize rows := by
  have hunlimited : q.ListsUnlimited rows := by
    refine ⟨rows.length, fun limit hlimit => ?_⟩
    rw [hlists.first, take_of_length_le hlimit]
  have hboundaries : (∀ k, 0 < k → k * pageSize < (rows.map Fetched.item).length →
      Accepted crypto q rows (k * pageSize)) ↔ q.BoundariesFit crypto pageSize rows := by
    rw [length_map]
    constructor
    · intro h k row hk hlt hrow
      exact h k hk hlt row (Nat.mul_pos hk hsize) hrow
    · intro h k hk hlt row _ hrow
      exact h k row hk hlt hrow
  have hfollows (vectors : ℕ → ℕ) :
      (∃ pages, Follows (q.request crypto pageSize vectors) 0 none pages ∧
        pages.flatten = rows.map Fetched.item) ↔
      ∀ k, 0 < k → k * pageSize < (rows.map Fetched.item).length →
        Accepted crypto q rows (k * pageSize) :=
    (serves hlists hsize vectors).follows_iff hsize 0 (Or.inl ⟨rfl, rfl⟩)
      (fun _ hpos _ => absurd hpos (lt_irrefl 0))
  constructor
  · intro hcompl
    obtain ⟨pages, all, hpages, ⟨enough, hall⟩, hflatten, -⟩ := hcompl fun _ => 0
    have hrows : all = rows := by
      obtain ⟨enough', hrows⟩ := hunlimited
      rw [← hall (max enough enough') (Nat.le_max_left _ _), hrows _ (Nat.le_max_right _ _)]
    rw [← hboundaries]
    exact (hfollows fun _ => 0).mp ⟨pages, hpages, by rw [hflatten, hrows]⟩
  · intro hfits vectors
    obtain ⟨pages, hpages, hflatten⟩ := (hfollows vectors).mpr (hboundaries.mpr hfits)
    exact ⟨pages, rows, hpages, hunlimited, hflatten, hdecl, hmatch⟩

end PagedQuery

end Cfms.Documents
