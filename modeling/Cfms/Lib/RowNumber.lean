import Cfms.Lib.OrderedDict
import Mathlib.Data.List.Dedup
import Mathlib.Data.List.MinMax

/-!
# The first row of every partition

`ROW_NUMBER() OVER (PARTITION BY key ORDER BY rank)` numbers the rows of each partition, and a query
that keeps the rows numbered 1 has one row for each key.  Rows of equal rank come in an order of the
engine's choice; where the rank tells the rows of a partition apart, the choice plays no part, and
`mem_firstRows` says which rows are kept.
-/

namespace Cfms.Lib.RowNumber

open List

/-- The order in which an engine meets the rows of a query without `ORDER BY`. -/
structure RowOrder where
  arrange : {α : Type} → List α → List α
  perm : ∀ {α : Type} (rows : List α), (arrange rows).Perm rows

def RowOrder.written : RowOrder := ⟨id, fun _ => List.Perm.refl _⟩

variable {α β κ : Type} [LinearOrder β] [DecidableEq κ]

/-- The rows with `ROW_NUMBER() OVER (PARTITION BY key ORDER BY rank) = 1`. -/
def firstRows (order : RowOrder) (key : α → κ) (rank : α → β) (rows : List α) : List α :=
  (rows.map key).dedup.filterMap fun k =>
    (order.arrange (rows.filter fun row => key row = k)).argmin rank

section

omit [DecidableEq κ]

variable {rank : α → β} {rows : List α} {row : α}

theorem argmin_eq_some_iff_of_injective (hinj : ∀ a ∈ rows, ∀ b ∈ rows, rank a = rank b → a = b) :
    rows.argmin rank = some row ↔ row ∈ rows ∧ ∀ other ∈ rows, rank row ≤ rank other := by
  constructor
  · intro h
    exact ⟨argmin_mem h, fun other hother => le_of_mem_argmin hother h⟩
  · rintro ⟨hmem, hleast⟩
    cases hfirst : rows.argmin rank with
    | none =>
      rw [argmin_eq_none.mp hfirst] at hmem
      cases hmem
    | some first =>
      have hle : rank first ≤ rank row := le_of_mem_argmin hmem hfirst
      rw [hinj first (argmin_mem hfirst) row hmem
        (le_antisymm hle (hleast first (argmin_mem hfirst)))]

end

variable {order : RowOrder} {key : α → κ} {rank : α → β} {rows : List α} {row : α} {k : κ}

theorem mem_arrange_filter :
    row ∈ order.arrange (rows.filter fun row => key row = k) ↔ row ∈ rows ∧ key row = k := by
  rw [(order.perm _).mem_iff, mem_filter, decide_eq_true_eq]

theorem key_of_argmin
    (h : (order.arrange (rows.filter fun row => key row = k)).argmin rank = some row) :
    key row = k :=
  (mem_arrange_filter.mp (argmin_mem h)).2

def RanksApart (key : α → κ) (rank : α → β) (rows : List α) : Prop :=
  ∀ a ∈ rows, ∀ b ∈ rows, key a = key b → rank a = rank b → a = b

theorem mem_firstRows (hapart : RanksApart key rank rows) : row ∈ firstRows order key rank rows ↔
      row ∈ rows ∧ ∀ other ∈ rows, key other = key row → rank row ≤ rank other := by
  have hpartition : ∀ k, (order.arrange (rows.filter fun row => key row = k)).argmin rank =
      some row ↔ (row ∈ rows ∧ key row = k) ∧
        ∀ other ∈ rows, key other = k → rank row ≤ rank other := by
    intro k
    rw [argmin_eq_some_iff_of_injective]
    · simp only [mem_arrange_filter, and_imp]
    intro a ha b hb
    rw [mem_arrange_filter] at ha hb
    exact hapart a ha.1 b hb.1 (ha.2.trans hb.2.symm)
  rw [firstRows, mem_filterMap]
  constructor
  · rintro ⟨k, -, hrow⟩
    obtain ⟨⟨hmem, rfl⟩, hleast⟩ := (hpartition k).mp hrow
    exact ⟨hmem, hleast⟩
  · rintro ⟨hmem, hleast⟩
    exact ⟨key row, mem_dedup.mpr (mem_map_of_mem hmem), (hpartition _).mpr ⟨⟨hmem, rfl⟩, hleast⟩⟩

theorem firstRows_nodup : ((firstRows order key rank rows).map key).Nodup := by
  have hkeys : ∀ keys : List κ, ((keys.filterMap fun k =>
      (order.arrange (rows.filter fun row => key row = k)).argmin rank).map key).Sublist keys := by
    intro keys
    induction keys with
    | nil => exact List.Sublist.refl _
    | cons k keys ih =>
      rw [filterMap_cons]
      cases hfirst : (order.arrange (rows.filter fun row => key row = k)).argmin rank with
      | none => exact ih.cons k
      | some first =>
        show (key first :: _).Sublist (k :: keys)
        rw [key_of_argmin hfirst]
        exact ih.cons_cons k
  exact (nodup_dedup _).sublist (hkeys _)

theorem exists_firstRow (h : row ∈ rows) :
    ∃ first ∈ firstRows order key rank rows, key first = key row := by
  cases hfirst : (order.arrange (rows.filter fun other => key other = key row)).argmin rank with
  | none =>
    have hmem : row ∈ order.arrange (rows.filter fun other => key other = key row) :=
      mem_arrange_filter.mpr ⟨h, rfl⟩
    rw [argmin_eq_none.mp hfirst] at hmem
    cases hmem
  | some first =>
    exact ⟨first, mem_filterMap.mpr ⟨key row,
      mem_dedup.mpr (mem_map_of_mem h), hfirst⟩, key_of_argmin hfirst⟩

omit [LinearOrder β] in
theorem filter_key_eq_singleton (hnodup : (rows.map key).Nodup) (h : row ∈ rows) :
    (rows.filter fun other => key row == key other) = [row] := by
  induction rows with
  | nil => cases h
  | cons first rows ih =>
    rw [map_cons, nodup_cons] at hnodup
    by_cases hkey : key row = key first
    · have hfirst : row = first := by
        refine (mem_cons.mp h).resolve_right fun hrest => hnodup.1 ?_
        exact hkey ▸ mem_map_of_mem hrest
      subst hfirst
      rw [filter_cons_of_pos (by rw [beq_self_eq_true]), filter_eq_nil_iff.mpr]
      intro other hother hsame
      exact hnodup.1 (beq_iff_eq.mp hsame ▸ mem_map_of_mem hother)
    · have hrest : row ∈ rows := (mem_cons.mp h).resolve_left fun hfirst =>
        hkey (congrArg key hfirst)
      rw [filter_cons_of_neg (by rwa [beq_iff_eq]), ih hnodup.2 hrest]

/-! ### Rows with different keys in a dictionary -/

section

omit [LinearOrder β]

variable {ν : Type} {value : α → ν}

/-- `for row in rows: dict[key(row)] = value(row)`. -/
def assignRows (key : α → κ) (value : α → ν) (dict : OrderedDict κ ν) (rows : List α) :
    OrderedDict κ ν :=
  rows.foldl (fun dict row => dict.assign (key row) (value row)) dict

variable {dict : OrderedDict κ ν} {k : κ}

theorem lookup_assignRows_of_notMem (h : ∀ row ∈ rows, key row ≠ k) :
    (assignRows key value dict rows).lookup k = dict.lookup k := by
  induction rows generalizing dict with
  | nil => rfl
  | cons row rows ih =>
    show (assignRows key value (dict.assign (key row) (value row)) rows).lookup k = _
    rw [ih fun other hother => h other (mem_cons_of_mem _ hother), OrderedDict.lookup_assign,
      if_neg fun hk => h row mem_cons_self hk.symm]

theorem lookup_assignRows_of_mem {v : ν}
    (hsame : ∀ row ∈ rows, key row = k → value row = v) (h : ∃ row ∈ rows, key row = k) :
    (assignRows key value dict rows).lookup k = some v := by
  induction rows generalizing dict with
  | nil =>
    obtain ⟨row, hrow, -⟩ := h
    cases hrow
  | cons first rows ih =>
    show (assignRows key value (dict.assign (key first) (value first)) rows).lookup k = _
    by_cases hlater : ∃ row ∈ rows, key row = k
    · exact ih (fun row hrow => hsame row (mem_cons_of_mem _ hrow)) hlater
    obtain ⟨row, hrow, hkey⟩ := h
    have hfirst : row = first := by
      refine (mem_cons.mp hrow).resolve_right fun hrest => hlater ⟨row, hrest, hkey⟩
    subst hfirst
    push Not at hlater
    rw [lookup_assignRows_of_notMem hlater, OrderedDict.lookup_assign, if_pos hkey.symm,
      hsame row mem_cons_self hkey]

end

end Cfms.Lib.RowNumber
