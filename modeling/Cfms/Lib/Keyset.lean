import Mathlib.Data.List.Sort

/-!
# Keyset pagination

A keyset page is cut out of an ordered query by a key instead of an offset: the query keeps the
rows whose key is greater than the last key seen, orders them and takes a limited number.  With
distinct keys the rows past the `m`-th key are the ordered rows without the first `m`
(`orderBy_after`), so a page answers from a position of one fixed list.

`Follows` is a client that requests page after page until one says that there is no more.  A
server `Serves` a list when every cursor it issued stands for a position of the list, and a
cursor is answered exactly where it is accepted.  Then following the cursors reads the whole list
exactly when every page boundary is accepted (`Serves.follows_iff`).
-/

namespace Cfms.Lib.Keyset

open List

/-! ### Ordered rows -/

section

variable {α κ : Type*} [LinearOrder κ]

/-- `ORDER BY key`. -/
def orderBy (key : α → κ) (rows : List α) : List α :=
  rows.insertionSort fun a b => key a ≤ key b

/-- `WHERE key > last`, or no condition without a last key. -/
def after (key : α → κ) (last : Option κ) (rows : List α) : List α :=
  rows.filter fun row => last.all fun k => decide (k < key row)

variable {key : α → κ}

theorem after_some (k : κ) (rows : List α) :
    after key (some k) rows = rows.filter fun row => decide (k < key row) := rfl

theorem orderBy_perm (rows : List α) : (orderBy key rows).Perm rows :=
  perm_insertionSort _ rows

variable {rows : List α}

theorem mem_orderBy {row : α} : row ∈ orderBy key rows ↔ row ∈ rows :=
  (orderBy_perm rows).mem_iff

theorem pairwise_orderBy_le (rows : List α) :
    (orderBy key rows).Pairwise fun a b => key a ≤ key b := by
  have : Std.Total fun a b : α => key a ≤ key b := ⟨fun a b => le_total (key a) (key b)⟩
  have : IsTrans α fun a b : α => key a ≤ key b := ⟨fun _ _ _ hab hbc => le_trans hab hbc⟩
  exact pairwise_insertionSort _ rows

theorem pairwise_orderBy_lt (hkeys : (rows.map key).Nodup) :
    (orderBy key rows).Pairwise fun a b => key a < key b := by
  have hnodup : ((orderBy key rows).map key).Nodup :=
    ((orderBy_perm rows).map key).nodup_iff.mpr hkeys
  have hne : (orderBy key rows).Pairwise fun a b => key a ≠ key b := pairwise_map.mp hnodup
  exact ((pairwise_orderBy_le rows).and hne).imp fun h => lt_of_le_of_ne h.1 h.2

theorem orderBy_filter (hkeys : (rows.map key).Nodup) (p : α → Bool) :
    orderBy key (rows.filter p) = (orderBy key rows).filter p := by
  refine List.Perm.eq_of_pairwise ?_ (pairwise_orderBy_le _)
    ((pairwise_orderBy_le rows).filter p) ?_
  · intro a b ha hb hab hba
    have ha' : a ∈ rows := (mem_filter.mp (mem_orderBy.mp ha)).1
    have hb' : b ∈ rows := mem_orderBy.mp (mem_filter.mp hb).1
    exact inj_on_of_nodup_map hkeys ha' hb' (le_antisymm hab hba)
  · exact (orderBy_perm _).trans ((orderBy_perm rows).symm.filter p)

variable {m : ℕ} {last : α}

/-- In strictly ordered rows, the rows past the key of the `m`-th are those without the first
`m`. -/
theorem after_eq_drop (hrows : rows.Pairwise fun a b => key a < key b) (hm : 0 < m)
    (hlast : rows[m - 1]? = some last) :
    after key (some (key last)) rows = rows.drop m := by
  obtain ⟨hlt, rfl⟩ := List.getElem?_eq_some_iff.mp hlast
  rw [after_some]
  have hbef : ∀ row ∈ rows.take m, ¬ key rows[m - 1] < key row := by
    intro row hrow
    obtain ⟨i, hi, rfl⟩ := List.getElem_of_mem hrow
    rw [List.length_take] at hi
    rw [List.getElem_take, not_lt]
    rcases Nat.lt_or_ge i (m - 1) with hi' | hi'
    · exact (List.pairwise_iff_getElem.mp hrows i (m - 1) (by omega) hlt hi').le
    have hi'' : i = m - 1 := by omega
    subst hi''
    exact le_rfl
  have hafter : ∀ row ∈ rows.drop m, key rows[m - 1] < key row := by
    intro row hrow
    obtain ⟨i, hi, rfl⟩ := List.getElem_of_mem hrow
    rw [List.length_drop] at hi
    rw [List.getElem_drop]
    exact List.pairwise_iff_getElem.mp hrows (m - 1) (m + i) hlt (by omega) (by omega)
  calc rows.filter (fun row => decide (key rows[m - 1] < key row))
      = (rows.take m ++ rows.drop m).filter fun row => decide (key rows[m - 1] < key row) := by
        rw [List.take_append_drop]
    _ = [] ++ rows.drop m := by
        rw [List.filter_append]
        congr 1
        · exact List.filter_eq_nil_iff.mpr (by simpa using hbef)
        · exact List.filter_eq_self.mpr (by simpa using hafter)
    _ = rows.drop m := List.nil_append _

/-- **A keyset query continues the ordered query.** -/
theorem orderBy_after (hkeys : (rows.map key).Nodup)
    (hm : 0 < m) (hlast : (orderBy key rows)[m - 1]? = some last) :
    orderBy key (after key (some (key last)) rows) = (orderBy key rows).drop m := by
  rw [after, orderBy_filter hkeys]
  exact after_eq_drop (pairwise_orderBy_lt hkeys) hm hlast

theorem take_then_take (first second : List α) (limit : ℕ) :
    first.take limit ++ second.take (limit - (first.take limit).length)
      = (first ++ second).take limit := by
  rw [take_append, length_take]
  rcases Nat.le_total limit first.length with h | h
  all_goals
    rw [show limit - min limit first.length = limit - first.length by omega]

end

/-! ### Following the cursors -/

section

variable {β τ : Type*}

/-- The response to a page request. -/
structure Page (β τ : Type*) where
  items : List β
  hasMore : Bool
  nextCursor : Option τ

/-- The pages a client collects that requests page `n` with a cursor and goes on until a page
says that there are no more.  The `n`-th request may be answered differently from the others. -/
inductive Follows (request : ℕ → Option τ → Option (Page β τ)) :
    ℕ → Option τ → List (List β) → Prop
  | last {n : ℕ} {cursor : Option τ} {page : Page β τ} :
      request n cursor = some page → page.hasMore = false → Follows request n cursor [page.items]
  | more {n : ℕ} {cursor : Option τ} {page : Page β τ} {rest : List (List β)} :
      request n cursor = some page → page.hasMore = true →
      Follows request (n + 1) page.nextCursor rest → Follows request n cursor (page.items :: rest)

/-- The requests are answered from positions of one list: `stands m cursor` says that a cursor
stands for position `m`, and such a cursor is answered exactly when the position is accepted. -/
structure Serves (request : ℕ → Option τ → Option (Page β τ)) (rows : List β) (size : ℕ)
    (stands : ℕ → Option τ → Prop) (accepted : ℕ → Prop) : Prop where
  answered : ∀ n m cursor, stands m cursor → accepted m →
    ∃ page, request n cursor = some page ∧ page.items = (rows.drop m).take size ∧
      page.hasMore = decide (m + size < rows.length) ∧
      (m + size < rows.length → stands (m + size) page.nextCursor)
  refused : ∀ n m cursor, stands m cursor → ¬ accepted m → request n cursor = none

namespace Serves

variable {request : ℕ → Option τ → Option (Page β τ)} {rows : List β} {size : ℕ}
  {stands : ℕ → Option τ → Prop} {accepted : ℕ → Prop}

variable {n : ℕ} {cursor : Option τ}

variable (h : Serves request rows size stands accepted)

include h

theorem accepted_of_eq_some {m : ℕ} {page : Page β τ}
    (hstands : stands m cursor)
    (hpage : request n cursor = some page) : accepted m := by
  by_contra hnot
  rw [h.refused n m cursor hstands hnot] at hpage
  cases hpage

/-- Pages that were all answered are the rows from the first cursor's position on, and every
position a page began at was accepted. -/
theorem follows_sound
    {pages : List (List β)} (hpages : Follows request n cursor pages) :
    ∀ m, stands m cursor → pages.flatten = rows.drop m ∧
      ∀ k, (k = 0 ∨ m + k * size < rows.length) → accepted (m + k * size) := by
  induction hpages with
  | @last n cursor page hpage hmore =>
    intro m hstands
    have hacc := h.accepted_of_eq_some hstands hpage
    obtain ⟨page', hpage', hitems, hmore', -⟩ := h.answered n m cursor hstands hacc
    obtain rfl : page = page' := Option.some.inj (hpage.symm.trans hpage')
    have hend : rows.length ≤ m + size := by simpa [hmore] using hmore'.symm
    refine ⟨?_, ?_⟩
    · rw [flatten_singleton, hitems, take_of_length_le]
      rw [length_drop]
      omega
    · rintro k (rfl | hk)
      · simpa using hacc
      · rcases Nat.eq_zero_or_pos k with rfl | hpos
        · simpa using hacc
        · have hle : size ≤ k * size := Nat.le_mul_of_pos_left size hpos
          omega
  | @more n cursor page rest hpage hmore _ ih =>
    intro m hstands
    have hacc := h.accepted_of_eq_some hstands hpage
    obtain ⟨page', hpage', hitems, hmore', hnext⟩ := h.answered n m cursor hstands hacc
    obtain rfl : page = page' := Option.some.inj (hpage.symm.trans hpage')
    have hgo : m + size < rows.length := by simpa [hmore] using hmore'.symm
    obtain ⟨hrest, hall⟩ := ih (m + size) (hnext hgo)
    refine ⟨?_, ?_⟩
    · rw [flatten_cons, hitems, hrest, ← drop_drop, take_append_drop]
    rintro (_ | k) hk
    · simpa using hacc
    have hshift : m + (k + 1) * size = m + size + k * size := by rw [Nat.succ_mul]; omega
    rw [hshift] at hk ⊢
    refine hall k (Or.inr ?_)
    rcases hk with hk | hk
    · exact absurd hk (Nat.succ_ne_zero k)
    · exact hk

theorem exists_follows (hsize : 0 < size) :
    ∀ (remaining n m : ℕ) (cursor : Option τ), rows.length - m ≤ remaining → stands m cursor →
      (∀ k, (k = 0 ∨ m + k * size < rows.length) → accepted (m + k * size)) →
      ∃ pages, Follows request n cursor pages := by
  intro remaining
  induction remaining with
  | zero =>
    intro n m cursor hrem hstands hacc
    obtain ⟨page, hpage, -, hmore, -⟩ :=
      h.answered n m cursor hstands (by simpa using hacc 0 (Or.inl rfl))
    refine ⟨[page.items], Follows.last hpage ?_⟩
    rw [hmore, decide_eq_false_iff_not]
    omega
  | succ remaining ih =>
    intro n m cursor hrem hstands hacc
    obtain ⟨page, hpage, -, hmore, hnext⟩ :=
      h.answered n m cursor hstands (by simpa using hacc 0 (Or.inl rfl))
    by_cases hgo : m + size < rows.length
    · have hlater : ∀ k, (k = 0 ∨ m + size + k * size < rows.length) →
          accepted (m + size + k * size) := by
        intro k hk
        have hshift : m + (k + 1) * size = m + size + k * size := by rw [Nat.succ_mul]; omega
        rw [← hshift] at hk ⊢
        refine hacc (k + 1) (Or.inr ?_)
        rcases hk with rfl | hk
        · simpa using hgo
        · exact hk
      obtain ⟨rest, hrest⟩ := ih (n + 1) (m + size) page.nextCursor (by omega) (hnext hgo) hlater
      exact ⟨page.items :: rest, Follows.more hpage (by rw [hmore]; exact decide_eq_true hgo) hrest⟩
    · refine ⟨[page.items], Follows.last hpage ?_⟩
      rw [hmore, decide_eq_false_iff_not]
      exact hgo

/-- **Following the cursors reads the whole list exactly when every page boundary is accepted.** -/
theorem follows_iff (hsize : 0 < size) (n : ℕ)
    (hstart : stands 0 none) (hzero : accepted 0) :
    (∃ pages, Follows request n none pages ∧ pages.flatten = rows) ↔
      ∀ k, 0 < k → k * size < rows.length → accepted (k * size) := by
  constructor
  · rintro ⟨pages, hpages, -⟩ k - hk
    simpa using (h.follows_sound hpages 0 hstart).2 k (Or.inr (by simpa using hk))
  · intro hall
    have hacc : ∀ k, (k = 0 ∨ 0 + k * size < rows.length) → accepted (0 + k * size) := by
      intro k hk
      rw [Nat.zero_add] at hk ⊢
      rcases Nat.eq_zero_or_pos k with rfl | hpos
      · simpa using hzero
      · exact hall k hpos (hk.resolve_left (by omega))
    obtain ⟨pages, hpages⟩ := h.exists_follows hsize rows.length n 0 none (by omega) hstart hacc
    exact ⟨pages, hpages, by simpa using (h.follows_sound hpages 0 hstart).1⟩

end Serves

end

end Cfms.Lib.Keyset
