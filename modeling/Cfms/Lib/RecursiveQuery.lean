import Mathlib.Data.List.FinRange
import Mathlib.Data.List.Perm.Subperm

/-!
# Recursive queries with one recursive reference

A query `WITH RECURSIVE t AS (anchor UNION step(t))` whose step joins one row of `t` at a time
is given by a list of anchor rows and a function `next` from a row to the rows it yields.  The
engine works round by round: round `0` is the anchor, round `k + 1` joins the rows of round `k`.

`recursiveRows` collects a bounded number of rounds, so it is executable; `Derivable` is the
least relation closed under the query.  When all derivable rows lie in a finite list, as many
rounds as that list has rows already contain every derivable row, cycles in the data or not
(`mem_recursiveRows_iff`).  Multiplicities play no part: `UNION` and `UNION ALL` have the same
members.
-/

namespace Cfms.Lib.RecursiveQuery

variable {α : Type*}

/-- The rows of round `k`. -/
def rounds (next : α → List α) (anchor : List α) : ℕ → List α
  | 0 => anchor
  | k + 1 => (rounds next anchor k).flatMap next

/-- The rows of the first `bound + 1` rounds. -/
def recursiveRows (next : α → List α) (anchor : List α) (bound : ℕ) : List α :=
  (List.range (bound + 1)).flatMap (rounds next anchor)

/-- The rows the query derives. -/
inductive Derivable (next : α → List α) (anchor : List α) : α → Prop
  | anchor {x : α} : x ∈ anchor → Derivable next anchor x
  | next {x y : α} : Derivable next anchor x → y ∈ next x → Derivable next anchor y

variable {next : α → List α} {anchor : List α}

theorem mem_rounds_succ {k : ℕ} {y : α} :
    y ∈ rounds next anchor (k + 1) ↔ ∃ x ∈ rounds next anchor k, y ∈ next x := by
  simp only [rounds, List.mem_flatMap]

variable {x : α}

theorem mem_recursiveRows {bound : ℕ} :
    x ∈ recursiveRows next anchor bound ↔ ∃ k ≤ bound, x ∈ rounds next anchor k := by
  simp only [recursiveRows, List.mem_flatMap, List.mem_range, Nat.lt_succ_iff]

theorem derivable_iff_mem_rounds : Derivable next anchor x ↔ ∃ k, x ∈ rounds next anchor k := by
  constructor
  · intro h
    induction h with
    | anchor hx => exact ⟨0, hx⟩
    | next _ hy ih =>
      obtain ⟨k, hk⟩ := ih
      exact ⟨k + 1, mem_rounds_succ.mpr ⟨_, hk, hy⟩⟩
  · rintro ⟨k, hk⟩
    induction k generalizing x with
    | zero => exact Derivable.anchor hk
    | succ k ih =>
      obtain ⟨w, hw, hx⟩ := mem_rounds_succ.mp hk
      exact Derivable.next (ih hw) hx

theorem exists_first_round {k : ℕ}
    (hx : x ∈ rounds next anchor k) (hmin : ∀ j < k, x ∉ rounds next anchor j) :
    ∀ i ≤ k, ∃ y, y ∈ rounds next anchor i ∧ ∀ j < i, y ∉ rounds next anchor j := by
  induction k generalizing x with
  | zero =>
    intro i hi
    obtain rfl : i = 0 := Nat.le_zero.mp hi
    exact ⟨x, hx, hmin⟩
  | succ k ih =>
    obtain ⟨w, hw, hwx⟩ := mem_rounds_succ.mp hx
    -- the row `x` was joined from cannot have appeared earlier, or `x` would have too
    have hwmin : ∀ j < k, w ∉ rounds next anchor j := by
      intro j hj hwj
      exact hmin (j + 1) (by omega) (mem_rounds_succ.mpr ⟨w, hwj, hwx⟩)
    intro i hi
    rcases Nat.lt_or_ge k i with hlt | hge
    · obtain rfl : i = k + 1 := by omega
      exact ⟨x, hx, hmin⟩
    · exact ih hw hwmin i hge

theorem exists_round_lt {rows : List α}
    (hrows : ∀ x, Derivable next anchor x → x ∈ rows) (hx : Derivable next anchor x) :
    ∃ k < rows.length, x ∈ rounds next anchor k := by
  classical
  have hex := derivable_iff_mem_rounds.mp hx
  have hspec := Nat.find_spec hex
  have hmin : ∀ j < Nat.find hex, x ∉ rounds next anchor j := fun j hj => Nat.find_min hex hj
  refine ⟨Nat.find hex, ?_, hspec⟩
  choose pick hpick using exists_first_round hspec hmin
  let row : Fin (Nat.find hex + 1) → α := fun i => pick i (Nat.lt_succ_iff.mp i.isLt)
  -- rows first seen in different rounds are different, so there are as many as rounds
  have hinj : Function.Injective row := by
    intro i j hij
    have hi := hpick i (Nat.lt_succ_iff.mp i.isLt)
    have hj := hpick j (Nat.lt_succ_iff.mp j.isLt)
    rw [show pick i (Nat.lt_succ_iff.mp i.isLt) = pick j (Nat.lt_succ_iff.mp j.isLt) from hij] at hi
    apply Fin.ext
    by_contra hne
    rcases Nat.lt_or_gt_of_ne hne with hlt | hgt
    · exact hj.2 i hlt hi.1
    · exact hi.2 j hgt hj.1
  have hsub : (List.finRange (Nat.find hex + 1)).map row ⊆ rows := by
    intro y hy
    obtain ⟨i, _, rfl⟩ := List.mem_map.mp hy
    exact hrows _ (derivable_iff_mem_rounds.mpr ⟨i, (hpick i (Nat.lt_succ_iff.mp i.isLt)).1⟩)
  have hlen := (List.Nodup.subperm ((List.nodup_finRange _).map hinj) hsub).length_le
  rw [List.length_map, List.length_finRange] at hlen
  exact hlen

/-- **Bounded evaluation is complete.** -/
theorem mem_recursiveRows_iff {rows : List α} {bound : ℕ}
    (hrows : ∀ x, Derivable next anchor x → x ∈ rows) (hbound : rows.length ≤ bound + 1) :
    x ∈ recursiveRows next anchor bound ↔ Derivable next anchor x := by
  rw [mem_recursiveRows]
  constructor
  · rintro ⟨k, _, hk⟩
    exact derivable_iff_mem_rounds.mpr ⟨k, hk⟩
  · intro hx
    obtain ⟨k, hlt, hk⟩ := exists_round_lt hrows hx
    exact ⟨k, by omega, hk⟩

/-! ### Queries that agree on what they reach -/

theorem rounds_congr {next' : α → List α} {P : α → Prop} (hanch : ∀ x ∈ anchor, P x)
    (hstep : ∀ x, P x → ∀ y ∈ next x, P y) (hnext : ∀ x, P x → next' x = next x) (k : ℕ) :
    rounds next' anchor k = rounds next anchor k ∧ ∀ x ∈ rounds next anchor k, P x := by
  induction k with
  | zero => exact ⟨rfl, hanch⟩
  | succ k ih =>
    obtain ⟨hsame, hall⟩ := ih
    constructor
    · rw [rounds, hsame]
      exact List.flatMap_congr fun x hx => hnext x (hall x hx)
    · intro y hy
      obtain ⟨x, hx, hxy⟩ := mem_rounds_succ.mp hy
      exact hstep x (hall x hx) y hxy

theorem recursiveRows_congr {next' : α → List α} {P : α → Prop} (hanch : ∀ x ∈ anchor, P x)
    (hstep : ∀ x, P x → ∀ y ∈ next x, P y) (hnext : ∀ x, P x → next' x = next x) (bound : ℕ) :
    recursiveRows next' anchor bound = recursiveRows next anchor bound ∧
      ∀ x ∈ recursiveRows next anchor bound, P x := by
  have hround := rounds_congr hanch hstep hnext
  constructor
  · exact List.flatMap_congr fun k _ => (hround k).1
  intro x hx
  obtain ⟨k, -, hk⟩ := mem_recursiveRows.mp hx
  exact (hround k).2 x hk

end Cfms.Lib.RecursiveQuery
