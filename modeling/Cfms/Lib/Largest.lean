import Mathlib.Data.List.MinMax

/-!
# The first element with the largest f

`max(rows, key=...)` and `ORDER BY key DESC LIMIT 1`: among the elements whose key is largest, the
first one of the list.
-/

namespace Cfms.Lib

variable {α β : Type*} [LinearOrder β] {f : α → β} {l : List α} {a b : α}

/-- The first element with the largest f. -/
def largest (f : α → β) (l : List α) : Option α :=
  l.argmax f

theorem largest_mem (h : largest f l = some a) : a ∈ l :=
  List.argmax_mem h

theorem largest_eq_none : largest f l = none ↔ l = [] :=
  List.argmax_eq_none

theorem le_of_largest (hmem : b ∈ l) (h : largest f l = some a) : f b ≤ f a :=
  List.le_of_mem_argmax hmem h

theorem largest_cons : largest f (a :: l) = match largest f l with
    | none => some a
    | some c => if f a < f c then some c else some a := by
  rw [largest, List.argmax_cons]
  cases h : l.argmax f <;> simp only [largest, h]

theorem largest_filter {keep : α → Bool} (ha : largest f l = some a) (hkeep : keep a = true) :
    largest f (l.filter keep) = some a := by
  induction l generalizing a with
  | nil => cases ha
  | cons b l ih =>
    rw [largest_cons] at ha
    cases hl : largest f l with
    | none =>
      rw [hl] at ha
      cases ha
      rw [largest_eq_none.mp hl, List.filter_cons_of_pos hkeep]
      rfl
    | some c =>
      rw [hl] at ha
      simp only at ha
      split at ha
      · rename_i hlt
        cases ha
        have hrest := ih hl hkeep
        by_cases hb : keep b
        · rw [List.filter_cons_of_pos hb, largest_cons, hrest]
          simp [hlt]
        · rw [List.filter_cons_of_neg hb, hrest]
      · rename_i hle
        cases ha
        rw [List.filter_cons_of_pos hkeep, largest_cons]
        cases hrest : largest f (l.filter keep) with
        | none => rfl
        | some d =>
          have hd := le_of_largest (List.mem_of_mem_filter (largest_mem hrest)) hl
          simp only
          rw [if_neg fun hlt => hle (lt_of_lt_of_le hlt hd)]

theorem largest_eq_some_iff_of_injective (hinj : ∀ a ∈ l, ∀ b ∈ l, f a = f b → a = b) :
    largest f l = some a ↔ a ∈ l ∧ ∀ other ∈ l, f other ≤ f a := by
  constructor
  · intro h
    exact ⟨largest_mem h, fun other hother => le_of_largest hother h⟩
  · rintro ⟨hmem, hmost⟩
    cases hfirst : largest f l with
    | none =>
      rw [largest_eq_none.mp hfirst] at hmem
      cases hmem
    | some first =>
      have hle : f a ≤ f first := le_of_largest hmem hfirst
      rw [hinj first (largest_mem hfirst) a hmem
        (le_antisymm (hmost first (largest_mem hfirst)) hle)]

end Cfms.Lib
