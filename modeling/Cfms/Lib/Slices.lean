import Mathlib.Data.List.Basic
import Mathlib.Algebra.Order.Ring.Nat

/-!
# Slices of a list

`slice l size i` is the `i`-th of the consecutive slices of a list, all of one size but the last.
The first `k` slices joined are the first `k * size` elements (`flatten_slices`), and what lies
between a multiple of the size and a place where a slice or the list ends is a slice
(`eq_slice`).
-/

namespace Cfms.Lib.Slices

open List

variable {α : Type*} {l : List α} {size : ℕ}

/-- The slice from `i * size` on. -/
def slice (l : List α) (size i : ℕ) : List α := (l.drop (i * size)).take size

/-- None of the first `k` slices is empty. -/
def Fits (l : List α) (size k : ℕ) : Prop := ∀ i < k, i * size < l.length

theorem length_slice (i : ℕ) : (slice l size i).length = min size (l.length - i * size) := by
  rw [slice, length_take, length_drop]

theorem length_slice_pos (hsize : 0 < size) {i : ℕ} (hi : i * size < l.length) :
    0 < (slice l size i).length := by
  rw [length_slice]
  omega

theorem take_succ_mul (k : ℕ) : l.take ((k + 1) * size) = l.take (k * size) ++ slice l size k := by
  rw [Nat.succ_mul, take_add]
  rfl

/-- **The slices joined.** -/
theorem flatten_slices (k : ℕ) : ((List.range k).map (slice l size)).flatten = l.take (k * size) := by
  induction k with
  | zero => simp
  | succ k ih =>
    rw [range_succ, map_append, flatten_append, ih, take_succ_mul]
    simp

theorem eq_slice {k n : ℕ} {middle : List α} (hk : k * size < l.length)
    (happend : l.take n = l.take (k * size) ++ middle)
    (hend : middle.length = size ∨ (n = l.length ∧ middle.length ≤ size)) :
    middle = slice l size k := by
  have hprefix : (l.take (k * size)).length = k * size := by
    rw [length_take]
    omega
  have hmid : middle = (l.drop (k * size)).take (n - k * size) := by
    rw [← drop_take, happend, drop_append, hprefix, Nat.sub_self, drop_zero,
      drop_eq_nil_of_le hprefix.le, nil_append]
  rcases hend with hfull | ⟨hn, hle⟩
  · have hlen : min (n - k * size) (l.length - k * size) = size := by
      rwa [hmid, length_take, length_drop] at hfull
    rw [hmid, slice, take_eq_take_iff, length_drop]
    omega
  · have hlen : min (n - k * size) (l.length - k * size) ≤ size := by
      rwa [hmid, length_take, length_drop] at hle
    rw [hmid, slice, take_eq_take_iff, length_drop]
    omega

theorem Fits.succ {k : ℕ} (h : Fits l size k) (hk : k * size < l.length) : Fits l size (k + 1) := by
  intro i hi
  rcases Nat.lt_succ_iff_lt_or_eq.mp hi with hlt | rfl
  · exact h i hlt
  · exact hk

theorem Fits.le {k n : ℕ} (h : Fits l size k) (hlen : l.length ≤ n * size) : k ≤ n := by
  by_contra hk
  exact absurd hlen (not_le.mpr (h n (not_le.mp hk)))

end Cfms.Lib.Slices
