import Mathlib.Data.List.Induction
import Mathlib.Data.Nat.Digits.Defs

/-!
# Numerals of a fixed length

`fixedDigits` takes the digits of a number off, the lowest first, and returns what is left of it.
Numbers below `b ^ n` and lists of `n` digits correspond to each other.
-/

namespace Cfms.Lib.Digits

/-- `n` rounds of `divmod` by `b`. -/
def fixedDigits (b : ℕ) : ℕ → ℕ → List ℕ × ℕ
  | 0, value => ([], value)
  | n + 1, value =>
    let higher := fixedDigits b n (value / b)
    (value % b :: higher.1, higher.2)

/-- The value of digits, the highest first. -/
def bigEndian (b : ℕ) (digits : List ℕ) : ℕ := digits.foldl (fun value digit => value * b + digit) 0

variable {b n value : ℕ} {digits : List ℕ}

theorem bigEndian_eq_ofDigits : bigEndian b digits = Nat.ofDigits b digits.reverse := by
  induction digits using List.reverseRecOn with
  | nil => rfl
  | append_singleton digits digit ih =>
    rw [bigEndian, List.foldl_append, ← bigEndian, ih, List.reverse_concat, Nat.ofDigits_cons]
    show Nat.ofDigits b digits.reverse * b + digit = _
    rw [Nat.mul_comm, Nat.add_comm]

theorem length_fixedDigits : (fixedDigits b n value).1.length = n := by
  induction n generalizing value with
  | zero => rfl
  | succ n ih => simp [fixedDigits, ih]

theorem fixedDigits_lt (hb : 0 < b) : ∀ digit ∈ (fixedDigits b n value).1, digit < b := by
  induction n generalizing value with
  | zero => simp [fixedDigits]
  | succ n ih => simpa [fixedDigits] using ⟨Nat.mod_lt value hb, ih⟩

theorem ofDigits_fixedDigits :
    Nat.ofDigits b (fixedDigits b n value).1 + b ^ n * (fixedDigits b n value).2 = value := by
  induction n generalizing value with
  | zero => simp [fixedDigits]
  | succ n ih =>
    show Nat.ofDigits b (value % b :: (fixedDigits b n (value / b)).1) +
      b ^ (n + 1) * (fixedDigits b n (value / b)).2 = value
    rw [Nat.ofDigits_cons, Nat.pow_succ', Nat.mul_assoc, Nat.add_assoc, ← Nat.mul_add, ih,
      Nat.mod_add_div]

/-- Nothing is left of a number below `b ^ n`. -/
theorem fixedDigits_of_lt (hvalue : value < b ^ n) :
    (fixedDigits b n value).2 = 0 ∧ Nat.ofDigits b (fixedDigits b n value).1 = value := by
  have hsum := @ofDigits_fixedDigits b n value
  have hzero : (fixedDigits b n value).2 = 0 := by
    by_contra hpos
    have := Nat.le_mul_of_pos_right (b ^ n) (Nat.pos_of_ne_zero hpos)
    omega
  rw [hzero] at hsum
  exact ⟨hzero, by simpa using hsum⟩

theorem fixedDigits_ofDigits (hdigs : ∀ digit ∈ digits, digit < b) :
    fixedDigits b digits.length (Nat.ofDigits b digits) = (digits, 0) := by
  induction digits with
  | nil => rfl
  | cons digit digits ih =>
    obtain ⟨hdigit, hrest⟩ := List.forall_mem_cons.mp hdigs
    rw [List.length_cons, fixedDigits, Nat.ofDigits_cons, Nat.add_mul_mod_self_left,
      Nat.mod_eq_of_lt hdigit, Nat.add_mul_div_left _ _ (by omega), Nat.div_eq_of_lt hdigit,
      Nat.zero_add, ih hrest]

end Cfms.Lib.Digits
