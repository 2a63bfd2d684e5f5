import Cfms.Lib.Table
import Mathlib.Algebra.BigOperators.Group.List.Lemmas
import Mathlib.Algebra.Ring.Int.Defs
import Mathlib.Data.Nat.Cast.Basic

/-!
# Counters that follow a bag

A dictionary of counters, in which a counter that comes to zero is removed, follows a list of keys
when every key that occurs has its number of occurrences.  An increment goes with one more
occurrence and a decrement with one less; the counters are positive and add up to the length of
the list.
-/

namespace Cfms.Lib.Counter

open List AList

variable {κ : Type*} [DecidableEq κ]

/-- `counters[key] = counters.get(key, 0) + 1`. -/
def increment (key : κ) (counters : Table κ ℤ) : Table κ ℤ :=
  counters.insert key ((counters.lookup key).getD 0 + 1)

/-- The counter goes down by one, and away when nothing remains; a missing key is an error. -/
def decrement (key : κ) (counters : Table κ ℤ) : Option (Table κ ℤ) :=
  (counters.lookup key).map fun count =>
    if count - 1 ≠ 0 then counters.insert key (count - 1) else counters.erase key

def total (counters : Table κ ℤ) : ℤ := (counters.entries.map fun row => row.2).sum

/-- Every key has the number of its occurrences. -/
def Follows (counters : Table κ ℤ) (bag : List κ) : Prop :=
  ∀ key, counters.lookup key = if bag.count key = 0 then none else some (bag.count key : ℤ)

variable {counters : Table κ ℤ} {bag : List κ} {key : κ}

theorem follows_empty : Follows (∅ : Table κ ℤ) [] := by
  intro key
  rw [lookup_empty, count_nil, if_pos rfl]

theorem Follows.perm {bag' : List κ} (h : Follows counters bag) (hperm : bag.Perm bag') :
    Follows counters bag' := by
  intro key
  rw [h key, hperm.count_eq key]

theorem Follows.getD (h : Follows counters bag) (key : κ) :
    (counters.lookup key).getD 0 = bag.count key := by
  rw [h key]
  split
  · rename_i hzero
    rw [hzero]
    rfl
  · rfl

theorem getD_increment (counters : Table κ ℤ) (key : κ) :
    ((increment key counters).lookup key).getD 0 = (counters.lookup key).getD 0 + 1 := by
  rw [increment, lookup_insert]
  rfl

variable (h : Follows counters bag)

include h

theorem Follows.increment (key : κ) :
    Follows (increment key counters) (key :: bag) := by
  intro k
  rw [Counter.increment, h.getD]
  by_cases hk : k = key
  · subst hk
    rw [lookup_insert, count_cons_self]
    rfl
  · rw [lookup_insert_ne hk, count_cons_of_ne (Ne.symm hk)]
    exact h k

theorem Follows.decrement (hkey : key ∈ bag) :
    ∃ counters', decrement key counters = some counters' ∧ Follows counters' (bag.erase key) := by
  have hpos : 0 < bag.count key := count_pos_iff.mpr hkey
  have hlook : counters.lookup key = some (bag.count key : ℤ) := by
    rw [h key, if_neg (by omega)]
  by_cases hlast : bag.count key = 1
  · refine ⟨counters.erase key, ?_, ?_⟩
    · rw [Counter.decrement, hlook, hlast]
      rfl
    · intro k
      by_cases hk : k = key
      · subst hk
        rw [lookup_erase, count_erase_self, hlast]
        rfl
      · rw [lookup_erase_ne hk, count_erase_of_ne hk]
        exact h k
  · have hrem : (bag.count key : ℤ) - 1 ≠ 0 := by omega
    refine ⟨counters.insert key ((bag.count key : ℤ) - 1), ?_, ?_⟩
    · rw [Counter.decrement, hlook, Option.map_some, if_pos hrem]
    intro k
    by_cases hk : k = key
    · subst hk
      rw [lookup_insert, count_erase_self, if_neg (by omega)]
      congr 1
      omega
    · rw [lookup_insert_ne hk, count_erase_of_ne hk]
      exact h k

theorem Follows.pos {count : ℤ} (hcount : counters.lookup key = some count) :
    0 < count := by
  rw [h key] at hcount
  split at hcount
  · cases hcount
  · cases hcount
    omega

theorem Follows.mem_keys : key ∈ counters.keys ↔ key ∈ bag := by
  rw [← AList.mem_keys, ← AList.lookup_isSome, h key, ← count_pos_iff]
  split
  · rename_i hzero
    simp [hzero]
  · simp only [Option.isSome_some, true_iff]
    omega

/-- **The counters add up to the length of the bag.** -/
theorem Follows.total_eq : total counters = bag.length := by
  have hperm : counters.keys.Perm bag.dedup := by
    apply (perm_ext_iff_of_nodup counters.nodupKeys (nodup_dedup bag)).mpr
    intro key
    rw [mem_dedup]
    exact h.mem_keys
  have hvals : (counters.entries.map fun row => row.2) =
      counters.keys.map fun key => (bag.count key : ℤ) := by
    show _ = (counters.entries.map Sigma.fst).map _
    rw [map_map]
    apply map_congr_left
    intro row hrow
    have hlook : counters.lookup row.1 = some row.2 := mem_lookup_iff.mpr hrow
    have hgetD := h.getD row.1
    rw [hlook] at hgetD
    exact hgetD
  rw [total, hvals, (hperm.map _).sum_eq, ← sum_map_count_dedup_eq_length bag]
  have hcast := map_list_sum (Nat.castAddMonoidHom ℤ) (bag.dedup.map fun key => bag.count key)
  rw [map_map] at hcast
  exact hcast.symm

end Cfms.Lib.Counter
