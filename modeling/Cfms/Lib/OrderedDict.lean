import Cfms.Lib.Table
import Mathlib.Data.List.TakeWhile

/-!
# Dictionaries that remember an order

A dictionary whose entries stand in a queue: a new key is appended, a key can be moved to the end,
and the entry at the front can be dropped.  Keys keep their value through moves, and a drop affects
one key only.
-/

namespace Cfms.Lib

open List AList

/-- Entries with pairwise distinct keys, the oldest first. -/
abbrev OrderedDict (κ ν : Type*) := Table κ ν

namespace OrderedDict

variable {κ ν : Type*} [DecidableEq κ]

/-- An entry for a key that is not there. -/
def append (key : κ) (value : ν) (dict : OrderedDict κ ν) : OrderedDict κ ν where
  entries := (dict.erase key).entries ++ [⟨key, value⟩]
  nodupKeys := by
    have hperm : List.Perm ((dict.erase key).entries ++ [⟨key, value⟩])
        (⟨key, value⟩ :: (dict.erase key).entries) := List.perm_append_singleton _ _
    exact (List.perm_nodupKeys hperm).mpr (dict.insert key value).nodupKeys

/-- `dict[key] = value`: a key that is there keeps its place. -/
def assign (key : κ) (value : ν) (dict : OrderedDict κ ν) : OrderedDict κ ν :=
  if (dict.lookup key).isSome then dict.update fun k v => if k = key then value else v
  else dict.append key value

/-- `dict.move_to_end(key)`. -/
def moveToEnd (key : κ) (dict : OrderedDict κ ν) : OrderedDict κ ν :=
  match dict.lookup key with
  | none => dict
  | some value => dict.append key value

/-- `dict.popitem(last=False)`. -/
def popFirst (dict : OrderedDict κ ν) : OrderedDict κ ν where
  entries := dict.entries.tail
  nodupKeys := dict.nodupKeys.sublist (List.tail_sublist _)

/-- The first entries are dropped as long as their values meet the condition. -/
def popWhile (condition : ν → Bool) (dict : OrderedDict κ ν) : OrderedDict κ ν where
  entries := dict.entries.dropWhile fun entry => condition entry.2
  nodupKeys := dict.nodupKeys.sublist (List.dropWhile_sublist _)

/-- The first entries are dropped until the given number is left. -/
def trim (bound : ℕ) (dict : OrderedDict κ ν) : OrderedDict κ ν where
  entries := dict.entries.drop (dict.entries.length - bound)
  nodupKeys := dict.nodupKeys.sublist (List.drop_sublist _ _)

/-- The key at the front. -/
def firstKey? (dict : OrderedDict κ ν) : Option κ := dict.entries.head?.map Sigma.fst

def size (dict : OrderedDict κ ν) : ℕ := dict.entries.length

variable {dict : OrderedDict κ ν} {key k : κ} {value : ν}

@[simp] theorem lookup_append :
    (dict.append key value).lookup k = if k = key then some value else dict.lookup k := by
  show dlookup k ((dict.erase key).entries ++ [⟨key, value⟩]) = _
  rw [dlookup_append]
  by_cases hk : k = key
  · subst hk
    have herase : dlookup k (dict.erase k).entries = none := lookup_erase k dict
    rw [if_pos rfl, herase, dlookup_cons_eq]
    rfl
  · have herase : dlookup k (dict.erase key).entries = dict.lookup k :=
      lookup_erase_ne hk
    have hlast : dlookup k [(⟨key, value⟩ : (_ : κ) × ν)] = none := by
      rw [dlookup_cons_ne _ _ hk, dlookup_nil]
    rw [if_neg hk, herase, hlast, Option.or_none]

@[simp] theorem lookup_assign :
    (dict.assign key value).lookup k = if k = key then some value else dict.lookup k := by
  unfold assign
  split
  · rename_i hkey
    by_cases hk : k = key
    · subst hk
      obtain ⟨old, hold⟩ := Option.isSome_iff_exists.mp hkey
      simp [hold]
    · simp [hk]
  · exact lookup_append

@[simp] theorem lookup_moveToEnd : (dict.moveToEnd key).lookup k = dict.lookup k := by
  unfold moveToEnd
  split
  · rfl
  rename_i value hvalue
  rw [lookup_append]
  split
  · rename_i hk
    rw [hk, hvalue]
  · rfl

theorem lookup_popFirst (h : dict.firstKey? ≠ some k) : dict.popFirst.lookup k = dict.lookup k := by
  show dlookup k dict.entries.tail = dlookup k dict.entries
  cases hents : dict.entries with
  | nil => rfl
  | cons first rest =>
    have hne : k ≠ first.1 := by
      intro hk
      apply h
      rw [firstKey?, hents, hk]
      rfl
    rw [tail_cons, dlookup_cons_ne _ _ hne]

/-! ### Sizes -/

omit [DecidableEq κ] in
theorem size_eq_length_keys (dict : OrderedDict κ ν) : dict.size = dict.keys.length :=
  (length_map _).symm

theorem keys_append : (dict.append key value).keys = dict.keys.erase key ++ [key] := by
  show ((dict.erase key).entries ++ [(⟨key, value⟩ : (_ : κ) × ν)]).map Sigma.fst = _
  rw [map_append, ← keys_erase]
  rfl

theorem keys_assign_of_lookup_eq_none (h : dict.lookup key = none) :
    (dict.assign key value).keys = dict.keys ++ [key] := by
  rw [assign, h]
  show (dict.append key value).keys = _
  rw [keys_append, erase_of_not_mem (lookup_eq_none.mp h)]

/-- A new value stays in its place. -/
theorem keys_assign_of_lookup_eq_some {old : ν} (h : dict.lookup key = some old) :
    (dict.assign key value).keys = dict.keys := by
  rw [assign, h]
  show (dict.entries.map fun row => (⟨row.1, _⟩ : (_ : κ) × ν)).map Sigma.fst = _
  rw [map_map]
  rfl

theorem keys_moveToEnd_of_lookup_eq_some (h : dict.lookup key = some value) :
    (dict.moveToEnd key).keys = dict.keys.erase key ++ [key] := by
  rw [moveToEnd, h]
  exact keys_append

theorem size_moveToEnd : (dict.moveToEnd key).size = dict.size := by
  cases h : dict.lookup key with
  | none => rw [moveToEnd, h]
  | some value =>
    have hmem : key ∈ dict.keys := by
      rw [← AList.mem_keys, ← AList.lookup_isSome, h]
      rfl
    have hpos : 0 < dict.keys.length := length_pos_of_mem hmem
    rw [size_eq_length_keys, size_eq_length_keys, keys_moveToEnd_of_lookup_eq_some h,
      length_append, length_erase_of_mem hmem]
    show dict.keys.length - 1 + 1 = dict.keys.length
    omega

theorem size_assign_of_lookup_eq_none (h : dict.lookup key = none) :
    (dict.assign key value).size = dict.size + 1 := by
  rw [size_eq_length_keys, size_eq_length_keys, keys_assign_of_lookup_eq_none h, length_append]
  rfl

theorem size_assign_of_lookup_eq_some {old : ν} (h : dict.lookup key = some old) :
    (dict.assign key value).size = dict.size := by
  rw [size_eq_length_keys, size_eq_length_keys, keys_assign_of_lookup_eq_some h]

theorem size_le_of_lookup {bound : List κ} (h : ∀ k value, dict.lookup k = some value → k ∈ bound) :
    dict.size ≤ bound.length := by
  rw [size_eq_length_keys]
  apply List.Subperm.length_le
  apply subperm_of_subset dict.keys_nodup
  intro k hk
  rw [← AList.mem_keys, ← AList.lookup_isSome, Option.isSome_iff_exists] at hk
  obtain ⟨value, hvalue⟩ := hk
  exact h k value hvalue

/-! ### Dropping entries -/

omit [DecidableEq κ] in
theorem firstKey?_eq_head?_keys : dict.firstKey? = dict.keys.head? := head?_map.symm

variable {condition : ν → Bool}

theorem lookup_popWhile_eq_some
    (h : (dict.popWhile condition).lookup k = some value) : dict.lookup k = some value := by
  rw [← Option.mem_def, mem_lookup_iff] at h ⊢
  exact (dropWhile_sublist _).subset h

theorem lookup_popWhile_eq_none
    (h : (dict.popWhile condition).lookup k = none) (hvalue : dict.lookup k = some value) :
    condition value = true := by
  rw [← Option.mem_def, AList.mem_lookup_iff] at hvalue
  rw [AList.lookup_eq_none, AList.mem_keys] at h
  have hsplit : dict.entries.takeWhile (fun entry => condition entry.2) ++
      dict.entries.dropWhile (fun entry => condition entry.2) = dict.entries :=
    takeWhile_append_dropWhile
  rw [← hsplit, mem_append] at hvalue
  cases hvalue with
  | inl htaken =>
    exact mem_takeWhile_imp (p := fun entry : (_ : κ) × ν => condition entry.2) htaken
  | inr hleft => exact absurd (mem_map_of_mem hleft) h

omit [DecidableEq κ] in
theorem keys_trim (bound : ℕ) : (dict.trim bound).keys = dict.keys.drop (dict.keys.length - bound) := by
  rw [← size_eq_length_keys]
  exact map_drop

omit [DecidableEq κ] in
/-- Trimming keeps to the bound. -/
theorem size_trim_le (bound : ℕ) : (dict.trim bound).size ≤ bound := by
  rw [size_eq_length_keys, keys_trim, length_drop]
  omega

variable {bound : ℕ}

omit [DecidableEq κ] in
theorem trim_eq_self (h : dict.size ≤ bound) : dict.trim bound = dict := by
  apply ext
  show dict.entries.drop (dict.size - bound) = dict.entries
  rw [Nat.sub_eq_zero_of_le h, drop_zero]

omit [DecidableEq κ] in
theorem trim_eq_popFirst (h : dict.size = bound + 1) : dict.trim bound = dict.popFirst := by
  apply ext
  show dict.entries.drop (dict.size - bound) = dict.entries.tail
  rw [h, Nat.add_sub_cancel_left, drop_one]

theorem lookup_trim_eq_some (h : (dict.trim bound).lookup k = some value) :
    dict.lookup k = some value := by
  rw [← Option.mem_def, mem_lookup_iff] at h ⊢
  exact (drop_sublist _ _).subset h

omit [DecidableEq κ] in
theorem keys_popWhile_suffix (condition : ν → Bool) : (dict.popWhile condition).keys <:+ dict.keys :=
  (dropWhile_suffix _).map Sigma.fst

/-- What is dropped is the longest front that meets the condition. -/
theorem lookup_popWhile_of_front {front back : List κ} (hkeys : dict.keys = front ++ back)
    (hfront : ∀ key ∈ front, ∀ value, dict.lookup key = some value → condition value = true)
    (hk : k ∉ back) : (dict.popWhile condition).lookup k = none := by
  rw [AList.lookup_eq_none, AList.mem_keys]
  intro hmem
  obtain ⟨dropped, hsplit⟩ := @keys_popWhile_suffix κ ν dict condition
  rw [hkeys] at hsplit
  rcases append_eq_append_iff.mp hsplit with ⟨rest, hdrop, hleft⟩ | ⟨rest, -, hback⟩
  · cases rest with
    | nil => exact hk (by rwa [hleft] at hmem)
    | cons first rest =>
      -- the first entry that is left is one of those that meet the condition
      obtain ⟨entry, rest', hents, hfirst, -⟩ := map_eq_cons_iff.mp hleft
      have hnot := head?_dropWhile_not (fun entry : (_ : κ) × ν => condition entry.2) dict.entries
      change dict.entries.dropWhile (fun entry => condition entry.2) = _ at hents
      rw [hents] at hnot
      have hin : entry ∈ dict.entries :=
        (dropWhile_suffix _).subset (hents ▸ mem_cons_self)
      have hmeets := hfront first (hdrop ▸ mem_append_cons_self) entry.2
        (hfirst ▸ AList.mem_lookup_iff.mpr hin)
      exact absurd (hnot.symm.trans hmeets) Bool.false_ne_true
  · exact hk (hback ▸ mem_append_right rest hmem)

/-- A used key comes last. -/
theorem keys_moveToEnd_assign :
    ((dict.assign key value).moveToEnd key).keys = dict.keys.erase key ++ [key] := by
  have hvalue : (dict.assign key value).lookup key = some value := by rw [lookup_assign, if_pos rfl]
  rw [keys_moveToEnd_of_lookup_eq_some hvalue]
  cases hold : dict.lookup key with
  | none =>
    have hnot : key ∉ dict.keys := lookup_eq_none.mp hold
    rw [keys_assign_of_lookup_eq_none hold, erase_append_right _ hnot, erase_cons_head,
      append_nil, erase_of_not_mem hnot]
  | some old => rw [keys_assign_of_lookup_eq_some hold]

/-! ### One entry -/

section

variable {new : ν}

def single (key : κ) (value : ν) : OrderedDict κ ν := AList.singleton key value

theorem lookup_singleton : (single key value).lookup key = some value :=
  dlookup_cons_eq _ _ _

theorem append_singleton : (single key value).append key new = single key new := by
  have herase : (single key value).erase key = ∅ := by
    apply ext
    exact kerase_cons_eq rfl
  apply ext
  show ((single key value).erase key).entries ++ _ = _
  rw [herase]
  rfl

theorem assign_singleton : (single key value).assign key new = single key new := by
  unfold assign
  rw [if_pos (by rw [lookup_singleton]; rfl)]
  apply ext
  show [(⟨key, if key = key then new else value⟩ : (_ : κ) × ν)] = [⟨key, new⟩]
  rw [if_pos rfl]

theorem assign_empty : (∅ : OrderedDict κ ν).assign key value = single key value := rfl

theorem moveToEnd_singleton : (single key value).moveToEnd key = single key value := by
  unfold moveToEnd
  rw [lookup_singleton]
  exact append_singleton

omit [DecidableEq κ] in
theorem popWhile_singleton {condition : ν → Bool} (h : condition value = true) :
    (single key value).popWhile condition = ∅ := by
  apply ext
  exact dropWhile_cons_of_pos (p := fun entry : (_ : κ) × ν => condition entry.2) h

omit [DecidableEq κ] in
theorem popWhile_singleton_of_not {condition : ν → Bool} (h : ¬condition value = true) :
    (single key value).popWhile condition = single key value := by
  apply ext
  exact dropWhile_cons_of_neg (p := fun entry : (_ : κ) × ν => condition entry.2) h

end

end OrderedDict

end Cfms.Lib
