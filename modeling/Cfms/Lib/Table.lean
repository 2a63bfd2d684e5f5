import Mathlib.Data.List.AList

/-!
# Tables with a primary key

A table is an association list with pairwise distinct keys.  The statements of a transaction are
batch updates, which leave the keys alone, deletions by a condition, and inserts, which a taken
key refuses.  Each statement comes with the lemma that says which row a key has afterwards.
-/

namespace Cfms.Lib

open Option

/-- Rows of type `ρ` under keys of type `κ`. -/
abbrev Table (κ ρ : Type*) := AList fun _ : κ => ρ

namespace Table

variable {κ ρ : Type*}

/-- `UPDATE`: every row is rewritten; a row that the condition leaves out is mapped to itself. -/
def update (f : κ → ρ → ρ) (table : Table κ ρ) : Table κ ρ where
  entries := table.entries.map fun row => ⟨row.1, f row.1 row.2⟩
  nodupKeys := table.nodupKeys.map₂ f table.entries

def delete (gone : κ → ρ → Bool) (table : Table κ ρ) : Table κ ρ where
  entries := table.entries.filter fun row => !gone row.1 row.2
  nodupKeys := table.nodupKeys.sublist List.filter_sublist

/-- Some row meets the condition. -/
def any (table : Table κ ρ) (p : κ → ρ → Bool) : Bool := table.entries.any fun row => p row.1 row.2

variable [DecidableEq κ]

/-- `INSERT`; a taken key violates the primary key. -/
def insertNew (key : κ) (row : ρ) (table : Table κ ρ) : Option (Table κ ρ) :=
  if (table.lookup key).isSome then none else some (table.insert key row)

@[simp] theorem lookup_update (f : κ → ρ → ρ) (table : Table κ ρ) (key : κ) :
    (update f table).lookup key = (table.lookup key).map (f key) :=
  List.dlookup_map₂ key

variable {table : Table κ ρ} {key : κ} {row : ρ}

theorem lookup_update_eq_some {f : κ → ρ → ρ} (h : (update f table).lookup key = some row) :
    ∃ old, table.lookup key = some old ∧ row = f key old := by
  rw [lookup_update, map_eq_some_iff] at h
  obtain ⟨old, hold, hrow⟩ := h
  exact ⟨old, hold, hrow.symm⟩

theorem lookup_delete_eq_some {gone : κ → ρ → Bool} : (delete gone table).lookup key = some row ↔
      table.lookup key = some row ∧ gone key row = false := by
  rw [← mem_def, ← mem_def, AList.mem_lookup_iff, AList.mem_lookup_iff]
  simp [delete]

theorem lookup_delete_of_not_gone {gone : κ → Bool} (hkey : gone key = false) :
    (table.delete fun k _ => gone k).lookup key = table.lookup key := by
  apply ext
  intro row
  rw [lookup_delete_eq_some]
  exact and_iff_left hkey

theorem lookup_empty_ne_some : (∅ : Table κ ρ).lookup key ≠ some row := by
  nofun

variable {new : ρ}

theorem lookup_insert_eq_some {k : κ} (h : (table.insert key new).lookup k = some row) :
    (k = key ∧ row = new) ∨ (k ≠ key ∧ table.lookup k = some row) := by
  by_cases hk : k = key
  · subst hk
    rw [AList.lookup_insert, some.injEq] at h
    exact .inl ⟨rfl, h.symm⟩
  · rw [AList.lookup_insert_ne hk] at h
    exact .inr ⟨hk, h⟩

theorem lookup_erase_eq_some {k : κ}
    (h : (table.erase key).lookup k = some row) : k ≠ key ∧ table.lookup k = some row := by
  by_cases hk : k = key
  · rw [hk, AList.lookup_erase] at h
    cases h
  · rw [AList.lookup_erase_ne hk] at h
    exact ⟨hk, h⟩

theorem insertNew_eq_some {table' : Table κ ρ} (h : insertNew key new table = some table') :
    table.lookup key = none ∧ table' = table.insert key new := by
  unfold insertNew at h
  split at h
  · cases h
  rename_i hfree
  rw [some.injEq] at h
  exact ⟨not_isSome_iff_eq_none.mp hfree, h.symm⟩

theorem insertNew_eq_none
    (h : insertNew key new table = none) : ∃ row, table.lookup key = some row := by
  unfold insertNew at h
  split at h
  · rename_i htaken
    exact isSome_iff_exists.mp htaken
  · cases h

theorem any_iff {p : κ → ρ → Bool} :
    table.any p = true ↔ ∃ key row, table.lookup key = some row ∧ p key row = true := by
  rw [any, List.any_eq_true]
  constructor
  · rintro ⟨⟨key, row⟩, hmem, hp⟩
    exact ⟨key, row, AList.mem_lookup_iff.mpr hmem, hp⟩
  · rintro ⟨key, row, hrow, hp⟩
    exact ⟨⟨key, row⟩, AList.mem_lookup_iff.mp hrow, hp⟩

/-! ### What holds of every row -/

section

variable {table : Table κ ρ} {p : ρ → Prop}

theorem forall_insert {key : κ} {new : ρ} (hnew : p new)
    (h : ∀ k row, table.lookup k = some row → p row) :
    ∀ k row, (table.insert key new).lookup k = some row → p row := by
  intro k row hrow
  rcases lookup_insert_eq_some hrow with ⟨-, rfl⟩ | ⟨-, hold⟩
  · exact hnew
  · exact h k row hold

theorem forall_delete {gone : κ → ρ → Bool} (h : ∀ k row, table.lookup k = some row → p row) :
    ∀ k row, (table.delete gone).lookup k = some row → p row :=
  fun k row hrow => h k row (lookup_delete_eq_some.mp hrow).1

end

end Table

end Cfms.Lib
