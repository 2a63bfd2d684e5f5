import Cfms.Lib.RowNumber

/-!
# Tables that flatten trees

A parent row owns rows of another table, which refer to it by its key, and these may own rows in
turn.  When the tables hold the rows of a list of trees, each table is the list of trees flattened at
one level: a query for the rows that refer to one parent gives back its children, and the removal of
trees with the rows that refer to them, level by level, leaves the rows of the trees that stay.

Where every owner has at most one row, `rowOf` is that row, and `replaceRow` puts another in its
place or takes it away.
-/

namespace Cfms.Lib.OwnedRows

open Lib.RowNumber List

variable {α β κ : Type} {trees : List α} {rows : α → List β}

theorem filter_flatMap {p : β → Bool} {q : α → Bool}
    (h : ∀ t ∈ trees, ∀ row ∈ rows t, p row = q t) :
    (trees.flatMap rows).filter p = (trees.filter q).flatMap rows := by
  induction trees with
  | nil => rfl
  | cons t rest ih =>
    have hrest := ih fun u hu => h u (mem_cons_of_mem _ hu)
    rw [flatMap_cons, filter_append, hrest]
    cases hq : q t with
    | true =>
      have hall : (rows t).filter p = rows t := by
        refine filter_eq_self.mpr fun row hrow => ?_
        rw [h t mem_cons_self row hrow, hq]
      rw [filter_cons_of_pos hq, flatMap_cons, hall]
    | false =>
      have hnone : (rows t).filter p = [] := by
        refine filter_eq_nil_iff.mpr fun row hrow => ?_
        rw [h t mem_cons_self row hrow, hq]
        exact Bool.false_ne_true
      rw [filter_cons_of_neg (by simp [hq]), hnone, nil_append]

variable [DecidableEq κ] {ref : β → κ} {key : α → κ} {t : α}

theorem filter_key_eq (hkeys : (trees.map key).Nodup) (ht : t ∈ trees) :
    trees.filter (fun u => key u == key t) = [t] := by
  refine Eq.trans ?_ (filter_key_eq_singleton hkeys ht)
  exact filter_congr fun u _ => Bool.beq_comm

/-- **The rows that refer to a parent are its children.** -/
theorem filter_ref_eq (hkeys : (trees.map key).Nodup)
    (href : ∀ t, ∀ row ∈ rows t, ref row = key t) (ht : t ∈ trees) :
    (trees.flatMap rows).filter (fun row => ref row == key t) = rows t := by
  have hrows : ∀ u ∈ trees, ∀ row ∈ rows u, (ref row == key t) = (key u == key t) := by
    intro u _ row hrow
    rw [href u row hrow]
  rw [filter_flatMap hrows, filter_key_eq hkeys ht, flatMap_singleton]

/-! ### Removal -/

/-- `ON DELETE CASCADE`: the rows that refer to none of the keys. -/
def cascade (gone : List κ) (ref : β → κ) (table : List β) : List β :=
  table.filter fun row => !gone.contains (ref row)

/-- The rows that the cascade takes along. -/
def referring (gone : List κ) (ref : β → κ) (table : List β) : List β :=
  table.filter fun row => gone.contains (ref row)

variable {owned : α → List κ} {k : κ}

variable (hkeys : (trees.flatMap owned).Nodup)

include hkeys

omit [DecidableEq κ] in
theorem owner_unique {u : α} (ht : t ∈ trees)
    (hu : u ∈ trees) (hkt : k ∈ owned t) (hku : k ∈ owned u) : t = u := by
  by_contra hne
  have hsymm : Std.Symm (Function.onFun List.Disjoint owned) :=
    ⟨fun _ _ hdisj => List.Disjoint.symm hdisj⟩
  have hdisj := (nodup_flatMap.mp hkeys).2.forall ht hu hne
  exact hdisj hkt hku

theorem contains_owned (gone : α → Bool)
    (ht : t ∈ trees) (hk : k ∈ owned t) :
    ((trees.filter gone).flatMap owned).contains k = gone t := by
  rw [Bool.eq_iff_iff, contains_iff_mem, mem_flatMap]
  constructor
  · rintro ⟨u, hu, hku⟩
    obtain ⟨hu, hgone⟩ := mem_filter.mp hu
    rwa [owner_unique hkeys ht hu hk hku]
  · intro hgone
    exact ⟨t, mem_filter.mpr ⟨ht, hgone⟩, hk⟩

/-- **The cascade leaves the rows of the trees that stay.** -/
theorem cascade_eq
    (href : ∀ t, ∀ row ∈ rows t, ref row ∈ owned t) (gone : α → Bool) :
    cascade ((trees.filter gone).flatMap owned) ref (trees.flatMap rows) =
      (trees.filter fun t => !gone t).flatMap rows := by
  refine filter_flatMap fun t ht row hrow => ?_
  rw [contains_owned hkeys gone ht (href t row hrow)]

theorem referring_eq
    (href : ∀ t, ∀ row ∈ rows t, ref row ∈ owned t) (gone : α → Bool) :
    referring ((trees.filter gone).flatMap owned) ref (trees.flatMap rows) =
      (trees.filter gone).flatMap rows :=
  filter_flatMap fun t ht row hrow => contains_owned hkeys gone ht (href t row hrow)

omit hkeys

/-! ### One row for each owner -/

section

variable {owner : α → κ} {table : List α} {k : κ} {row : α} {new : Option α}

def rowOf (owner : α → κ) (table : List α) (k : κ) : Option α :=
  table.find? fun row => owner row == k

def replaceRow (owner : α → κ) (table : List α) (k : κ) (new : Option α) : List α :=
  table.filter (fun row => owner row != k) ++ new.toList

theorem rowOf_eq_some (htable : (table.map owner).Nodup) :
    rowOf owner table k = some row ↔ row ∈ table ∧ owner row = k := by
  constructor
  · intro h
    have hk : (owner row == k) = true := find?_some (p := fun row => owner row == k) h
    exact ⟨mem_of_find?_eq_some h, beq_iff_eq.mp hk⟩
  · rintro ⟨hmem, rfl⟩
    obtain ⟨found, hfound⟩ : ∃ found, rowOf owner table (owner row) = some found :=
      Option.isSome_iff_exists.mp (find?_isSome.mpr ⟨row, hmem, beq_self_eq_true _⟩)
    have hk : (owner found == owner row) = true :=
      find?_some (p := fun other => owner other == owner row) hfound
    rw [hfound, inj_on_of_nodup_map htable (mem_of_find?_eq_some hfound) hmem (beq_iff_eq.mp hk)]

theorem length_filter_owner_le (htable : (table.map owner).Nodup) :
    (table.filter fun row => owner row == k).length ≤ 1 := by
  cases hrow : rowOf owner table k with
  | none =>
    have hnil : table.filter (fun row => owner row == k) = [] := by
      refine filter_eq_nil_iff.mpr fun row hmem => ?_
      exact find?_eq_none.mp hrow row hmem
    rw [hnil]
    exact Nat.zero_le 1
  | some row =>
    obtain ⟨hmem, rfl⟩ := (rowOf_eq_some htable).mp hrow
    rw [filter_key_eq htable hmem]
    exact le_rfl

theorem mem_replaceRow :
    row ∈ replaceRow owner table k new ↔ (row ∈ table ∧ owner row ≠ k) ∨ new = some row := by
  rw [replaceRow, mem_append, mem_filter, bne_iff_ne, Option.mem_toList]

variable (hnew : ∀ row, new = some row → owner row = k)

include hnew

theorem owners_replaceRow (htable : (table.map owner).Nodup) :
    ((replaceRow owner table k new).map owner).Nodup := by
  rw [replaceRow, map_append, nodup_append]
  refine ⟨htable.sublist (filter_sublist.map _), ?_, ?_⟩
  · cases new with
    | none => exact nodup_nil
    | some row => exact nodup_singleton _
  · intro ownerKept hownerKept ownerNew hownerNew
    obtain ⟨kept, hkept, rfl⟩ := mem_map.mp hownerKept
    obtain ⟨added, hadded, rfl⟩ := mem_map.mp hownerNew
    rw [hnew added (Option.mem_toList.mp hadded)]
    exact bne_iff_ne.mp (mem_filter.mp hkept).2

theorem rowOf_replaceRow_self : rowOf owner (replaceRow owner table k new) k = new := by
  have hnone : (table.filter fun row => owner row != k).find? (fun row => owner row == k) = none := by
    rw [find?_eq_none]
    intro row hrow
    rw [beq_iff_eq]
    exact bne_iff_ne.mp (mem_filter.mp hrow).2
  rw [rowOf, replaceRow, find?_append, hnone, Option.none_or]
  cases new with
  | none => rfl
  | some row => exact find?_cons_of_pos (beq_iff_eq.mpr (hnew row rfl))

theorem rowOf_replaceRow_of_ne {other : κ} (hne : other ≠ k) :
    rowOf owner (replaceRow owner table k new) other = rowOf owner table other := by
  have hkept : (table.filter fun row => owner row != k).find? (fun row => owner row == other) =
      table.find? fun row => owner row == other := by
    rw [find?_filter]
    refine congrArg (fun p => table.find? p) ?_
    funext row
    cases hrow : owner row == other with
    | false => exact decide_eq_false fun hboth => Bool.false_ne_true hboth.2
    | true => exact decide_eq_true ⟨bne_iff_ne.mpr (beq_iff_eq.mp hrow ▸ hne), rfl⟩
  have hnone : new.toList.find? (fun row => owner row == other) = none := by
    rw [find?_eq_none]
    intro row hrow
    rw [beq_iff_eq, hnew row (Option.mem_toList.mp hrow)]
    exact hne.symm
  rw [rowOf, replaceRow, find?_append, hkept, hnone, Option.or_none, rowOf]

end

end Cfms.Lib.OwnedRows
