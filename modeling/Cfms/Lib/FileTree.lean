import Mathlib.Data.List.Nodup

/-!
# File trees

A directory tree as the list of its files, each under its path.  Directories are the prefixes of
paths, so an empty directory is nothing, and a path is `occupied` when a file is there or below.
What a tree holds is what `read` says; the changes below are described by what is read after them.

`copyAll` writes files one by one.  Where nothing stands in the way of any of them (`Clear`), and none
is a directory of another, nothing comes in the way while they are written (`Clear.write`).
-/

namespace Cfms.Lib.FileTree

open List

variable {σ γ : Type*} [DecidableEq σ]

/-- The files of a tree. -/
abbrev Tree (σ γ : Type*) := List (List σ × γ)

/-- The file at a path. -/
def read (t : Tree σ γ) (p : List σ) : Option γ := (t.find? fun e => decide (e.1 = p)).map Prod.snd

/-- The tree without some paths. -/
def remove (gone : List σ → Bool) (t : Tree σ γ) : Tree σ γ := t.filter fun e => !gone e.1

def unlink (t : Tree σ γ) (p : List σ) : Tree σ γ := remove (fun q => decide (q = p)) t

def write (t : Tree σ γ) (p : List σ) (c : γ) : Tree σ γ := (p, c) :: unlink t p

/-- A file is there, or in the directory of that name. -/
def occupied (t : Tree σ γ) (p : List σ) : Bool := t.any fun e => decide (p <+: e.1)

/-- A file has the name of a directory the path lies in. -/
def obstructed (t : Tree σ γ) (p : List σ) : Bool := t.any fun e => decide (e.1 <+: p)

/-! ### Reading -/

variable {t : Tree σ γ} {p q : List σ} {c : γ}

@[simp] theorem read_nil : read ([] : Tree σ γ) p = none := rfl

theorem read_cons (e : List σ × γ) : read (e :: t) p = if e.1 = p then some e.2 else read t p := by
  by_cases h : e.1 = p
  · simp [read, h]
  · simp [read, h]

theorem read_append (t' : Tree σ γ) : read (t ++ t') p = (read t p).or (read t' p) := by
  induction t with
  | nil => rfl
  | cons e t ih =>
    rw [cons_append, read_cons, read_cons, ih]
    split
    · rfl
    · rfl

theorem mem_of_read (h : read t p = some c) : (p, c) ∈ t := by
  obtain ⟨e, he, rfl⟩ := Option.map_eq_some_iff.mp h
  have hpath : e.1 = p := by simpa using find?_some he
  rw [← hpath]
  exact mem_of_find?_eq_some he

theorem read_isSome : (read t p).isSome = true ↔ p ∈ t.map Prod.fst := by
  induction t with
  | nil => simp
  | cons e t ih =>
    rw [read_cons, map_cons, mem_cons]
    by_cases h : e.1 = p
    · simp [h]
    · rw [if_neg h, ih]
      exact ⟨Or.inr, fun h' => h'.resolve_left fun h' => h h'.symm⟩

theorem read_eq_none : read t p = none ↔ p ∉ t.map Prod.fst := by
  rw [← read_isSome, Option.not_isSome_iff_eq_none]

theorem read_of_mem (ht : (t.map Prod.fst).Nodup) (h : (p, c) ∈ t) : read t p = some c := by
  obtain ⟨c', hc'⟩ := Option.isSome_iff_exists.mp (read_isSome.mpr (mem_map_of_mem h))
  have heq : (p, c') = (p, c) := inj_on_of_nodup_map ht (mem_of_read hc') h rfl
  rw [hc', (Prod.mk.inj heq).2]

/-- A path is occupied by a file at it or below it. -/
theorem occupied_iff : occupied t p = true ↔ ∃ q ∈ t.map Prod.fst, p <+: q := by
  simp [occupied]

theorem obstructed_iff : obstructed t p = true ↔ ∃ q ∈ t.map Prod.fst, q <+: p := by
  simp [obstructed]

theorem occupied_of_read (hpq : p <+: q) (h : (read t q).isSome = true) : occupied t p = true :=
  occupied_iff.mpr ⟨q, read_isSome.mp h, hpq⟩

theorem occupied_of_append {t' : Tree σ γ} (h : occupied (t ++ t') p = false) :
    occupied t' p = false := by
  rw [occupied, any_append, Bool.or_eq_false_iff] at h
  exact h.2

theorem read_of_not_occupied (h : occupied t p = false) (hpq : p <+: q) : read t q = none := by
  by_contra hne
  have hsome : (read t q).isSome = true := Option.isSome_iff_ne_none.mpr hne
  rw [occupied_of_read hpq hsome] at h
  cases h

/-! ### Removing -/

theorem read_remove (gone : List σ → Bool) :
    read (remove gone t) p = if gone p then none else read t p := by
  induction t with
  | nil => simp [remove]
  | cons e t ih =>
    rw [remove, filter_cons]
    by_cases he : gone e.1 = true
    · simp only [he, Bool.not_true, Bool.false_eq_true, if_false]
      rw [← remove, ih, read_cons]
      split
      · rfl
      next hp =>
      have hne : e.1 ≠ p := fun h => hp (h ▸ he)
      rw [if_neg hne]
    · simp only [he, Bool.not_false, if_true]
      rw [read_cons, ← remove, ih, read_cons]
      by_cases hp : e.1 = p
      · rw [if_pos hp, if_pos hp, if_neg (hp ▸ he)]
      · rw [if_neg hp, if_neg hp]

theorem read_unlink : read (unlink t p) q = if q = p then none else read t q := by
  rw [unlink, read_remove]
  simp

omit [DecidableEq σ] in
theorem remove_remove (gone gone' : List σ → Bool) :
    remove gone' (remove gone t) = remove (fun q => gone q || gone' q) t := by
  rw [remove, remove, filter_filter]
  refine filter_congr fun e _ => ?_
  rw [Bool.not_or, Bool.and_comm]

omit [DecidableEq σ] in
theorem remove_eq_self {gone : List σ → Bool} (h : ∀ q ∈ t.map Prod.fst, gone q = false) :
    remove gone t = t := by
  refine filter_eq_self.mpr fun e he => ?_
  rw [h e.1 (mem_map_of_mem he)]
  rfl

theorem unlink_eq_self (h : read t p = none) : unlink t p = t := by
  refine remove_eq_self fun q hq => ?_
  refine decide_eq_false ?_
  rintro rfl
  exact read_eq_none.mp h hq

def unlinkAll (paths : List (List σ)) (t : Tree σ γ) : Tree σ γ := paths.foldl unlink t

theorem unlinkAll_eq (paths : List (List σ)) :
    unlinkAll paths t = remove (fun q => decide (q ∈ paths)) t := by
  induction paths generalizing t with
  | nil => exact (remove_eq_self fun q _ => by simp).symm
  | cons p paths ih =>
    show unlinkAll paths (unlink t p) = _
    rw [ih, unlink, remove_remove]
    congr 1
    funext q
    simp [mem_cons]

/-! ### Writing -/

theorem read_write : read (write t p c) q = if q = p then some c else read t q := by
  rw [write, read_cons, read_unlink]
  by_cases h : q = p
  · rw [if_pos h.symm, if_pos h]
  · rw [if_neg (fun h' => h h'.symm), if_neg h, if_neg h]

theorem mem_write : q ∈ (write t p c).map Prod.fst ↔ q = p ∨ q ∈ t.map Prod.fst := by
  rw [← read_isSome, read_write, ← read_isSome]
  by_cases h : q = p <;> simp [h]

/-- Nothing is at a path, below it, or in the place of a directory it lies in. -/
def Clear (t : Tree σ γ) (p : List σ) : Prop := occupied t p = false ∧ obstructed t p = false

/-- Nothing lies at the path, below it or above it. -/
theorem clear_iff : Clear t p ↔ ∀ q ∈ t.map Prod.fst, ¬ p <+: q ∧ ¬ q <+: p := by
  rw [Clear, ← Bool.not_eq_true, ← Bool.not_eq_true, occupied_iff, obstructed_iff]
  constructor
  · rintro ⟨hocc, hobstructed⟩ q hq
    exact ⟨fun h => hocc ⟨q, hq, h⟩, fun h => hobstructed ⟨q, hq, h⟩⟩
  · intro h
    exact ⟨fun ⟨q, hq, hpq⟩ => (h q hq).1 hpq, fun ⟨q, hq, hqp⟩ => (h q hq).2 hqp⟩

/-- Two paths of which neither is a directory of the other. -/
def Apart (p q : List σ) : Prop := ¬ p <+: q ∧ ¬ q <+: p

instance {p q : List σ} : Decidable (Apart p q) := inferInstanceAs (Decidable (_ ∧ _))

instance : Decidable (Clear t p) := inferInstanceAs (Decidable (_ ∧ _))

theorem Clear.write (h : Clear t q) (hpq : Apart q p) : Clear (write t p c) q := by
  rw [clear_iff] at h ⊢
  intro r hr
  rcases mem_write.mp hr with rfl | hr
  · exact hpq
  · exact h r hr

theorem Clear.of_write (h : Clear (FileTree.write t p c) q) : Clear t q := by
  rw [clear_iff] at h ⊢
  intro r hr
  exact h r (mem_write.mpr (Or.inr hr))

def copyAll (files : Tree σ γ) (t : Tree σ γ) : Tree σ γ :=
  files.foldl (fun t e => FileTree.write t e.1 e.2) t

/-- Copied files hide those that were there. -/
theorem read_copyAll {files : Tree σ γ} (hfiles : (files.map Prod.fst).Nodup) :
    read (copyAll files t) p = (read files p).or (read t p) := by
  induction files generalizing t with
  | nil => rfl
  | cons e files ih =>
    rw [map_cons, nodup_cons] at hfiles
    show read (copyAll files (FileTree.write t e.1 e.2)) p = _
    rw [ih hfiles.2, read_write, read_cons]
    by_cases h : e.1 = p
    · rw [if_pos h.symm, if_pos h, read_eq_none.mpr (h ▸ hfiles.1)]
      rfl
    · rw [if_neg (fun h' => h h'.symm), if_neg h]

end Cfms.Lib.FileTree
