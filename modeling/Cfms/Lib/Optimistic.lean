import Mathlib.Data.Nat.Notation
import Mathlib.Tactic.SplitIfs

/-!
# Rows with a revision

A row counts its revisions and is replaced or deleted only at the revision that the writer
expects.  A missing row has revision 0, so that the first insert is one more case of the same
count.

A writer decides from what it has read and writes later.  `Snapshot.Holds` is the contract of such
a read: while the version of the system is still the one that was read, the system still looks as
it was read.  A write that checks the version therefore acts on the present state.
-/

namespace Cfms.Lib.Optimistic

structure Revisioned (α : Type*) where
  revision : ℕ
  value : α
  deriving DecidableEq

variable {α : Type*}

/-- The revision of a row that may be missing. -/
def revisionOf : Option (Revisioned α) → ℕ
  | none => 0
  | some row => row.revision

/-- Insert a row if there is none; `none` when the row is there. -/
def insertAbsent (row : Option (Revisioned α)) (value : α) : Option (Revisioned α) :=
  match row with
  | none => some ⟨1, value⟩
  | some _ => none

def replaceAt (row : Option (Revisioned α)) (expected : ℕ) (value : α) : Option (Revisioned α) :=
  match row with
  | none => none
  | some stored => if stored.revision = expected then some ⟨expected + 1, value⟩ else none

def deletableAt (row : Option (Revisioned α)) (expected : ℕ) : Bool :=
  row.any fun stored => stored.revision == expected

variable {row : Option (Revisioned α)} {value : α} {row' : Revisioned α}

theorem insertAbsent_eq_some
    (h : insertAbsent row value = some row') : row = none ∧ row' = ⟨1, value⟩ := by
  cases row with
  | none =>
    cases h
    exact ⟨rfl, rfl⟩
  | some stored => cases h

theorem replaceAt_eq_some {expected : ℕ} (h : replaceAt row expected value = some row') :
    revisionOf row = expected ∧ row' = ⟨expected + 1, value⟩ := by
  cases row with
  | none => cases h
  | some stored =>
    rw [replaceAt] at h
    split_ifs at h with hrev
    cases h
    exact ⟨hrev, rfl⟩

/-- What was read of a system, at a version of it. -/
structure Snapshot (β : Type*) where
  version : ℕ
  value : β

variable {S β : Type*} {version : S → ℕ} {view : S → β} {snap : Snapshot β} {s s' : S}

/-- The system has moved on, or still looks as it was read. -/
def Snapshot.Holds (version : S → ℕ) (view : S → β) (snapshot : Snapshot β) (s : S) : Prop :=
  snapshot.version ≤ version s ∧ (snapshot.version = version s → view s = snapshot.value)

theorem Snapshot.Holds.read (s : S) : Snapshot.Holds version view ⟨version s, view s⟩ s :=
  ⟨Nat.le_refl _, fun _ => rfl⟩

/-- A read stays good across a step that does not go back and that leaves the view alone or moves
on. -/
theorem Snapshot.Holds.step (h : snap.Holds version view s) (hle : version s ≤ version s')
    (hview : version s' = version s → view s' = view s) : snap.Holds version view s' := by
  refine ⟨Nat.le_trans h.1 hle, ?_⟩
  intro hsame
  have hback : version s' = version s := Nat.le_antisymm (hsame ▸ h.1) hle
  rw [hview hback]
  exact h.2 (hsame.trans hback)

end Cfms.Lib.Optimistic
