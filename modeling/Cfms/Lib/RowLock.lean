import Mathlib.Data.Option.Basic

/-!
# A row that transactions write

A transaction that writes a row holds its lock until it ends.  The version it has written so far, the
draft, is seen by nobody else; a commit puts it in the place of the committed version and a rollback
drops it.

`drop` is what a rollback leaves, and also what the row looks like to everyone else: the operations
of other transactions go through on it in the same way (`drop_write`, `drop_commit`).
-/

namespace Cfms.Lib

/-- A row with its committed version, and the draft of the transaction that holds the lock. -/
structure LockedRow (τ ρ : Type*) where
  committed : ρ
  draft : Option (τ × ρ)
  deriving DecidableEq

namespace LockedRow

variable {τ ρ : Type*} [DecidableEq τ]

/-- No other transaction holds the lock. -/
def writable (tx : τ) (row : LockedRow τ ρ) : Bool := row.draft.all fun draft => draft.1 == tx

/-- What an `UPDATE` of the transaction finds. -/
def current (tx : τ) (row : LockedRow τ ρ) : ρ :=
  match row.draft with
  | none => row.committed
  | some (writer, version) => if writer = tx then version else row.committed

def write (tx : τ) (version : ρ) (row : LockedRow τ ρ) : LockedRow τ ρ :=
  { row with draft := some (tx, version) }

def commit (tx : τ) (row : LockedRow τ ρ) : LockedRow τ ρ :=
  match row.draft with
  | none => row
  | some (writer, version) => if writer = tx then ⟨version, none⟩ else row

/-- `ROLLBACK`. -/
def drop (tx : τ) (row : LockedRow τ ρ) : LockedRow τ ρ :=
  match row.draft with
  | none => row
  | some (writer, _) => if writer = tx then { row with draft := none } else row

variable {tx other : τ} {row : LockedRow τ ρ} {version : ρ}

theorem writable_iff : row.writable tx = true ↔ ∀ writer version,
    row.draft = some (writer, version) → writer = tx := by
  rw [writable, Option.all_eq_true]
  constructor
  · intro h writer version hdraft
    exact beq_iff_eq.mp (h _ hdraft)
  · rintro h ⟨writer, version⟩ hdraft
    exact beq_iff_eq.mpr (h writer version hdraft)

omit [DecidableEq τ] in
@[simp] theorem draft_write : (row.write tx version).draft = some (tx, version) := rfl

@[simp] theorem committed_drop : (row.drop tx).committed = row.committed := by
  unfold drop
  split
  · rfl
  · split <;> rfl

theorem draft_drop_eq_some {writer : τ} : (row.drop tx).draft = some (writer, version) ↔
      row.draft = some (writer, version) ∧ writer ≠ tx := by
  unfold drop
  cases hdraft : row.draft with
  | none => simp [hdraft]
  | some draft =>
    obtain ⟨holder, held⟩ := draft
    by_cases hhold : holder = tx
    · subst hhold
      simp only [if_true, reduceCtorEq, false_iff]
      rintro ⟨⟨rfl, -⟩, hne⟩
      exact hne rfl
    · simp only [if_neg hhold, hdraft]
      constructor
      · intro h
        cases h
        exact ⟨rfl, hhold⟩
      · exact fun h => h.1

theorem commit_of_draft (h : row.draft = some (tx, version)) : row.commit tx = ⟨version, none⟩ := by
  rw [commit, h]
  exact if_pos rfl

variable (h : ∀ writer version, row.draft = some (writer, version) → writer ≠ tx)

include h

theorem commit_of_other :
    row.commit tx = row := by
  rw [commit]
  split
  · rfl
  · rename_i writer version hdraft
    exact if_neg (h writer version hdraft)

theorem drop_of_other :
    row.drop tx = row := by
  rw [drop]
  split
  · rfl
  · rename_i writer version hdraft
    exact if_neg (h writer version hdraft)

omit h

theorem current_of_draft (h : row.draft = some (tx, version)) : row.current tx = version := by
  rw [current, h]
  exact if_pos rfl

theorem current_of_other (h : ∀ writer version, row.draft = some (writer, version) → writer ≠ tx) :
    row.current tx = row.committed := by
  rw [current]
  split
  · rfl
  · rename_i writer version hdraft
    exact if_neg (h writer version hdraft)

/-! ### Without one transaction -/

theorem drop_write_self (h : row.writable tx = true) :
    (row.write tx version).drop tx = row.drop tx := by
  have hwrit : (row.write tx version).drop tx = ⟨row.committed, none⟩ := by
    exact if_pos rfl
  rw [hwrit, drop]
  cases hdraft : row.draft with
  | none =>
    show (⟨row.committed, none⟩ : LockedRow τ ρ) = row
    rw [← hdraft]
  | some draft =>
    obtain ⟨writer, held⟩ := draft
    exact (if_pos (writable_iff.mp h writer held hdraft)).symm

theorem drop_write (h : other ≠ tx) :
    (row.write other version).drop tx = (row.drop tx).write other version := by
  rw [drop_of_other]
  · rw [write, write, committed_drop]
  intro writer held hdraft
  rw [draft_write, Option.some.injEq, Prod.mk.injEq] at hdraft
  rw [← hdraft.1]
  exact h

theorem writable_drop (h : row.writable other = true) : (row.drop tx).writable other = true := by
  rw [writable_iff] at h ⊢
  intro writer held hdraft
  exact h writer held (draft_drop_eq_some.mp hdraft).1

theorem current_drop (h : other ≠ tx) : (row.drop tx).current other = row.current other := by
  by_cases hmine : ∃ held, row.draft = some (other, held)
  · obtain ⟨held, hdraft⟩ := hmine
    rw [current_of_draft hdraft, current_of_draft (draft_drop_eq_some.mpr ⟨hdraft, h⟩)]
  · have hother : ∀ writer held, row.draft = some (writer, held) → writer ≠ other := by
      rintro writer held hdraft rfl
      exact hmine ⟨held, hdraft⟩
    rw [current_of_other hother, current_of_other, committed_drop]
    intro writer held hdraft
    exact hother writer held (draft_drop_eq_some.mp hdraft).1

theorem drop_commit (h : other ≠ tx) : (row.commit other).drop tx = (row.drop tx).commit other := by
  by_cases hmine : ∃ held, row.draft = some (other, held)
  · obtain ⟨held, hdraft⟩ := hmine
    rw [commit_of_draft hdraft, commit_of_draft (draft_drop_eq_some.mpr ⟨hdraft, h⟩)]
    rfl
  · have hother : ∀ writer held, row.draft = some (writer, held) → writer ≠ other := by
      rintro writer held hdraft rfl
      exact hmine ⟨held, hdraft⟩
    rw [commit_of_other hother, commit_of_other]
    intro writer held hdraft
    exact hother writer held (draft_drop_eq_some.mp hdraft).1

theorem drop_drop (h : other ≠ tx) : (row.drop other).drop tx = (row.drop tx).drop other := by
  have hfree : ∀ {held : ρ} {mine theirs : τ}, row.draft = some (mine, held) → mine ≠ theirs →
      (row.drop mine).drop theirs = (row.drop theirs).drop mine := by
    intro held mine theirs hdraft hne
    have hkept : row.drop theirs = row := by
      refine drop_of_other fun writer version hsame => ?_
      rw [hdraft, Option.some.injEq, Prod.mk.injEq] at hsame
      rw [← hsame.1]
      exact hne
    rw [hkept, drop_of_other]
    intro writer version hsame
    obtain ⟨hsame, hwr⟩ := draft_drop_eq_some.mp hsame
    rw [hdraft, Option.some.injEq, Prod.mk.injEq] at hsame
    exact absurd hsame.1.symm hwr
  cases hdraft : row.draft with
  | none => simp only [drop, hdraft]
  | some draft =>
    obtain ⟨writer, held⟩ := draft
    by_cases hother : writer = other
    · subst hother
      exact hfree hdraft h
    · by_cases htx : writer = tx
      · subst htx
        exact (hfree hdraft h.symm).symm
      · simp only [drop, hdraft, if_neg hother, if_neg htx]

end LockedRow

end Cfms.Lib
