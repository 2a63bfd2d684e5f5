import Mathlib.Data.List.Basic

/-!
# Loops that may raise

A loop over a list whose body may raise is `foldlM` in `Except`.  What a body keeps, a loop keeps
(`foldlM_preserves`); what relates the state to the elements seen so far relates the last state to all
of them (`foldlM_relates`); and a part of the state that can be computed on its own is computed on its
own by the loop (`map_foldlM`).
-/

namespace Cfms.Lib.Fallible

variable {α β γ σ τ ε : Type*}

theorem exists_of_bind_eq_ok {x : Except ε α} {f : α → Except ε β} {b : β}
    (h : x.bind f = .ok b) : ∃ a, x = .ok a ∧ f a = .ok b := by
  cases x with
  | error error => cases h
  | ok a => exact ⟨a, rfl, h⟩

variable {f : σ → α → Except ε σ} {s s' : σ}

theorem foldlM_cons_ok_iff {a : α} {rest : List α} :
    (a :: rest).foldlM f s = .ok s' ↔ ∃ middle, f s a = .ok middle ∧ rest.foldlM f middle = .ok s' := by
  rw [List.foldlM_cons]
  constructor
  · exact exists_of_bind_eq_ok
  rintro ⟨middle, hstep, hrest⟩
  rw [hstep]
  exact hrest

variable {elements : List α}

theorem foldlM_preserves {P : σ → Prop} (hstep : ∀ s a s', P s → f s a = .ok s' → P s') (hs : P s)
    (h : elements.foldlM f s = .ok s') : P s' := by
  induction elements generalizing s with
  | nil =>
    cases h
    exact hs
  | cons a rest ih =>
    obtain ⟨middle, hmid, hrest⟩ := foldlM_cons_ok_iff.mp h
    exact ih (hstep s a middle hs hmid) hrest

theorem foldlM_relates {R : List α → σ → Prop}
    (hstep : ∀ seen a s s', R seen s → f s a = .ok s' → R (seen ++ [a]) s') (hs : R [] s)
    (h : elements.foldlM f s = .ok s') : R elements s' := by
  suffices hall : ∀ (rest : List α) (seen : List α) (s : σ), R seen s →
      rest.foldlM f s = .ok s' → R (seen ++ rest) s' from hall elements [] s hs h
  intro rest
  induction rest with
  | nil =>
    intro seen s hseen hrest
    cases hrest
    rwa [List.append_nil]
  | cons a rest ih =>
    intro seen s hseen hrest
    obtain ⟨middle, hmid, hrest⟩ := foldlM_cons_ok_iff.mp hrest
    rw [List.append_cons]
    exact ih (seen ++ [a]) middle (hstep seen a s middle hseen hmid) hrest

theorem foldlM_simulates {f' : τ → β → Except ε τ} {g : σ → τ} {e : α → β}
    (hstep : ∀ s a s', f s a = .ok s' → f' (g s) (e a) = .ok (g s'))
    (h : elements.foldlM f s = .ok s') : (elements.map e).foldlM f' (g s) = .ok (g s') := by
  induction elements generalizing s with
  | nil =>
    cases h
    rfl
  | cons a rest ih =>
    obtain ⟨middle, hmid, hrest⟩ := foldlM_cons_ok_iff.mp h
    exact foldlM_cons_ok_iff.mpr ⟨g middle, hstep s a middle hmid, ih hrest⟩

theorem map_foldlM {g : σ → τ} {f' : τ → α → Except ε τ}
    (hstep : ∀ s a, (f s a).map g = f' (g s) a) (elements : List α) (s : σ) :
    (elements.foldlM f s).map g = elements.foldlM f' (g s) := by
  induction elements generalizing s with
  | nil => rfl
  | cons a rest ih =>
    rw [List.foldlM_cons, List.foldlM_cons, ← hstep s a]
    cases hmid : f s a with
    | error error => rfl
    | ok middle => exact ih middle

/-- The computation does not raise. -/
def Succeeds (x : Except ε α) : Prop := ∃ a, x = .ok a

theorem succeeds_bind {f : α → Except ε β} {x : Except ε α} :
    Succeeds (x.bind f) ↔ ∃ a, x = .ok a ∧ Succeeds (f a) := by
  constructor
  · rintro ⟨b, h⟩
    obtain ⟨a, hx, ha⟩ := exists_of_bind_eq_ok h
    exact ⟨a, hx, b, ha⟩
  · rintro ⟨a, rfl, b, hb⟩
    exact ⟨b, hb⟩

end Cfms.Lib.Fallible
