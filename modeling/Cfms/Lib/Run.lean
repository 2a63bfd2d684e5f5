import Mathlib.Data.Option.Basic

/-!
# Runs of a step function

A system is a state, a kind of action and a partial step function: `step s a` is `none` when the
action is not possible in `s`.  A run is a list of actions, all possible one after another.
`Meets step C s actions` says that every action of the run meets the condition `C` in the state
it is taken in.
-/

namespace Cfms.Lib.Run

variable {S A : Type*} {step : S → A → Option S} {C : S → A → Prop} {I : S → Prop}

/-- The state after a list of actions. -/
def run (step : S → A → Option S) : S → List A → Option S
  | s, [] => some s
  | s, a :: rest => (step s a).bind fun s' => run step s' rest

/-- Every action of the run meets `C` in the state before it. -/
def Meets (step : S → A → Option S) (C : S → A → Prop) : S → List A → Prop
  | _, [] => True
  | s, a :: rest => C s a ∧ ∀ s', step s a = some s' → Meets step C s' rest

variable {s t : S} {a : A}

theorem run_cons_eq_some {rest : List A} :
    run step s (a :: rest) = some t ↔ ∃ s', step s a = some s' ∧ run step s' rest = some t := by
  rw [run, Option.bind_eq_some_iff]

variable {front : List A}

theorem run_append {u : S} {back : List A} (hfront : run step s front = some t)
    (hback : run step t back = some u) : run step s (front ++ back) = some u := by
  induction front generalizing s with
  | nil =>
    cases hfront
    exact hback
  | cons a rest ih =>
    obtain ⟨s', hs', hrest⟩ := run_cons_eq_some.mp hfront
    exact run_cons_eq_some.mpr ⟨s', hs', ih hrest⟩

theorem run_concat {u : S} (hfront : run step s front = some t)
    (hstep : step t a = some u) : run step s (front ++ [a]) = some u :=
  run_append hfront (run_cons_eq_some.mpr ⟨u, hstep, rfl⟩)

variable {actions : List A}

theorem run_eq_some_getD (d : S) (h : (run step s actions).isSome = true) :
    run step s actions = some ((run step s actions).getD d) := by
  obtain ⟨t, ht⟩ := Option.isSome_iff_exists.mp h
  rw [ht]
  rfl

/-- `Meets` for a condition that can be evaluated. -/
def meetsBool (step : S → A → Option S) (c : S → A → Bool) : S → List A → Bool
  | _, [] => true
  | s, a :: rest => c s a && (step s a).all fun s' => meetsBool step c s' rest

theorem meets_of_meetsBool {c : S → A → Bool}
    (h : meetsBool step c s actions = true) : Meets step (fun s a => c s a = true) s actions := by
  induction actions generalizing s with
  | nil => trivial
  | cons a rest ih =>
    rw [meetsBool, Bool.and_eq_true] at h
    refine ⟨h.1, ?_⟩
    intro s' hs'
    have hrest := h.2
    rw [hs'] at hrest
    exact ih hrest

theorem meets_true (actions : List A) : Meets step (fun _ _ => True) s actions := by
  induction actions generalizing s with
  | nil => trivial
  | cons a rest ih => exact ⟨trivial, fun _ _ => ih⟩

theorem meets_cons {s' : S} {rest : List A} (hstep : step s a = some s') (ha : C s a)
    (hrest : Meets step C s' rest) : Meets step C s (a :: rest) := by
  refine ⟨ha, ?_⟩
  intro t ht
  rw [hstep, Option.some.injEq] at ht
  rw [← ht]
  exact hrest

theorem meets_append {back : List A} : Meets step C s (front ++ back) ↔
      Meets step C s front ∧ ∀ t, run step s front = some t → Meets step C t back := by
  induction front generalizing s with
  | nil => simp [Meets, run]
  | cons a rest ih =>
    simp only [List.cons_append, Meets, run_cons_eq_some, ih]
    constructor
    · rintro ⟨ha, hrest⟩
      refine ⟨⟨ha, fun s' hs' => (hrest s' hs').1⟩, ?_⟩
      rintro t ⟨s', hs', ht⟩
      exact (hrest s' hs').2 t ht
    · rintro ⟨⟨ha, hfront⟩, hback⟩
      exact ⟨ha, fun s' hs' => ⟨hfront s' hs', fun t ht => hback t ⟨s', hs', ht⟩⟩⟩

/-- **The invariant rule.**  What every step that meets `C` preserves holds after every run whose
steps all meet `C`. -/
theorem run_invariant (hstep : ∀ s a s', I s → C s a → step s a = some s' → I s') (hs : I s)
    (hmeets : Meets step C s actions)
    (hrun : run step s actions = some t) : I t := by
  induction actions generalizing s with
  | nil =>
    rw [run, Option.some.injEq] at hrun
    rw [← hrun]
    exact hs
  | cons a rest ih =>
    obtain ⟨s', hs', hrest⟩ := run_cons_eq_some.mp hrun
    exact ih (hstep s a s' hs hmeets.1 hs') (hmeets.2 s' hs') hrest

end Cfms.Lib.Run
