import Mathlib.Logic.Function.Basic
import Mathlib.Logic.Relation

/-!
# Parent links as a forest

A partial map `up` sends a node to its parent.  `Below up g k` says that following `up` from `g`
reaches `k`.  The main facts are about changing one link: attaching `f` under `t` keeps every node
connected to the top exactly when `t` is not at or below `f` (`reattach_connected_iff`).
-/

namespace Cfms.Lib.Forest

open Function

variable {K : Type*} {up up' : K → Option K}

/-- `g` is `k` or lies below it. -/
def Below (up : K → Option K) (g k : K) : Prop := Relation.ReflTransGen (fun c p => up c = some p) g k

theorem Below.refl (k : K) : Below up k k := Relation.ReflTransGen.refl

variable {k : K}

theorem Below.head {c p : K} (hc : up c = some p) (h : Below up p k) : Below up c k :=
  Relation.ReflTransGen.head hc h

variable {g : K}

theorem below_cases : Below up g k ↔ g = k ∨ ∃ c, Below up g c ∧ up c = some k := by
  constructor
  · intro h
    rcases Relation.ReflTransGen.cases_tail h with h | ⟨c, hc, hk⟩
    · exact Or.inl h.symm
    · exact Or.inr ⟨c, hc, hk⟩
  · rintro (rfl | ⟨c, hc, hk⟩)
    · exact Relation.ReflTransGen.refl
    · exact Relation.ReflTransGen.tail hc hk

theorem below_head_cases : Below up g k ↔ g = k ∨ ∃ p, up g = some p ∧ Below up p k := by
  constructor
  · intro h
    rcases Relation.ReflTransGen.cases_head h with h | ⟨p, hp, hk⟩
    · exact Or.inl h
    · exact Or.inr ⟨p, hp, hk⟩
  · rintro (rfl | ⟨p, hp, hk⟩)
    · exact Relation.ReflTransGen.refl
    · exact Below.head hp hk

theorem Below.mem_ids {ids : List K} (hup : ∀ k ∈ ids, ∀ p, up k = some p → p ∈ ids)
    (h : Below up g k) (hg : g ∈ ids) : k ∈ ids := by
  induction h with
  | refl => exact hg
  | tail _ hk ih => exact hup _ ih _ hk

variable {P : K → Prop}

theorem Below.closed (hP : ∀ c p, P c → up c = some p → P p)
    (h : Below up g k) (hg : P g) : P k := by
  induction h with
  | refl => exact hg
  | tail _ hk ih => exact hP _ _ ih hk

theorem Below.transfer (hstep : ∀ c p, P c → up c = some p → up' c = some p ∧ P p)
    (h : Below up g k) (hg : P g) : Below up' g k := by
  induction h using Relation.ReflTransGen.head_induction_on with
  | refl => exact Below.refl k
  | head hc _ ih =>
    obtain ⟨hup', hp⟩ := hstep _ _ hg hc
    exact Below.head hup' (ih hp)

theorem not_cycle_of_below {top : K} (htop : up top = none) (h : Below up g top) :
    ¬ ∃ p, up g = some p ∧ Below up p g := by
  intro hcycle
  have hcl := h.closed (P := fun x => ∃ p, up x = some p ∧ Below up p g) ?_ hcycle
  · obtain ⟨p, hp, -⟩ := hcl
    rw [htop] at hp
    cases hp
  · rintro c p ⟨q, hq, hbelow⟩ hup
    rw [hup] at hq
    cases hq
    rcases below_head_cases.mp hbelow with heq | hfurth
    · rw [heq]
      exact hcycle
    · exact hfurth

variable [DecidableEq K] {f t top : K}

theorem reattach_connected (ht : Below up t top) (hnot : ¬ Below up t f) {x : K}
    (hx : Below up x top) : Below (Function.update up f (some t)) x top := by
  have htop : Below (update up f (some t)) t top := by
    refine ht.transfer (P := fun c => ¬ Below up c f) ?_ hnot
    intro c p hc hup
    have hne : c ≠ f := fun heq => hc (heq ▸ Below.refl c)
    rw [update_of_ne hne]
    exact ⟨hup, fun hp => hc (Below.head hup hp)⟩
  induction hx using Relation.ReflTransGen.head_induction_on with
  | refl => exact Below.refl top
  | @head c p hc _ ih =>
    by_cases heq : c = f
    · rw [heq]
      exact Below.head (update_self f (some t) up) htop
    · refine Below.head ?_ ih
      rw [update_of_ne heq]
      exact hc

theorem reattach_disconnected (hne : f ≠ top) (htop : up top = none) (hbelow : Below up t f) :
    ¬ Below (Function.update up f (some t)) f top := by
  intro h
  have hcl := h.closed (P := fun x => Below up x f) ?_ (Below.refl f)
  · rcases below_head_cases.mp hcl with heq | ⟨p, hp, -⟩
    · exact hne heq.symm
    · rw [htop] at hp
      cases hp
  · intro c p hc hup
    by_cases heq : c = f
    · rw [heq, update_self] at hup
      cases hup
      exact hbelow
    · rw [update_of_ne heq] at hup
      rcases below_head_cases.mp hc with hcf | ⟨q, hq, hqf⟩
      · exact absurd hcf heq
      rw [hup] at hq
      cases hq
      exact hqf

/-- **Reattaching a node keeps it connected to the top exactly when it goes outside itself.** -/
theorem reattach_connected_iff (hne : f ≠ top) (htop : up top = none) (hf : Below up f top)
    (ht : Below up t top) :
    Below (Function.update up f (some t)) f top ↔ ¬ Below up t f := by
  constructor
  · intro h hbelow
    exact reattach_disconnected hne htop hbelow h
  · intro hnot
    exact reattach_connected ht hnot hf

end Cfms.Lib.Forest
