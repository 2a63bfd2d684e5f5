import Cfms.Lib.Forest
import Mathlib.Data.Finset.Max

/-!
# Leaf-to-root order of a forest

A finite set of nodes `ids` with at most one parent `up k` each.  `leafOrder` is the queue
algorithm that emits the leaves first and a parent once all its children are out, by counting
the children that are still missing.  `bubbleUp` then carries a mark from the nodes to everything
above them in one pass over that order.

* `leafOrder_ready`: every node is emitted after all its children;
* `mem_leafOrder`, `length_leafOrder`: if parents strictly decrease a rank, all nodes are emitted,
  each once;
* `bubbleUp_leafOrder`: the mark of a node says whether some node at or below it is marked.
-/

namespace Cfms.Lib.LeafOrder

open Lib.Forest List Function

variable {K : Type*} [DecidableEq K]

/-- The nodes whose parent is `k`. -/
def childrenOf (ids : List K) (up : K → Option K) (k : K) : List K :=
  ids.filter fun c => decide (up c = some k)

/-- The loop: `degree` counts the children of a node that are not out yet. -/
def leafOrderLoop (up : K → Option K) : ℕ → List K → (K → ℕ) → List K
  | 0, _, _ => []
  | _ + 1, [], _ => []
  | fuel + 1, k :: queue, degree =>
    k :: match up k with
      | none => leafOrderLoop up fuel queue degree
      | some p =>
        let degree' := Function.update degree p (degree p - 1)
        leafOrderLoop up fuel (if degree' p = 0 then queue ++ [p] else queue) degree'

def leafOrder (ids : List K) (up : K → Option K) : List K :=
  leafOrderLoop up (ids.length + 1)
    (ids.filter fun k => decide ((childrenOf ids up k).length = 0))
    (fun k => (childrenOf ids up k).length)

/-- Mark each node of the order from its own mark and those of its children. -/
def bubbleUp (ids : List K) (up : K → Option K) (base : K → Bool) :
    List K → (K → Bool) → (K → Bool)
  | [], has => has
  | k :: rest, has =>
    bubbleUp ids up base rest (Function.update has k (base k || (childrenOf ids up k).any has))

/-- Each listed node is new and has all its children out when its turn comes. -/
def ReadyOrder (ids : List K) (up : K → Option K) : List K → List K → Prop
  | _, [] => True
  | done, k :: rest =>
    k ∈ ids ∧ k ∉ done ∧ (∀ c ∈ childrenOf ids up k, c ∈ done) ∧ ReadyOrder ids up (done ++ [k]) rest

variable {ids : List K} {up : K → Option K}

variable {k : K}

theorem mem_childrenOf {c : K} : c ∈ childrenOf ids up k ↔ c ∈ ids ∧ up c = some k := by
  simp [childrenOf]

/-! ### The loop -/

/-- What holds between two rounds of the loop. -/
structure LoopInvariant (ids : List K) (up : K → Option K) (done queue : List K)
    (degree : K → ℕ) : Prop where
  nodup : (done ++ queue).Nodup
  mem_ids : ∀ k ∈ done ++ queue, k ∈ ids
  degree_eq : ∀ k, degree k = ((childrenOf ids up k).filter fun c => decide (c ∉ done)).length
  ready_iff : ∀ k ∈ ids, k ∈ done ++ queue ↔ degree k = 0

theorem LoopInvariant.initial (hids : ids.Nodup) :
    LoopInvariant ids up [] (ids.filter fun k => decide ((childrenOf ids up k).length = 0))
      (fun k => (childrenOf ids up k).length) where
  nodup := by
    exact hids.filter _
  mem_ids := by
    intro k hk
    exact (mem_filter.mp hk).1
  degree_eq := by
    intro k
    simp
  ready_iff := by
    intro k hk
    simp [hk]

variable {done : List K}

theorem filter_not_mem_append (hids : ids.Nodup) {q : K} :
    ((childrenOf ids up q).filter fun c => decide (c ∉ done ++ [k])) =
      ((childrenOf ids up q).filter fun c => decide (c ∉ done)).erase k := by
  have hnodup : ((childrenOf ids up q).filter fun c => decide (c ∉ done)).Nodup :=
    (List.Nodup.filter _ hids).filter _
  rw [hnodup.erase_eq_filter, filter_filter]
  refine filter_congr ?_
  intro c _
  by_cases hk : c = k
  · simp [hk]
  · simp [hk]

variable {queue : List K} {degree : K → ℕ}

theorem LoopInvariant.child_missing
    (inv : LoopInvariant ids up done (k :: queue) degree) : k ∉ done ∧ k ∈ ids := by
  have hnodup := inv.nodup
  rw [nodup_append] at hnodup
  exact ⟨fun hk => hnodup.2.2 k hk k mem_cons_self rfl, inv.mem_ids k (by simp)⟩

variable {p : K}

theorem LoopInvariant.degree_pos
    (inv : LoopInvariant ids up done (k :: queue) degree) (hp : up k = some p) : 0 < degree p := by
  obtain ⟨hk, hmem⟩ := inv.child_missing
  rw [inv.degree_eq p]
  refine length_pos_of_mem (a := k) ?_
  exact mem_filter.mpr ⟨mem_childrenOf.mpr ⟨hmem, hp⟩, by simpa using hk⟩

theorem LoopInvariant.degree_step (hids : ids.Nodup)
    (inv : LoopInvariant ids up done (k :: queue) degree) (q : K) :
    ((childrenOf ids up q).filter fun c => decide (c ∉ done ++ [k])).length =
      if up k = some q then degree q - 1 else degree q := by
  obtain ⟨hk, hmem⟩ := inv.child_missing
  rw [filter_not_mem_append hids, inv.degree_eq q]
  by_cases hq : up k = some q
  · rw [if_pos hq, length_erase_of_mem]
    exact mem_filter.mpr ⟨mem_childrenOf.mpr ⟨hmem, hq⟩, by simpa using hk⟩
  · rw [if_neg hq, erase_of_not_mem]
    intro hchild
    exact hq (mem_childrenOf.mp (mem_filter.mp hchild).1).2

theorem LoopInvariant.step_top (hids : ids.Nodup)
    (inv : LoopInvariant ids up done (k :: queue) degree) (hk : up k = none) :
    LoopInvariant ids up (done ++ [k]) queue degree where
  nodup := by simpa using inv.nodup
  mem_ids := by simpa using inv.mem_ids
  degree_eq := by
    intro q
    rw [inv.degree_step hids q, if_neg (by rw [hk]; simp)]
  ready_iff := by simpa using inv.ready_iff

theorem LoopInvariant.step_child (hids : ids.Nodup) (hup : ∀ k ∈ ids, ∀ p, up k = some p → p ∈ ids)
    (inv : LoopInvariant ids up done (k :: queue) degree) (hp : up k = some p) :
    LoopInvariant ids up (done ++ [k])
      (if Function.update degree p (degree p - 1) p = 0 then queue ++ [p] else queue)
      (Function.update degree p (degree p - 1)) := by
  obtain ⟨-, hmem⟩ := inv.child_missing
  have hpids : p ∈ ids := hup k hmem p hp
  have hpos := inv.degree_pos hp
  -- the parent was not ready before, since `k` was missing below it
  have hpnew : p ∉ done ++ k :: queue := by
    intro h
    have := (inv.ready_iff p hpids).mp h
    omega
  have hother : ∀ q, q ≠ p → update degree p (degree p - 1) q = degree q := by
    intro q hq
    exact update_of_ne hq _ _
  rw [update_self]
  refine ⟨?_, ?_, ?_, ?_⟩
  · by_cases hzero : degree p - 1 = 0
    · rw [if_pos hzero, ← append_assoc, nodup_append]
      refine ⟨by simpa using inv.nodup, by simp, ?_⟩
      intro a ha b hb hab
      rw [mem_singleton] at hb
      exact hpnew (by rw [← hb, ← hab]; simpa using ha)
    · rw [if_neg hzero]
      simpa using inv.nodup
  · intro q hq
    by_cases hzero : degree p - 1 = 0
    · rw [if_pos hzero, ← append_assoc, mem_append] at hq
      rcases hq with hq | hq
      · exact inv.mem_ids q (by simpa using hq)
      · rw [mem_singleton.mp hq]
        exact hpids
    · rw [if_neg hzero] at hq
      exact inv.mem_ids q (by simpa using hq)
  · intro q
    rw [inv.degree_step hids q]
    by_cases hq : q = p
    · rw [hq, update_self, if_pos hp]
    rw [hother q hq, if_neg]
    intro h
    rw [hp] at h
    exact hq (Option.some.inj h).symm
  · intro q hqids
    have hold := inv.ready_iff q hqids
    by_cases hq : q = p
    · rw [hq, update_self]
      by_cases hzero : degree p - 1 = 0
      · simp [hzero]
      rw [if_neg hzero]
      constructor
      · intro h
        exact absurd (by simpa using h) hpnew
      · intro h
        exact absurd h hzero
    · rw [hother q hq, ← hold]
      by_cases hzero : degree p - 1 = 0
      · simp [hzero, hq]
      · simp [hzero]

theorem LoopInvariant.children_done (inv : LoopInvariant ids up done (k :: queue) degree) :
    ∀ c ∈ childrenOf ids up k, c ∈ done := by
  obtain ⟨-, hmem⟩ := inv.child_missing
  have hzero := (inv.ready_iff k hmem).mp (by simp)
  rw [inv.degree_eq k, length_eq_zero_iff, filter_eq_nil_iff] at hzero
  intro c hc
  simpa using hzero c hc

theorem leafOrderLoop_spec (hids : ids.Nodup) (hup : ∀ k ∈ ids, ∀ p, up k = some p → p ∈ ids)
    {fuel : ℕ}
    (inv : LoopInvariant ids up done queue degree) (hfuel : ids.length < fuel + done.length) :
    ReadyOrder ids up done (leafOrderLoop up fuel queue degree) ∧
      ∀ k ∈ ids, (∀ c ∈ childrenOf ids up k, c ∈ done ++ leafOrderLoop up fuel queue degree) →
        k ∈ done ++ leafOrderLoop up fuel queue degree := by
  induction fuel generalizing done queue degree with
  | zero =>
    have hlen : done.length ≤ ids.length :=
      (List.Nodup.subperm (nodup_append.mp inv.nodup).1
        (fun k hk => inv.mem_ids k (mem_append_left _ hk))).length_le
    omega
  | succ fuel ih =>
    cases queue with
    | nil =>
      refine ⟨trivial, ?_⟩
      intro k hk hch
      rw [leafOrderLoop] at hch ⊢
      rw [inv.ready_iff k hk, inv.degree_eq k, length_eq_zero_iff, filter_eq_nil_iff]
      intro c hc
      simpa using hch c hc
    | cons k queue =>
      obtain ⟨hnew, hmem⟩ := inv.child_missing
      rw [leafOrderLoop]
      cases hk : up k with
      | none =>
        obtain ⟨hready, hcl⟩ := ih (inv.step_top hids hk) (by simp; omega)
        refine ⟨⟨hmem, hnew, inv.children_done, hready⟩, ?_⟩
        simpa using hcl
      | some p =>
        obtain ⟨hready, hcl⟩ := ih (inv.step_child hids hup hk) (by simp; omega)
        refine ⟨⟨hmem, hnew, inv.children_done, hready⟩, ?_⟩
        simpa using hcl

/-! ### The order -/

theorem leafOrder_ready (hids : ids.Nodup) (hup : ∀ k ∈ ids, ∀ p, up k = some p → p ∈ ids) :
    ReadyOrder ids up [] (leafOrder ids up) :=
  (leafOrderLoop_spec hids hup (LoopInvariant.initial hids) (by simp)).1

variable {order : List K}

theorem ReadyOrder.mem_ids (h : ReadyOrder ids up done order) : ∀ k ∈ order, k ∈ ids := by
  induction order generalizing done with
  | nil => simp
  | cons k rest ih =>
    obtain ⟨hk, -, -, hrest⟩ := h
    intro q hq
    rcases mem_cons.mp hq with rfl | hq
    · exact hk
    · exact ih hrest q hq

theorem ReadyOrder.nodup (h : ReadyOrder ids up done order) :
    order.Nodup ∧ ∀ k ∈ order, k ∉ done := by
  induction order generalizing done with
  | nil => simp
  | cons k rest ih =>
    obtain ⟨-, hk, -, hrest⟩ := h
    obtain ⟨hnodup, hfresh⟩ := ih hrest
    refine ⟨nodup_cons.mpr ⟨fun hmem => hfresh k hmem (by simp), hnodup⟩, ?_⟩
    intro q hq
    rcases mem_cons.mp hq with rfl | hq
    · exact hk
    · exact fun hdone => hfresh q hq (mem_append_left _ hdone)

variable {rank : K → ℕ}

/-- **Every node is emitted** when parents decrease a rank. -/
theorem mem_leafOrder (hids : ids.Nodup) (hup : ∀ k ∈ ids, ∀ p, up k = some p → p ∈ ids)
    (hrank : ∀ k ∈ ids, ∀ p, up k = some p → rank p < rank k) :
    k ∈ leafOrder ids up ↔ k ∈ ids := by
  constructor
  · exact (leafOrder_ready hids hup).mem_ids k
  intro hk
  by_contra hout
  -- a missing node of the highest rank has all its children out, so it is out too
  have hne : (ids.toFinset.filter fun q => q ∉ leafOrder ids up).Nonempty :=
    ⟨k, by simp [hk, hout]⟩
  obtain ⟨top, htop, hmax⟩ := Finset.exists_max_image _ rank hne
  rw [Finset.mem_filter, mem_toFinset] at htop
  refine htop.2 ?_
  have hcl := (leafOrderLoop_spec hids hup (LoopInvariant.initial hids)
    (by simp : ids.length < ids.length + 1 + ([] : List K).length)).2 top htop.1
  rw [← leafOrder, nil_append] at hcl
  refine hcl ?_
  intro c hc
  obtain ⟨hcids, hcup⟩ := mem_childrenOf.mp hc
  by_contra hcout
  have hle := hmax c (by simp [hcids, hcout])
  have hlt := hrank c hcids top hcup
  omega

theorem length_leafOrder (hids : ids.Nodup) (hup : ∀ k ∈ ids, ∀ p, up k = some p → p ∈ ids)
    (hrank : ∀ k ∈ ids, ∀ p, up k = some p → rank p < rank k) :
    (leafOrder ids up).length = ids.length := by
  refine List.Perm.length_eq ((perm_ext_iff_of_nodup (leafOrder_ready hids hup).nodup.1 hids).mpr
    ?_)
  intro k
  exact mem_leafOrder hids hup hrank

theorem mem_of_below (hup : ∀ k ∈ ids, ∀ p, up k = some p → p ∈ ids)
    (hcl : ∀ k ∈ done, ∀ c ∈ childrenOf ids up k, c ∈ done) {g : K} (hg : g ∈ ids)
    (h : Below up g k) (hk : k ∈ done) : g ∈ done := by
  induction h using Relation.ReflTransGen.head_induction_on with
  | refl => exact hk
  | head hc _ ih => exact hcl _ (ih (hup _ hg _ hc)) _ (mem_childrenOf.mpr ⟨hg, hc⟩)

theorem ReadyOrder.pairwise (hup : ∀ k ∈ ids, ∀ p, up k = some p → p ∈ ids)
    (h : ReadyOrder ids up done order)
    (hcl : ∀ k ∈ done, ∀ c ∈ childrenOf ids up k, c ∈ done) :
    order.Pairwise fun x y => ¬ Below up y x := by
  induction order generalizing done with
  | nil => exact List.Pairwise.nil
  | cons k rest ih =>
    obtain ⟨-, -, hch, hrest⟩ := h
    have hcl' : ∀ q ∈ done ++ [k], ∀ c ∈ childrenOf ids up q, c ∈ done ++ [k] := by
      intro q hq c hc
      rcases mem_append.mp hq with hq | hq
      · exact mem_append_left _ (hcl q hq c hc)
      · obtain rfl := mem_singleton.mp hq
        exact mem_append_left _ (hch c hc)
    refine List.Pairwise.cons ?_ (ih hrest hcl')
    intro y hy hbelow
    have hdone : y ∈ done ++ [k] :=
      mem_of_below hup hcl' (hrest.mem_ids y hy) hbelow (by simp)
    exact hrest.nodup.2 y hy hdone

theorem exists_rank (hacyc : ∀ k ∈ ids, ∀ p, up k = some p → ¬ Below up p k) :
    ∃ rank : K → ℕ, ∀ k ∈ ids, ∀ p, up k = some p → rank p < rank k := by
  classical
  refine ⟨fun k => (ids.toFinset.filter fun q => Below up k q).card, ?_⟩
  intro k hk p hp
  refine Finset.card_lt_card (Finset.ssubset_iff_subset_ne.mpr ⟨?_, ?_⟩)
  · intro q hq
    rw [Finset.mem_filter] at hq ⊢
    exact ⟨hq.1, Below.head hp hq.2⟩
  · intro heq
    have hself : k ∈ ids.toFinset.filter fun q => Below up k q := by
      rw [Finset.mem_filter, mem_toFinset]
      exact ⟨hk, Below.refl k⟩
    rw [← heq, Finset.mem_filter] at hself
    exact hacyc k hk p hp hself.2

/-! ### Marks -/

variable {base has : K → Bool}

theorem bubbleUp_spec (hup : ∀ k ∈ ids, ∀ p, up k = some p → p ∈ ids)
    (horder : ReadyOrder ids up done order)
    (hdone : ∀ k ∈ done, has k = true ↔ ∃ g ∈ ids, Below up g k ∧ base g = true) :
    ∀ k ∈ done ++ order, bubbleUp ids up base order has k = true ↔
      ∃ g ∈ ids, Below up g k ∧ base g = true := by
  induction order generalizing done has with
  | nil => simpa [bubbleUp] using hdone
  | cons k rest ih =>
    obtain ⟨hk, hnew, hch, hrest⟩ := horder
    have hmark : (base k || (childrenOf ids up k).any has) = true ↔
        ∃ g ∈ ids, Below up g k ∧ base g = true := by
      rw [Bool.or_eq_true, any_eq_true]
      constructor
      · rintro (hbase | ⟨c, hc, hhas⟩)
        · exact ⟨k, hk, Relation.ReflTransGen.refl, hbase⟩
        · obtain ⟨g, hg, hbelow, hbase⟩ := (hdone c (hch c hc)).mp hhas
          exact ⟨g, hg, Relation.ReflTransGen.tail hbelow (mem_childrenOf.mp hc).2, hbase⟩
      · rintro ⟨g, hg, hbelow, hbase⟩
        rcases below_cases.mp hbelow with rfl | ⟨c, hc, hck⟩
        · exact Or.inl hbase
        · have hchild : c ∈ childrenOf ids up k := mem_childrenOf.mpr ⟨hc.mem_ids hup hg, hck⟩
          exact Or.inr ⟨c, hchild, (hdone c (hch c hchild)).mpr ⟨g, hg, hc, hbase⟩⟩
    have hstep : ∀ q ∈ done ++ [k],
        update has k (base k || (childrenOf ids up k).any has) q = true ↔
          ∃ g ∈ ids, Below up g q ∧ base g = true := by
      intro q hq
      by_cases hqk : q = k
      · rw [hqk, update_self]
        exact hmark
      · rw [update_of_ne hqk]
        refine hdone q ?_
        rcases mem_append.mp hq with h | h
        · exact h
        · exact absurd (mem_singleton.mp h) hqk
    have hall := ih hrest hstep
    rw [bubbleUp]
    simpa using hall

/-- **The marks after one pass**: a node is marked when some node at or below it is. -/
theorem bubbleUp_leafOrder (hids : ids.Nodup) (hup : ∀ k ∈ ids, ∀ p, up k = some p → p ∈ ids)
    (hrank : ∀ k ∈ ids, ∀ p, up k = some p → rank p < rank k) (hk : k ∈ ids) :
    bubbleUp ids up base (leafOrder ids up) has k = true ↔
      ∃ g ∈ ids, Below up g k ∧ base g = true := by
  refine bubbleUp_spec hup (leafOrder_ready hids hup) (by simp) k ?_
  exact (mem_leafOrder hids hup hrank).mpr hk

end Cfms.Lib.LeafOrder
