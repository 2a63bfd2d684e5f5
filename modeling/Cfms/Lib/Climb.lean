import Mathlib.Data.List.Nodup
import Mathlib.Data.List.Perm.Subperm
import Mathlib.Data.List.TakeWhile

/-!
# Climbing parent links

A table `lookup` finds the record stored under a key and `up` names the key of the record above
it, if the climb goes on from there.  A climb from a starting key visits records until a record
has nothing above it or the table has no record for the next key.

`Climbs lookup up s l` says that the climb from `s` ends and visits exactly `l`; `climb` computes
that list with a step bound, and `climbEnds` decides that there is one. `guardedClimb` is the loop
as programs write it: it tests each record, stops at the first that fails and reports a cycle when a
key comes back. On a climb that ends it decides whether all records pass (`guardedClimb_eq`).
Removing records from the table cuts the climb at the first removed one (`Climbs.restrict`).
-/

namespace Cfms.Lib.Climb

open List

variable {K F : Type*}

/-- The climb from a key ends, having visited the listed records from the bottom up. -/
inductive Climbs (lookup : K → Option F) (up : F → Option K) : Option K → List F → Prop
  | top : Climbs lookup up none []
  | missing {k : K} : lookup k = none → Climbs lookup up (some k) []
  | step {k : K} {f : F} {l : List F} :
      lookup k = some f → Climbs lookup up (up f) l → Climbs lookup up (some k) (f :: l)

/-- The records visited in at most `fuel` steps. -/
def climb (lookup : K → Option F) (up : F → Option K) : ℕ → Option K → List F
  | 0, _ => []
  | _ + 1, none => []
  | fuel + 1, some k =>
    match lookup k with
    | none => []
    | some f => f :: climb lookup up fuel (up f)

/-- The climb ends within `fuel` steps. -/
def climbEnds (lookup : K → Option F) (up : F → Option K) : ℕ → Option K → Bool
  | 0, _ => false
  | _ + 1, none => true
  | fuel + 1, some k =>
    match lookup k with
    | none => true
    | some f => climbEnds lookup up fuel (up f)

/-- The table without the records that fail `keep`. -/
def restrict (keep : F → Bool) (lookup : K → Option F) : K → Option F :=
  fun k => (lookup k).filter keep

inductive ClimbError
  | cycle
  | outOfFuel
  deriving DecidableEq

/-- The checking loop: `visited` holds the keys seen so far. -/
def guardedClimb [DecidableEq K] (lookup : K → Option F) (up : F → Option K) (check : F → Bool) :
    ℕ → List K → Option K → Except ClimbError Bool
  | 0, _, _ => .error .outOfFuel
  | _ + 1, _, none => .ok true
  | fuel + 1, visited, some k =>
    if k ∈ visited then .error .cycle
    else
      match lookup k with
      | none => .ok true
      | some f => if check f then guardedClimb lookup up check fuel (k :: visited) (up f) else .ok false

variable {lookup : K → Option F} {up : F → Option K} {s : Option K}

theorem Climbs.unique {l₁ l₂ : List F} (h₁ : Climbs lookup up s l₁)
    (h₂ : Climbs lookup up s l₂) : l₁ = l₂ := by
  induction h₁ generalizing l₂ with
  | top => cases h₂; rfl
  | missing hk =>
    cases h₂ with
    | missing _ => rfl
    | step hk' _ => rw [hk] at hk'; cases hk'
  | step hk _ ih =>
    cases h₂ with
    | missing hk' => rw [hk] at hk'; cases hk'
    | step hk' hrest =>
      rw [hk] at hk'
      cases hk'
      rw [ih hrest]

variable {l : List F} {fuel : ℕ}

theorem Climbs.climb_eq (h : Climbs lookup up s l)
    (hfuel : l.length < fuel) : climb lookup up fuel s = l := by
  induction h generalizing fuel with
  | top =>
    obtain ⟨n, rfl⟩ : ∃ n, fuel = n + 1 := ⟨fuel - 1, by omega⟩
    rfl
  | missing hk =>
    obtain ⟨n, rfl⟩ : ∃ n, fuel = n + 1 := ⟨fuel - 1, by omega⟩
    simp only [climb, hk]
  | step hk _ ih =>
    rw [length_cons] at hfuel
    obtain ⟨n, rfl⟩ : ∃ n, fuel = n + 1 := ⟨fuel - 1, by omega⟩
    simp only [climb, hk, ih (by omega : _ < n)]

theorem climbEnds_iff :
    climbEnds lookup up fuel s = true ↔ ∃ l, Climbs lookup up s l ∧ l.length < fuel := by
  induction fuel generalizing s with
  | zero => simp [climbEnds]
  | succ fuel ih =>
    cases s with
    | none => exact ⟨fun _ => ⟨[], Climbs.top, by simp⟩, fun _ => rfl⟩
    | some k =>
      rw [climbEnds]
      cases hk : lookup k with
      | none => exact ⟨fun _ => ⟨[], Climbs.missing hk, by simp⟩, fun _ => rfl⟩
      | some f =>
        rw [ih]
        constructor
        · rintro ⟨l, hl, hlen⟩
          exact ⟨f :: l, Climbs.step hk hl, by rw [length_cons]; omega⟩
        · rintro ⟨l, hl, hlen⟩
          cases hl with
          | missing hk' => rw [hk] at hk'; cases hk'
          | step hk' hrest =>
            rw [hk] at hk'
            cases hk'
            exact ⟨_, hrest, by rw [length_cons] at hlen; omega⟩

variable {f : F}

theorem Climbs.exists_suffix (key : F → K) (hkey : ∀ k f, lookup k = some f → key f = k)
    (h : Climbs lookup up s l) (hf : f ∈ l) :
    ∃ rest, Climbs lookup up (some (key f)) (f :: rest) ∧ (f :: rest).length ≤ l.length := by
  induction h with
  | top | missing _ => simp at hf
  | step hk hrest ih =>
    rcases mem_cons.mp hf with rfl | hf
    · rw [hkey _ _ hk]
      exact ⟨_, Climbs.step hk hrest, le_refl _⟩
    · obtain ⟨rest, hclimb, hlen⟩ := ih hf
      exact ⟨rest, hclimb, hlen.trans (by simp)⟩

theorem Climbs.keys_nodup (key : F → K) (hkey : ∀ k f, lookup k = some f → key f = k)
    (h : Climbs lookup up s l) : (l.map key).Nodup := by
  induction h with
  | top | missing _ => simp
  | @step k f l hk hrest ih =>
    rw [map_cons, nodup_cons]
    refine ⟨?_, ih⟩
    intro hmem
    obtain ⟨g, hg, hgf⟩ := mem_map.mp hmem
    obtain ⟨rest, hclimb, hlen⟩ := hrest.exists_suffix key hkey hg
    rw [hgf, hkey _ _ hk] at hclimb
    have heq := hclimb.unique (Climbs.step hk hrest)
    rw [heq, length_cons] at hlen
    omega

variable (h : Climbs lookup up s l)

include h

theorem Climbs.lookup_isSome (hf : f ∈ l) : ∃ k, lookup k = some f := by
  induction h with
  | top | missing _ => simp at hf
  | step hk _ ih =>
    rcases mem_cons.mp hf with rfl | hf
    · exact ⟨_, hk⟩
    · exact ih hf

theorem Climbs.getElem?_zero : l[0]? = s.bind lookup := by
  cases h with
  | top => rfl
  | missing hk | step hk _ => exact hk.symm

theorem Climbs.getElem?_succ (i : ℕ) :
    l[i + 1]? = l[i]?.bind fun f => (up f).bind lookup := by
  induction h generalizing i with
  | top | missing _ => rfl
  | @step k f l _ hrest ih =>
    rw [getElem?_cons_succ]
    cases i with
    | zero => exact hrest.getElem?_zero
    | succ i => rw [getElem?_cons_succ, ih]

theorem Climbs.forall_mem {P : F → Prop}
    (hstart : ∀ k f, s = some k → lookup k = some f → P f)
    (hstep : ∀ f k g, P f → up f = some k → lookup k = some g → P g) : ∀ f ∈ l, P f := by
  induction h with
  | top | missing _ => simp
  | @step k f l hk _ ih =>
    have hf : P f := hstart k f rfl hk
    intro g hg
    rcases mem_cons.mp hg with rfl | hg
    · exact hf
    · exact ih (fun k' g' hup hk' => hstep f k' g' hf hup hk') g hg

omit h

theorem Climbs.mem_start {k : K} (h : Climbs lookup up (some k) l)
    (hk : lookup k = some f) : f ∈ l := by
  cases h with
  | missing hk' => rw [hk] at hk'; cases hk'
  | step hk' _ =>
    rw [hk] at hk'
    cases hk'
    exact mem_cons_self

theorem Climbs.mem_up (h : Climbs lookup up s l) {g : F} {k : K}
    (hf : f ∈ l) (hup : up f = some k) (hk : lookup k = some g) : g ∈ l := by
  induction h with
  | top | missing _ => simp at hf
  | step _ hrest ih =>
    rcases mem_cons.mp hf with rfl | hf
    · rw [hup] at hrest
      exact mem_cons_of_mem _ (hrest.mem_start hk)
    · exact mem_cons_of_mem _ (ih hf)

theorem Climbs.length_le (key : F → K) (hkey : ∀ k f, lookup k = some f → key f = k)
    {records : List F} (hrecords : ∀ k f, lookup k = some f → f ∈ records)
    (h : Climbs lookup up s l) : l.length ≤ records.length := by
  have hsub : l.map key ⊆ records.map key := by
    intro k hk
    obtain ⟨f, hf, rfl⟩ := mem_map.mp hk
    obtain ⟨k', hk'⟩ := h.lookup_isSome hf
    exact mem_map_of_mem (hrecords _ _ hk')
  have hlen := (List.Nodup.subperm (h.keys_nodup key hkey) hsub).length_le
  simpa only [length_map] using hlen

theorem Climbs.not_mem_self (key : F → K) (hkey : ∀ k f, lookup k = some f → key f = k)
    (hf : lookup (key f) = some f) (h : Climbs lookup up (up f) l) : f ∉ l := by
  intro hmem
  have hnodup := (Climbs.step hf h).keys_nodup key hkey
  rw [map_cons, nodup_cons] at hnodup
  exact hnodup.1 (mem_map_of_mem hmem)

theorem Climbs.congr {lookup' : K → Option F}
    (h : Climbs lookup up s l) (hstart : ∀ k, s = some k → lookup' k = lookup k)
    (hup : ∀ f ∈ l, ∀ k, up f = some k → lookup' k = lookup k) : Climbs lookup' up s l := by
  induction h with
  | top => exact Climbs.top
  | missing hk => exact Climbs.missing (by rw [hstart _ rfl, hk])
  | step hk _ ih =>
    refine Climbs.step (by rw [hstart _ rfl, hk]) (ih ?_ ?_)
    · intro k hupk
      exact hup _ mem_cons_self k hupk
    · intro f hf k hupk
      exact hup f (mem_cons_of_mem _ hf) k hupk

theorem Climbs.restrict (keep : F → Bool)
    (h : Climbs lookup up s l) : Climbs (restrict keep lookup) up s (l.takeWhile keep) := by
  induction h with
  | top => exact Climbs.top
  | missing hk =>
    refine Climbs.missing ?_
    simp only [Climb.restrict, hk, Option.filter_none]
  | @step k f l hk _ ih =>
    by_cases hf : keep f
    · rw [takeWhile_cons_of_pos hf]
      refine Climbs.step ?_ ih
      simp only [Climb.restrict, hk, Option.filter_some, hf, if_true]
    · rw [takeWhile_cons_of_neg hf]
      refine Climbs.missing ?_
      simp only [Climb.restrict, hk, Option.filter_some, hf, if_false, Bool.false_eq_true]

theorem Climbs.exists_of_stops {stops : F → Option K}
    (hstops : ∀ f, stops f = up f ∨ stops f = none) (h : Climbs lookup up s l) :
    ∃ l', Climbs lookup stops s l' ∧ l' <+: l := by
  induction h with
  | top => exact ⟨[], Climbs.top, prefix_rfl⟩
  | missing hk => exact ⟨[], Climbs.missing hk, prefix_rfl⟩
  | @step k f l hk _ ih =>
    rcases hstops f with hf | hf
    · obtain ⟨l', hl', hpre⟩ := ih
      refine ⟨f :: l', Climbs.step hk ?_, cons_prefix_cons.mpr ⟨rfl, hpre⟩⟩
      rwa [hf]
    · refine ⟨[f], Climbs.step hk ?_, ?_⟩
      · rw [hf]
        exact Climbs.top
      · exact cons_prefix_cons.mpr ⟨rfl, nil_prefix⟩

theorem guardedClimb_eq [DecidableEq K] (key : F → K)
    (hkey : ∀ k f, lookup k = some f → key f = k) (check : F → Bool) {s : Option K}
    (h : Climbs lookup up s l) (hfuel : l.length < fuel) {visited : List K}
    (hfound : ∀ k ∈ visited, lookup k ≠ none) (hfresh : ∀ f ∈ l, key f ∉ visited) :
    guardedClimb lookup up check fuel visited s = .ok (l.all check) := by
  induction h generalizing fuel visited with
  | top =>
    obtain ⟨n, rfl⟩ : ∃ n, fuel = n + 1 := ⟨fuel - 1, by omega⟩
    rfl
  | @missing k hk =>
    obtain ⟨n, rfl⟩ : ∃ n, fuel = n + 1 := ⟨fuel - 1, by omega⟩
    have hk' : k ∉ visited := fun hmem => hfound k hmem hk
    simp only [guardedClimb, hk', if_false, hk, all_nil]
  | @step k f l hk hrest ih =>
    rw [length_cons] at hfuel
    obtain ⟨n, rfl⟩ : ∃ n, fuel = n + 1 := ⟨fuel - 1, by omega⟩
    have hk' : k ∉ visited := by
      have := hfresh f mem_cons_self
      rwa [hkey _ _ hk] at this
    simp only [guardedClimb, hk', hk, all_cons]
    by_cases hf : check f
    · simp only [hf]
      refine ih (by omega) ?_ ?_
      · intro k' hk''
        rcases mem_cons.mp hk'' with rfl | hmem
        · rw [hk]; simp
        · exact hfound k' hmem
      · -- the key just recorded does not come back, since keys on the climb are distinct
        have hnodup := (Climbs.step hk hrest).keys_nodup key hkey
        rw [map_cons, nodup_cons] at hnodup
        intro g hg hmem
        rcases mem_cons.mp hmem with heq | hmem
        · exact hnodup.1 (by rw [hkey _ _ hk, ← heq]; exact mem_map_of_mem hg)
        · exact hfresh g (mem_cons_of_mem f hg) hmem
    · simp only [hf, if_false, Bool.false_and, Bool.false_eq_true]

/-- The loop runs its test on records of the table only. -/
theorem guardedClimb_congr [DecidableEq K] {check check' : F → Bool}
    (hcheck : ∀ k f, lookup k = some f → check' f = check f) (fuel : ℕ) (visited : List K)
    (s : Option K) :
    guardedClimb lookup up check' fuel visited s = guardedClimb lookup up check fuel visited s := by
  induction fuel generalizing visited s with
  | zero => rfl
  | succ fuel ih =>
    cases s with
    | none => rfl
    | some k =>
      rw [guardedClimb, guardedClimb]
      cases hk : lookup k with
      | none => rfl
      | some f => simp only [hcheck k f hk, ih]

end Cfms.Lib.Climb
