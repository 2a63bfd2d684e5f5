import Mathlib.Data.Set.Finite.Basic
import Mathlib.Order.Preorder.Finite

/-!
# Rows with a validity window

Rows put a key in force during a window that may be open on either side.  The keys in force can
change at two kinds of instants only: where a window begins, and right after one ends.  `Settled`
says that neither happens from some instant on, and `settled_iff` that then, and only then, the keys
in force stay what they are at that instant.  The instants are any linear order without a last one.
-/

namespace Cfms.Lib.Validity

/-- A window of time; a missing bound leaves it open. -/
structure Window (T : Type*) where
  start : Option T
  stop : Option T

variable {T K : Type*} [LinearOrder T]

/-- The instants of a window, its bounds included. -/
def Window.Contains (window : Window T) (now : T) : Prop :=
  (∀ start ∈ window.start, start ≤ now) ∧ ∀ stop ∈ window.stop, now ≤ stop

/-- The window holds the instants right after `now`: it ends later, and no instant lies between `now`
and its beginning. -/
def Window.Continues (window : Window T) (now : T) : Prop :=
  (∀ start ∈ window.start, ∀ t, now < t → start ≤ t) ∧ ∀ stop ∈ window.stop, now < stop

def inForce (rows : List (K × Window T)) (now : T) : Set K :=
  {key | ∃ window, (key, window) ∈ rows ∧ window.Contains now}

/-- From `now` on no window begins for a key that is not in force at `now`, and none ends without
another that takes over. -/
structure Settled (rows : List (K × Window T)) (now : T) : Prop where
  late : ∀ key window, (key, window) ∈ rows → ∀ start ∈ window.start, now < start →
    window.Contains start → key ∈ inForce rows now
  renewed : ∀ key window, (key, window) ∈ rows → ∀ stop ∈ window.stop, now ≤ stop →
    window.Contains stop → ∃ other, (key, other) ∈ rows ∧ other.Continues stop

variable {rows : List (K × Window T)} {window : Window T} {now later t : T} {key : K}

/-- A window that begins by an instant and is not over at it contains it. -/
theorem Window.Contains.lasts (h : window.Contains now) (hle : now ≤ later)
    (hstop : ∀ stop ∈ window.stop, later ≤ stop) : window.Contains later :=
  ⟨fun start hstart => (h.1 start hstart).trans hle, hstop⟩

theorem Settled.inForce_subset (h : Settled rows now) (hle : now ≤ later) :
    inForce rows later ⊆ inForce rows now := by
  rintro key ⟨window, hmem, hcont⟩
  by_cases hbegun : ∀ start ∈ window.start, start ≤ now
  · exact ⟨window, hmem, hbegun, fun stop hstop => hle.trans (hcont.2 stop hstop)⟩
  push Not at hbegun
  obtain ⟨start, hstart, hlt⟩ := hbegun
  refine h.late key window hmem start hstart hlt ⟨fun other hother => ?_, fun stop hstop => ?_⟩
  · exact (Option.mem_unique hother hstart).le
  · exact (hcont.1 start hstart).trans (hcont.2 stop hstop)

/-- Of the windows of the key that end before `later`, the last one would be taken over by one that
ends later still. -/
theorem Settled.subset_inForce (h : Settled rows now) (hle : now ≤ later) :
    inForce rows now ⊆ inForce rows later := by
  rintro key ⟨window, hmem, hcont⟩
  by_contra hgone
  let ends : Set T := {stop | now ≤ stop ∧ stop < later ∧
    ∃ other, (key, other) ∈ rows ∧ stop ∈ other.stop ∧ other.Contains stop}
  -- a window of the key that contains an instant from `now` to `later` ends in between
  have hends : ∀ other t, (key, other) ∈ rows → now ≤ t → t ≤ later → other.Contains t →
      ∃ stop ∈ ends, t ≤ stop ∧ stop ∈ other.stop := by
    intro other t hother hnow hlater ht
    by_cases hopen : ∀ stop ∈ other.stop, later ≤ stop
    · exact absurd ⟨other, hother, ht.lasts hlater hopen⟩ hgone
    push Not at hopen
    obtain ⟨stop, hstop, hlt⟩ := hopen
    have hafter := ht.2 stop hstop
    refine ⟨stop, ⟨hnow.trans hafter, hlt, other, hother, hstop, ht.lasts hafter ?_⟩, hafter, hstop⟩
    exact fun last hlast => (Option.mem_unique hstop hlast).le
  have hfinite : ends.Finite := by
    refine (List.finite_toSet (rows.filterMap fun row => row.2.stop)).subset ?_
    rintro stop ⟨-, -, other, hother, hstop, -⟩
    exact List.mem_filterMap.mpr ⟨(key, other), hother, hstop⟩
  obtain ⟨first, hfirst, -⟩ := hends window now hmem le_rfl hle hcont
  obtain ⟨last, ⟨hnow, hlt, other, hother, hstop, hlast⟩, hmax⟩ :=
    hfinite.exists_maximal ⟨first, hfirst⟩
  obtain ⟨next, hnext, hstart, hlong⟩ := h.renewed key other hother last hstop hnow hlast
  have hcontainsLater : next.Contains later ∨ ∃ stop ∈ next.stop, stop < later := by
    by_cases hopen : ∀ stop ∈ next.stop, later ≤ stop
    · exact .inl ⟨fun start h => hstart start h later hlt, hopen⟩
    · push Not at hopen
      exact .inr hopen
  rcases hcontainsLater with hin | ⟨stop, hmemStop, hbef⟩
  · exact hgone ⟨next, hnext, hin⟩
  have hafter := hlong stop hmemStop
  have hin : next.Contains stop := ⟨fun start h => hstart start h stop hafter,
    fun later hlater => (Option.mem_unique hmemStop hlater).le⟩
  have hend : stop ∈ ends := ⟨hnow.trans hafter.le, hbef, next, hnext, hmemStop, hin⟩
  exact absurd (hmax hend hafter.le) (not_le.mpr hafter)

/-- Where no window of the key continues, the key is out of force for a while. -/
theorem exists_out_of_force [NoMaxOrder T]
    (h : ∀ window, (key, window) ∈ rows → ¬ window.Continues now) :
    ∃ t, now < t ∧ ∀ t', now < t' → t' ≤ t → key ∉ inForce rows t' := by
  induction rows with
  | nil =>
    obtain ⟨t, ht⟩ := exists_gt now
    refine ⟨t, ht, fun t' _ _ => ?_⟩
    rintro ⟨window, hmem, -⟩
    cases hmem
  | cons row rest ih =>
    obtain ⟨t, ht, hout⟩ := ih fun window hmem => h window (List.mem_cons_of_mem _ hmem)
    -- until some instant the first row does not put the key in force either
    have hrow : ∃ t₁, now < t₁ ∧ ∀ t', now < t' → t' ≤ t₁ → row.1 = key → ¬ row.2.Contains t' := by
      by_cases hkey : row.1 = key
      · have hstops := h row.2 (List.mem_cons.mpr (.inl (Prod.ext hkey.symm rfl)))
        rw [Window.Continues, not_and_or] at hstops
        push Not at hstops
        rcases hstops with ⟨start, hstart, t₁, hlater, hlt⟩ | ⟨stop, hstop, hle⟩
        · exact ⟨t₁, hlater, fun t' _ hle _ hin => absurd (hin.1 start hstart) (hle.trans_lt hlt).not_ge⟩
        · exact ⟨t, ht, fun t' hlt _ _ hin => absurd (hin.2 stop hstop) (hle.trans_lt hlt).not_ge⟩
      · exact ⟨t, ht, fun _ _ _ hsame => absurd hsame hkey⟩
    obtain ⟨t₁, ht₁, hfirst⟩ := hrow
    refine ⟨min t t₁, lt_min ht ht₁, fun t' hlt hle => ?_⟩
    rintro ⟨window, hmem, hin⟩
    rcases List.mem_cons.mp hmem with rfl | hmem
    · exact hfirst t' hlt (hle.trans (min_le_right _ _)) rfl hin
    · exact hout t' hlt (hle.trans (min_le_left _ _)) ⟨window, hmem, hin⟩

/-- **The keys in force stay** exactly where the rows are settled. -/
theorem settled_iff [NoMaxOrder T] :
    Settled rows now ↔ ∀ later, now ≤ later → inForce rows later = inForce rows now := by
  constructor
  · exact fun h later hle => Set.Subset.antisymm (h.inForce_subset hle) (h.subset_inForce hle)
  intro h
  refine ⟨fun key window hmem start hstart hlt hcont => ?_,
    fun key window hmem stop hstop hle hcont => ?_⟩
  · rw [← h start hlt.le]
    exact ⟨window, hmem, hcont⟩
  · by_contra hends
    push Not at hends
    obtain ⟨t, hlt, hout⟩ := exists_out_of_force hends
    refine hout t hlt le_rfl ?_
    rw [h t (hle.trans hlt.le), ← h stop hle]
    exact ⟨window, hmem, hcont⟩

theorem inForce_of_open (hle : now ≤ later)
    (hopen : ∀ row ∈ rows, row.2.stop = none ∧ ∀ start ∈ row.2.start, start ≤ now) :
    inForce rows later = {key | key ∈ rows.map Prod.fst} := by
  ext key
  constructor
  · rintro ⟨window, hmem, -⟩
    exact List.mem_map.mpr ⟨(key, window), hmem, rfl⟩
  · intro hkey
    obtain ⟨row, hrow, rfl⟩ := List.mem_map.mp hkey
    obtain ⟨hstop, hstart⟩ := hopen row hrow
    refine ⟨row.2, hrow, fun start h => (hstart start h).trans hle, fun stop h => ?_⟩
    rw [hstop] at h
    cases h

end Cfms.Lib.Validity
