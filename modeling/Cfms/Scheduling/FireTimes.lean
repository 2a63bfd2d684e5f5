import Cfms.Scheduling.Triggers

/-!
# Missed fire times

A recurring trigger fires at a set of instants, all on whole seconds.  When the scheduler has missed
some of them, `advance_trigger` looks for the latest one that is still in the grace window and for the
first one after now.  For cron and interval triggers it bisects the time between the first due fire
time and now; for other triggers it walks from one fire time to the next.

The walk finds both (`walk_isAdvance`).  The binary search does, except in one case: the cutoff is
rounded to a whole microsecond before the first due fire time is looked up, so a fire time less than
a microsecond before the cutoff can be taken for a due one.
-/

namespace Cfms.Scheduling

/-! ### The first and the last element of a set of instants -/

/-- The least element, if there is one. -/
def FirstOf (s : Set ℤ) (found : Option ℤ) : Prop := ∀ x, found = some x ↔ IsLeast s x

/-- The greatest element, if there is one. -/
def LastOf (s : Set ℤ) (found : Option ℤ) : Prop := ∀ x, found = some x ↔ IsGreatest s x

section

variable {s t : Set ℤ} {found : Option ℤ}

theorem FirstOf.congr (h : FirstOf s found) (hst : s = t) : FirstOf t found := hst ▸ h

theorem LastOf.congr (h : LastOf s found) (hst : s = t) : LastOf t found := hst ▸ h

variable {x : ℤ}

theorem firstOf_some (h : IsLeast s x) : FirstOf s (some x) := by
  intro y
  rw [Option.some.injEq]
  exact ⟨fun hxy => hxy ▸ h, fun hy => h.unique hy⟩

theorem lastOf_some (h : IsGreatest s x) : LastOf s (some x) := by
  intro y
  rw [Option.some.injEq]
  exact ⟨fun hxy => hxy ▸ h, fun hy => h.unique hy⟩

theorem lastOf_none (h : s = ∅) : LastOf s none := by
  intro y
  subst h
  exact ⟨fun hy => (by cases hy), fun hy => absurd hy.1 (Set.notMem_empty y)⟩

theorem FirstOf.isLeast (h : FirstOf s (some x)) : IsLeast s x := (h x).mp rfl

theorem LastOf.isGreatest (h : LastOf s (some x)) : IsGreatest s x := (h x).mp rfl

theorem FirstOf.eq_empty (h : FirstOf s none) (bound : ℤ) (hbound : ∀ x ∈ s, bound ≤ x) :
    s = ∅ := by
  rw [Set.eq_empty_iff_forall_notMem]
  intro x hx
  obtain ⟨least, hleast⟩ := Int.exists_least_of_bdd (P := (· ∈ s)) ⟨bound, hbound⟩ ⟨x, hx⟩
  have hfound := (h least).mpr hleast
  cases hfound

variable {other : Option ℤ}

theorem FirstOf.unique (h : FirstOf s found) (hother : FirstOf s other) : found = other :=
  Option.ext fun x => (h x).trans (hother x).symm

theorem LastOf.unique (h : LastOf s found) (hother : LastOf s other) : found = other :=
  Option.ext fun x => (h x).trans (hother x).symm

end

/-! ### Rounding to microseconds -/

theorem micros_le {n : ℤ} {t : Instant} (h : t ≤ (n : Instant)) : micros t ≤ n := by
  have hmono := micros_mono h
  rw [micros_intCast] at hmono
  exact hmono

theorem abs_micros_sub_le (t : Instant) : |(micros t : Instant) - t| ≤ 1 / 2 := by
  have hfloor := Int.floor_le t
  have hlt := Int.lt_floor_add_one t
  rw [abs_le]
  unfold micros
  split_ifs <;> push_cast <;> constructor <;> linarith

/-! ### Triggers as sets of fire times -/

/-- `datetime.min`, in microseconds of Unix time. -/
def datetimeMin : ℤ := -62135596800000000

/-- `datetime.max`, in microseconds of Unix time. -/
def datetimeMax : ℤ := 253402300799999999

/-- The trigger fires at the instants of a set, on whole seconds: `get_next_fire_time(None, now)` is
the first fire time from `now` on, and `get_next_fire_time(previous, now)` the first one after
`previous`, when that is not after `now`. -/
structure FiresAt (trigger : RecurringTrigger) (fires : Set ℤ) : Prop where
  wholeSeconds : ∀ fire ∈ fires, 1000000 ∣ fire
  first : ∀ now, FirstOf {fire ∈ fires | now ≤ fire} (trigger.first now)
  next : ∀ previous now, previous ≤ now →
    FirstOf {fire ∈ fires | previous < fire} (trigger.next previous now)

/-- What an advance has to return: the latest fire time in the grace window from the current one on,
and the first fire time after now. -/
structure IsAdvance (fires : Set ℤ) (currentRunAt : ℤ) (now cutoff : Instant)
    (advance : TriggerAdvance) : Prop where
  latest : LastOf {fire ∈ fires | currentRunAt ≤ fire ∧ cutoff ≤ (fire : Instant) ∧
    (fire : Instant) ≤ now} advance.latestDueAt
  next : FirstOf {fire ∈ fires | now < (fire : Instant)} advance.nextRunAt

theorem IsAdvance.unique {fires : Set ℤ} {currentRunAt : ℤ} {now cutoff : Instant}
    {advance other : TriggerAdvance} (h : IsAdvance fires currentRunAt now cutoff advance)
    (hother : IsAdvance fires currentRunAt now cutoff other) : advance = other := by
  rw [TriggerAdvance.mk.injEq]
  exact ⟨h.latest.unique hother.latest, h.next.unique hother.next⟩

/-- The fire time that `advance_trigger` starts from. -/
def firstCandidate (trigger : RecurringTrigger) (currentRunAt cutoff : Instant) : Option ℤ :=
  if currentRunAt < cutoff then trigger.first (micros cutoff) else some (micros currentRunAt)

/-- The loop of `advance_trigger` without its cap: whatever the number of rounds is limited to, when
it is large enough. -/
def WalksTo (trigger : RecurringTrigger) (currentRunAt now cutoff : Instant)
    (advance : TriggerAdvance) : Prop :=
  ∃ enough, ∀ rounds, enough ≤ rounds →
    coalesce (.recurring trigger) now cutoff rounds (firstCandidate trigger currentRunAt cutoff)
      none = some advance

variable {trigger : RecurringTrigger} {fires : Set ℤ} {now cutoff : Instant}

/-! ### The walk -/

/-- The loop has seen the fire times before `base`: the candidate is the first one from `base` on, and
the latest due one is the last in the grace window before `base`. -/
structure WalkInvariant (fires : Set ℤ) (start : ℤ) (cutoff : Instant) (base : ℤ)
    (candidate latestDue : Option ℤ) : Prop where
  start_le : start ≤ base
  candidate : FirstOf {fire ∈ fires | base ≤ fire} candidate
  latestDue : LastOf {fire ∈ fires | start ≤ fire ∧ fire < base ∧ cutoff ≤ (fire : Instant)} latestDue

variable {start base : ℤ} {latestDue : Option ℤ} {fire : ℤ}

theorem WalkInvariant.step (h : FiresAt trigger fires)
    (hinv : WalkInvariant fires start cutoff base (some fire) latestDue)
    (hdue : (fire : Instant) ≤ now) :
    WalkInvariant fires start cutoff (fire + 1) (trigger.next fire (micros now))
      (if cutoff ≤ (fire : Instant) then some fire else latestDue) := by
  have hleast := hinv.candidate.isLeast
  have hbase : base ≤ fire := hleast.1.2
  have hbef : ∀ other ∈ fires, other < fire + 1 → other < base ∨ other = fire := by
    intro other hother hlt
    rcases lt_or_ge other base with hbef | hge
    · exact Or.inl hbef
    · have hfire := hleast.2 ⟨hother, hge⟩
      exact Or.inr (by omega)
  refine ⟨by linarith [hinv.start_le], ?_, ?_⟩
  · refine (h.next fire (micros now) (le_micros hdue)).congr ?_
    ext other
    exact and_congr_right fun _ => Int.lt_iff_add_one_le
  · split
    · rename_i hcut
      refine lastOf_some ⟨⟨hleast.1.1, hinv.start_le.trans hbase, by omega, hcut⟩, ?_⟩
      rintro other ⟨-, -, hlt, -⟩
      omega
    · rename_i hcut
      refine hinv.latestDue.congr ?_
      ext other
      constructor
      · rintro ⟨hother, hge, hlt, hgrace⟩
        exact ⟨hother, hge, by omega, hgrace⟩
      · rintro ⟨hother, hge, hlt, hgrace⟩
        rcases hbef other hother hlt with hbef | rfl
        · exact ⟨hother, hge, hbef, hgrace⟩
        · exact absurd hgrace hcut

variable {cand : Option ℤ}

theorem WalkInvariant.stop (hinv : WalkInvariant fires start cutoff base cand latestDue)
    (hbase : ∀ fire ∈ fires, fire < base → (fire : Instant) ≤ now)
    (hstop : ∀ fire, cand = some fire → now < (fire : Instant)) :
    IsAdvance fires start now cutoff ⟨latestDue, cand⟩ := by
  have hafter : ∀ fire ∈ fires, base ≤ fire ↔ now < (fire : Instant) := by
    intro fire hfire
    constructor
    · intro hge
      cases hcand : cand with
      | none =>
        rw [hcand] at hinv
        have hempty := hinv.candidate.eq_empty base fun other hother => hother.2
        have hmem : fire ∈ {fire ∈ fires | base ≤ fire} := ⟨hfire, hge⟩
        rw [hempty] at hmem
        exact absurd hmem (Set.notMem_empty fire)
      | some least =>
        rw [hcand] at hinv
        have hle : least ≤ fire := hinv.candidate.isLeast.2 ⟨hfire, hge⟩
        exact (hstop least hcand).trans_le (by exact_mod_cast hle)
    · intro hlate
      by_contra hlt
      exact absurd (hbase fire hfire (not_le.mp hlt)) (not_le.mpr hlate)
  constructor
  · refine hinv.latestDue.congr ?_
    ext fire
    constructor
    · rintro ⟨hfire, hge, hlt, hgrace⟩
      exact ⟨hfire, hge, hgrace, hbase fire hfire hlt⟩
    · rintro ⟨hfire, hge, hgrace, hdue⟩
      exact ⟨hfire, hge, lt_of_not_ge fun hlate => absurd ((hafter fire hfire).mp hlate)
        (not_lt.mpr hdue), hgrace⟩
  · refine hinv.candidate.congr ?_
    ext fire
    exact and_congr_right fun hfire => hafter fire hfire

theorem coalesce_isAdvance (h : FiresAt trigger fires) (rounds : ℕ)
    (hinv : WalkInvariant fires start cutoff base cand latestDue)
    (hbase : ∀ fire ∈ fires, fire < base → (fire : Instant) ≤ now)
    (hrounds : (⌊now⌋ + 1 - base).toNat < rounds) :
    ∃ advance, coalesce (.recurring trigger) now cutoff rounds cand latestDue = some advance ∧
      IsAdvance fires start now cutoff advance := by
  induction rounds generalizing base cand latestDue with
  | zero => exact absurd hrounds (Nat.not_lt_zero _)
  | succ rounds ih =>
    cases cand with
    | none => exact ⟨⟨latestDue, none⟩, rfl, hinv.stop hbase fun _ hnone => by cases hnone⟩
    | some fire =>
      rw [coalesce]
      split
      · rename_i hdue
        have hfloor : fire ≤ ⌊now⌋ := Int.le_floor.mpr hdue
        have hfire : base ≤ fire := hinv.candidate.isLeast.1.2
        refine ih (hinv.step h hdue) ?_ (by omega)
        intro other _ hlt
        have hle : (other : Instant) ≤ fire := by exact_mod_cast (by omega : other ≤ fire)
        exact hle.trans hdue
      · rename_i hlate
        refine ⟨⟨latestDue, some fire⟩, rfl, hinv.stop hbase ?_⟩
        intro other hother
        rw [Option.some.injEq] at hother
        rw [← hother]
        exact not_le.mp hlate

theorem lt_cutoff (h : fire < micros cutoff) : (fire : Instant) < cutoff := by
  by_contra hge
  exact absurd (micros_le (not_lt.mp hge)) (not_le.mpr h)

theorem walkInvariant_initial (h : FiresAt trigger fires) (hstart : start ∈ fires)
    (hdue : (start : Instant) ≤ now) (hcut : cutoff ≤ now) :
    ∃ base, WalkInvariant fires start cutoff base (firstCandidate trigger start cutoff) none ∧
      ∀ fire ∈ fires, fire < base → (fire : Instant) ≤ now := by
  unfold firstCandidate
  split
  · rename_i hbef
    refine ⟨micros cutoff, ⟨le_micros hbef.le, h.first _, lastOf_none ?_⟩, ?_⟩
    · rw [Set.eq_empty_iff_forall_notMem]
      rintro fire ⟨-, -, hlt, hge⟩
      exact absurd hge (not_le.mpr (lt_cutoff hlt))
    · intro fire _ hlt
      exact (lt_cutoff hlt).le.trans hcut
  · refine ⟨start, ⟨le_rfl, ?_, lastOf_none ?_⟩, ?_⟩
    · rw [micros_intCast]
      exact firstOf_some ⟨⟨hstart, le_rfl⟩, fun other hother => hother.2⟩
    · rw [Set.eq_empty_iff_forall_notMem]
      rintro fire ⟨-, hge, hlt, -⟩
      omega
    · intro fire _ hlt
      exact le_trans (by exact_mod_cast hlt.le) hdue

/-- **The walk** returns the latest fire time in the grace window and the first one after now. -/
theorem walk_isAdvance (h : FiresAt trigger fires) (hstart : start ∈ fires)
    (hdue : (start : Instant) ≤ now) (hcut : cutoff ≤ now) :
    ∃ advance, WalksTo trigger start now cutoff advance ∧
      IsAdvance fires start now cutoff advance := by
  obtain ⟨base, hinv, hbase⟩ := walkInvariant_initial h hstart hdue hcut
  obtain ⟨advance, -, hadv⟩ :=
    coalesce_isAdvance h ((⌊now⌋ + 1 - base).toNat + 1) hinv hbase (Nat.lt_succ_self _)
  refine ⟨advance, ⟨(⌊now⌋ + 1 - base).toNat + 1, fun rounds hrounds => ?_⟩, hadv⟩
  obtain ⟨other, hwalk, hother⟩ := coalesce_isAdvance h rounds hinv hbase (by omega)
  rw [hwalk, hother.unique hadv]

/-! ### The binary search -/

/-- `latestDue` is the first fire time from `lower` on, and from `upper` on no fire time is due. -/
structure SearchInvariant (fires : Set ℤ) (now : Instant) (latestDue : ℤ) (lower upper : Instant) :
    Prop where
  least : IsLeast {fire ∈ fires | micros lower ≤ fire} latestDue
  due : (latestDue : Instant) ≤ now
  upper : ∀ fire ∈ fires, (fire : Instant) ≤ now → fire < micros upper

variable {lower upper : Instant}

variable (h : FiresAt trigger fires)

include h

/-- When a microsecond is left, the last probe was the last due fire time: the rounded ends of the
interval are at most two microseconds apart, and fire times are not. -/
theorem SearchInvariant.isGreatest {latestDue : ℤ}
    (hinv : SearchInvariant fires now latestDue lower upper)
    (hwidth : upper - lower ≤ 1) : IsGreatest {fire ∈ fires | (fire : Instant) ≤ now} latestDue := by
  refine ⟨⟨hinv.least.1.1, hinv.due⟩, ?_⟩
  rintro fire ⟨hfire, hdue⟩
  have hupper := hinv.upper fire hfire hdue
  have hlower : micros lower ≤ latestDue := hinv.least.1.2
  have hapart : micros upper ≤ micros lower + 2 := by
    have hleft := (abs_le.mp (abs_micros_sub_le lower)).1
    have hright := (abs_le.mp (abs_micros_sub_le upper)).2
    have hcast : (micros upper : Instant) ≤ ((micros lower + 2 : ℤ) : Instant) := by
      push_cast
      linarith
    exact_mod_cast hcast
  by_contra hlt
  rw [not_le] at hlt
  obtain ⟨a, ha⟩ := h.wholeSeconds fire hfire
  obtain ⟨b, hb⟩ := h.wholeSeconds latestDue hinv.least.1.1
  omega

theorem search_isGreatest (rounds : ℕ) {latestDue : ℤ}
    (hinv : SearchInvariant fires now latestDue lower upper)
    (hwidth : upper - lower ≤ 2 ^ rounds) :
    IsGreatest {fire ∈ fires | (fire : Instant) ≤ now}
      (searchLatestDue trigger now rounds latestDue lower upper) := by
  induction rounds generalizing latestDue lower upper with
  | zero => exact hinv.isGreatest h (by simpa using hwidth)
  | succ rounds ih =>
    rw [pow_succ] at hwidth
    have hright : upper - (lower + (upper - lower) / 2) ≤ 2 ^ rounds := by linarith
    have hleft : lower + (upper - lower) / 2 - lower ≤ 2 ^ rounds := by linarith
    have hfirst := h.first (micros (lower + (upper - lower) / 2))
    simp only [searchLatestDue]
    split
    · rename_i hnarrow
      exact hinv.isGreatest h hnarrow
    · split
      · rename_i cand hcand
        rw [hcand] at hfirst
        split
        · rename_i hdue
          exact ih ⟨hfirst.isLeast, hdue, hinv.upper⟩ hright
        · rename_i hlate
          refine ih ⟨hinv.least, hinv.due, ?_⟩ hleft
          intro fire hfire hdue
          by_contra hge
          have hle : cand ≤ fire := hfirst.isLeast.2 ⟨hfire, not_lt.mp hge⟩
          exact hlate (le_trans (by exact_mod_cast hle) hdue)
      · rename_i hnone
        rw [hnone] at hfirst
        refine ih ⟨hinv.least, hinv.due, ?_⟩ hleft
        intro fire hfire hdue
        by_contra hge
        have hmem : fire ∈ {fire ∈ fires | micros (lower + (upper - lower) / 2) ≤ fire} :=
          ⟨hfire, not_lt.mp hge⟩
        rw [hfirst.eq_empty (micros (lower + (upper - lower) / 2)) fun other hother => hother.2] at hmem
        exact absurd hmem (Set.notMem_empty fire)

/-! ### The search against the walk -/

theorem search_from {firstDue : ℤ} (hmem : firstDue ∈ fires)
    (hdue : (firstDue : Instant) ≤ now) (hmin : datetimeMin ≤ firstDue)
    (hmax : now ≤ (datetimeMax : Instant)) :
    IsGreatest {fire ∈ fires | (fire : Instant) ≤ now}
      (searchLatestDue trigger now 64 firstDue firstDue (now + 1)) := by
  refine search_isGreatest h 64 ⟨?_, hdue, ?_⟩ ?_
  · rw [micros_intCast]
    exact ⟨⟨hmem, le_rfl⟩, fun other hother => hother.2⟩
  · intro fire _ hfire
    have hnext : ((fire + 1 : ℤ) : Instant) ≤ now + 1 := by
      push_cast
      linarith
    exact Int.lt_of_add_one_le (le_micros hnext)
  · have hmin' : (datetimeMin : Instant) ≤ firstDue := by exact_mod_cast hmin
    simp only [datetimeMin, datetimeMax] at hmin' hmax
    push_cast at hmin' hmax
    linarith

theorem isAdvance_of_isGreatest_iff {latestDue : ℤ}
    (hlat : IsGreatest {fire ∈ fires | (fire : Instant) ≤ now} latestDue)
    (hstart : start ≤ latestDue) :
    IsAdvance fires start now cutoff ⟨some latestDue, trigger.next latestDue (micros now)⟩ ↔
      cutoff ≤ (latestDue : Instant) := by
  constructor
  · intro hadv
    exact hadv.latest.isGreatest.1.2.2.1
  · intro hcut
    constructor
    · refine lastOf_some ⟨⟨hlat.1.1, hstart, hcut, hlat.1.2⟩, ?_⟩
      rintro fire ⟨hfire, -, -, hdue⟩
      exact hlat.2 ⟨hfire, hdue⟩
    · refine (h.next latestDue (micros now) (le_micros hlat.1.2)).congr ?_
      ext fire
      refine and_congr_right fun hfire => ?_
      constructor
      · intro hlt
        by_contra hdue
        exact absurd (hlat.2 ⟨hfire, not_lt.mp hdue⟩) (not_le.mpr hlt)
      · intro hlate
        have hcast : (latestDue : Instant) < fire := hlat.1.2.trans_lt hlate
        exact_mod_cast hcast

omit h

/-- The latest due fire time lies before the cutoff and becomes due because the cutoff is rounded
down to it. -/
def RoundedIntoGrace (fires : Set ℤ) (currentRunAt : ℤ) (now cutoff : Instant) : Prop :=
  (currentRunAt : Instant) < cutoff ∧ (micros cutoff : Instant) < cutoff ∧
    IsGreatest {fire ∈ fires | (fire : Instant) ≤ now} (micros cutoff)

theorem search_isAdvance_iff (h : FiresAt trigger fires) (hstart : start ∈ fires)
    (hdue : (start : Instant) ≤ now) (hcut : cutoff ≤ now) (hmin : datetimeMin ≤ start)
    (hmax : now ≤ (datetimeMax : Instant)) :
    IsAdvance fires start now cutoff (advanceBuiltinRecurringTrigger trigger start now cutoff) ↔
      ¬ RoundedIntoGrace fires start now cutoff := by
  by_cases hbef : (start : Instant) < cutoff
  · have hfirst := h.first (micros cutoff)
    have hge : start ≤ micros cutoff := le_micros hbef.le
    obtain ⟨base, hinv, hbase⟩ := walkInvariant_initial h hstart hdue hcut
    simp only [firstCandidate, if_pos hbef] at hinv
    simp only [advanceBuiltinRecurringTrigger, if_pos hbef]
    cases hcand : trigger.first (micros cutoff) with
    | none =>
      rw [hcand] at hfirst hinv
      refine iff_of_true (hinv.stop hbase fun _ hnone => by cases hnone) ?_
      rintro ⟨-, -, hgreatest⟩
      have hmem : micros cutoff ∈ {fire ∈ fires | micros cutoff ≤ fire} := ⟨hgreatest.1.1, le_rfl⟩
      rw [hfirst.eq_empty (micros cutoff) fun other hother => hother.2] at hmem
      exact Set.notMem_empty _ hmem
    | some firstDue =>
      rw [hcand] at hfirst hinv
      have hleast := hfirst.isLeast
      simp only
      split
      · rename_i hlate
        refine iff_of_true (hinv.stop hbase ?_) ?_
        · intro fire hfire
          rw [Option.some.injEq] at hfire
          rw [← hfire]
          exact hlate
        · rintro ⟨-, -, hgreatest⟩
          have hle : firstDue ≤ micros cutoff := hleast.2 ⟨hgreatest.1.1, le_rfl⟩
          exact absurd (le_trans (by exact_mod_cast hle) hgreatest.1.2) (not_le.mpr hlate)
      · rename_i hnotLate
        have hsearch := search_from h hleast.1.1 (not_lt.mp hnotLate)
          (hmin.trans (hge.trans hleast.1.2)) hmax
        have hfound := hleast.1.2.trans (hsearch.2 ⟨hleast.1.1, not_lt.mp hnotLate⟩)
        rw [isAdvance_of_isGreatest_iff h hsearch (hge.trans hfound)]
        constructor
        · rintro hgrace ⟨-, hround, hgreatest⟩
          rw [hsearch.unique hgreatest] at hgrace
          exact absurd hgrace (not_le.mpr hround)
        · intro hnot
          by_contra hgrace
          rw [not_le] at hgrace
          -- before the cutoff and from the rounded cutoff on there is one instant only
          have hsame : searchLatestDue trigger now 64 firstDue firstDue (now + 1) = micros cutoff :=
            le_antisymm (le_micros hgrace.le) hfound
          exact hnot ⟨hbef, by rw [← hsame]; exact hgrace, by rw [← hsame]; exact hsearch⟩
  · have hsearch := search_from h hstart hdue hmin hmax
    have hfound : start ≤ searchLatestDue trigger now 64 start start (now + 1) :=
      hsearch.2 ⟨hstart, hdue⟩
    have hgrace : cutoff ≤ (searchLatestDue trigger now 64 start start (now + 1) : Instant) :=
      (not_lt.mp hbef).trans (by exact_mod_cast hfound)
    simp only [advanceBuiltinRecurringTrigger, if_neg hbef, micros_intCast,
      if_neg (not_lt.mpr hdue)]
    exact iff_of_true ((isAdvance_of_isGreatest_iff h hsearch hfound).mpr hgrace)
      fun hround => hbef hround.1

/-- **The binary search equals the walk**, and both return the latest fire time in the grace window
and the first one after now, exactly when the cutoff is not rounded down to the latest due fire
time. -/
theorem search_equals_walk_iff (h : FiresAt trigger fires) {currentRunAt : ℤ}
    (hcur : currentRunAt ∈ fires) (hdue : (currentRunAt : Instant) ≤ now) {grace : Instant}
    (hgrace : 0 ≤ grace) (hmin : datetimeMin ≤ currentRunAt) (hmax : now ≤ (datetimeMax : Instant)) :
    (∃ advance, WalksTo trigger currentRunAt now (now - grace) advance ∧
      IsAdvance fires currentRunAt now (now - grace) advance ∧
      advanceBuiltinRecurringTrigger trigger currentRunAt now (now - grace) = advance) ↔
      ¬ RoundedIntoGrace fires currentRunAt now (now - grace) := by
  have hcut : now - grace ≤ now := sub_le_self now hgrace
  rw [← search_isAdvance_iff h hcur hdue hcut hmin hmax]
  constructor
  · rintro ⟨advance, -, hadv, hsame⟩
    rw [hsame]
    exact hadv
  · intro hadv
    obtain ⟨advance, hwalk, hwalked⟩ := walk_isAdvance h hcur hdue hcut
    exact ⟨advance, hwalk, hwalked, hadv.unique hwalked⟩

/-! ### A fire time just before the cutoff -/

def everyMinute : RecurringTrigger where
  first now := some (-(-now / 60000000) * 60000000)
  next previous _ := some ((previous / 60000000 + 1) * 60000000)
  le_first := by
    intro now fire hfire
    rw [Option.some.injEq] at hfire
    omega
  lt_next := by
    intro previous now fire hfire
    rw [Option.some.injEq] at hfire
    omega

theorem everyMinute_firesAt : FiresAt everyMinute {fire | 60000000 ∣ fire} where
  wholeSeconds := by
    intro fire hfire
    exact Dvd.dvd.trans (by decide) hfire
  first := by
    intro now
    refine firstOf_some ⟨⟨⟨-(-now / 60000000), by omega⟩, by omega⟩, ?_⟩
    rintro other ⟨⟨minutes, rfl⟩, hge⟩
    omega
  next := by
    intro previous now _
    refine firstOf_some ⟨⟨⟨previous / 60000000 + 1, by omega⟩, by omega⟩, ?_⟩
    rintro other ⟨⟨minutes, rfl⟩, hgt⟩
    omega

theorem isGreatest_minute :
    IsGreatest {fire ∈ {fire : ℤ | 60000000 ∣ fire} | (fire : Instant) ≤ 90000000 + 1 / 4} 60000000 := by
  refine ⟨⟨⟨1, rfl⟩, by norm_num⟩, ?_⟩
  rintro fire ⟨⟨minutes, rfl⟩, hdue⟩
  have hlt : ((60000000 * minutes : ℤ) : Instant) < ((90000001 : ℤ) : Instant) := by
    refine lt_of_le_of_lt hdue ?_
    norm_num
  have hlt' : 60000000 * minutes < 90000001 := by exact_mod_cast hlt
  omega

/-- A quarter of a microsecond after one minute and a half. -/
def quarterPast : Instant := 90000000 + 1 / 4

/-- With a grace that makes the cutoff a full minute, the search equals the walk. -/
theorem search_equals_walk_minute :
    ∃ advance, WalksTo everyMinute (0 : ℤ) quarterPast (quarterPast - (30000000 + 1 / 4)) advance ∧
      IsAdvance {fire | 60000000 ∣ fire} 0 quarterPast (quarterPast - (30000000 + 1 / 4)) advance ∧
      advanceBuiltinRecurringTrigger everyMinute (0 : ℤ) quarterPast
        (quarterPast - (30000000 + 1 / 4)) = advance := by
  have hcutoff : quarterPast - (30000000 + 1 / 4) = ((60000000 : ℤ) : Instant) := by
    norm_num [quarterPast]
  refine (search_equals_walk_iff everyMinute_firesAt ⟨0, rfl⟩ (by norm_num [quarterPast])
    (by norm_num) (by decide) (by norm_num [quarterPast, datetimeMax])).mpr ?_
  rintro ⟨-, hround, -⟩
  rw [hcutoff, micros_intCast] at hround
  exact lt_irrefl _ hround

/-- With a grace of 30 seconds the fire time at one minute is missed by a quarter of a microsecond.
The search takes it for a due one, and the walk does not. -/
theorem late_fire_time_is_taken :
    ¬ ∃ advance, WalksTo everyMinute (0 : ℤ) quarterPast (quarterPast - seconds 30) advance ∧
      IsAdvance {fire | 60000000 ∣ fire} 0 quarterPast (quarterPast - seconds 30) advance ∧
      advanceBuiltinRecurringTrigger everyMinute (0 : ℤ) quarterPast (quarterPast - seconds 30) =
        advance := by
  have hcutoff : quarterPast - seconds 30 = 60000000 + 1 / 4 := by norm_num [quarterPast, seconds]
  have hround : micros (60000000 + 1 / 4) = 60000000 := by
    have hfloor : ⌊(60000000 + 1 / 4 : Instant)⌋ = 60000000 := by
      norm_num
    rw [micros, hfloor, if_pos (by norm_num)]
  rintro ⟨advance, -, hadv, hsame⟩
  rw [← hsame, hcutoff] at hadv
  refine (search_isAdvance_iff everyMinute_firesAt ⟨0, rfl⟩ (by norm_num [quarterPast])
    (by norm_num [quarterPast]) (by decide) (by norm_num [quarterPast, datetimeMax])).mp hadv ?_
  refine ⟨by norm_num, ?_, ?_⟩
  · rw [hround]
    norm_num
  · rw [hround]
    exact isGreatest_minute

end Cfms.Scheduling
