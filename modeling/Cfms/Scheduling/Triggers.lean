import Cfms.Lib.Json
import Mathlib.Data.Rat.Floor

/-!
# Triggers

`include/scheduling/triggers.py`.  An instant is a Unix time in microseconds; the source keeps
seconds, so that its `1_000_000` is the unit here.  Arithmetic on instants is exact.  A
`datetime` has a resolution of one microsecond, and the conversion of a timestamp rounds half to
even.

Cron and interval triggers belong to the scheduling library: a recurring trigger is its first fire
time from an instant on and its next fire time after a previous one.  A date trigger fires at its
run date, also when that lies in the past.
-/

namespace Cfms.Scheduling

open Lib Option

/-- A Unix time in microseconds. -/
abbrev Instant := ℚ

/-- A span of seconds. -/
def seconds (n : ℕ) : Instant := n * 1000000

/-- `datetime.fromtimestamp` and `round`: the nearest microsecond, half to even. -/
def micros (t : Instant) : ℤ :=
  if t - ⌊t⌋ < 1 / 2 then ⌊t⌋
  else if 1 / 2 < t - ⌊t⌋ then ⌊t⌋ + 1
  else if ⌊t⌋ % 2 = 0 then ⌊t⌋ else ⌊t⌋ + 1

theorem floor_le_micros (t : Instant) : ⌊t⌋ ≤ micros t := by
  unfold micros
  split_ifs <;> omega

theorem micros_le_floor_add_one (t : Instant) : micros t ≤ ⌊t⌋ + 1 := by
  unfold micros
  split_ifs <;> omega

@[simp] theorem micros_intCast (n : ℤ) : micros (n : Instant) = n := by
  have hzero : ((n : Instant) - (⌊(n : Instant)⌋ : ℤ)) < 1 / 2 := by
    norm_num
  rw [micros, if_pos hzero, Int.floor_intCast]

variable {n : ℤ} {t : Instant}

theorem le_micros (h : (n : Instant) ≤ t) : n ≤ micros t :=
  (Int.le_floor.mpr h).trans (floor_le_micros t)

theorem micros_mono {s : Instant} (h : s ≤ t) : micros s ≤ micros t := by
  have hfloor : ⌊s⌋ ≤ ⌊t⌋ := Int.floor_mono h
  rcases hfloor.lt_or_eq with hlt | heq
  · have hs := micros_le_floor_add_one s
    have ht := floor_le_micros t
    omega
  · unfold micros
    rw [heq]
    split_ifs with h₁ h₂ h₃ h₄ h₅ h₆ h₇ h₈ h₉ <;> first | omega | (exfalso; linarith)

/-! ### Fire times -/

/-- `CronTrigger` or `IntervalTrigger`. -/
structure RecurringTrigger where
  /-- `get_next_fire_time(None, now)`. -/
  first : ℤ → Option ℤ
  /-- `get_next_fire_time(previous, now)`. -/
  next : ℤ → ℤ → Option ℤ
  /-- The first fire time does not precede the instant it is asked for. -/
  le_first : ∀ now fire, first now = some fire → now ≤ fire
  lt_next : ∀ previous now fire, next previous now = some fire → previous < fire

inductive Trigger
  | recurring (trigger : RecurringTrigger)
  | date (runDate : ℤ)

namespace Trigger

def getNextFireTime : Trigger → Option ℤ → ℤ → Option ℤ
  | .recurring trigger, none, now => trigger.first now
  | .recurring trigger, some previous, now => trigger.next previous now
  | .date runDate, none, _ => some runDate
  | .date _, some _, _ => none

end Trigger

inductive TriggerType
  | cron
  | date
  | interval
  deriving DecidableEq

/-- `trigger_data`, a `dict[str, Any]`. -/
abbrev TriggerData := List (String × Json)

/-- What the trigger library, the time zones and `datetime` do. -/
structure TriggerLibrary where
  knownTimezone : String → Bool
  cronTrigger : (expression timezone : String) → Option RecurringTrigger
  intervalTrigger : (seconds : ℕ) → (startAt : ℤ) → (timezone : String) → Option RecurringTrigger
  /-- `datetime.fromisoformat` of a text with a UTC offset. -/
  awareDatetime : String → Option ℤ
  isoformat : ℤ → String

/-- `build_trigger`; `none` is a `TriggerValidationError`. -/
def buildTrigger (library : TriggerLibrary) (triggerType : TriggerType) (data : TriggerData)
    (timezone : String) : Option Trigger :=
  if library.knownTimezone timezone then
    match triggerType with
    | .cron =>
      ((data.lookup "expression").bind Json.text?).bind fun expression =>
        (library.cronTrigger expression timezone).map .recurring
    | .date => (((data.lookup "run_at").bind Json.text?).bind library.awareDatetime).map .date
    | .interval =>
      ((data.lookup "seconds").bind Json.int?).bind fun seconds =>
        if 0 < seconds then
          (((data.lookup "start_at").bind Json.text?).bind library.awareDatetime).bind fun startAt =>
            (library.intervalTrigger seconds.toNat startAt timezone).map .recurring
        else none
  else none

/-- The anchor of a valid interval is a text. -/
theorem lookup_startAt {library : TriggerLibrary} {data : TriggerData} {timezone : String}
    (h : (buildTrigger library .interval data timezone).isSome = true) :
    ∃ text, data.lookup "start_at" = some (.string text) := by
  obtain ⟨trigger, hbuild⟩ := isSome_iff_exists.mp h
  unfold buildTrigger at hbuild
  split at hbuild
  · obtain ⟨seconds, -, hbuild⟩ := bind_eq_some_iff.mp hbuild
    split at hbuild
    · obtain ⟨startAt, hstart, -⟩ := bind_eq_some_iff.mp hbuild
      obtain ⟨text, htext, -⟩ := bind_eq_some_iff.mp hstart
      obtain ⟨value, hvalue, htext⟩ := bind_eq_some_iff.mp htext
      cases value with
      | string text => exact ⟨text, hvalue⟩
      | null | bool _ | int _ | float _ | array _ | tuple _ | object _ => cases htext
    · cases hbuild
  · cases hbuild

/-- The stored data build the same trigger. -/
theorem buildTrigger_dumped (library : TriggerLibrary) (triggerType : TriggerType)
    (data : TriggerData) (timezone : String) :
    buildTrigger library triggerType (Json.dumpedMembers data) timezone =
      buildTrigger library triggerType data timezone := by
  simp only [buildTrigger, Json.bind_dumped Json.text?_dumped, Json.bind_dumped Json.int?_dumped]

def firstRunAt (trigger : Trigger) (now : Instant) : Option ℤ :=
  trigger.getNextFireTime none (micros now)

/-! ### Advancing a trigger past the due fire times -/

structure TriggerAdvance where
  latestDueAt : Option ℤ
  nextRunAt : Option ℤ
  deriving DecidableEq

/-- The binary search of `_advance_builtin_recurring_trigger` for the last due fire time. -/
def searchLatestDue (trigger : RecurringTrigger) (now : Instant) :
    ℕ → (latestDue : ℤ) → (lower upper : Instant) → ℤ
  | 0, latestDue, _, _ => latestDue
  | steps + 1, latestDue, lower, upper =>
    if upper - lower ≤ 1 then latestDue
    else
      let midpoint := lower + (upper - lower) / 2
      match trigger.first (micros midpoint) with
      | some candidate =>
        if (candidate : Instant) ≤ now then
          searchLatestDue trigger now steps candidate midpoint upper
        else searchLatestDue trigger now steps latestDue lower midpoint
      | none => searchLatestDue trigger now steps latestDue lower midpoint

def advanceBuiltinRecurringTrigger (trigger : RecurringTrigger) (currentRunAt now cutoff : Instant) :
    TriggerAdvance :=
  let firstDue? :=
    if currentRunAt < cutoff then trigger.first (micros cutoff) else some (micros currentRunAt)
  match firstDue? with
  | none => ⟨none, none⟩
  | some firstDue =>
    if now < (firstDue : Instant) then ⟨none, some firstDue⟩
    else
      let latestDue := searchLatestDue trigger now 64 firstDue firstDue (now + 1)
      ⟨some latestDue, trigger.next latestDue (micros now)⟩

/-- The loop of `advance_trigger`; without fuel it raises. -/
def coalesce (trigger : Trigger) (now cutoff : Instant) :
    ℕ → (candidate latestDue : Option ℤ) → Option TriggerAdvance
  | 0, _, _ => none
  | _ + 1, none, latestDue => some ⟨latestDue, none⟩
  | fuel + 1, some candidate, latestDue =>
    if (candidate : Instant) ≤ now then
      coalesce trigger now cutoff fuel
        (trigger.getNextFireTime (some candidate) (micros now))
        (if cutoff ≤ (candidate : Instant) then some candidate else latestDue)
    else some ⟨latestDue, some candidate⟩

def advanceTrigger (trigger : Trigger) (currentRunAt now : Instant) (misfireGraceSeconds : ℕ) :
    Option TriggerAdvance :=
  let cutoff := now - seconds misfireGraceSeconds
  match trigger with
  | .recurring recurring => some (advanceBuiltinRecurringTrigger recurring currentRunAt now cutoff)
  | .date _ =>
    let candidate :=
      if currentRunAt < cutoff then trigger.getNextFireTime none (micros cutoff)
      else some (micros currentRunAt)
    coalesce trigger now cutoff 100001 candidate none

variable {trigger : RecurringTrigger} {now : Instant}

theorem searchLatestDue_spec (steps : ℕ)
    {latestDue floor : ℤ} {lower upper : Instant} (hfloor : (floor : Instant) ≤ lower)
    (horder : lower ≤ upper) (hlat : floor ≤ latestDue) (hdue : (latestDue : Instant) ≤ now) :
    floor ≤ searchLatestDue trigger now steps latestDue lower upper ∧
      (searchLatestDue trigger now steps latestDue lower upper : Instant) ≤ now := by
  induction steps generalizing latestDue lower upper with
  | zero => exact ⟨hlat, hdue⟩
  | succ steps ih =>
    have hmid : lower ≤ lower + (upper - lower) / 2 := by linarith
    have hmid' : lower + (upper - lower) / 2 ≤ upper := by linarith
    simp only [searchLatestDue]
    split
    · exact ⟨hlat, hdue⟩
    split
    · rename_i cand hcand
      have hge : floor ≤ cand :=
        (le_micros (hfloor.trans hmid)).trans (trigger.le_first _ _ hcand)
      split
      · rename_i hle
        exact ih (hfloor.trans hmid) hmid' hge hle
      · exact ih hfloor hmid hlat hdue
    · exact ih hfloor hmid hlat hdue

variable {grace : ℕ} {advance : TriggerAdvance}

/-- What an advance of a recurring trigger from a due fire time returns: the latest due fire time
is one from `currentRunAt` on, and the next one follows it. -/
theorem advance_recurring (h : advanceTrigger (.recurring trigger) n now grace = some advance) :
    (∀ latest, advance.latestDueAt = some latest →
      n ≤ latest ∧ (latest : Instant) ≤ now ∧ ∀ next, advance.nextRunAt = some next → latest < next) ∧
    (advance.latestDueAt = none → ∀ next, advance.nextRunAt = some next → now < (next : Instant)) := by
  simp only [advanceTrigger, some.injEq] at h
  subst h
  simp only [advanceBuiltinRecurringTrigger]
  split
  · exact ⟨fun _ h => (by cases h), fun _ _ h => (by cases h)⟩
  rename_i firstDue hfirst
  have hge : n ≤ firstDue := by
    split_ifs at hfirst with hcut
    · exact (le_micros hcut.le).trans (trigger.le_first _ _ hfirst)
    · rw [some.injEq, micros_intCast] at hfirst
      exact hfirst.le
  split
  · rename_i hlate
    refine ⟨fun _ h => (by cases h), ?_⟩
    intro _ next hnext
    rw [some.injEq] at hnext
    rw [← hnext]
    exact hlate
  · rename_i hdueFirst
    have hupper : (firstDue : Instant) ≤ now + 1 := by linarith
    have hspec : firstDue ≤ searchLatestDue trigger now 64 firstDue firstDue (now + 1) ∧
        (searchLatestDue trigger now 64 firstDue firstDue (now + 1) : Instant) ≤ now :=
      searchLatestDue_spec 64 le_rfl hupper le_rfl (not_lt.mp hdueFirst)
    refine ⟨?_, fun h => by cases h⟩
    intro latest hlat
    rw [some.injEq] at hlat
    rw [← hlat]
    exact ⟨hge.trans hspec.1, hspec.2, fun next hnext => trigger.lt_next _ _ _ hnext⟩

variable {runDate : ℤ}

theorem coalesce_date {cutoff : Instant} (fuel : ℕ) (hdue : (runDate : Instant) ≤ now) :
    coalesce (.date runDate) now cutoff (fuel + 2) (some runDate) none =
      some ⟨if cutoff ≤ (runDate : Instant) then some runDate else none, none⟩ := by
  rw [coalesce, if_pos hdue]
  rfl

theorem advance_date (hdue : (runDate : Instant) ≤ now)
    (h : advanceTrigger (.date runDate) runDate now grace = some advance) :
    advance.nextRunAt = none ∧ ∀ latest, advance.latestDueAt = some latest → latest = runDate := by
  simp only [advanceTrigger, Trigger.getNextFireTime, micros_intCast, ite_self] at h
  rw [coalesce_date 99999 hdue, some.injEq] at h
  subst h
  refine ⟨rfl, ?_⟩
  intro latest hlat
  split_ifs at hlat
  rw [some.injEq] at hlat
  exact hlat.symm

end Cfms.Scheduling
