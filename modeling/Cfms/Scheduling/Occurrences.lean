import Cfms.Scheduling.Generation

/-!
# Occurrences are recorded once

An execution is stored under a digest of its schedule and its microsecond, so two occurrences of a
schedule in one microsecond collide, and the collision makes every later scan of the schedule fail.
User updates look for a recorded occurrence before they arm a schedule; reconciliation does not.
`Armed` says when the next and the pending occurrence of a schedule are safe from the recorded
ones and from each other, and every change keeps schedules armed, except for a reconciliation that
arms a recorded occurrence again or queues an immediate one in the same microsecond.
-/

namespace Cfms.Scheduling

open Lib Lib.Run Option

/-! ### Armed schedules -/

/-- The next and the pending occurrence against the recorded microseconds.  `occupied` says that
the slot holds an execution, whose end promotes the pending occurrence. -/
structure Armed (trigger : Option Trigger) (recorded : ℤ → Prop) (occupied : Prop)
    (next : Option ℤ) (pending : Option Instant) : Prop where
  pending_free : ∀ p, pending = some p → ¬recorded (micros p)
  next_free : ∀ n, next = some n → ¬recorded n
  apart : ∀ n p, next = some n → pending = some p → micros p = n → ¬occupied
  recurring : ∀ t n, trigger = some (.recurring t) → next = some n →
    (∀ r, recorded r → r < n) ∧ ∀ p, pending = some p → micros p ≤ n
  date : ∀ d n, trigger = some (.date d) → next = some n → n = d

section

variable {trigger : Option Trigger} {recorded recorded' : ℤ → Prop} {occupied occupied' : Prop}
  {next : Option ℤ} {pending : Option Instant} {now : Instant}

theorem armed_idle : Armed trigger recorded occupied none none :=
  ⟨nofun, nofun, nofun, nofun, nofun⟩

theorem Armed.mono (h : Armed trigger recorded occupied next pending)
    (hrec : ∀ r, recorded' r → recorded r) (hoccupied : occupied' → occupied) :
    Armed trigger recorded' occupied' next pending := by
  refine ⟨?_, ?_, ?_, ?_, h.date⟩
  · exact fun p hp hr => h.pending_free p hp (hrec _ hr)
  · exact fun n hn hr => h.next_free n hn (hrec _ hr)
  · exact fun n p hn hp heq hocc => h.apart n p hn hp heq (hoccupied hocc)
  intro t n ht hn
  obtain ⟨hlt, hle⟩ := h.recurring t n ht hn
  exact ⟨fun r hr => hlt r (hrec r hr), hle⟩

/-- The pending occurrence is recorded; the next fire stays armed. -/
theorem Armed.promote {p : Instant} (h : Armed trigger recorded occupied next (some p))
    (hoccupied : occupied) :
    Armed trigger (fun r => recorded r ∨ r = micros p) True next none := by
  have hne : ∀ n, next = some n → micros p ≠ n := by
    intro n hn heq
    exact h.apart n p hn rfl heq hoccupied
  refine ⟨nofun, ?_, nofun, ?_, h.date⟩
  · rintro n hn (hr | hr)
    · exact h.next_free n hn hr
    · exact hne n hn hr.symm
  · intro t n ht hn
    obtain ⟨hlt, hle⟩ := h.recurring t n ht hn
    refine ⟨?_, nofun⟩
    rintro r (hr | rfl)
    · exact hlt r hr
    · exact lt_of_le_of_ne (hle p rfl) (hne n hn)

/-- A new schedule is armed for a fire that is not recorded. -/
theorem armed_first {trig : Trigger} (hpast : ∀ r, recorded r → r ≤ micros now)
    (hnext : ∀ n, firstRunAt trig now = some n → ¬recorded n)
    (hpending : ∀ p, pending = some p → p = now ∧ ¬recorded (micros now) ∧
      (occupied → firstRunAt trig now ≠ some (micros now))) :
    Armed (some trig) recorded occupied (firstRunAt trig now) pending := by
  have hge : ∀ t n, trig = .recurring t → firstRunAt trig now = some n → micros now ≤ n := by
    intro t n ht hn
    rw [ht] at hn
    exact t.le_first _ _ hn
  refine ⟨?_, hnext, ?_, ?_, ?_⟩
  · intro p hp
    obtain ⟨rfl, hfree, -⟩ := hpending p hp
    exact hfree
  · intro n p hn hp heq hocc
    obtain ⟨rfl, -, hapart⟩ := hpending p hp
    exact hapart hocc (heq ▸ hn)
  · intro t n ht hn
    have hle := hge t n (some.inj ht) hn
    refine ⟨?_, ?_⟩
    · intro r hr
      refine lt_of_le_of_ne ((hpast r hr).trans hle) ?_
      rintro rfl
      exact hnext r hn hr
    · intro p hp
      rw [(hpending p hp).1]
      exact hle
  · intro d n ht hn
    rw [some.inj ht] at hn
    exact (some.inj hn).symm

/-! ### Due occurrences -/

/-- The pending occurrence is due and the next one is not, in the same microsecond. -/
def Schedule.isSplit (schedule : Schedule) (now : Instant) : Bool :=
  match schedule.pendingScheduledFor, schedule.nextRunAt with
  | some pending, some next => pending ≤ now && now < next && micros pending == next
  | _, _ => false

/-- What a due occurrence is, and what stays armed behind it. -/
structure DueSpec (trigger : Option Trigger) (recorded : ℤ → Prop) (pending : Option Instant)
    (now due : Instant) (next : Option ℤ) : Prop where
  le_now : due ≤ now
  free : ¬recorded (micros due)
  whole : (∀ p, pending = some p → p = micros p) → due = micros due
  next_free : ∀ n, next = some n → ¬recorded n ∧ micros due ≠ n
  recurring : ∀ t n, trigger = some (.recurring t) → next = some n →
    (∀ r, recorded r → r < n) ∧ micros due ≤ n
  date : ∀ d n, trigger = some (.date d) → next = some n → n = d

variable {due : Instant}

/-- A due occurrence that waits for the slot keeps the schedule armed. -/
theorem DueSpec.coalesced (h : DueSpec trigger recorded pending now due next) :
    Armed trigger recorded occupied next (some due) := by
  refine ⟨?_, fun n hn => (h.next_free n hn).1, ?_, ?_, h.date⟩
  · rintro p hp
    rw [← some.inj hp]
    exact h.free
  · intro n p hn hp heq _
    rw [← some.inj hp] at heq
    exact (h.next_free n hn).2 heq
  · intro t n ht hn
    obtain ⟨hlt, hle⟩ := h.recurring t n ht hn
    refine ⟨hlt, ?_⟩
    intro p hp
    rw [← some.inj hp]
    exact hle

/-- A due occurrence that is recorded keeps the schedule armed. -/
theorem DueSpec.occurred (h : DueSpec trigger recorded pending now due next) :
    Armed trigger (fun r => recorded r ∨ r = micros due) True next none := by
  have hcoalesced : Armed trigger recorded True next (some due) := h.coalesced
  exact hcoalesced.promote trivial

def Schedule.storedTrigger (schedule : Schedule) (env : Environment) : Option Trigger :=
  buildTrigger env.library schedule.triggerType schedule.triggerData schedule.timezone

variable {sched : Schedule}

theorem pendingDue_eq_some (h : sched.pendingDue now = some due) :
    sched.pendingScheduledFor = some due ∧ due ≤ now := by
  rw [Schedule.pendingDue, filter_eq_some_iff] at h
  exact ⟨h.1, by simpa using h.2⟩

variable {n : ℤ}

theorem dueRunAt_eq_some (h : sched.dueRunAt now = some n) :
    sched.nextRunAt = some n ∧ (n : Instant) ≤ now := by
  rw [Schedule.dueRunAt, filter_eq_some_iff] at h
  exact ⟨h.1, by simpa using h.2⟩

theorem dueSpec_of_armed
    (h : Armed trigger recorded occupied next pending) (hpending : pending = some due)
    (hle : due ≤ now) (hne : ∀ n, next = some n → micros due ≠ n) :
    DueSpec trigger recorded pending now due next := by
  refine ⟨hle, h.pending_free due hpending, fun hwhole => hwhole due hpending, ?_, ?_, h.date⟩
  · exact fun n hn => ⟨h.next_free n hn, hne n hn⟩
  intro t n ht hn
  obtain ⟨hlt, hmic⟩ := h.recurring t n ht hn
  exact ⟨hlt, hmic due hpending⟩

theorem ne_of_not_isSplit (hsplit : sched.isSplit now = false) (hlate : sched.dueRunAt now = none)
    (hpending : sched.pendingScheduledFor = some due) (hle : due ≤ now) :
    ∀ n, sched.nextRunAt = some n → micros due ≠ n := by
  intro n hn heq
  have hafter : now < (n : Instant) := by
    by_contra hnot
    rw [Schedule.dueRunAt, hn, filter_some, if_pos (by simpa using hnot)] at hlate
    cases hlate
  simp [Schedule.isSplit, hpending, hn, hle, hafter, heq] at hsplit

variable {latest : ℤ}

/-- The latest missed fire is due, and the next one is later. -/
theorem dueSpec_recurring {t : RecurringTrigger}
    (h : Armed (some (.recurring t)) recorded occupied (some n) pending) (hn : n ≤ latest)
    (hle : (latest : Instant) ≤ now) (hnext : ∀ m, next = some m → latest < m)
    (hdue : due = latest ∨ (pending = some due ∧ due ≤ now ∧ (latest : Instant) ≤ due)) :
    DueSpec (some (.recurring t)) recorded pending now due next := by
  obtain ⟨hlt, hpend⟩ := h.recurring t n rfl rfl
  have hmic : micros due = latest := by
    rcases hdue with rfl | ⟨hp, -, hge⟩
    · exact micros_intCast latest
    · exact le_antisymm ((hpend due hp).trans hn) (le_micros hge)
  have hfree : ∀ m, latest ≤ m → ¬recorded m := by
    intro m hm hr
    exact absurd (hlt m hr) (not_lt.mpr (hn.trans hm))
  refine ⟨?_, ?_, ?_, ?_, ?_, nofun⟩
  · rcases hdue with rfl | ⟨-, hdue, -⟩
    · exact hle
    · exact hdue
  · rw [hmic]
    exact hfree latest le_rfl
  · intro hwhole
    rcases hdue with rfl | ⟨hp, -, -⟩
    · rw [micros_intCast]
    · exact hwhole due hp
  · intro m hm
    rw [hmic]
    exact ⟨hfree m (hnext m hm).le, (hnext m hm).ne⟩
  · intro _ m _ hm
    rw [hmic]
    exact ⟨fun r hr => (hlt r hr).trans (hn.trans_lt (hnext m hm)), (hnext m hm).le⟩

theorem armed_skipped {t : RecurringTrigger}
    (h : Armed (some (.recurring t)) recorded occupied (some n) pending)
    (hnext : ∀ m, next = some m → n < m) :
    Armed (some (.recurring t)) recorded occupied next pending := by
  obtain ⟨hlt, hpend⟩ := h.recurring t n rfl rfl
  refine ⟨h.pending_free, ?_, ?_, ?_, nofun⟩
  · intro m hm hr
    exact absurd (hlt m hr) (not_lt.mpr (hnext m hm).le)
  · intro m p hm hp heq
    exact absurd heq (((hpend p hp).trans_lt (hnext m hm)).ne)
  · intro _ m _ hm
    exact ⟨fun r hr => (hlt r hr).trans (hnext m hm),
      fun p hp => (hpend p hp).trans (hnext m hm).le⟩

theorem dueSpec_date {d : ℤ}
    (h : Armed (some (.date d)) recorded occupied (some d) pending) (hle : (d : Instant) ≤ now)
    (hdue : due = d ∨ (pending = some due ∧ due ≤ now)) :
    DueSpec (some (.date d)) recorded pending now due none := by
  refine ⟨?_, ?_, ?_, nofun, nofun, nofun⟩
  · rcases hdue with rfl | ⟨-, hdue⟩
    · exact hle
    · exact hdue
  · rcases hdue with rfl | ⟨hp, -⟩
    · rw [micros_intCast]
      exact h.next_free d rfl
    · exact h.pending_free due hp
  · intro hwhole
    rcases hdue with rfl | ⟨hp, -⟩
    · rw [micros_intCast]
    · exact hwhole due hp

variable {p : Option Instant}

/-- Of two missed occurrences the later one is kept. -/
theorem laterOccurrence_eq_some (h : laterOccurrence p (some latest) = some due) :
    due = latest ∨ (p = some due ∧ (latest : Instant) ≤ due) := by
  cases p with
  | none => exact .inl (some.inj h).symm
  | some p =>
    simp only [laterOccurrence] at h
    split_ifs at h with hlt
    · exact .inl (some.inj h).symm
    rw [some.injEq] at h
    subst h
    exact .inr ⟨rfl, not_lt.mp hlt⟩

theorem laterOccurrence_ne_none : laterOccurrence p (some latest) ≠ none := by
  cases p with
  | none => simp [laterOccurrence]
  | some p =>
    simp only [laterOccurrence]
    split_ifs <;> simp

/-- **One scan of an armed schedule**: the occurrence that it finds is not recorded, and what stays
behind it is armed; a scan that finds nothing leaves the schedule armed. -/
theorem dueOccurrence_spec {env : Environment} {policy : SchedulingPolicy} {latest : Option Instant}
    (h : Armed (sched.storedTrigger env) recorded occupied sched.nextRunAt
      sched.pendingScheduledFor)
    (hsplit : sched.isSplit now = false)
    (hdue : dueOccurrence env policy sched now = .ok (latest, next)) :
    (∀ due, latest = some due →
      DueSpec (sched.storedTrigger env) recorded sched.pendingScheduledFor now due next) ∧
    (latest = none → Armed (sched.storedTrigger env) recorded occupied next
      sched.pendingScheduledFor) := by
  simp only [dueOccurrence] at hdue
  split at hdue
  · rename_i hlate
    cases hdue
    refine ⟨?_, fun _ => h⟩
    intro due hdue
    obtain ⟨hpending, hle⟩ := pendingDue_eq_some hdue
    exact dueSpec_of_armed h hpending hle (ne_of_not_isSplit hsplit hlate hpending hle)
  · rename_i n hn
    obtain ⟨hnext, hle⟩ := dueRunAt_eq_some hn
    rw [hnext] at h
    split at hdue
    · cases hdue
    rename_i trig hbuild
    have htrig : sched.storedTrigger env = some trig := hbuild
    rw [htrig] at h ⊢
    split at hdue
    · cases hdue
    rename_i advance hadvance
    cases hdue
    cases trig with
    | recurring t =>
      obtain ⟨hlat, hnone⟩ := advance_recurring hadvance
      cases hadv : advance.latestDueAt with
      | none =>
        have hskip : ∀ m, advance.nextRunAt = some m → n < m := by
          intro m hm
          exact_mod_cast hle.trans_lt (hnone hadv m hm)
        have harmed := armed_skipped h hskip
        refine ⟨?_, fun _ => harmed⟩
        intro due hdue
        obtain ⟨hpending, hduele⟩ := pendingDue_eq_some hdue
        refine dueSpec_of_armed harmed hpending hduele ?_
        intro m hm
        exact (((h.recurring t n rfl rfl).2 due hpending).trans_lt (hskip m hm)).ne
      | some l =>
        obtain ⟨hnl, hlnow, hlnext⟩ := hlat l hadv
        refine ⟨?_, fun hnone => absurd hnone laterOccurrence_ne_none⟩
        intro due hdue
        refine dueSpec_recurring h hnl hlnow hlnext ?_
        rcases laterOccurrence_eq_some hdue with heq | ⟨hp, hge⟩
        · exact .inl heq
        · obtain ⟨hpending, hduele⟩ := pendingDue_eq_some hp
          exact .inr ⟨hpending, hduele, hge⟩
    | date d =>
      have hnd : n = d := h.date d n rfl rfl
      subst hnd
      obtain ⟨hnil, hlat⟩ := advance_date hle hadvance
      rw [hnil]
      cases hadv : advance.latestDueAt with
      | none =>
        refine ⟨?_, fun _ => ⟨h.pending_free, nofun, nofun, nofun, nofun⟩⟩
        intro due hdue
        exact dueSpec_date h hle (.inr (pendingDue_eq_some hdue))
      | some l =>
        rw [hlat l hadv]
        refine ⟨?_, fun hnone => absurd hnone laterOccurrence_ne_none⟩
        intro due hdue
        refine dueSpec_date h hle ?_
        rcases laterOccurrence_eq_some hdue with heq | ⟨hp, -⟩
        · exact .inl heq
        · exact .inr (pendingDue_eq_some hp)

end

/-! ### The recorded occurrences -/

def Recorded (executions : Table ExecutionId Execution) (id : ScheduleId) (r : ℤ) : Prop :=
  ∃ key e, executions.lookup key = some e ∧ e.scheduleId = id ∧ micros e.scheduledFor = r

/-- `Recorded`, evaluated. -/
def isRecorded (executions : Table ExecutionId Execution) (id : ScheduleId) (r : ℤ) : Bool :=
  executions.any fun _ e => e.scheduleId == id && micros e.scheduledFor == r

theorem isRecorded_iff {executions : Table ExecutionId Execution} {id : ScheduleId} {r : ℤ} :
    isRecorded executions id r = true ↔ Recorded executions id r := by
  simp [isRecorded, Recorded, Table.any_iff]

/-- Every row of the second table is a row of the first, for the same occurrence. -/
def Origins (executions executions' : Table ExecutionId Execution) : Prop :=
  ∀ key e', executions'.lookup key = some e' → ∃ e, executions.lookup key = some e ∧
    e'.scheduleId = e.scheduleId ∧ e'.scheduledFor = e.scheduledFor

/-- The same, for the rows of one schedule. -/
def OriginsOf (id : ScheduleId) (executions executions' : Table ExecutionId Execution) : Prop :=
  ∀ key e', executions'.lookup key = some e' → e'.scheduleId = id →
    ∃ e, executions.lookup key = some e ∧ e.scheduleId = id ∧ e'.scheduledFor = e.scheduledFor

variable {env : Environment} {clock : Instant} {db db' : Database}
  {executions executions' : Table ExecutionId Execution} {id : ScheduleId} {old new : Schedule}

theorem Origins.of (h : Origins executions executions') (id : ScheduleId) :
    OriginsOf id executions executions' := by
  intro key e' he' hid
  obtain ⟨e, he, hsched, hfor⟩ := h key e' he'
  exact ⟨e, he, hsched ▸ hid, hfor⟩

theorem OriginsOf.recorded (h : OriginsOf id executions executions') (r : ℤ)
    (hr : Recorded executions' id r) : Recorded executions id r := by
  obtain ⟨key, e', he', hid, hmic⟩ := hr
  obtain ⟨e, he, hid, hfor⟩ := h key e' he' hid
  exact ⟨key, e, he, hid, hfor ▸ hmic⟩

theorem Origins.refl (executions : Table ExecutionId Execution) : Origins executions executions :=
  fun _ e he => ⟨e, he, rfl, rfl⟩

variable {e : Execution} {key : ExecutionId} {e' : Execution}

theorem Origins.insert (he : executions.lookup key = some e) (hid : e'.scheduleId = e.scheduleId)
    (hfor : e'.scheduledFor = e.scheduledFor) : Origins executions (executions.insert key e') := by
  intro k e₁ he₁
  rcases Table.lookup_insert_eq_some he₁ with ⟨rfl, rfl⟩ | ⟨-, hk⟩
  · exact ⟨e, he, hid, hfor⟩
  · exact ⟨e₁, hk, rfl, rfl⟩

theorem Origins.update {f : ExecutionId → Execution → Execution}
    (hid : ∀ key e, (f key e).scheduleId = e.scheduleId)
    (hfor : ∀ key e, (f key e).scheduledFor = e.scheduledFor) :
    Origins executions (executions.update f) := by
  intro key e' he'
  obtain ⟨e, he, rfl⟩ := Table.lookup_update_eq_some he'
  exact ⟨e, he, hid key e, hfor key e⟩

theorem Origins.delete {gone : ExecutionId → Execution → Bool} :
    Origins executions (executions.delete gone) :=
  fun _ e he => ⟨e, (Table.lookup_delete_eq_some.mp he).1, rfl, rfl⟩

/-! ### Tidy databases -/

structure RowTidy (env : Environment) (clock : Instant)
    (executions : Table ExecutionId Execution) (id : ScheduleId) (schedule : Schedule) : Prop where
  pending_le : ∀ p, schedule.pendingScheduledFor = some p → p ≤ clock
  armed : Armed (schedule.storedTrigger env) (Recorded executions id)
    (schedule.activeExecutionId ≠ none) schedule.nextRunAt schedule.pendingScheduledFor
  /-- A user schedule only ever fires at fire times of its triggers. -/
  whole : schedule.systemManaged = false →
    (∀ p, schedule.pendingScheduledFor = some p → p = micros p) ∧
    ∀ key e, executions.lookup key = some e → e.scheduleId = id → e.scheduledFor = micros e.scheduledFor

structure Tidy (env : Environment) (clock : Instant) (db : Database) : Prop where
  owned : ∀ key e, db.executions.lookup key = some e →
    ∃ schedule, db.schedules.lookup e.scheduleId = some schedule
  keyed : ∀ key e, db.executions.lookup key = some e →
    key = executionId env e.scheduleId e.scheduledFor
  past : ∀ key e, db.executions.lookup key = some e → e.scheduledFor ≤ clock
  row : ∀ id schedule, db.schedules.lookup id = some schedule →
    RowTidy env clock db.executions id schedule

variable {clock' : Instant}

/-- A row whose occurrences are left alone, while recorded ones may go and the slot may be
emptied. -/
theorem RowTidy.keep (h : RowTidy env clock executions id old)
    (hclock : clock ≤ clock') (horig : OriginsOf id executions executions')
    (htrig : new.storedTrigger env = old.storedTrigger env)
    (hnext : new.nextRunAt = old.nextRunAt)
    (hpending : new.pendingScheduledFor = old.pendingScheduledFor)
    (hman : new.systemManaged = old.systemManaged)
    (hslot : new.activeExecutionId ≠ none → old.activeExecutionId ≠ none) :
    RowTidy env clock' executions' id new := by
  constructor
  · intro p hp
    exact (h.pending_le p (hpending ▸ hp)).trans hclock
  · rw [htrig, hnext, hpending]
    exact h.armed.mono horig.recorded hslot
  · intro huser
    obtain ⟨hwhole, hrows⟩ := h.whole (hman ▸ huser)
    refine ⟨?_, ?_⟩
    · intro p hp
      exact hwhole p (hpending ▸ hp)
    · intro key e' he' hid
      obtain ⟨e, he, hid, hfor⟩ := horig key e' he' hid
      rw [hfor]
      exact hrows key e he hid

theorem RowTidy.keep_row {sched : Schedule}
    (h : RowTidy env clock executions id sched) (hclock : clock ≤ clock')
    (horig : OriginsOf id executions executions') : RowTidy env clock' executions' id sched :=
  h.keep hclock horig rfl rfl rfl rfl fun hslot => hslot

/-- The invariant, while executions change but keep where they come from. -/
theorem Tidy.setExecutions {runtime : Option RuntimeState} (h : Tidy env clock db)
    (horig : Origins db.executions executions) :
    Tidy env clock { db with executions := executions, runtime := runtime } := by
  constructor
  · intro key e' he'
    obtain ⟨e, he, hsched, -⟩ := horig key e' he'
    rw [hsched]
    exact h.owned key e he
  · intro key e' he'
    obtain ⟨e, he, hsched, hfor⟩ := horig key e' he'
    rw [hsched, hfor]
    exact h.keyed key e he
  · intro key e' he'
    obtain ⟨e, he, -, hfor⟩ := horig key e' he'
    rw [hfor]
    exact h.past key e he
  · intro k sched hsched
    exact (h.row k sched hsched).keep_row le_rfl (horig.of k)

theorem Tidy.setSchedule (h : Tidy env clock db) (hnew : RowTidy env clock db.executions id new) :
    Tidy env clock (db.setSchedule id new) := by
  constructor
  · intro key e he
    obtain ⟨sched, hsched⟩ := h.owned key e he
    by_cases hid : e.scheduleId = id
    · exact ⟨new, hid ▸ AList.lookup_insert _⟩
    · exact ⟨sched, (AList.lookup_insert_ne hid).trans hsched⟩
  · exact h.keyed
  · exact h.past
  intro k sched hsched
  rcases Table.lookup_insert_eq_some hsched with ⟨rfl, rfl⟩ | ⟨-, hk⟩
  · exact hnew
  · exact h.row k sched hk

theorem Tidy.later (h : Tidy env clock db) (hclock : clock ≤ clock') : Tidy env clock' db := by
  refine ⟨h.owned, h.keyed, fun key e he => (h.past key e he).trans hclock, ?_⟩
  intro k sched hsched
  exact (h.row k sched hsched).keep_row hclock ((Origins.refl _).of k)

variable {gen : ℕ}

/-- The invariant, when a due occurrence is recorded. -/
theorem Tidy.addOccurrence {due now : Instant} (h : Tidy env clock db)
    (hle : due ≤ clock) (hpending : new.pendingScheduledFor = none)
    (harmed : Armed (new.storedTrigger env)
      (fun r => Recorded db.executions id r ∨ r = micros due) True new.nextRunAt none)
    (hwhole : new.systemManaged = false → due = micros due ∧
      ∀ key e, db.executions.lookup key = some e → e.scheduleId = id →
        e.scheduledFor = micros e.scheduledFor) :
    Tidy env clock (db.addOccurrence env id new due gen now) := by
  have hrows : ∀ key e, (db.addOccurrence env id new due gen now).executions.lookup key =
      some e → (key = executionId env id due ∧ e = newExecution id new due gen now) ∨
        db.executions.lookup key = some e := by
    intro key e he
    rcases Table.lookup_insert_eq_some he with hnew | ⟨-, hold⟩
    · exact .inl hnew
    · exact .inr hold
  constructor
  · intro key e he
    by_cases hid : e.scheduleId = id
    · refine ⟨{ new with activeExecutionId := some (executionId env id due) }, ?_⟩
      rw [hid]
      exact AList.lookup_insert _
    · rcases hrows key e he with ⟨-, rfl⟩ | hold
      · exact absurd rfl hid
      · obtain ⟨sched, hsched⟩ := h.owned key e hold
        exact ⟨sched, (AList.lookup_insert_ne hid).trans hsched⟩
  · intro key e he
    rcases hrows key e he with ⟨rfl, rfl⟩ | hold
    · rfl
    · exact h.keyed key e hold
  · intro key e he
    rcases hrows key e he with ⟨-, rfl⟩ | hold
    · exact hle
    · exact h.past key e hold
  · intro k sched hsched
    rcases Table.lookup_insert_eq_some hsched with ⟨rfl, rfl⟩ | ⟨hne, hk⟩
    · constructor
      · intro p hp
        rw [show new.pendingScheduledFor = some p from hp] at hpending
        cases hpending
      · show Armed (new.storedTrigger env) _ _ new.nextRunAt new.pendingScheduledFor
        rw [hpending]
        refine harmed.mono ?_ fun _ => trivial
        rintro r ⟨key, e, he, hid, hmic⟩
        rcases hrows key e he with ⟨-, rfl⟩ | hold
        · exact .inr hmic.symm
        · exact .inl ⟨key, e, hold, hid, hmic⟩
      · intro huser
        obtain ⟨hdue, hold⟩ := hwhole huser
        refine ⟨?_, ?_⟩
        · intro p hp
          rw [show new.pendingScheduledFor = some p from hp] at hpending
          cases hpending
        · intro key e he hid
          rcases hrows key e he with ⟨-, rfl⟩ | hrow
          · exact hdue
          · exact hold key e hrow hid
    · refine (h.row k sched hk).keep_row le_rfl ?_
      intro key e he hid
      rcases hrows key e he with ⟨-, rfl⟩ | hrow
      · exact absurd hid.symm hne
      · exact ⟨e, hrow, hid, rfl⟩

/-! ### The condition -/

/-- Reconciliation arms the stored schedule with occurrences that are not recorded, and does not
queue an immediate one in the microsecond of the next one behind an execution in the slot. -/
def armsFresh (executions : Table ExecutionId Execution) (id : ScheduleId) (old : Schedule)
    (values : SystemScheduleValues) : Bool :=
  values.nextRunAt.all (fun n => !isRecorded executions id n) &&
    values.pendingScheduledFor.all fun p => !isRecorded executions id (micros p) &&
      (old.activeExecutionId.isNone || values.nextRunAt != some (micros p))

/-- The writes that keep a database tidy. -/
def FreshWrite (env : Environment) (now : Instant) (db : Database) : Write → Prop
  | .reconcile desired => ∀ old values, db.schedules.lookup desired.id = some old →
    systemScheduleValues env desired (some old) now = .ok values →
    matchesSystemSchedule old desired values = false →
    armsFresh db.executions desired.id old values = true
  | .scan id => ∀ sched, db.schedules.lookup id = some sched → sched.isSplit now = false

variable {desired : DesiredSchedule} {values : SystemScheduleValues} {sched : Option Schedule}

theorem systemScheduleValues_ok {now : Instant}
    (h : systemScheduleValues env desired sched now = .ok values) :
    ∃ trigger, buildTrigger env.library desired.definition.triggerType values.triggerData
        desired.definition.timezone = some trigger ∧
      values.nextRunAt = firstRunAt trigger now ∧
      ∀ p, values.pendingScheduledFor = some p → p = now := by
  simp only [systemScheduleValues] at h
  split at h
  · cases h
  rename_i trigger hbuild
  cases h
  refine ⟨trigger, hbuild, rfl, ?_⟩
  intro p hp
  split_ifs at hp
  exact (some.inj hp).symm

/-! ### Changes keep a database tidy -/

variable {now : Instant} {current : Option ℕ}

theorem Tidy.not_recorded (h : Tidy env clock db) (hfree : db.schedules.lookup id = none) (r : ℤ) :
    ¬Recorded db.executions id r := by
  rintro ⟨key, e, he, hid, -⟩
  obtain ⟨sched, hsched⟩ := h.owned key e he
  rw [hid, hfree] at hsched
  cases hsched

theorem Tidy.recorded_le (h : Tidy env now db) (r : ℤ) (hr : Recorded db.executions id r) :
    r ≤ micros now := by
  obtain ⟨key, e, he, -, rfl⟩ := hr
  exact micros_mono (h.past key e he)

variable {trigger : Trigger}

/-- The invariant, when a schedule is created. -/
theorem Tidy.create (h : Tidy env now db)
    (hfree : db.schedules.lookup id = none) (hpending : new.pendingScheduledFor = none)
    (hbuild : new.storedTrigger env = some trigger) (hnext : new.nextRunAt = firstRunAt trigger now) :
    Tidy env now (db.setSchedule id new) := by
  refine h.setSchedule ⟨?_, ?_, ?_⟩
  · intro p hp
    rw [hpending] at hp
    cases hp
  · rw [hbuild, hnext, hpending]
    exact armed_first h.recorded_le (fun n _ => h.not_recorded hfree n) nofun
  · intro _
    refine ⟨?_, ?_⟩
    · intro p hp
      rw [hpending] at hp
      cases hp
    · intro key e he hid
      obtain ⟨sched, hsched⟩ := h.owned key e he
      rw [hid, hfree] at hsched
      cases hsched

theorem not_recorded_of_query {fire : ℤ}
    (hwhole : ∀ key e, db.executions.lookup key = some e → e.scheduleId = id →
      e.scheduledFor = micros e.scheduledFor)
    (h : db.recorded id fire = false) : ¬Recorded db.executions id fire := by
  rintro ⟨key, e, he, hid, hmic⟩
  have htrue : db.recorded id fire = true := by
    rw [Database.recorded, Table.any_iff]
    refine ⟨key, e, he, ?_⟩
    have hfor := hwhole key e he hid
    rw [hmic] at hfor
    simp [hid, hfor]
  rw [h] at htrue
  cases htrue

/-- The invariant, when a user's schedule gets a new trigger. -/
theorem Tidy.update (h : Tidy env now db)
    (hold : db.schedules.lookup id = some old) (huser : old.systemManaged = false)
    (hpending : new.pendingScheduledFor = none)
    (hbuild : new.storedTrigger env = some trigger) (hnext : new.nextRunAt = firstRunAt trigger now)
    (hrec : ∀ fire : ℤ, new.nextRunAt = some fire → db.recorded id fire = false) :
    Tidy env now (db.setSchedule id new) := by
  obtain ⟨-, hwhole⟩ := (h.row id old hold).whole huser
  refine h.setSchedule ⟨?_, ?_, ?_⟩
  · intro p hp
    rw [hpending] at hp
    cases hp
  · rw [hbuild, hnext, hpending]
    refine armed_first h.recorded_le ?_ nofun
    intro n hn
    exact not_recorded_of_query hwhole (hrec n (hnext.trans hn))
  · intro _
    refine ⟨?_, hwhole⟩
    intro p hp
    rw [hpending] at hp
    cases hp

/-- The invariant, when reconciliation rewrites a system schedule. -/
theorem Tidy.reconcile (h : Tidy env now db)
    (hvals : systemScheduleValues env desired (db.schedules.lookup desired.id) now = .ok values)
    (hchanged : ∀ old, db.schedules.lookup desired.id = some old →
      matchesSystemSchedule old desired values = false)
    (hallow : FreshWrite env now db (.reconcile desired)) :
    Tidy env now (db.setSchedule desired.id
      (systemSchedule (db.schedules.lookup desired.id) desired values)) := by
  obtain ⟨trigger, hbuild, hnext, hpending⟩ := systemScheduleValues_ok hvals
  have hfresh : (∀ n, values.nextRunAt = some n → ¬Recorded db.executions desired.id n) ∧
      ∀ p, values.pendingScheduledFor = some p → ¬Recorded db.executions desired.id (micros p) ∧
        ((db.schedules.lookup desired.id).bind Schedule.activeExecutionId ≠ none →
          values.nextRunAt ≠ some (micros p)) := by
    cases hlook : db.schedules.lookup desired.id with
    | none =>
      exact ⟨fun n _ => h.not_recorded hlook n,
        fun p _ => ⟨h.not_recorded hlook _, fun hslot => absurd rfl hslot⟩⟩
    | some old =>
      have harms := hallow old values hlook (hlook ▸ hvals) (hchanged old hlook)
      simp only [armsFresh, Bool.and_eq_true, all_eq_true, Bool.not_eq_true',
        Bool.or_eq_true, bne_iff_ne, isNone_iff_eq_none] at harms
      refine ⟨?_, ?_⟩
      · intro n hn
        rw [← isRecorded_iff, harms.1 n hn]
        exact Bool.false_ne_true
      · intro p hp
        obtain ⟨hfree, hapart⟩ := harms.2 p hp
        refine ⟨?_, fun hslot => hapart.resolve_left hslot⟩
        rw [← isRecorded_iff, hfree]
        exact Bool.false_ne_true
  refine h.setSchedule ⟨?_, ?_, fun huser => by cases huser⟩
  · intro p hp
    exact (hpending p hp).le
  · show Armed (buildTrigger env.library desired.definition.triggerType
      (Json.dumpedMembers values.triggerData) desired.definition.timezone) _ _ values.nextRunAt
        values.pendingScheduledFor
    rw [buildTrigger_dumped, hbuild, hnext]
    refine armed_first h.recorded_le ?_ ?_
    · intro n hn
      exact hfresh.1 n (hnext.trans hn)
    · intro p hp
      have hnow := hpending p hp
      obtain ⟨hfree, hapart⟩ := hfresh.2 p hp
      rw [hnow, hnext] at hapart
      rw [hnow] at hfree
      exact ⟨hnow, hfree, hapart⟩

variable {policy : SchedulingPolicy}

/-- The invariant, when a scan finds a schedule due. -/
theorem Tidy.due {latest : Option Instant} {next : Option ℤ}
    (h : Tidy env now db) (hold : db.schedules.lookup id = some old)
    (hallow : FreshWrite env now db (.scan id))
    (hdue : dueOccurrence env policy old now = .ok (latest, next)) :
    (∀ due, latest = some due → DueSpec (old.storedTrigger env) (Recorded db.executions id)
      old.pendingScheduledFor now due next) ∧
    (latest = none → Armed (old.storedTrigger env) (Recorded db.executions id)
      (old.activeExecutionId ≠ none) next old.pendingScheduledFor) :=
  dueOccurrence_spec (h.row id old hold).armed (hallow old hold) hdue

/-- **The invariant is kept by every change.** -/
theorem Tidy.change (h : Tidy env now db)
    (hchg : Change env (FreshWrite env now) current now db db') : Tidy env now db' := by
  cases hchg with
  | create hfree hslot hpending huser hbuild hnext => exact h.create hfree hpending hbuild hnext
  | update hold hkept huser hempty hslot hpending huser' hbuild hnext hrec =>
    exact h.update hold huser hpending hbuild hnext hrec
  | retire hold =>
    refine h.setSchedule ⟨nofun, armed_idle, ?_⟩
    intro huser
    exact ⟨nofun, ((h.row _ _ hold).whole huser).2⟩
  | reconcile hman hvals hchanged hallow => exact h.reconcile hvals hchanged hallow
  | skip hold hact hdue hst hnew hallow =>
    have hrow := h.row _ _ hold
    refine h.setSchedule ?_
    rw [hnew]
    exact ⟨hrow.pending_le, (h.due hold hallow hdue).2 rfl, hrow.whole⟩
  | coalesce hold hact hdue hslot hallow =>
    have hrow := h.row _ _ hold
    have hspec := (h.due hold hallow hdue).1 _ rfl
    refine h.setSchedule ⟨?_, hspec.coalesced, ?_⟩
    · intro p hp
      rw [← some.inj hp]
      exact hspec.le_now
    · intro huser
      obtain ⟨hpending, hrows⟩ := hrow.whole huser
      refine ⟨?_, hrows⟩
      intro p hp
      rw [← some.inj hp]
      exact hspec.whole hpending
  | occur hold hgen hact hdue hslot hfree hallow =>
    have hrow := h.row _ _ hold
    have hspec := (h.due hold hallow hdue).1 _ rfl
    refine h.addOccurrence hspec.le_now rfl hspec.occurred ?_
    intro huser
    obtain ⟨hpending, hrows⟩ := hrow.whole huser
    exact ⟨hspec.whole hpending, hrows⟩
  | finish hold hslot hexec hends hst hnew =>
    rename_i id key old new e e'
    have horig : Origins db.executions (db.executions.insert key e') :=
      .insert hexec hends.scheduleId hends.scheduledFor
    have htidy : Tidy env now (db.setExecution key e') := h.setExecutions horig
    refine htidy.setSchedule ?_
    rw [hnew]
    exact (htidy.row id old hold).keep le_rfl ((Origins.refl _).of id) rfl rfl rfl rfl
      fun hslot => absurd rfl hslot
  | promote hold hslot hkept hexec hgen hends hpending hfree =>
    rename_i id key old e e' pending gen
    have horig : Origins db.executions (db.executions.insert key e') :=
      .insert hexec hends.scheduleId hends.scheduledFor
    have htidy : Tidy env now (db.setExecution key e') := h.setExecutions horig
    have hrow := htidy.row id old hold
    have harmed := hrow.armed
    rw [hpending] at harmed
    refine htidy.addOccurrence (hrow.pending_le pending hpending) rfl
      (harmed.promote (by rw [hslot]; exact some_ne_none key)) ?_
    intro huser
    obtain ⟨hwhole, hrows⟩ := hrow.whole huser
    exact ⟨hwhole pending hpending, hrows⟩
  | stray hexec hold hslot hends =>
    exact h.setExecutions (.insert hexec hends.scheduleId hends.scheduledFor)
  | dropSlot hold hslot hended =>
    refine h.setSchedule ((h.row _ _ hold).keep le_rfl ((Origins.refl _).of _) rfl rfl rfl rfl ?_)
    exact fun hslot => absurd rfl hslot
  | move hexec hmoves =>
    exact h.setExecutions (.insert hexec hmoves.scheduleId hmoves.scheduledFor)
  | moveAll hmoves =>
    exact h.setExecutions (.update (fun key e => (hmoves key e).scheduleId)
      fun key e => (hmoves key e).scheduledFor)

variable {claim : ClaimedExecution}

theorem Tidy.claims {owner : LeaseOwner} (h : Tidy env clock db)
    (hclaims : Claims db db' policy gen owner now claim e) : Tidy env clock db' := by
  rw [hclaims.result]
  exact h.setExecutions (.insert hclaims.execution rfl rfl)

theorem scheduledFor_migrated (e : Execution) (db : Database) (gen : ℕ) :
    (e.migrated db gen).scheduledFor = e.scheduledFor := by
  unfold Execution.migrated
  split_ifs <;> rfl

variable {action : Action}

theorem Tidy.committed (h : Tidy env action.now db)
    (hcomm : Committed env (FreshWrite env action.now) db action db') :
    Tidy env action.now db' := by
  cases hcomm with
  | idle => exact h
  | claim hclaims | claimById hclaims => exact h.claims hclaims
  | purge hgone => exact h.setExecutions .delete
  | boot hrunt => exact h.setExecutions (.refl _)
  | switch hrunt =>
    exact h.setExecutions (.update (fun _ e => (isActive_migrated e _ _).1)
      fun _ e => scheduledFor_migrated e _ _)
  | changes hchgs =>
    induction hchgs with
    | refl => exact h
    | tail _ hlast ih => exact ih.change hlast

/-- The condition on one transaction: no reconciliation arms a recorded occurrence again, and no
scan falls between a pending and a next occurrence of one microsecond. -/
def freshAction (env : Environment) (db : Database) : Action → Bool
  | .synchronize registry now =>
    match desiredSchedules registry registry [] with
    | .error _ => true
    | .ok desired =>
      desired.all fun item => (db.schedules.lookup item.id).all fun old =>
        match systemScheduleValues env item (some old) now with
        | .error _ => true
        | .ok values =>
          matchesSystemSchedule old item values || armsFresh db.executions item.id old values
  | .enqueue _ _ id now => (db.schedules.lookup id).all fun schedule => !schedule.isSplit now
  | _ => true

theorem armsFresh_mono (h : OriginsOf id executions executions')
    (hfresh : armsFresh executions id old values = true) :
    armsFresh executions' id old values = true := by
  have hmono : ∀ r, isRecorded executions id r = false → isRecorded executions' id r = false := by
    intro r hr
    rw [Bool.eq_false_iff, Ne, isRecorded_iff] at hr ⊢
    exact fun hr' => hr (h.recorded r hr')
  simp only [armsFresh, Bool.and_eq_true, all_eq_true, Bool.not_eq_true'] at hfresh ⊢
  refine ⟨fun n hn => hmono n (hfresh.1 n hn), ?_⟩
  intro p hp
  exact ⟨hmono _ (hfresh.2 p hp).1, (hfresh.2 p hp).2⟩

theorem permits_of_freshAction (h : freshAction env db action = true) :
    ActionPermits (FreshWrite env action.now) db action := by
  cases action with
  | synchronize registry now =>
    intro desired hdes item hitem db₁ haside old values hold hvals hmatch
    rw [haside.schedule] at hold
    simp only [freshAction, hdes, List.all_eq_true] at h
    have hitem' := h item hitem
    rw [hold, all_some, show systemScheduleValues env item (some old) now = .ok values
      from hvals] at hitem'
    simp only [hmatch] at hitem'
    refine armsFresh_mono ?_ hitem'
    intro key e he hid
    obtain ⟨e₀, he₀, hsched, hfor, -⟩ := haside.executions key e he
    exact ⟨e₀, he₀, hsched ▸ hid, hfor⟩
  | enqueue policy gen id now =>
    intro sched hsched
    simp only [freshAction, hsched, all_some, Bool.not_eq_true'] at h
    exact h
  | _ => trivial

/-- **The step lemma**, for a transaction that arms no recorded fire. -/
theorem Tidy.commit (h : Tidy env clock db) (hclock : clock ≤ action.now)
    (hfresh : freshAction env db action = true) : Tidy env action.now (commit env db action) := by
  have hnow := h.later hclock
  unfold Scheduling.commit
  split
  · rename_i db' hcommit
    exact hnow.committed (transact_committed (permits_of_freshAction hfresh) hcommit)
  · exact hnow

theorem tidy_empty (clock : Instant) : Tidy env clock .empty := by
  constructor
  · intro key e he
    cases he
  · intro key e he
    cases he
  · intro key e he
    cases he
  · intro id sched hsched
    cases hsched

/-! ### Failures of a transaction -/

/-- The failure is a violation of the primary key of executions. -/
def Failure.isDuplicate : Failure → Bool
  | .duplicateOccurrence _ _ => true
  | _ => false

variable {err : Failure} {registry : Registry}

theorem validatePayload_error {name : String} {version : ℕ}
    {payload : Payload} (h : registry.validatePayload name version payload = .error err) :
    err.isDuplicate = false := by
  simp only [Registry.validatePayload] at h
  split at h
  · cases h
    rfl
  · split at h
    · cases h
      rfl
    · split at h
      · cases h
        rfl
      · cases h

variable {request : ScheduleRequest}

theorem checkRequest_error
    (h : checkRequest env registry request = .error err) : err.isDuplicate = false := by
  simp only [checkRequest] at h
  split at h
  · cases h
    rfl
  · split at h
    · cases h
      rfl
    · split at h
      · rename_i hpayload
        cases h
        exact validatePayload_error hpayload
      · split at h
        · cases h
          rfl
        · cases h

theorem createSchedule_error (h : createSchedule env db registry id request now = .error err) :
    err.isDuplicate = false := by
  simp only [createSchedule] at h
  split at h
  · rename_i hcheck
    cases h
    exact checkRequest_error hcheck
  · split at h
    · cases h
      rfl
    · cases h

variable {rev : ℕ}

theorem updateSchedule_error {changes : ScheduleChanges}
    (h : updateSchedule env db registry id rev changes now = .error err) :
    err.isDuplicate = false := by
  simp only [updateSchedule] at h
  split at h
  · cases h
    rfl
  · split_ifs at h
    · cases h
      rfl
    · cases h
      rfl
    · cases h
      rfl
    · cases h
      rfl
    · split at h
      · rename_i hcheck
        cases h
        exact checkRequest_error hcheck
      · split at h
        · cases h
          rfl
        · cases h

theorem deleteSchedule_error (h : deleteSchedule db id rev now = .error err) :
    err.isDuplicate = false := by
  simp only [deleteSchedule] at h
  split at h
  · cases h
    rfl
  · split_ifs at h <;> · cases h; rfl

theorem desiredSchedules_error {registrations : List Registration}
    {collected : List DesiredSchedule}
    (h : desiredSchedules registry registrations collected = .error err) :
    err.isDuplicate = false := by
  induction registrations generalizing collected with
  | nil => cases h
  | cons registration rest ih =>
    simp only [desiredSchedules] at h
    split at h
    · exact ih h
    split at h
    · cases h
      rfl
    · split at h
      · rename_i hpayload
        cases h
        exact validatePayload_error hpayload
      · exact ih h

theorem systemScheduleValues_error
    (h : systemScheduleValues env desired sched now = .error err) :
    err.isDuplicate = false := by
  simp only [systemScheduleValues] at h
  split at h
  · cases h
    rfl
  · cases h

theorem reconcile_error {desired : List DesiredSchedule}
    (h : desired.foldlM (reconcileSystemSchedule env now) db = .error err) :
    err.isDuplicate = false := by
  induction desired generalizing db with
  | nil => cases h
  | cons item rest ih =>
    rw [List.foldlM_cons] at h
    cases hstep : reconcileSystemSchedule env now db item with
    | error inner =>
      rw [hstep] at h
      cases h
      simp only [reconcileSystemSchedule] at hstep
      split at hstep
      · cases hstep
        rfl
      · split at hstep
        · rename_i hvals
          cases hstep
          exact systemScheduleValues_error hvals
        · split at hstep <;> cases hstep
    | ok db₁ =>
      rw [hstep] at h
      exact ih h

theorem synchronize_error (h : synchronizeSystemSchedules env db registry now = .error err) :
    err.isDuplicate = false := by
  simp only [synchronizeSystemSchedules] at h
  split at h
  · rename_i hdes
    cases h
    exact desiredSchedules_error hdes
  · exact reconcile_error h

theorem dueOccurrence_error
    (h : dueOccurrence env policy old now = .error err) : err.isDuplicate = false := by
  simp only [dueOccurrence] at h
  split at h
  · cases h
  split at h
  · cases h
    rfl
  · split at h
    · cases h
      rfl
    · cases h

theorem ensureRuntimeState_error {provider : Provider} {redisNamespace : Option String}
    (h : ensureRuntimeState db provider redisNamespace now = .error err) :
    err.isDuplicate = false := by
  simp only [ensureRuntimeState] at h
  split_ifs at h <;> · cases h; rfl

/-- A failed insert: the occurrence is not recorded, but its digest is taken. -/
def Collides (env : Environment) (db : Database) (id : ScheduleId) (t : Instant) : Prop :=
  ¬Recorded db.executions id (micros t) ∧
    ∃ e, db.executions.lookup (executionId env id t) = some e

variable {t : Instant} {k : ScheduleId}

theorem enqueue_duplicate (h : Tidy env now db) (hallow : FreshWrite env now db (.scan id))
    (herror : enqueueSchedule env db policy gen id now = .error (.duplicateOccurrence k t)) :
    Collides env db k t := by
  simp only [enqueueSchedule] at herror
  split at herror
  · cases herror
  rename_i old hold
  split at herror
  · cases herror
  split at herror
  · cases herror
  split at herror
  · rename_i hdue
    cases herror
    cases dueOccurrence_error hdue
  · cases herror
  rename_i due next hdue
  split at herror
  · cases herror
  obtain ⟨heq, htaken⟩ := createExecution_error herror
  cases heq
  exact ⟨((h.due hold hallow hdue).1 _ rfl).free, htaken⟩

theorem releaseSlot_duplicate {terminalStatus : ScheduleStatus}
    (h : Tidy env now db) (hold : db.schedules.lookup claim.scheduleId = some old)
    (he : db.executions.lookup key = some e)
    (herror : releaseSlot env (db.setExecution key e') claim old gen terminalStatus now =
      .error (.duplicateOccurrence k t)) :
    Collides env db k t := by
  simp only [releaseSlot, releaseScheduleExecution] at herror
  split at herror
  · split at herror
    · cases herror
    · split at herror
      · rename_i pending hpending
        obtain ⟨heq, e₁, he₁⟩ := createExecution_error herror
        cases heq
        refine ⟨(h.row _ old hold).armed.pending_free _ hpending, ?_⟩
        rcases Table.lookup_insert_eq_some he₁ with ⟨hkey, -⟩ | ⟨-, he₁⟩
        · exact ⟨e, hkey ▸ he⟩
        · exact ⟨e₁, he₁⟩
      · split at herror <;> cases herror
  · cases herror

theorem except_map_error {α β : Type} {x : Except Failure α} {f : α → β}
    (h : x.map f = .error err) : x = .error err := by
  cases x with
  | ok a => cases h
  | error inner =>
    cases h
    rfl

theorem complete_duplicate (h : Tidy env now db)
    (herror : completeExecution env db claim gen now = .error (.duplicateOccurrence k t)) :
    Collides env db k t := by
  simp only [completeExecution] at herror
  split at herror
  · rename_i old e hold he
    split at herror
    · exact releaseSlot_duplicate h hold he (except_map_error herror)
    · cases herror
  · cases herror

theorem fail_duplicate
    {maxAttempts initialBackoffSeconds maximumBackoffSeconds : ℕ} (h : Tidy env now db)
    (herror : failExecution env db claim gen maxAttempts initialBackoffSeconds
      maximumBackoffSeconds now = .error (.duplicateOccurrence k t)) :
    Collides env db k t := by
  simp only [failExecution] at herror
  split at herror
  · rename_i old e hold he
    split at herror
    · split at herror
      · cases herror
      · exact releaseSlot_duplicate h hold he (except_map_error herror)
    · cases herror
  · cases herror

/-- A failed insert has met the digest of another occurrence. -/
theorem transact_duplicate (h : Tidy env action.now db) (hfresh : freshAction env db action = true)
    (herror : transact env db action = .error (.duplicateOccurrence k t)) :
    Collides env db k t := by
  cases action with
  | createSchedule registry id request now => cases createSchedule_error herror
  | updateSchedule registry id rev changes now => cases updateSchedule_error herror
  | deleteSchedule id rev now => cases deleteSchedule_error herror
  | synchronize registry now => cases synchronize_error herror
  | enqueue policy gen id now =>
    exact enqueue_duplicate h (permits_of_freshAction hfresh) herror
  | complete claim gen now => exact complete_duplicate h (except_map_error herror)
  | fail claim gen maxAttempts initialBackoffSeconds maximumBackoffSeconds now =>
    exact fail_duplicate h (except_map_error herror)
  | ensureRuntimeState provider redisNamespace now =>
    cases ensureRuntimeState_error (except_map_error herror)
  | _ => cases herror

/-! ### Runs -/

/-- Every call of `create_execution` in the transaction, whether it fails or adds a row, is about an
occurrence that is not recorded. -/
def RecordsOnce (env : Environment) (db : Database) (action : Action) : Prop :=
  (∀ id t, transact env db action = .error (.duplicateOccurrence id t) →
    ¬Recorded db.executions id (micros t)) ∧
  (∀ db' key e, transact env db action = .ok db' → db'.executions.lookup key = some e →
    db.executions.lookup key = none → ¬Recorded db.executions e.scheduleId (micros e.scheduledFor)) ∧
  (Function.Injective2 env.digest →
    ∀ id t, transact env db action ≠ .error (.duplicateOccurrence id t))

/-- A transaction on a tidy database records an occurrence once. -/
theorem Tidy.recordsOnce (h : Tidy env action.now db)
    (hfresh : freshAction env db action = true) : RecordsOnce env db action := by
  refine ⟨?_, ?_, ?_⟩
  · exact fun id t herror => (transact_duplicate h hfresh herror).1
  · rintro db' key e hcommit he hnew ⟨key', e', he', hid, hmic⟩
    have hcomm := transact_committed (permits_of_freshAction hfresh) hcommit
    -- both rows are stored under the digest of one sched and one microsecond
    have hkey : key' = key := by
      rw [h.keyed key' e' he', (h.committed hcomm).keyed key e he, executionId, executionId,
        hid, hmic]
    rw [hkey, hnew] at he'
    cases he'
  · intro hinj id t herror
    obtain ⟨hfree, e, he⟩ := transact_duplicate h hfresh herror
    obtain ⟨hid, hmic⟩ := hinj (h.keyed _ e he)
    exact hfree ⟨_, e, he, hid.symm, hmic.symm⟩

/-- The transactions commit one after another. -/
def step (env : Environment) (db : Database) (action : Action) : Option Database :=
  some (commit env db action)

/-- **The run lemma.** -/
theorem recordsOnce_run {actions : List Action} (h : Tidy env clock db)
    (hclock : ∀ action ∈ actions, clock ≤ action.now)
    (hord : actions.Pairwise fun a b => a.now ≤ b.now)
    (hmeets : Meets (step env) (fun db action => freshAction env db action = true) db actions) :
    Meets (step env) (RecordsOnce env) db actions := by
  induction actions generalizing db clock with
  | nil => trivial
  | cons action rest ih =>
    rw [List.pairwise_cons] at hord
    have hnow := h.later (hclock action List.mem_cons_self)
    refine meets_cons rfl (hnow.recordsOnce hmeets.1) ?_
    exact ih (h.commit (hclock action List.mem_cons_self) hmeets.1) hord.1 hord.2 (hmeets.2 _ rfl)

/-- **The scheduler never records an occurrence twice** in any run whose reconciliations arm only
fresh occurrences and whose scans never fall between two occurrences of one microsecond. -/
theorem occurrences_recorded_once (env : Environment) {actions : List Action}
    (hord : actions.Pairwise fun a b => a.now ≤ b.now)
    (hmeets : Meets (step env) (fun db action => freshAction env db action = true) .empty actions) :
    Meets (step env) (RecordsOnce env) .empty actions := by
  cases actions with
  | nil => trivial
  | cons action rest =>
    refine recordsOnce_run (tidy_empty action.now) ?_ hord hmeets
    intro other hother
    rcases List.mem_cons.mp hother with rfl | hrest
    · exact le_rfl
    · exact (List.pairwise_cons.mp hord).1 other hrest

/-- The scheduled occurrence runs to its end. -/
def recordingRun : List Action :=
  [.ensureRuntimeState .localProvider none 0,
    .synchronize dateRegistry 0,
    .enqueue {} 1 "cleanup" 10,
    .claim {} 1 7 11 11,
    .complete ⟨10, "cleanup", ⟨"files.cleanup", 1, .object []⟩, 10, 1, 7⟩ 1 12]

theorem recordingRun_records_once :
    isRecorded (reached dateEnvironment recordingRun).executions "cleanup" 10 = true ∧
      Meets (step dateEnvironment) (RecordsOnce dateEnvironment) .empty recordingRun := by
  refine ⟨by decide +kernel, occurrences_recorded_once dateEnvironment (by decide +kernel) ?_⟩
  exact meets_of_meetsBool (by decide +kernel)

/-! ### A date that is armed again -/

/-- The completed date schedule is reconciled once more, and scanned within its grace. -/
def rearmingRun : List Action :=
  recordingRun ++ [.synchronize dateRegistry 13] ++ [.enqueue {} 1 "cleanup" 14]

/-- The failure of a transaction. -/
def failureOf (result : Except Failure Database) : Option Failure :=
  match result with
  | .ok _ => none
  | .error failure => some failure

theorem failureOf_eq_some {result : Except Failure Database} (h : failureOf result = some err) :
    result = .error err := by
  cases result with
  | ok db => cases h
  | error inner =>
    cases h
    rfl

theorem run_step (env : Environment) (db : Database) (actions : List Action) :
    run (step env) db actions = some (actions.foldl (commit env) db) := by
  induction actions generalizing db with
  | nil => rfl
  | cons action rest ih => exact ih (commit env db action)

/-- The second scan tries to record the run date again. -/
theorem rearmingRun_collides : (rearmingRun.Pairwise fun a b => a.now ≤ b.now) ∧
      ¬Meets (step dateEnvironment) (RecordsOnce dateEnvironment) .empty rearmingRun := by
  refine ⟨by decide +kernel, ?_⟩
  intro hmeets
  have hlast := (meets_append.mp hmeets).2 _ (run_step dateEnvironment .empty _)
  have herror : failureOf (transact dateEnvironment
      (reached dateEnvironment (recordingRun ++ [.synchronize dateRegistry 13]))
      (.enqueue {} 1 "cleanup" 14)) = some (.duplicateOccurrence "cleanup" 10) := by
    decide +kernel
  have hrec : isRecorded
      (reached dateEnvironment (recordingRun ++ [.synchronize dateRegistry 13])).executions
      "cleanup" (micros 10) = true := by
    decide +kernel
  exact hlast.1.1 _ _ (failureOf_eq_some herror) (isRecorded_iff.mp hrec)

end Cfms.Scheduling
