import Cfms.Scheduling.Generation
import Cfms.Scheduling.Workers
import Mathlib.Order.Interval.Finset.Nat

/-!
# Attempts and outcomes

What the row of an execution can become, whoever acts: a row keeps its attempt except through a
claim, comes under the lease of an owner only through a claim of that owner, and stays as it is
once it is finished.  From this the workers' view follows: attempts grow, the task callable is
entered at most as often as the registration allows, one outcome is final, and a claim that was
lost is refused.
-/

namespace Cfms.Scheduling

open Lib Lib.Run List Option AList

/-! ### What becomes of a row -/

/-- A row and what it becomes; only a claim, by `claimant`, counts an attempt and takes the
lease. -/
structure Follows (claimant : Option LeaseOwner) (before after : Execution) : Prop where
  attempt_le : before.attempt ≤ after.attempt
  heldBy : ∀ owner, claimant ≠ some owner → after.heldBy owner →
    before.heldBy owner ∧ after.attempt = before.attempt
  final : before.state.isActive = false → after = before

variable {claimant : Option LeaseOwner}

theorem Follows.refl (e : Execution) : Follows claimant e e :=
  ⟨le_rfl, fun _ _ h => ⟨h, rfl⟩, fun _ => rfl⟩

theorem Follows.trans {a b c : Execution} (h : Follows claimant a b) (h' : Follows claimant b c) :
    Follows claimant a c := by
  refine ⟨h.attempt_le.trans h'.attempt_le, ?_, ?_⟩
  · intro owner hne hheld
    obtain ⟨hheld, hatt'⟩ := h'.heldBy owner hne hheld
    obtain ⟨hheld, hatt⟩ := h.heldBy owner hne hheld
    exact ⟨hheld, hatt'.trans hatt⟩
  · intro hfinal
    have hb : b = a := h.final hfinal
    rw [← hb] at hfinal ⊢
    exact h'.final hfinal

variable {e e' : Execution}

theorem Moves.follows (h : Moves e e') : Follows claimant e e' :=
  ⟨h.attempt.ge, fun owner _ hheld => ⟨h.heldBy owner hheld, h.attempt⟩, h.final⟩

theorem Ends.follows (h : Ends e e') : Follows claimant e e' := by
  refine ⟨h.attempt.ge, fun owner _ hheld => absurd hheld (h.not_heldBy owner), ?_⟩
  intro hfinal
  rw [h.wasActive] at hfinal
  cases hfinal

/-- The rows under one key before and after a change. -/
inductive Grows (claimant : Option LeaseOwner) : Option Execution → Option Execution → Prop
  | absent : Grows claimant none none
  | born {e : Execution} (hheld : ∀ owner, ¬e.heldBy owner) : Grows claimant none (some e)
  | follows {e e' : Execution} (h : Follows claimant e e') : Grows claimant (some e) (some e')

theorem Grows.refl (row : Option Execution) : Grows claimant row row := by
  cases row with
  | none => exact .absent
  | some e => exact .follows (.refl e)

theorem Grows.trans {a b c : Option Execution} (h : Grows none a b) (h' : Grows none b c) :
    Grows none a c := by
  cases h with
  | absent => exact h'
  | born hheld =>
    cases h' with
    | follows hfollows =>
      refine .born fun owner hheld' => hheld owner ?_
      exact (hfollows.heldBy owner (some_ne_none owner).symm hheld').1
  | follows hfollows =>
    cases h' with
    | follows hfollows' => exact .follows (hfollows.trans hfollows')

/-- The same for a transaction; a purge removes finished rows. -/
inductive Evolves (claimant : Option LeaseOwner) : Option Execution → Option Execution → Prop
  | grows {a b : Option Execution} (h : Grows claimant a b) : Evolves claimant a b
  | purged {e : Execution} (h : e.state.isActive = false) : Evolves claimant (some e) none

variable {env : Environment} {allowed : Database → Write → Prop} {current : Option ℕ}
  {now : Instant} {db db' : Database}

variable {key : ExecutionId}

theorem grows_setExecution
    (he : db.executions.lookup key = some e) (hfollows : Follows claimant e e')
    (k : ExecutionId) :
    Grows claimant (db.executions.lookup k) ((db.setExecution key e').executions.lookup k) := by
  by_cases hk : k = key
  · subst hk
    rw [he, show (db.setExecution k e').executions.lookup k = some e' from lookup_insert _]
    exact .follows hfollows
  · rw [show (db.setExecution key e').executions.lookup k = db.executions.lookup k from
      lookup_insert_ne hk]
    exact .refl _

variable {gen : ℕ}

theorem grows_addOccurrence {id : ScheduleId} {sched : Schedule} {due : Instant}
    (hfree : db.executions.lookup (executionId env id due) = none)
    (k : ExecutionId) :
    Grows claimant (db.executions.lookup k)
      ((db.addOccurrence env id sched due gen now).executions.lookup k) := by
  by_cases hk : k = executionId env id due
  · subst hk
    rw [hfree, show (db.addOccurrence env id sched due gen now).executions.lookup
      (executionId env id due) = some (newExecution id sched due gen now) from
        lookup_insert _]
    refine .born ?_
    rintro owner ⟨hstate, -⟩
    cases hstate
  · rw [show (db.addOccurrence env id sched due gen now).executions.lookup k =
      db.executions.lookup k from lookup_insert_ne hk]
    exact .refl _

theorem grows_update {f : ExecutionId → Execution → Execution}
    (hfollows : ∀ key e, Follows claimant e (f key e)) (k : ExecutionId) :
    Grows claimant (db.executions.lookup k) ((db.executions.update f).lookup k) := by
  rw [Table.lookup_update]
  cases db.executions.lookup k with
  | none => exact .absent
  | some e => exact .follows (hfollows k e)

/-- A change keeps every row and takes no lease. -/
theorem Change.grows (h : Change env allowed current now db db') (k : ExecutionId) :
    Grows none (db.executions.lookup k) (db'.executions.lookup k) := by
  cases h with
  | create | update | retire | reconcile | skip | coalesce | dropSlot => exact .refl _
  | occur hold hgen hact hdue hslot hfree => exact grows_addOccurrence hfree k
  | finish hold hslot hexec hends | stray hexec hold hslot hends =>
    exact grows_setExecution hexec hends.follows k
  | promote hold hslot hkept hexec hgen hends hpend hfree =>
    exact (grows_setExecution hexec hends.follows k).trans (grows_addOccurrence hfree k)
  | move hexec hmoves => exact grows_setExecution hexec hmoves.follows k
  | moveAll hmoves => exact grows_update (fun key e => (hmoves key e).follows) k

theorem changes_grow (h : Changes env allowed current now db db') (k : ExecutionId) :
    Grows none (db.executions.lookup k) (db'.executions.lookup k) := by
  induction h with
  | refl => exact .refl _
  | tail _ hlast ih => exact ih.trans (hlast.grows k)

theorem follows_migrated (e : Execution) (db : Database) (gen : ℕ) :
    Follows claimant e (e.migrated db gen) := by
  unfold Execution.migrated
  split_ifs with h
  · refine ⟨le_rfl, ?_, ?_⟩
    · rintro owner - ⟨hstate, -⟩
      cases hstate
    · intro hfinal
      rw [h.1] at hfinal
      cases hfinal
  · exact .refl e

/-- A transaction in the background takes no lease. -/
theorem commit_evolves {action : Action} (hbackground : action.isBackground = true)
    (k : ExecutionId) :
    Evolves none (db.executions.lookup k) ((commit env db action).executions.lookup k) := by
  unfold commit
  split
  · rename_i db' hcommit
    have hperm : ActionPermits (fun _ _ => True) db action := by
      cases action <;> first | trivial | exact fun _ _ _ _ _ _ => trivial
    have hcomm := transact_committed hperm hcommit
    cases hcomm with
    | idle | boot => exact .grows (.refl _)
    | claim | claimById => cases hbackground
    | purge hgone =>
      rename_i policy now gone
      cases he : db.executions.lookup k with
      | none =>
        rw [show (db.executions.delete gone).lookup k = none by
          rw [eq_none_iff_forall_ne_some]
          intro e he'
          rw [(Table.lookup_delete_eq_some.mp he').1] at he
          cases he]
        exact .grows .absent
      | some e =>
        cases hpurge : gone k e with
        | false =>
          rw [show (db.executions.delete gone).lookup k = some e from
            Table.lookup_delete_eq_some.mpr ⟨he, hpurge⟩]
          exact .grows (.refl _)
        | true =>
          rw [show (db.executions.delete gone).lookup k = none by
            rw [eq_none_iff_forall_ne_some]
            intro e' he'
            obtain ⟨hlook, hkept⟩ := Table.lookup_delete_eq_some.mp he'
            rw [he, some.injEq] at hlook
            rw [← hlook, hpurge] at hkept
            cases hkept]
          exact .purged (hgone k e he hpurge)
    | switch => exact .grows (grows_update (fun _ e => follows_migrated e _ _) k)
    | changes hchgs => exact .grows (changes_grow hchgs k)
  · exact .grows (.refl _)

/-! ### What becomes of the pool -/

/-- The attempt is one of the current row or of an earlier one. -/
structure Seen (pool : Pool) (stamp : Stamp) : Prop where
  birth_le : stamp.birth ≤ pool.births stamp.key
  attempt_le : stamp.birth = pool.births stamp.key → ∀ e,
    pool.db.executions.lookup stamp.key = some e → stamp.attempt ≤ e.attempt

/-- The event is about this execution and attempt. -/
def Event.stamp : Event → Stamp
  | .claimed stamp | .entered stamp _ | .ended stamp => stamp

/-- The claim of a worker against the row: while the row runs under its lease, the row is the one
that was claimed; a lost claim does not get its lease back. -/
structure Keeps (pool : Pool) (owner : LeaseOwner) (held : Holding) : Prop where
  leaseOwner : held.claim.leaseOwner = owner
  attempt_pos : 0 < held.claim.attempt
  seen : Seen pool held.stamp
  current : pool.db.leasedTo held.claim.id owner = true →
    held.birth = pool.births held.claim.id ∧
      ∀ e, pool.db.executions.lookup held.claim.id = some e → e.attempt = held.claim.attempt
  lost : held.lost = true → pool.db.leasedTo held.claim.id owner = false
  /-- The task callable was not entered for this attempt yet. -/
  unentered : held.entered = false → ∀ maxAttempts, Event.entered held.stamp maxAttempts ∉ pool.log

def Event.claimedAttempt (key : ExecutionId) (birth : ℕ) : Event → Option ℕ
  | .claimed stamp => if stamp.key = key ∧ stamp.birth = birth then some stamp.attempt else none
  | _ => none

/-- The attempt of an entry into the task callable, under a registration with at most `maxAttempts`
attempts. -/
def Event.enteredAttempt (key : ExecutionId) (birth maxAttempts : ℕ) : Event → Option ℕ
  | .entered stamp attempts =>
    if stamp.key = key ∧ stamp.birth = birth ∧ attempts ≤ maxAttempts then some stamp.attempt
    else none
  | _ => none

/-- The attempt whose terminal outcome was persisted. -/
def Event.endedAttempt (key : ExecutionId) (birth : ℕ) : Event → Option ℕ
  | .ended stamp => if stamp.key = key ∧ stamp.birth = birth then some stamp.attempt else none
  | _ => none

/-- The attempts handed out for an execution, the latest first. -/
def Pool.claimedAttempts (pool : Pool) (key : ExecutionId) (birth : ℕ) : List ℕ :=
  pool.log.filterMap (Event.claimedAttempt key birth)

def Pool.enteredAttempts (pool : Pool) (key : ExecutionId) (birth maxAttempts : ℕ) : List ℕ :=
  pool.log.filterMap (Event.enteredAttempt key birth maxAttempts)

def Pool.endedAttempts (pool : Pool) (key : ExecutionId) (birth : ℕ) : List ℕ :=
  pool.log.filterMap (Event.endedAttempt key birth)

structure Sound (pool : Pool) : Prop where
  seen : ∀ event ∈ pool.log, Seen pool event.stamp
  keeps : ∀ owner held, pool.holding owner = some held → Keeps pool owner held
  distinct : ∀ owner owner' held held', pool.holding owner = some held →
    pool.holding owner' = some held' → held.stamp = held'.stamp → owner = owner'
  claimed : ∀ key birth, (pool.claimedAttempts key birth).Pairwise (· > ·)
  entered : ∀ key birth maxAttempts,
    (pool.enteredAttempts key birth maxAttempts).Nodup ∧
      ∀ attempt ∈ pool.enteredAttempts key birth maxAttempts, 0 < attempt ∧ attempt ≤ maxAttempts
  ended : ∀ key birth, (pool.endedAttempts key birth).length ≤ 1
  final : ∀ stamp, Event.ended stamp ∈ pool.log → stamp.birth = pool.births stamp.key →
    ∀ e, pool.db.executions.lookup stamp.key = some e → e.state.isActive = false

structure Settles (claimant : Option LeaseOwner) (pool pool' : Pool) : Prop where
  rows : ∀ key, Evolves claimant (pool.db.executions.lookup key) (pool'.db.executions.lookup key)
  births : ∀ key, pool'.births key =
    if (pool.db.executions.lookup key).isNone && (pool'.db.executions.lookup key).isSome then
      pool.births key + 1
    else pool.births key

variable {pool pool' : Pool}

theorem Settles.births_le (h : Settles claimant pool pool') (key : ExecutionId) :
    pool.births key ≤ pool'.births key := by
  rw [h.births]
  split_ifs <;> omega

/-- A row of the same birth follows from the row before. -/
theorem Settles.follows (h : Settles claimant pool pool')
    (he' : pool'.db.executions.lookup key = some e')
    (hbirth : pool'.births key = pool.births key) :
    ∃ e, pool.db.executions.lookup key = some e ∧ Follows claimant e e' := by
  have hrow := h.rows key
  have hbirths := h.births key
  rw [he'] at hrow hbirths
  cases he : pool.db.executions.lookup key with
  | none =>
    rw [he] at hbirths
    simp only [isNone_none, isSome_some, Bool.and_self, if_true] at hbirths
    omega
  | some e =>
    rw [he] at hrow
    cases hrow with
    | grows hgrows =>
      cases hgrows with
      | follows hfollows => exact ⟨e, rfl, hfollows⟩

theorem Settles.seen (h : Settles claimant pool pool') {stamp : Stamp} (hseen : Seen pool stamp) :
    Seen pool' stamp := by
  refine ⟨hseen.birth_le.trans (h.births_le stamp.key), ?_⟩
  intro hbirth e' he'
  have hle := hseen.birth_le
  have hle' := h.births_le stamp.key
  have hsame : pool'.births stamp.key = pool.births stamp.key := by omega
  obtain ⟨e, he, hfollows⟩ := h.follows he' hsame
  exact (hseen.attempt_le (hbirth.trans hsame) e he).trans hfollows.attempt_le

variable {owner : LeaseOwner}

theorem leasedTo_iff : db.leasedTo key owner = true ↔
      ∃ e, db.executions.lookup key = some e ∧ e.heldBy owner := by
  rw [Database.leasedTo]
  cases db.executions.lookup key with
  | none => simp
  | some e => simp [Execution.heldBy]

/-- A row under the lease of an owner who claims nothing was under it before, in the same
attempt. -/
theorem Settles.leasedTo (h : Settles claimant pool pool')
    (hne : claimant ≠ some owner) (hlease : pool'.db.leasedTo key owner = true) :
    pool'.births key = pool.births key ∧ ∃ e e', pool.db.executions.lookup key = some e ∧
      e.heldBy owner ∧ pool'.db.executions.lookup key = some e' ∧ e'.attempt = e.attempt := by
  obtain ⟨e', he', hheld⟩ := leasedTo_iff.mp hlease
  have hrow := h.rows key
  have hbirths := h.births key
  rw [he'] at hrow hbirths
  cases he : pool.db.executions.lookup key with
  | none =>
    rw [he] at hrow
    cases hrow with
    | grows hgrows =>
      cases hgrows with
      | born hfresh => exact absurd hheld (hfresh owner)
  | some e =>
    rw [he] at hrow hbirths
    cases hrow with
    | grows hgrows =>
      cases hgrows with
      | follows hfollows =>
        obtain ⟨hbef, hatt⟩ := hfollows.heldBy owner hne hheld
        exact ⟨by simpa using hbirths, e, e', rfl, hbef, he', hatt⟩

/-! ### Transactions -/

/-- What a transaction makes of the pool, if every row evolves. -/
theorem settles_settle (hrows : ∀ key, Evolves claimant (pool.db.executions.lookup key)
    (db'.executions.lookup key)) : Settles claimant pool (pool.settle db') :=
  ⟨hrows, fun _ => rfl⟩

variable {held' : Holding}

theorem settle_holding (h : (pool.settle db').holding owner = some held') :
    ∃ held, pool.holding owner = some held ∧ held'.claim = held.claim ∧ held'.birth = held.birth ∧
      held'.entered = held.entered ∧ held'.lost = (held.lost ||
        (pool.db.leasedTo held.claim.id owner && !db'.leasedTo held.claim.id owner)) := by
  simp only [Pool.settle, map_eq_some_iff] at h
  obtain ⟨held, hheld, rfl⟩ := h
  exact ⟨held, hheld, rfl, rfl, rfl, rfl⟩

variable {held : Holding}

theorem stamp_eq (hclaim : held'.claim = held.claim)
    (hbirth : held'.birth = held.birth) : held'.stamp = held.stamp := by
  rw [Holding.stamp, Holding.stamp, hclaim, hbirth]

/-- A lease of another owner is kept through a transaction. -/
theorem Keeps.settle (h : Keeps pool owner held)
    (hsettles : Settles claimant pool (pool.settle db')) (hne : claimant ≠ some owner)
    (hclaim : held'.claim = held.claim)
    (hbirth : held'.birth = held.birth) (hentered : held'.entered = held.entered)
    (hlost : held'.lost = (held.lost ||
      (pool.db.leasedTo held.claim.id owner && !db'.leasedTo held.claim.id owner))) :
    Keeps (pool.settle db') owner held' := by
  constructor
  · rw [hclaim]
    exact h.leaseOwner
  · rw [hclaim]
    exact h.attempt_pos
  · rw [stamp_eq hclaim hbirth]
    exact hsettles.seen h.seen
  · intro hlease
    rw [hclaim] at hlease ⊢
    obtain ⟨hsame, e, e', he, hheld, he', hkept⟩ := hsettles.leasedTo hne hlease
    obtain ⟨hcur, hatt⟩ := h.current (leasedTo_iff.mpr ⟨e, he, hheld⟩)
    refine ⟨?_, ?_⟩
    · rw [hbirth, hcur, hsame]
    intro e₁ he₁
    rw [he', some.injEq] at he₁
    rw [← he₁, hkept]
    exact hatt e he
  · intro hl
    rw [hlost, Bool.or_eq_true, Bool.and_eq_true] at hl
    rw [hclaim, Bool.eq_false_iff]
    intro hlease
    rcases hl with hl | ⟨-, hgone⟩
    · obtain ⟨-, e, e', he, hheld, -⟩ := hsettles.leasedTo hne hlease
      have hfalse := h.lost hl
      rw [leasedTo_iff.mpr ⟨e, he, hheld⟩] at hfalse
      cases hfalse
    · rw [show db'.leasedTo held.claim.id owner = true from hlease] at hgone
      cases hgone
  · intro hunentered
    rw [stamp_eq hclaim hbirth]
    exact h.unentered (hentered ▸ hunentered)

/-- The invariant, through a transaction in the background. -/
theorem Sound.settle (h : Sound pool)
    (hidle : ∀ owner, claimant = some owner → pool.holding owner = none)
    (hrows : ∀ key, Evolves claimant (pool.db.executions.lookup key) (db'.executions.lookup key)) :
    Sound (pool.settle db') := by
  have hsettles := settles_settle hrows
  constructor
  · exact fun event hevent => hsettles.seen (h.seen event hevent)
  · intro owner held' hheld'
    obtain ⟨held, hheld, hclaim, hbirth, hentered, hlost⟩ := settle_holding hheld'
    have hne : claimant ≠ some owner := by
      intro hclaimant
      rw [hidle owner hclaimant] at hheld
      cases hheld
    exact (h.keeps owner held hheld).settle hsettles hne hclaim hbirth hentered hlost
  · intro owner owner' held₁ held₂ hheld₁ hheld₂ hstamp
    obtain ⟨held, hheld, hclaim, hbirth, -⟩ := settle_holding hheld₁
    obtain ⟨held', hheld', hclaim', hbirth', -⟩ := settle_holding hheld₂
    rw [stamp_eq hclaim hbirth, stamp_eq hclaim' hbirth'] at hstamp
    exact h.distinct owner owner' held held' hheld hheld' hstamp
  · exact h.claimed
  · exact h.entered
  · exact h.ended
  intro stamp hended hbirth e' he'
  have hle := (h.seen _ hended).birth_le
  have hle' := hsettles.births_le stamp.key
  have hsame : (pool.settle db').births stamp.key = pool.births stamp.key := by
    simp only [Event.stamp] at hle
    omega
  obtain ⟨e, he, hfollows⟩ := hsettles.follows he' hsame
  have hfinal := h.final stamp hended (hbirth.trans hsame) e he
  rw [hfollows.final hfinal]
  exact hfinal

theorem Keeps.transfer (h : Keeps pool owner held)
    (hdb : pool'.db = pool.db) (hbirths : pool'.births = pool.births)
    (hlog : held.entered = false → ∀ maxAttempts, Event.entered held.stamp maxAttempts ∈ pool'.log →
      Event.entered held.stamp maxAttempts ∈ pool.log) : Keeps pool' owner held := by
  refine ⟨h.leaseOwner, h.attempt_pos, ?_, ?_, ?_, ?_⟩
  · refine ⟨?_, ?_⟩
    · rw [hbirths]
      exact h.seen.birth_le
    · rw [hbirths, hdb]
      exact h.seen.attempt_le
  · rw [hbirths, hdb]
    exact h.current
  · rw [hdb]
    exact h.lost
  · intro hunentered maxAttempts hmem
    exact h.unentered hunentered maxAttempts (hlog hunentered maxAttempts hmem)

theorem hold_holding {other : LeaseOwner} {held : Option Holding}
    (h : (pool.hold owner held).holding other = some held') :
    (other = owner ∧ held = some held') ∨ (other ≠ owner ∧ pool.holding other = some held') := by
  by_cases hother : other = owner
  · subst hother
    left
    exact ⟨rfl, by simpa [Pool.hold] using h⟩
  · right
    exact ⟨hother, by simpa [Pool.hold, Function.update_of_ne hother] using h⟩

theorem Sound.letGo (h : Sound pool) (owner : LeaseOwner) : Sound (pool.hold owner none) := by
  refine ⟨fun event hevent => ⟨(h.seen event hevent).birth_le, (h.seen event hevent).attempt_le⟩,
    ?_, ?_, h.claimed, h.entered, h.ended, h.final⟩
  · intro other held hheld
    rcases hold_holding hheld with ⟨-, hnone⟩ | ⟨-, hheld⟩
    · cases hnone
    · exact (h.keeps other held hheld).transfer rfl rfl fun _ _ hmem => hmem
  · intro other other' held held' hheld hheld' hstamp
    rcases hold_holding hheld with ⟨-, hnone⟩ | ⟨-, hheld⟩
    · cases hnone
    rcases hold_holding hheld' with ⟨-, hnone⟩ | ⟨-, hheld'⟩
    · cases hnone
    exact h.distinct other other' held held' hheld hheld' hstamp

/-! ### Claims -/

variable {birth attempt : ℕ}

theorem mem_claimedAttempts (h : attempt ∈ pool.claimedAttempts key birth) :
    Event.claimed ⟨key, birth, attempt⟩ ∈ pool.log := by
  obtain ⟨event, hevent, hatt⟩ := mem_filterMap.mp h
  cases event with
  | claimed stamp =>
    simp only [Event.claimedAttempt] at hatt
    split_ifs at hatt with hsame
    obtain ⟨rfl, rfl⟩ := hsame
    rw [← some.inj hatt]
    exact hevent
  | entered stamp maxAttempts | ended stamp => cases hatt

theorem Sound.grant (h : Sound pool) (hkeeps : Keeps pool owner held)
    (hevents : ∀ event ∈ pool.log, event.stamp.key = held.claim.id →
      event.stamp.birth = held.birth → event.stamp.attempt < held.claim.attempt)
    (hheld : ∀ other held', pool.holding other = some held' → held'.stamp ≠ held.stamp) :
    Sound ((pool.hold owner (some held)).record (.claimed held.stamp)) := by
  constructor
  · intro event hevent
    rcases mem_cons.mp hevent with rfl | hevent
    · exact ⟨hkeeps.seen.birth_le, hkeeps.seen.attempt_le⟩
    · exact ⟨(h.seen event hevent).birth_le, (h.seen event hevent).attempt_le⟩
  · intro other held' hother
    have hlog : ∀ m, Event.entered held'.stamp m ∈ Event.claimed held.stamp :: pool.log →
        Event.entered held'.stamp m ∈ pool.log := by
      intro m hm
      rcases mem_cons.mp hm with hm | hm
      · cases hm
      · exact hm
    rcases hold_holding hother with ⟨rfl, hsame⟩ | ⟨-, hother⟩
    · rw [← some.inj hsame] at hlog ⊢
      exact hkeeps.transfer rfl rfl fun _ => hlog
    · exact (h.keeps other held' hother).transfer rfl rfl fun _ => hlog
  · intro other other' held₁ held₂ hother hother' hstamp
    rcases hold_holding hother with ⟨rfl, hsame⟩ | ⟨-, hother⟩
    · rcases hold_holding hother' with ⟨rfl, -⟩ | ⟨-, hother'⟩
      · rfl
      · rw [← some.inj hsame] at hstamp
        exact absurd hstamp.symm (hheld other' held₂ hother')
    · rcases hold_holding hother' with ⟨-, hsame⟩ | ⟨-, hother'⟩
      · rw [← some.inj hsame] at hstamp
        exact absurd hstamp (hheld other held₁ hother)
      · exact h.distinct other other' held₁ held₂ hother hother' hstamp
  · intro key birth
    show (filterMap (Event.claimedAttempt key birth)
      (Event.claimed held.stamp :: pool.log)).Pairwise (· > ·)
    rw [filterMap_cons]
    split
    · exact h.claimed key birth
    rename_i attempt hatt
    simp only [Event.claimedAttempt] at hatt
    split_ifs at hatt with hsame
    rw [some.injEq] at hatt
    subst hatt
    refine pairwise_cons.mpr ⟨?_, h.claimed key birth⟩
    intro attempt hmem
    exact hevents _ (mem_claimedAttempts hmem) hsame.1.symm hsame.2.symm
  · exact h.entered
  · exact h.ended
  intro stamp hended
  rcases mem_cons.mp hended with hended | hended
  · cases hended
  · exact h.final stamp hended

variable {policy : SchedulingPolicy} {claim : ClaimedExecution}

theorem Claims.evolves (h : Claims db db' policy gen owner now claim e) (key : ExecutionId) :
    Evolves (some owner) (db.executions.lookup key) (db'.executions.lookup key) := by
  refine .grows ?_
  rw [h.result]
  refine grows_setExecution h.execution ⟨Nat.le_succ _, ?_, ?_⟩ key
  · rintro other hne ⟨-, hother⟩
    exact absurd hother hne
  · intro hfinal
    rw [h.isActive] at hfinal
    cases hfinal

/-- The invariant, when a worker claims. -/
theorem Sound.take (h : Sound pool) (hidle : pool.holding owner = none)
    (hclaims : Claims pool.db db' policy gen owner now claim e) :
    Sound (pool.take owner (some claim, db')) := by
  have hsett : Sound (pool.settle db') := by
    refine h.settle ?_ hclaims.evolves
    intro other hother
    rw [← some.inj hother]
    exact hidle
  have hself : db'.executions.lookup claim.id = some (e.claimedBy policy owner now) := by
    rw [hclaims.result]
    exact lookup_insert _
  have hbirth : (pool.settle db').births claim.id = pool.births claim.id := by
    simp [Pool.settle, hclaims.execution]
  -- whatever was recorded of this execution is about an earlier attempt
  have hearlier : ∀ stamp, Seen pool stamp → stamp.key = claim.id →
      stamp.birth = pool.births claim.id → stamp.attempt < claim.attempt := by
    intro stamp hseen hkey hsame
    have hle := hseen.attempt_le (hkey ▸ hsame) e (hkey ▸ hclaims.execution)
    rw [hclaims.attempt]
    exact Nat.lt_succ_of_le hle
  have hkeeps : Keeps (pool.settle db') owner
      { claim := claim, birth := (pool.settle db').births claim.id } := by
    refine ⟨hclaims.leaseOwner, ?_, ⟨le_rfl, ?_⟩, ?_, nofun, ?_⟩
    · show 0 < claim.attempt
      rw [hclaims.attempt]
      exact Nat.succ_pos _
    · intro _ e' he'
      rw [← some.inj (hself.symm.trans he')]
      exact hclaims.attempt.le
    · intro _
      refine ⟨rfl, ?_⟩
      intro e' he'
      rw [← some.inj (hself.symm.trans he')]
      exact hclaims.attempt.symm
    · intro _ maxAttempts hmem
      exact absurd (hearlier _ (h.seen _ hmem) rfl hbirth) (lt_irrefl _)
  refine hsett.grant hkeeps ?_ ?_
  · intro event hevent hkey hsame
    exact hearlier event.stamp (h.seen event hevent) hkey (hsame.trans hbirth)
  · intro other held' hother hstamp
    obtain ⟨held, hheld, hclaim, hbirth', -⟩ := settle_holding hother
    rw [stamp_eq hclaim hbirth'] at hstamp
    have hlt := hearlier held.stamp (h.keeps other held hheld).seen
      (congrArg Stamp.key hstamp) ((congrArg Stamp.birth hstamp).trans hbirth)
    rw [hstamp] at hlt
    exact absurd hlt (lt_irrefl _)

/-! ### Entries -/

variable {maxAttempts : ℕ}

theorem mem_enteredAttempts (h : attempt ∈ pool.enteredAttempts key birth maxAttempts) :
    ∃ attempts, Event.entered ⟨key, birth, attempt⟩ attempts ∈ pool.log := by
  obtain ⟨event, hevent, hatt⟩ := mem_filterMap.mp h
  cases event with
  | claimed stamp | ended stamp => cases hatt
  | entered stamp attempts =>
    simp only [Event.enteredAttempt] at hatt
    split_ifs at hatt with hsame
    obtain ⟨rfl, rfl, -⟩ := hsame
    rw [← some.inj hatt]
    exact ⟨attempts, hevent⟩

theorem entryAttempts_le {registry : Registry}
    (h : entryAttempts registry claim = some maxAttempts) : claim.attempt ≤ maxAttempts := by
  simp only [entryAttempts] at h
  split at h
  · cases h
  rename_i registration hregistration
  split_ifs at h with hversion hatts
  split at h
  · cases h
  · rw [← some.inj h]
    exact Nat.le_of_not_lt hatts

/-- The invariant, when the task is entered. -/
theorem Sound.enter (h : Sound pool)
    (hheld : pool.holding owner = some held) (hunentered : held.entered = false)
    (hatts : held.claim.attempt ≤ maxAttempts) :
    Sound ((pool.hold owner (some { held with entered := true })).record
      (.entered held.stamp maxAttempts)) := by
  have hkeeps := h.keeps owner held hheld
  constructor
  · intro event hevent
    rcases mem_cons.mp hevent with rfl | hevent
    · exact ⟨hkeeps.seen.birth_le, hkeeps.seen.attempt_le⟩
    · exact ⟨(h.seen event hevent).birth_le, (h.seen event hevent).attempt_le⟩
  · intro other held' hother
    rcases hold_holding hother with ⟨rfl, hsame⟩ | ⟨hne, hother⟩
    · rw [← some.inj hsame]
      have hentered : Keeps pool other { held with entered := true } :=
        ⟨hkeeps.leaseOwner, hkeeps.attempt_pos, hkeeps.seen, hkeeps.current, hkeeps.lost, nofun⟩
      exact hentered.transfer rfl rfl nofun
    · refine (h.keeps other held' hother).transfer rfl rfl ?_
      intro _ attempts hmem
      rcases mem_cons.mp hmem with hevent | hmem
      · -- two workers never hold the same attempt
        injection hevent with hstamp _
        exact absurd (h.distinct other owner held' held hother hheld hstamp) hne
      · exact hmem
  · intro other other' held₁ held₂ hother hother' hstamp
    have hbef : ∀ o held', (pool.hold owner (some { held with entered := true })).holding o =
        some held' → ∃ held'', pool.holding o = some held'' ∧ held''.stamp = held'.stamp := by
      intro o held' ho
      rcases hold_holding ho with ⟨rfl, hsame⟩ | ⟨-, ho⟩
      · rw [← some.inj hsame]
        exact ⟨held, hheld, rfl⟩
      · exact ⟨held', ho, rfl⟩
    obtain ⟨held₁', hheld₁, hstamp₁⟩ := hbef other held₁ hother
    obtain ⟨held₂', hheld₂, hstamp₂⟩ := hbef other' held₂ hother'
    rw [← hstamp₁, ← hstamp₂] at hstamp
    exact h.distinct other other' held₁' held₂' hheld₁ hheld₂ hstamp
  · exact h.claimed
  · intro key birth bound
    show (filterMap (Event.enteredAttempt key birth bound)
      (Event.entered held.stamp maxAttempts :: pool.log)).Nodup ∧
        ∀ attempt ∈ filterMap (Event.enteredAttempt key birth bound)
          (Event.entered held.stamp maxAttempts :: pool.log), 0 < attempt ∧ attempt ≤ bound
    obtain ⟨hnodup, hbound⟩ := h.entered key birth bound
    rw [filterMap_cons]
    split
    · exact ⟨hnodup, hbound⟩
    rename_i attempt hatt
    simp only [Event.enteredAttempt] at hatt
    split_ifs at hatt with hsame
    rw [some.injEq] at hatt
    subst hatt
    obtain ⟨rfl, rfl, hle⟩ := hsame
    refine ⟨nodup_cons.mpr ⟨?_, hnodup⟩, ?_⟩
    · intro hmem
      obtain ⟨attempts, hevent⟩ := mem_enteredAttempts hmem
      exact hkeeps.unentered hunentered attempts hevent
    · intro attempt hmem
      rcases mem_cons.mp hmem with rfl | hmem
      · exact ⟨hkeeps.attempt_pos, hatts.trans hle⟩
      · exact hbound attempt hmem
  · exact h.ended
  intro stamp hended
  rcases mem_cons.mp hended with hended | hended
  · cases hended
  · exact h.final stamp hended

/-! ### Outcomes -/

theorem completeExecution_refused (gen : ℕ) (h : db.leasedTo claim.id claim.leaseOwner = false) :
    completeExecution env db claim gen now = .ok (false, db) := by
  simp only [completeExecution]
  split
  · rename_i sched e hsched he
    rw [if_neg]
    intro hlease
    rw [leasedTo_iff.mpr ⟨e, he, (isLeasedBy_iff.mp hlease).2.2⟩] at h
    cases h
  · rfl

theorem failExecution_refused (gen maxAttempts initialBackoffSeconds maximumBackoffSeconds : ℕ)
    (h : db.leasedTo claim.id claim.leaseOwner = false) :
    failExecution env db claim gen maxAttempts initialBackoffSeconds maximumBackoffSeconds
      now = .ok (false, db) := by
  simp only [failExecution]
  split
  · rename_i sched e hsched he
    rw [if_neg]
    intro hlease
    rw [leasedTo_iff.mpr ⟨e, he, (isLeasedBy_iff.mp hlease).2.2⟩] at h
    cases h
  · rfl

theorem refreshExecutionLease_refused {id : ExecutionId}
    (policy : SchedulingPolicy) (h : db.leasedTo id owner = false) :
    refreshExecutionLease db id owner policy now = (false, db) := by
  simp only [refreshExecutionLease]
  split
  · rfl
  rename_i e he
  rw [if_neg]
  intro hheld
  rw [leasedTo_iff.mpr ⟨e, he, hheld⟩] at h
  cases h

/-- Whatever the worker of the claim reports, it gets false and nothing changes. -/
structure Refused (env : Environment) (db : Database) (claim : ClaimedExecution) : Prop where
  complete : ∀ generation now, completeExecution env db claim generation now = .ok (false, db)
  fail : ∀ generation maxAttempts initialBackoffSeconds maximumBackoffSeconds now,
    failExecution env db claim generation maxAttempts initialBackoffSeconds maximumBackoffSeconds
      now = .ok (false, db)
  refresh : ∀ policy now,
    refreshExecutionLease db claim.id claim.leaseOwner policy now = (false, db)

theorem refused_of_not_leasedTo
    (h : db.leasedTo claim.id claim.leaseOwner = false) : Refused env db claim :=
  ⟨fun gen _ => completeExecution_refused gen h,
    fun gen maxAttempts initial maximum _ =>
      failExecution_refused gen maxAttempts initial maximum h,
    fun policy _ => refreshExecutionLease_refused policy h⟩

theorem releaseSlot_lookup {sched : Schedule} {terminalStatus : ScheduleStatus}
    (h : releaseSlot env db claim sched gen terminalStatus now = .ok db')
    (he : db.executions.lookup key = some e) : db'.executions.lookup key = some e := by
  simp only [releaseSlot, releaseScheduleExecution] at h
  by_cases hslot : sched.activeExecutionId = some claim.id
  · rw [if_pos hslot] at h
    by_cases hdel : sched.status = .deleted
    · rw [if_pos hdel] at h
      cases h
      exact he
    · rw [if_neg hdel] at h
      split at h
      · rename_i pending hpend
        obtain ⟨hfree, rfl⟩ := createExecution_ok h
        have hne : key ≠ executionId env claim.scheduleId pending := by
          rintro rfl
          rw [he] at hfree
          cases hfree
        exact (lookup_insert_ne hne).trans he
      · split_ifs at h <;> (cases h; exact he)
  · rw [if_neg hslot] at h
    cases h
    exact he

theorem released_ok {released : Except Failure Database}
    (h : released.map (fun db => (true, db)) = .ok (true, db')) : released = .ok db' := by
  cases released with
  | error err => cases h
  | ok db =>
    cases h
    rfl

/-- A completion is accepted under the lease only. -/
theorem completeExecution_true (h : completeExecution env db claim gen now = .ok (true, db')) :
    db.leasedTo claim.id claim.leaseOwner = true ∧
      ∃ e, db'.executions.lookup claim.id = some e ∧ e.state.isActive = false := by
  refine ⟨?_, ?_⟩
  · by_contra hlease
    rw [completeExecution_refused gen (Bool.eq_false_iff.mpr hlease)] at h
    cases h
  · simp only [completeExecution] at h
    split at h
    · split_ifs at h
      · exact ⟨_, releaseSlot_lookup (released_ok h) (lookup_insert _), rfl⟩
      · cases h
    · cases h

/-- A failure is accepted under the lease only. -/
theorem failExecution_true {initialBackoffSeconds maximumBackoffSeconds : ℕ}
    (h : failExecution env db claim gen maxAttempts initialBackoffSeconds
      maximumBackoffSeconds now = .ok (true, db'))
    (hretried : db.retried claim maxAttempts = false) :
    db.leasedTo claim.id claim.leaseOwner = true ∧
      ∃ e, db'.executions.lookup claim.id = some e ∧ e.state.isActive = false := by
  refine ⟨?_, ?_⟩
  · by_contra hlease
    rw [failExecution_refused _ _ _ _ (Bool.eq_false_iff.mpr hlease)] at h
    cases h
  · simp only [failExecution] at h
    split at h
    · rename_i sched e hsched he
      rw [Database.retried, hsched, any_some] at hretried
      simp only [hretried, Bool.false_eq_true, if_false] at h
      split_ifs at h
      · exact ⟨_, releaseSlot_lookup (released_ok h) (lookup_insert _), rfl⟩
      · cases h
    · cases h

theorem mem_endedAttempts (h : attempt ∈ pool.endedAttempts key birth) :
    Event.ended ⟨key, birth, attempt⟩ ∈ pool.log := by
  obtain ⟨event, hevent, hatt⟩ := mem_filterMap.mp h
  cases event with
  | claimed stamp | entered stamp attempts => cases hatt
  | ended stamp =>
    simp only [Event.endedAttempt] at hatt
    split_ifs at hatt with hsame
    obtain ⟨rfl, rfl⟩ := hsame
    rw [← some.inj hatt]
    exact hevent

/-- While the lease is held no attempt of the row has ended. -/
theorem Sound.endedAttempts_eq_nil (h : Sound pool) (hheld : pool.holding owner = some held)
    (hlease : pool.db.leasedTo held.claim.id owner = true) :
    pool.endedAttempts held.claim.id held.birth = [] := by
  rw [eq_nil_iff_forall_not_mem]
  intro attempt hmem
  obtain ⟨hbirth, -⟩ := (h.keeps owner held hheld).current hlease
  obtain ⟨e, he, hstate, -⟩ := leasedTo_iff.mp hlease
  have hover := h.final _ (mem_endedAttempts hmem) hbirth e he
  rw [hstate] at hover
  cases hover

/-- The invariant, when an outcome is reported. -/
theorem Sound.finish {terminal : Bool} (h : Sound pool) (hheld : pool.holding owner = some held)
    (hterm : terminal = true → pool.db.leasedTo held.claim.id owner = true ∧
      ∃ e, db'.executions.lookup held.claim.id = some e ∧ e.state.isActive = false)
    (hrows : ∀ key, Evolves none (pool.db.executions.lookup key) (db'.executions.lookup key)) :
    Sound (pool.finish owner held terminal db') := by
  have hsettles := settles_settle hrows
  have hsett : Sound (pool.settle db') :=
    h.settle (fun _ hnone => absurd hnone (some_ne_none _).symm) hrows
  have hfree := hsett.letGo owner
  simp only [Pool.finish]
  split_ifs with hended
  · obtain ⟨hlease, row, hrow, hdone⟩ := hterm hended
    have hkeeps := h.keeps owner held hheld
    constructor
    · intro event hevent
      rcases mem_cons.mp hevent with rfl | hevent
      · have hseen := hsettles.seen hkeeps.seen
        exact ⟨hseen.birth_le, hseen.attempt_le⟩
      · exact ⟨(hfree.seen event hevent).birth_le, (hfree.seen event hevent).attempt_le⟩
    · intro other held' hother
      refine (hfree.keeps other held' hother).transfer rfl rfl ?_
      intro _ attempts hmem
      rcases mem_cons.mp hmem with hevent | hmem
      · cases hevent
      · exact hmem
    · exact hfree.distinct
    · exact hfree.claimed
    · exact hfree.entered
    · intro key birth
      show (filterMap (Event.endedAttempt key birth)
        (Event.ended held.stamp :: pool.log)).length ≤ 1
      rw [filterMap_cons]
      split
      · exact h.ended key birth
      rename_i attempt hatt
      simp only [Event.endedAttempt] at hatt
      split_ifs at hatt with hsame
      obtain ⟨rfl, rfl⟩ := hsame
      have hnil := h.endedAttempts_eq_nil hheld hlease
      rw [Pool.endedAttempts] at hnil
      simp only [Holding.stamp, hnil]
      exact le_rfl
    · intro stamp hstamp hbirth e he
      rcases mem_cons.mp hstamp with hstamp | hstamp
      · injection hstamp with hstamp
        subst hstamp
        rw [← some.inj (hrow.symm.trans he)]
        exact hdone
      · exact hfree.final stamp hstamp hbirth e he
  · exact hfree

/-! ### Runs -/

theorem refreshExecutionLease_evolves (env : Environment) (owner : LeaseOwner) (id : ExecutionId)
    (policy : SchedulingPolicy) (now : Instant) (k : ExecutionId) :
    Evolves none (db.executions.lookup k)
      ((refreshExecutionLease db id owner policy now).2.executions.lookup k) := by
  have hchg : (refreshExecutionLease db id owner policy now).2 = db ∨
      Change env (fun _ _ => True) none now db (refreshExecutionLease db id owner policy now).2 :=
    refreshExecutionLease_changes db id owner policy
  rcases hchg with hsame | hchg
  · rw [hsame]
    exact .grows (.refl _)
  · exact .grows (hchg.grows k)

theorem outcome_evolves {result : Bool} (h : (result = false ∧ db' = db) ∨
      (result = true ∧ Change env (fun _ _ => True) none now db db')) (k : ExecutionId) :
    Evolves none (db.executions.lookup k) (db'.executions.lookup k) := by
  rcases h with ⟨-, hsame⟩ | ⟨-, hchg⟩
  · rw [hsame]
    exact .grows (.refl _)
  · exact .grows (hchg.grows k)

inductive PoolStep (env : Environment) (pool : Pool) : Pool → Prop
  | background {db' : Database}
      (hrows : ∀ key, Evolves none (pool.db.executions.lookup key) (db'.executions.lookup key)) :
      PoolStep env pool (pool.settle db')
  | take {owner : LeaseOwner} {policy : SchedulingPolicy} {generation : ℕ} {now : Instant}
      {db' : Database} {claim : ClaimedExecution} {e : Execution}
      (hidle : pool.holding owner = none)
      (hclaims : Claims pool.db db' policy generation owner now claim e) :
      PoolStep env pool (pool.take owner (some claim, db'))
  | enter {owner : LeaseOwner} {held : Holding} {maxAttempts : ℕ}
      (hheld : pool.holding owner = some held)
      (hunentered : held.entered = false)
      (hatts : held.claim.attempt ≤ maxAttempts) :
      PoolStep env pool ((pool.hold owner (some { held with entered := true })).record
        (.entered held.stamp maxAttempts))
  | finish {owner : LeaseOwner} {held : Holding} {terminal : Bool} {db' : Database}
      (hheld : pool.holding owner = some held)
      (hterm : terminal = true →
        pool.db.leasedTo held.claim.id held.claim.leaseOwner = true ∧
          ∃ e, db'.executions.lookup held.claim.id = some e ∧ e.state.isActive = false)
      (hrows : ∀ key, Evolves none (pool.db.executions.lookup key)
        (db'.executions.lookup key)) :
      PoolStep env pool (pool.finish owner held terminal db')
  | letGo (owner : LeaseOwner) : PoolStep env pool (pool.hold owner none)
  | idle : PoolStep env pool pool

theorem poolStep_of_claim
    {result : Option ClaimedExecution × Database} (hidle : pool.holding owner = none)
    (h : result = (none, pool.db) ∨ ∃ claim e, result.1 = some claim ∧
      Claims pool.db result.2 policy gen owner now claim e) :
    PoolStep env pool (pool.take owner result) := by
  rcases h with rfl | ⟨claim, e, hclaim, hclaims⟩
  · exact .background fun _ => .grows (.refl _)
  obtain ⟨claimed, db'⟩ := result
  cases hclaim
  exact .take hidle hclaims

/-- What a step of the pool can be. -/
theorem poolStep_cases {action : PoolAction} (h : poolStep env pool action = some pool') :
    PoolStep env pool pool' := by
  cases action with
  | background action =>
    simp only [poolStep] at h
    split_ifs at h with hbackground
    cases h
    exact .background (commit_evolves hbackground)
  | claim owner policy gen candidateTime now =>
    simp only [poolStep] at h
    split at h
    · cases h
    rename_i hidle
    cases h
    exact poolStep_of_claim hidle (claimExecution_cases ..)
  | deliver owner policy id gen now =>
    simp only [poolStep] at h
    split at h
    · cases h
    rename_i hidle
    cases h
    exact poolStep_of_claim hidle (claimExecutionById_cases ..)
  | enter owner registry =>
    simp only [poolStep] at h
    split at h
    · cases h
    rename_i held hheld
    split_ifs at h with hentered
    split at h
    · cases h
    rename_i maxAttempts hatts
    cases h
    exact .enter hheld (Bool.eq_false_iff.mpr hentered) (entryAttempts_le hatts)
  | refresh owner id policy now =>
    cases h
    exact .background (refreshExecutionLease_evolves env owner id policy now)
  | complete owner gen now =>
    simp only [poolStep] at h
    split at h
    · cases h
    rename_i held hheld
    split_ifs at h with hentered
    split at h
    · cases h
      exact .idle
    · rename_i completed db' hcompl
      cases h
      refine .finish hheld ?_ (outcome_evolves (completeExecution_changes hcompl))
      rintro rfl
      exact completeExecution_true hcompl
  | fail owner gen maxAttempts initial maximum now =>
    simp only [poolStep] at h
    split at h
    · cases h
    rename_i held hheld
    split at h
    · cases h
      exact .idle
    · rename_i failed db' hfail
      cases h
      refine .finish hheld ?_ (outcome_evolves (failExecution_changes hfail))
      intro hterm
      rw [Bool.and_eq_true, Bool.not_eq_true'] at hterm
      obtain ⟨rfl, hretried⟩ := hterm
      exact failExecution_true hfail hretried
  | abandon owner =>
    cases h
    exact .letGo owner

/-- **The step lemma.** -/
theorem Sound.step (h : Sound pool) (hstep : PoolStep env pool pool') : Sound pool' := by
  cases hstep with
  | background hrows =>
    exact h.settle (fun _ hnone => absurd hnone (some_ne_none _).symm) hrows
  | take hidle hclaims => exact h.take hidle hclaims
  | enter hheld hunentered hatts => exact h.enter hheld hunentered hatts
  | finish hheld hterm hrows =>
    refine h.finish hheld ?_ hrows
    rw [(h.keeps _ _ hheld).leaseOwner] at hterm
    exact hterm
  | letGo owner => exact h.letGo owner
  | idle => exact h

theorem sound_initial : Sound .initial := by
  refine ⟨nofun, nofun, nofun, fun _ _ => .nil, fun _ _ _ => ⟨.nil, nofun⟩, fun _ _ => Nat.zero_le _,
    nofun⟩

/-- What a later pool keeps of the executions: a row of the same execution was there before, and
is unchanged if it was finished. -/
structure Persists (pool pool' : Pool) : Prop where
  births_le : ∀ key, pool.births key ≤ pool'.births key
  row : ∀ key e', pool'.db.executions.lookup key = some e' →
    pool'.births key = pool.births key →
    ∃ e, pool.db.executions.lookup key = some e ∧ (e.state.isActive = false → e' = e)

theorem Persists.refl (pool : Pool) : Persists pool pool :=
  ⟨fun _ => le_rfl, fun _ e' he' _ => ⟨e', he', fun _ => rfl⟩⟩

theorem Persists.trans {pool'' : Pool} (h : Persists pool pool') (h' : Persists pool' pool'') :
    Persists pool pool'' := by
  refine ⟨fun key => (h.births_le key).trans (h'.births_le key), ?_⟩
  intro key e'' he'' hbirth
  have hle := h.births_le key
  have hle' := h'.births_le key
  obtain ⟨e', he', hsame'⟩ := h'.row key e'' he'' (by omega)
  obtain ⟨e, he, hsame⟩ := h.row key e' he' (by omega)
  refine ⟨e, he, ?_⟩
  intro hfinal
  have heq := hsame hfinal
  rw [hsame' (heq ▸ hfinal), heq]

/-- What has been decided stays. -/
theorem Settles.persists (h : Settles claimant pool pool') : Persists pool pool' := by
  refine ⟨h.births_le, ?_⟩
  intro key e' he' hbirth
  obtain ⟨e, he, hfollows⟩ := h.follows he' hbirth
  exact ⟨e, he, hfollows.final⟩

theorem PoolStep.persists (h : PoolStep env pool pool') : Persists pool pool' := by
  cases h with
  | background hrows => exact (settles_settle hrows).persists
  | take hidle hclaims =>
    have hsettles : Settles _ pool (pool.settle _) := settles_settle hclaims.evolves
    have h := hsettles.persists
    exact ⟨h.births_le, h.row⟩
  | enter | letGo owner => exact ⟨(Persists.refl pool).births_le, (Persists.refl pool).row⟩
  | finish hheld hterm hrows =>
    have h := (settles_settle hrows).persists
    simp only [Pool.finish]
    split_ifs
    · exact ⟨h.births_le, h.row⟩
    · exact ⟨h.births_le, h.row⟩
  | idle => exact .refl pool

variable {actions : List PoolAction}

/-- **The run lemma.** -/
theorem sound_of_run (hrun : run (poolStep env) .initial actions = some pool) : Sound pool :=
  run_invariant (fun _ _ _ h _ hstep => h.step (poolStep_cases hstep)) sound_initial
    (meets_true actions) hrun

theorem persists_of_run (hrun : run (poolStep env) pool actions = some pool') :
    Persists pool pool' :=
  run_invariant (fun _ _ _ h _ hstep => h.trans (poolStep_cases hstep).persists) (.refl pool)
    (meets_true actions) hrun

/-- An execution is entered at most as often as its attempts allow. -/
theorem Sound.entries_le (h : Sound pool) (key : ExecutionId) (birth maxAttempts : ℕ) :
    (pool.enteredAttempts key birth maxAttempts).length ≤ maxAttempts := by
  obtain ⟨hnodup, hbound⟩ := h.entered key birth maxAttempts
  have hsub : (pool.enteredAttempts key birth maxAttempts).toFinset ⊆ Finset.Icc 1 maxAttempts := by
    intro attempt hmem
    rw [Finset.mem_Icc]
    exact hbound attempt (mem_toFinset.mp hmem)
  have hcard := Finset.card_le_card hsub
  rw [toFinset_card_of_nodup hnodup, Nat.card_Icc] at hcard
  omega

/-- The claim is lost: its row stopped running under its lease, by a redispatch or a provider
switch for example, or another attempt was handed out since. -/
def Pool.superseded (pool : Pool) (held : Holding) : Prop :=
  held.lost = true ∨ ∃ attempt, held.claim.attempt < attempt ∧
    Event.claimed ⟨held.claim.id, held.birth, attempt⟩ ∈ pool.log

/-- A worker that lost its lease is refused. -/
theorem Sound.refused (h : Sound pool)
    (hheld : pool.holding owner = some held) (hlost : pool.superseded held) :
    Refused env pool.db held.claim := by
  have hkeeps := h.keeps owner held hheld
  apply refused_of_not_leasedTo
  rw [hkeeps.leaseOwner]
  rcases hlost with hlost | ⟨attempt, hlater, hclm⟩
  · exact hkeeps.lost hlost
  rw [Bool.eq_false_iff]
  intro hlease
  obtain ⟨hbirth, hatt⟩ := hkeeps.current hlease
  obtain ⟨e, he, -⟩ := leasedTo_iff.mp hlease
  have hle := (h.seen _ hclm).attempt_le hbirth e he
  rw [hatt e he] at hle
  exact absurd hlater (Nat.not_lt.mpr hle)

/-- **Attempts are bounded and outcomes are final.** The attempts handed out increase, the task
callable is entered at most as often as its registrations allow, one terminal outcome is accepted, a
lost claim is refused, and a finished row never changes. -/
theorem attempts_bounded_outcomes_final (hrun : run (poolStep env) .initial actions = some pool) :
    (∀ key birth, (pool.claimedAttempts key birth).Pairwise (· > ·)) ∧
    (∀ key birth maxAttempts, (pool.enteredAttempts key birth maxAttempts).length ≤ maxAttempts) ∧
    (∀ key birth, (pool.endedAttempts key birth).length ≤ 1) ∧
    (∀ owner held, pool.holding owner = some held → pool.superseded held →
      Refused env pool.db held.claim) ∧
    ∀ key e, pool.db.executions.lookup key = some e → e.state.isActive = false →
      ∀ later pool', run (poolStep env) pool later = some pool' →
        pool'.births key = pool.births key →
        ∀ e', pool'.db.executions.lookup key = some e' → e' = e := by
  have hsound := sound_of_run hrun
  refine ⟨hsound.claimed, hsound.entries_le, hsound.ended,
    fun owner held hheld hlost => hsound.refused hheld hlost, ?_⟩
  intro key e he hfinal later pool' hlater hbirth e' he'
  obtain ⟨e₁, he₁, hsame⟩ := (persists_of_run hlater).row key e' he' hbirth
  rw [he, some.injEq] at he₁
  subst he₁
  exact hsame hfinal

/-- Worker 7 enters the task and outlives its lease; worker 8 claims the second attempt and
completes it. -/
def overtakenRun : List PoolAction :=
  [.background (.ensureRuntimeState .localProvider none 0),
    .background (.synchronize dateRegistry 0),
    .background (.enqueue {} 1 "cleanup" 10),
    .claim 7 {} 1 10 10,
    .enter 7 dateRegistry,
    .claim 8 {} 1 100000000 100000000,
    .enter 8 dateRegistry,
    .complete 8 1 100000001]

def overtakenPool : Pool := (run (poolStep dateEnvironment) .initial overtakenRun).getD .initial

theorem overtakenRun_attempts :
    run (poolStep dateEnvironment) .initial overtakenRun = some overtakenPool ∧
      overtakenPool.claimedAttempts 10 1 = [2, 1] ∧
      (overtakenPool.enteredAttempts 10 1 5).length ≤ 5 ∧
      overtakenPool.endedAttempts 10 1 = [2] ∧
      ∃ held, overtakenPool.holding 7 = some held ∧
        Refused dateEnvironment overtakenPool.db held.claim := by
  have hrun : run (poolStep dateEnvironment) .initial overtakenRun = some overtakenPool :=
    run_eq_some_getD _ (by decide +kernel)
  obtain ⟨-, hents, -, href, -⟩ := attempts_bounded_outcomes_final hrun
  have hsome : (overtakenPool.holding 7).isSome = true := by decide +kernel
  obtain ⟨held, hheld⟩ := isSome_iff_exists.mp hsome
  have hlost : (overtakenPool.holding 7).any Holding.lost = true := by decide +kernel
  rw [hheld] at hlost
  exact ⟨hrun, by decide +kernel, hents 10 1 5, by decide +kernel, held, hheld,
    href 7 held hheld (.inl hlost)⟩

end Cfms.Scheduling
