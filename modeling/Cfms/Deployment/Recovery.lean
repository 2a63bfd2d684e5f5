import Cfms.Deployment.Restoring

/-!
# Resuming an interrupted deployment

An upgrade or a downgrade may be cut off at any call, by an exception or with the process, and so
may every attempt to resume it.  `Interrupted` collects the deployments that are left with a
transaction, whichever of the two heads the database is at.

In every one of them the transaction names two stored releases and the database is at one of their
heads (`Interrupted.valid`).  `resume_deployment` then leaves the release of that head in the state
of its snapshot exactly when the deployment is `Resumable`.  An interruption can leave it otherwise:
once the manifest of a release is written its tree verifies, and `_restore_active` returns at once,
whether or not the configuration and the extensions were brought back.
-/

namespace Cfms.Deployment

open Lib.FileTree Lib.Process Lib.Run Option

variable {env : Environment} {α β : Type}

/-! ### Interruptions -/

/-- How a call is answered. -/
inductive Answer
  | works
  | raises (e : DeploymentError)
  deriving DecidableEq

variable (d : DeploymentState env)

/-- A call that raises has changed nothing. -/
def respond : (op : Op env) → Answer →
    Option (Except DeploymentError ((signature env).Result op) × DeploymentState env)
  | .look, .works => some (.ok d, d)
  | .change c, .works => some (.ok (), c.apply d)
  | _, .raises e => some (.error e, d)

/-- The deployments with a transaction that a command left when it was cut off: an upgrade or a
downgrade of a deployment without one, or an attempt to resume, the database being at either
head. -/
inductive Interrupted (env : Environment) : DeploymentState env → Prop
  | upgrade {d d' : DeploymentState env} (staged : ReleaseId) (answers : List Answer)
      {p : Script env Unit} (hstart : d.transaction = none)
      (hrun : run (advance respond) (upgradeDeployment staged, d) answers = some (p, d'))
      (hcut : d'.transaction.isSome = true) : Interrupted env d'
  | downgrade {d d' : DeploymentState env} (releaseId : ReleaseId) (answers : List Answer)
      {p : Script env Unit} (hstart : d.transaction = none)
      (hrun : run (advance respond) (downgradeDeployment releaseId, d) answers = some (p, d'))
      (hcut : d'.transaction.isSome = true) : Interrupted env d'
  | resume {d d' : DeploymentState env} (answers : List Answer) {p : Script env ReleaseId}
      (hbef : Interrupted env d)
      (hrun : run (advance respond) (resumeDeployment, d) answers = some (p, d'))
      (hcut : d'.transaction.isSome = true) : Interrupted env d'
  | database {d : DeploymentState env} {transaction : Transaction} {id : ReleaseId}
      (hbef : Interrupted env d) (htrans : d.transaction = some transaction)
      (hid : id = transaction.fromRelease ∨ id = transaction.toRelease) :
      Interrupted env { d with revision := (env.release id).head }

/-! ### What every call keeps -/

/-- The transaction, if there is one, is from one stored release to another, and the database is at
one of their heads. -/
structure Between (source target : ReleaseId) (d : DeploymentState env) : Prop where
  sourceStored : source ∈ d.stored
  targetStored : target ∈ d.stored
  head : d.revision = (env.release source).head ∨ d.revision = (env.release target).head
  ends : ∀ t, d.transaction = some t → t.fromRelease = source ∧ t.toRelease = target

/-- What holds at every call. -/
def Sound : Prop :=
  d.transaction = none ∨ ∃ source target, Between source target d

def machine (env : Environment) :
    Machine (signature env) DeploymentError (DeploymentState env) where
  allowed d _ := Sound d
  answers d op r d' := ∃ a, respond d op a = some (r, d')

/-- Calls that neither write the transaction nor migrate the database. -/
def Quiet : Op env → Prop
  | .change (.writeTransaction _) => False
  | .change (.migrate _) => False
  | _ => True

def Switching (source target : ReleaseId) : Op env → Prop
  | .change (.writeTransaction t) => t.fromRelease = source ∧ t.toRelease = target
  | .change (.migrate revision) =>
    revision = (env.release source).head ∨ revision = (env.release target).head
  | _ => True

variable {source target : ReleaseId}

theorem Quiet.switching (op : Op env) (h : Quiet op) : Switching source target op := by
  cases op with
  | look => trivial
  | change c =>
    cases c
    case writeTransaction | migrate => exact h.elim
    all_goals trivial

variable {d : DeploymentState env}

theorem respond_cases {d' : DeploymentState env} {op : Op env} {a : Answer}
    {r : Except DeploymentError ((signature env).Result op)} (h : respond d op a = some (r, d')) :
    d' = d ∨ ∃ c, op = .change c ∧ d' = c.apply d := by
  cases a with
  | raises e =>
    cases op with
    | look | change c => exact Or.inl (Prod.mk.inj (some.inj h)).2.symm
  | works =>
    cases op with
    | look => exact Or.inl (Prod.mk.inj (some.inj h)).2.symm
    | change c => exact Or.inr ⟨c, rfl, (Prod.mk.inj (some.inj h)).2.symm⟩

/-- A switching change stays between the two releases. -/
theorem Between.apply {c : Change env}
    (h : Between source target d) (hc : Switching source target (.change c)) :
    Between source target (c.apply d) := by
  cases c with
  | storeRelease id =>
    exact ⟨List.mem_cons_of_mem _ h.sourceStored, List.mem_cons_of_mem _ h.targetStored, h.head,
      h.ends⟩
  | writeTransaction t =>
    refine ⟨h.sourceStored, h.targetStored, h.head, ?_⟩
    rintro t' ht'
    cases ht'
    exact hc
  | unlinkTransaction => exact ⟨h.sourceStored, h.targetStored, h.head, fun _ ht => nomatch ht⟩
  | migrate rev => exact ⟨h.sourceStored, h.targetStored, hc, h.ends⟩
  | _ => exact ⟨h.sourceStored, h.targetStored, h.head, h.ends⟩

structure Before (source : ReleaseId) (held : List ReleaseId) (d : DeploymentState env) : Prop where
  transaction : d.transaction = none
  head : d.revision = (env.release source).head
  stored : ∀ id ∈ held, id ∈ d.stored

section

variable {source target : ReleaseId} {held : List ReleaseId} {d : DeploymentState env}

/-- A quiet change stays before the switch. -/
theorem Before.apply {c : Change env} (h : Before source held d) (hc : Quiet (.change c)) :
    Before source held (c.apply d) := by
  cases c with
  | writeTransaction t | migrate rev => exact hc.elim
  | unlinkTransaction => exact ⟨rfl, h.head, h.stored⟩
  | storeRelease id =>
    exact ⟨h.transaction, h.head, fun other ho => List.mem_cons_of_mem _ (h.stored other ho)⟩
  | _ => exact ⟨h.transaction, h.head, h.stored⟩

theorem Before.between (h : Before source held d) (hsrc : source ∈ held)
    (htgt : target ∈ held) : Between source target d :=
  ⟨h.stored source hsrc, h.stored target htgt, Or.inl h.head, fun _ ht =>
    nomatch ht.symm.trans h.transaction⟩

theorem Before.sound (h : Before source held d) : Sound d := Or.inl h.transaction

theorem Between.sound (h : Between source target d) : Sound d := Or.inr ⟨source, target, h⟩

end

variable {p : Script env α}

/-- A program that only switches stays between the releases. -/
theorem wp_of_switching
    (hp : OnlyCalls (Switching source target) p) (hd : Between source target d) :
    wp (machine env) p (fun _ => Between source target) d := by
  refine wp_of_onlyCalls hp ?_ hd
  intro op d hop hd
  refine ⟨hd.sound, ?_⟩
  rintro r d' ⟨a, ha⟩
  rcases respond_cases ha with rfl | ⟨c, rfl, rfl⟩
  · exact hd
  · exact hd.apply hop

/-- A quiet program stays before the switch. -/
theorem wp_of_quiet {held : List ReleaseId} (hp : OnlyCalls Quiet p) (hd : Before source held d) :
    wp (machine env) p (fun _ => Before source held) d := by
  refine wp_of_onlyCalls hp ?_ hd
  intro op d hop hd
  refine ⟨hd.sound, ?_⟩
  rintro r d' ⟨a, ha⟩
  rcases respond_cases ha with rfl | ⟨c, rfl, rfl⟩
  · exact hd
  · exact hd.apply hop

theorem wp_quiet_ends {held : List ReleaseId} (hp : OnlyCalls Quiet p) (hd : Before source held d) :
    wp (machine env) p (Ends (fun _ => Before source held) (Before source held)) d := by
  refine wp_mono ?_ (wp_of_quiet hp hd)
  intro r d' hd'
  cases r with
  | ok a | error e => exact hd'

/-! ### The calls of the functions -/

section

variable {P : Op env → Prop}

theorem quiet_look_bind {f : DeploymentState env → Script env α}
    (hf : ∀ d, OnlyCalls Quiet (f d)) : OnlyCalls Quiet (look >>= f) :=
  OnlyCalls.bind (onlyCalls_perform trivial) hf

theorem onlyCalls_change {c : Change env} (h : P (.change c)) : OnlyCalls P (change c) :=
  onlyCalls_perform h

theorem quiet_stateConfig (id : ReleaseId) :
    OnlyCalls Quiet (stateConfig id : Script env (Snapshot env id)) := by
  refine quiet_look_bind fun d => ?_
  cases d.states id <;> trivial

theorem quiet_discoverActive :
    OnlyCalls Quiet (discoverActive : Script env (List (Identifier × String))) := by
  refine quiet_look_bind fun d => ?_
  cases discover env.identifier d.files <;> trivial

theorem quiet_storedRelease (id : ReleaseId) :
    OnlyCalls Quiet (storedRelease id : Script env ReleaseId) := by
  refine quiet_look_bind fun d => ?_
  split <;> trivial

theorem quiet_snapshotRelease (id : ReleaseId) :
    OnlyCalls Quiet (snapshotRelease id : Script env Unit) := by
  refine quiet_look_bind fun d => ?_
  split
  · trivial
  · exact onlyCalls_change trivial

theorem quiet_snapshotState (id : ReleaseId) :
    OnlyCalls Quiet (snapshotState id : Script env Unit) := by
  refine quiet_look_bind fun d => ?_
  split
  · trivial
  cases d.states id with
  | none => exact onlyCalls_change trivial
  | some old =>
    exact OnlyCalls.bind (onlyCalls_change trivial) fun _ =>
      OnlyCalls.tryCatch (onlyCalls_change trivial) fun _ =>
        OnlyCalls.bind (onlyCalls_change trivial) fun _ => trivial

theorem quiet_removeActiveRelease (id : ReleaseId) :
    OnlyCalls Quiet (removeActiveRelease id : Script env Unit) := by
  refine quiet_discoverActive.bind fun catalog => ?_
  refine OnlyCalls.bind (onlyCalls_each (fun dir => ?_) _) fun _ =>
    OnlyCalls.bind (onlyCalls_each (fun p => ?_) _) fun _ => onlyCalls_change trivial
  · exact quiet_look_bind fun d => onlyCalls_each (fun p => onlyCalls_change trivial) _
  refine quiet_look_bind fun d => ?_
  split
  · exact onlyCalls_change trivial
  · trivial

theorem quiet_copyReleaseToActive (id : ReleaseId) :
    OnlyCalls Quiet (copyReleaseToActive id : Script env Unit) := by
  refine OnlyCalls.bind (onlyCalls_each (fun e => ?_) _) fun _ => onlyCalls_change trivial
  refine quiet_look_bind fun d => ?_
  split
  · trivial
  split
  · trivial
  · exact onlyCalls_change trivial

theorem quiet_copyStateExtensions (id : ReleaseId) :
    OnlyCalls Quiet (copyStateExtensions id : Script env Unit) := by
  refine quiet_look_bind fun d => ?_
  split
  · trivial
  split
  · trivial
  refine quiet_discoverActive.bind fun catalog => ?_
  refine OnlyCalls.bind (onlyCalls_each (fun e => ?_) _) fun _ =>
    quiet_discoverActive.bind fun _ => trivial
  unfold copyExtension
  split
  · trivial
  refine quiet_look_bind fun d => ?_
  split
  · trivial
  · exact onlyCalls_change trivial

theorem quiet_archiveActive (id : ReleaseId) :
    OnlyCalls Quiet (archiveActive id : Script env Unit) :=
  (quiet_snapshotRelease id).bind fun _ =>
    (quiet_snapshotState id).bind fun _ => quiet_removeActiveRelease id

theorem quiet_placeActive (source : ReleaseId) (config : Content) :
    OnlyCalls Quiet (placeActive source config : Script env Unit) := by
  refine quiet_look_bind fun d => ?_
  have hrest : OnlyCalls Quiet (change (.writeConfig config) >>= fun _ =>
      (copyStateExtensions source : Script env Unit)) :=
    OnlyCalls.bind (onlyCalls_change trivial) fun _ => quiet_copyStateExtensions source
  split
  · exact (quiet_copyReleaseToActive source).bind fun _ => hrest
  · exact hrest

theorem quiet_restoreActive (source : ReleaseId) (failed : Option ReleaseId) :
    OnlyCalls Quiet (restoreActive source failed : Script env Unit) := by
  refine (quiet_stateConfig source).bind fun state => quiet_look_bind fun d => ?_
  split
  · split
    · trivial
    · exact (quiet_removeActiveRelease _).bind fun _ => quiet_placeActive source _
  · refine OnlyCalls.bind (onlyCalls_each (fun e => ?_) _) fun _ =>
      OnlyCalls.bind (onlyCalls_change trivial) fun _ => quiet_placeActive source _
    refine quiet_look_bind fun d => ?_
    split
    · exact onlyCalls_change trivial
    · trivial
  · exact quiet_placeActive source _

theorem quiet_activateUpgrade (source target : ReleaseId) :
    OnlyCalls Quiet (activateUpgrade source target : Script env Unit) := by
  refine (quiet_archiveActive source).bind fun _ =>
    (quiet_copyReleaseToActive target).bind fun _ =>
      (quiet_copyStateExtensions source).bind fun _ =>
        OnlyCalls.bind (quiet_look_bind fun d => ?_) fun _ =>
          (quiet_snapshotState target).bind fun _ => onlyCalls_change trivial
  split
  · exact onlyCalls_change trivial
  · trivial

theorem quiet_concludeSwitch : OnlyCalls Quiet (concludeSwitch : Script env Unit) := by
  refine quiet_look_bind fun d => ?_
  split
  · trivial
  · exact quiet_discoverActive.bind fun _ => onlyCalls_change trivial

theorem switching_migrateDatabase (source target : ReleaseId) :
    OnlyCalls (Switching source target) (migrateDatabase source target : Script env Unit) := by
  refine OnlyCalls.bind (onlyCalls_perform trivial) fun d => ?_
  split
  · exact onlyCalls_change (Or.inr rfl)
  · trivial

theorem quiet_resumeDeployment : OnlyCalls Quiet (resumeDeployment : Script env ReleaseId) := by
  have hend : ∀ (id : ReleaseId) (failed : Option ReleaseId), OnlyCalls Quiet ((do
        restoreActive id failed
        change .syncEnvironment
        change .unlinkTransaction
        return id) : Script env ReleaseId) := by
    intro id failed
    exact (quiet_restoreActive id failed).bind fun _ =>
      OnlyCalls.bind (onlyCalls_change trivial) fun _ =>
        OnlyCalls.bind (onlyCalls_change trivial) fun _ => trivial
  refine quiet_look_bind fun d => ?_
  split
  · trivial
  split
  · trivial
  refine (quiet_storedRelease _).bind fun source =>
    (quiet_storedRelease _).bind fun target => quiet_look_bind fun d => ?_
  split
  · exact hend _ _
  split
  · exact hend _ _
  · trivial

end

/-! ### Every run is sound -/

section

variable {source target : ReleaseId} {held : List ReleaseId} {d d' : DeploymentState env}

section

variable {β : Type} {Q : Except DeploymentError β → DeploymentState env → Prop}

theorem wp_look_bind {f : DeploymentState env → Script env β} (hsound : Sound d)
    (hraises : ∀ e, Q (.error e) d) (hworks : wp (machine env) (f d) Q d) :
    wp (machine env) (look >>= f) Q d := by
  refine ⟨hsound, ?_⟩
  rintro r d' ⟨a, ha⟩
  cases a with
  | raises e =>
    cases ha
    exact hraises e
  | works =>
    cases ha
    exact hworks

theorem wp_change {c : Change env} {Q : Except DeploymentError Unit → DeploymentState env → Prop}
    (hsound : Sound d) (hraises : ∀ e, Q (.error e) d) (hworks : Q (.ok ()) (c.apply d)) :
    wp (machine env) (change c) Q d := by
  refine ⟨hsound, ?_⟩
  rintro r d' ⟨a, ha⟩
  cases a with
  | raises e =>
    cases ha
    exact hraises e
  | works =>
    cases ha
    exact hworks

end

theorem wp_requireRecovery (e : DeploymentError) (h : Between source target d) :
    wp (machine env) (requireRecovery e) (fun _ => Between source target) d := by
  refine wp_look_bind h.sound (fun _ => h) ?_
  cases ht : d.transaction with
  | none => exact h
  | some t =>
    -- the transaction keeps its two releases
    have hwrite : OnlyCalls (Switching source target) (do
        change (.writeTransaction { t with phase := .databaseRecoveryRequired })
        throw e : Script env Unit) :=
      OnlyCalls.bind (onlyCalls_change (h.ends t ht)) fun _ => trivial
    exact wp_of_switching hwrite h

/-- An upgrade that is cut stays between the releases. -/
theorem wp_switchUp (h : Between source target d) :
    wp (machine env) (switchUp source target) (fun _ => Between source target) d := by
  refine wp_bind_keeps (wp_of_switching (onlyCalls_change ⟨rfl, rfl⟩) h) fun _ d h => ?_
  refine wp_bind_keeps (wp_of_switching (OnlyCalls.tryCatch
    ((quiet_activateUpgrade source target).mono Quiet.switching) fun e => ?_) h) fun _ d h => ?_
  · have hhand : OnlyCalls Quiet (do
        restoreActive source (some target)
        change .syncEnvironment
        change .unlinkTransaction
        throw e : Script env Unit) :=
      (quiet_restoreActive source (some target)).bind fun _ =>
        OnlyCalls.bind (onlyCalls_change trivial) fun _ =>
          OnlyCalls.bind (onlyCalls_change trivial) fun _ => trivial
    exact hhand.mono Quiet.switching
  · refine wp_bind_keeps (wp_of_switching (onlyCalls_change ⟨rfl, rfl⟩) h) fun _ d h => ?_
    have hdatabase : OnlyCalls (Switching source target) (do
        migrateDatabase source target
        concludeSwitch : Script env Unit) :=
      (switching_migrateDatabase source target).bind fun _ =>
        quiet_concludeSwitch.mono Quiet.switching
    exact wp_tryCatch_keeps (wp_of_switching hdatabase h) fun e d h => wp_requireRecovery e h

/-- A downgrade that is cut stays between the releases. -/
theorem wp_switchDown (h : Between source target d) :
    wp (machine env) (switchDown source target) (fun _ => Between source target) d := by
  refine wp_bind_keeps (wp_of_switching (onlyCalls_change ⟨rfl, rfl⟩) h) fun _ d h => ?_
  refine wp_tryCatch_keeps (wp_of_switching ?_ h) fun e d h => wp_requireRecovery e h
  have hrest : OnlyCalls Quiet (archiveActive source >>= fun _ =>
      copyReleaseToActive target >>= fun _ => stateConfig target >>= fun state =>
      change (.writeConfig state.config) >>= fun _ => copyStateExtensions target >>= fun _ =>
      change .syncEnvironment >>= fun _ => (concludeSwitch : Script env Unit)) :=
    (quiet_archiveActive source).bind fun _ =>
      (quiet_copyReleaseToActive target).bind fun _ =>
        (quiet_stateConfig target).bind fun _ =>
          OnlyCalls.bind (onlyCalls_change trivial) fun _ =>
            (quiet_copyStateExtensions target).bind fun _ =>
              OnlyCalls.bind (onlyCalls_change trivial) fun _ => quiet_concludeSwitch
  exact (switching_migrateDatabase source target).bind fun _ =>
    OnlyCalls.bind (onlyCalls_change ⟨rfl, rfl⟩) fun _ => hrest.mono Quiet.switching

theorem wp_startSwitch (h : d.transaction = none) : wp (machine env) startSwitch
      (Ends (fun source => Before source []) fun d => d.transaction = none) d := by
  refine wp_look_bind (Or.inl h) (fun _ => h) ?_
  split
  · exact h
  split
  · exact h
  cases activeRelease? d with
  | none => exact h
  | some source =>
    show wp (machine env) (if d.revision = _ then pure source else _) _ d
    split
    · next hhead => exact ⟨h, hhead, fun _ hid => nomatch hid⟩
    · exact h

theorem Before.hold (h : Before source held d) {id : ReleaseId} (hid : id ∈ d.stored) :
    Before source (id :: held) d := by
  refine ⟨h.transaction, h.head, ?_⟩
  intro other hother
  rcases List.mem_cons.mp hother with rfl | hother
  · exact hid
  · exact h.stored other hother

theorem wp_storedRelease (id : ReleaseId) (h : Before source held d) :
    wp (machine env) (storedRelease id)
      (Ends (fun found d => found = id ∧ Before source (id :: held) d) (Before source held)) d := by
  refine wp_look_bind h.sound (fun _ => h) ?_
  split
  · next hid => exact ⟨rfl, h.hold hid⟩
  · exact h

theorem wp_snapshotRelease (id : ReleaseId) (h : Before source held d) :
    wp (machine env) (snapshotRelease id)
      (Ends (fun _ => Before source (id :: held)) (Before source held)) d := by
  refine wp_look_bind h.sound (fun _ => h) ?_
  split
  · next hid => exact h.hold hid
  · refine wp_change h.sound (fun _ => h) ?_
    exact (h.apply (c := .storeRelease id) trivial).hold List.mem_cons_self

/-- **Upgrades keep the deployment sound, wherever they are cut.** -/
theorem wp_upgradeDeployment (staged : ReleaseId) (h : d.transaction = none) :
    wp (machine env) (upgradeDeployment staged) (fun _ => Sound) d := by
  refine wp_bind_ends (wp_startSwitch h) (fun source d h => ?_) fun _ => Or.inl
  split
  · exact h.sound
  refine wp_bind_ends (wp_snapshotRelease staged h) (fun _ d h => ?_) fun _ => Before.sound
  refine wp_bind_ends (wp_snapshotRelease source h) (fun _ d h => ?_) fun _ => Before.sound
  refine wp_bind_ends (wp_quiet_ends (quiet_snapshotState source) h) (fun _ d h => ?_)
    fun _ => Before.sound
  exact wp_mono (fun _ _ => Between.sound) (wp_switchUp (h.between (by simp) (by simp)))

/-- **Downgrades keep the deployment sound, wherever they are cut.** -/
theorem wp_downgradeDeployment (releaseId : ReleaseId) (h : d.transaction = none) :
    wp (machine env) (downgradeDeployment releaseId) (fun _ => Sound) d := by
  refine wp_bind_ends (wp_startSwitch h) (fun source d h => ?_) fun _ => Or.inl
  refine wp_bind_ends (wp_storedRelease releaseId h) (fun target d h => ?_) fun _ => Before.sound
  obtain ⟨rfl, h⟩ := h
  split
  · exact h.sound
  refine wp_bind_ends (wp_quiet_ends (quiet_stateConfig target) h) (fun _ d h => ?_)
    fun _ => Before.sound
  refine wp_bind_ends (wp_snapshotRelease source h) (fun _ d h => ?_) fun _ => Before.sound
  refine wp_bind_ends (wp_quiet_ends (quiet_snapshotState source) h) (fun _ d h => ?_)
    fun _ => Before.sound
  exact wp_mono (fun _ _ => Between.sound) (wp_switchDown (h.between (by simp) (by simp)))

/-- **So does a recovery.** -/
theorem wp_resumeDeployment (h : Between source target d) :
    wp (machine env) resumeDeployment (fun _ => Sound) d :=
  wp_mono (fun _ _ => Between.sound)
    (wp_of_switching (quiet_resumeDeployment.mono Quiet.switching) h)

theorem sound_run {p p' : Script env α} {answers : List Answer}
    (hwp : wp (machine env) p (fun _ => Sound) d)
    (hrun : run (advance respond) (p, d) answers = some (p', d')) : Sound d' := by
  have hend : wp (machine env) p' (fun _ => Sound) d' :=
    wp_run id (fun d op a r d' h => ⟨a, h⟩) hwp hrun
  cases p' with
  | done r => exact hend
  | call op next => exact hend.1

end

/-- An interrupted deployment has a transaction between two stored releases, and its database is at
the head of one of them. -/
theorem Interrupted.between (h : Interrupted env d) :
    ∃ t, d.transaction = some t ∧ Between t.fromRelease t.toRelease d := by
  have hsound : ∀ d : DeploymentState env, Sound d → d.transaction.isSome = true →
      ∃ t, d.transaction = some t ∧ Between t.fromRelease t.toRelease d := by
    intro d hsound hcut
    obtain ⟨t, ht⟩ := isSome_iff_exists.mp hcut
    rcases hsound with hnone | ⟨source, target, hbetween⟩
    · rw [hnone] at ht
      cases ht
    · obtain ⟨rfl, rfl⟩ := hbetween.ends t ht
      exact ⟨t, ht, hbetween⟩
  induction h with
  | upgrade staged answers hstart hrun hcut =>
    exact hsound _ (sound_run (wp_upgradeDeployment staged hstart) hrun) hcut
  | downgrade releaseId answers hstart hrun hcut =>
    exact hsound _ (sound_run (wp_downgradeDeployment releaseId hstart) hrun) hcut
  | resume answers _ hrun hcut ih =>
    obtain ⟨t, -, hbetween⟩ := ih
    exact hsound _ (sound_run (wp_resumeDeployment hbetween) hrun) hcut
  | database _ htrans hid ih =>
    obtain ⟨t, ht, hbetween⟩ := ih
    obtain rfl := some.inj (ht.symm.trans htrans)
    refine ⟨t, ht, hbetween.sourceStored, hbetween.targetStored, ?_, hbetween.ends⟩
    rcases hid with rfl | rfl
    · exact Or.inl rfl
    · exact Or.inr rfl

/-! ### Resuming -/

/-- The release that the database is at: the source when both heads are the same. -/
def wantedRelease (t : Transaction) (d : DeploymentState env) : ReleaseId :=
  if d.revision = (env.release t.fromRelease).head then t.fromRelease else t.toRelease

def otherRelease (t : Transaction) (d : DeploymentState env) : ReleaseId :=
  if d.revision = (env.release t.fromRelease).head then t.toRelease else t.fromRelease

/-- With every call working, `resume_deployment` returns the release that the database is at and
leaves it active in the state of its snapshot, without a transaction. -/
def ResumesConsistently (d : DeploymentState env) : Prop :=
  ∃ t, d.transaction = some t ∧ ∃ snapshot, d.states (wantedRelease t d) = some snapshot ∧
    ∃ d', execute resumeDeployment d = (.ok (wantedRelease t d), d') ∧
      IsRelease (wantedRelease t d) (otherRelease t d) snapshot d' ∧ d'.transaction = none

/-- The project root is recognised by its `pyproject.toml`, and the active tree can be restored to
the release that the database is at. -/
def Resumable (d : DeploymentState env) : Prop :=
  (read d.files pyprojectPath).isSome = true ∧
    ∃ t, d.transaction = some t ∧ Restorable (wantedRelease t d) (otherRelease t d) d

variable {t : Transaction}

/-- A recovery without a fault, as a function of the deployment. -/
theorem execute_resumeDeployment
    (ht : d.transaction = some t) (hbetween : Between t.fromRelease t.toRelease d)
    (hroot : (read d.files pyprojectPath).isSome = true) :
    execute resumeDeployment d = execute (do
      restoreActive (wantedRelease t d) (some (otherRelease t d))
      change .syncEnvironment
      change .unlinkTransaction
      return wantedRelease t d) d := by
  have hproject : isProjectRoot d = true := by
    rw [isProjectRoot, hroot, ht]
    simp
  have hstor : ∀ id ∈ d.stored, execute (storedRelease id) d = (.ok id, d) := by
    intro id hid
    rw [storedRelease, execute_look_bind, if_pos hid]
    rfl
  rw [resumeDeployment, execute_look_bind, hproject]
  rw [ht]
  show execute (storedRelease t.fromRelease >>= fun source => _) d = _
  rw [execute_bind_ok (hstor _ hbetween.sourceStored),
    execute_bind_ok (hstor _ hbetween.targetStored), execute_look_bind, wantedRelease,
    otherRelease]
  by_cases hsrc : d.revision = (env.release t.fromRelease).head
  · rw [if_pos hsrc, if_pos hsrc, if_pos hsrc]
  · rw [if_neg hsrc, if_neg hsrc, if_neg hsrc, if_pos (hbetween.head.resolve_left hsrc)]

/-- A deployment that resumes is resumable. -/
theorem resumable_of_resumes
    (ht : d.transaction = some t) (hbetween : Between t.fromRelease t.toRelease d)
    (h : ResumesConsistently d) : Resumable d := by
  obtain ⟨t', ht', snap, hstate, d', hrun, hrel, -⟩ := h
  cases ht.symm.trans ht'
  have hroot : (read d.files pyprojectPath).isSome = true := by
    by_contra hroot
    have hproject : isProjectRoot d = false := by
      rw [isProjectRoot, Bool.and_eq_false_iff]
      exact Or.inl (Bool.not_eq_true _ ▸ hroot)
    rw [resumeDeployment, execute_look_bind, hproject] at hrun
    cases hrun
  rw [execute_resumeDeployment ht hbetween hroot] at hrun
  obtain ⟨⟨⟩, d₁, hrestore, hrest⟩ := execute_bind_eq_ok hrun
  cases hrest
  -- ending the transaction touches nothing that `IsRelease` reads
  have hrel₁ : IsRelease (wantedRelease t d) (otherRelease t d) snap d₁ :=
    ⟨hrel.manifest, hrel.files, hrel.settled.noOther, hrel.settled.config,
      hrel.settled.extensions, hrel.settled.extensionFiles⟩
  exact ⟨hroot, t, ht, restoreActive_iff.mp ⟨snap, hstate, d₁, hrestore, hrel₁⟩⟩

/-- A resumable deployment resumes. -/
theorem resumes_of_resumable
    (ht : d.transaction = some t) (hbetween : Between t.fromRelease t.toRelease d)
    (h : Resumable d) : ResumesConsistently d := by
  obtain ⟨hroot, t', ht', hrestb⟩ := h
  cases ht.symm.trans ht'
  obtain ⟨snap, hstate, d₁, hrestore, hrel⟩ := restoreActive_iff.mpr hrestb
  refine ⟨t, ht, snap, hstate, { d₁ with transaction := none }, ?_, ?_, rfl⟩
  · rw [execute_resumeDeployment ht hbetween hroot, execute_bind_ok hrestore]
    rfl
  · exact ⟨hrel.manifest, hrel.files, hrel.settled.noOther, hrel.settled.config,
      hrel.settled.extensions, hrel.settled.extensionFiles⟩

/-- **Resuming an interrupted deployment leaves the release that the database is at, in the state of
its snapshot, exactly when the deployment is resumable.** -/
theorem resumes_iff {d : DeploymentState env} (h : Interrupted env d) :
    ResumesConsistently d ↔ Resumable d := by
  obtain ⟨t, ht, hbetween⟩ := h.between
  exact ⟨resumable_of_resumes ht hbetween, resumes_of_resumable ht hbetween⟩

/-! ### Two releases -/

/-- The paths of a small release, in the order of its manifest. -/
def samplePaths : List Path :=
  [pyprojectPath, ["src", "alembic.ini"], configSamplePath, entrypointPath "builtin",
    manifestPath "builtin", mainPath, ["uv.lock"]]

def sampleFiles (version : String) : Files :=
  samplePaths.zip [version, "alembic", "sample", "entry point", "builtin", version, "lock"]

theorem sampleFiles_paths (version : String) :
    (sampleFiles version).map Prod.fst = samplePaths := rfl

def sampleRelease (version : String) : Release where
  files := sampleFiles version
  capitals := []
  managedExtensions := ["builtin"]
  head := version
  files_nodup := by
    rw [sampleFiles_paths]
    decide
  files_apart := by
    rw [sampleFiles_paths]
    decide
  required := by
    rw [sampleFiles_paths]
    decide

def sampleEnvironment : Environment where
  release := sampleRelease
  identifier c := some c
  syncConfig config _ := some config

def sampleSnapshot (id : ReleaseId) (config : Content) : Snapshot sampleEnvironment id :=
  { config, extensions := [], catalog := [], readable := rfl, thirdParty := fun _ he => nomatch he }

/-- A deployment of one version with another one stored. -/
def sampleDeployment (active other : String) : DeploymentState sampleEnvironment where
  files := sampleFiles active
  manifest := some active
  config := "configuration of " ++ active
  stored := [other]
  states id := if id = other then some (sampleSnapshot id ("configuration of " ++ other)) else none
  transaction := none
  revision := active

def cutAfter (calls : Nat) (p : Script env Unit) (d : DeploymentState env) :
    Script env Unit × DeploymentState env :=
  (run (advance respond) (p, d) (List.replicate calls .works)).getD (p, d)

/-- An upgrade cut off while it copies the files of the newer release. -/
def cutUpgrade : DeploymentState sampleEnvironment :=
  (cutAfter 33 (upgradeDeployment "2") (sampleDeployment "1" "2")).2

theorem cutUpgrade_resumes : ResumesConsistently cutUpgrade := by
  have hrun : run (advance respond) (upgradeDeployment "2", sampleDeployment "1" "2")
      (List.replicate 33 .works) =
        some (cutAfter 33 (upgradeDeployment "2") (sampleDeployment "1" "2")) :=
    run_eq_some_getD _ (by decide +kernel)
  have hcut : Interrupted sampleEnvironment cutUpgrade :=
    .upgrade "2" _ rfl hrun (by decide +kernel)
  refine (resumes_iff hcut).mpr ⟨by decide +kernel, ⟨.upgrade, "1", .activation, "2"⟩,
    by decide +kernel, ?_⟩
  have hwanted : wantedRelease ⟨.upgrade, "1", .activation, "2"⟩ cutUpgrade = "1" := by
    decide +kernel
  have hother : otherRelease ⟨.upgrade, "1", .activation, "2"⟩ cutUpgrade = "2" := by
    decide +kernel
  refine ⟨(cutUpgrade.states "1").get (by decide +kernel), (some_get _).symm, ?_⟩
  refine ⟨(clearedFiles "2" cutUpgrade).get (by decide +kernel), (some_get _).symm, ?_⟩
  exact ⟨by decide +kernel, by decide +kernel,
    ⟨[("builtin", "builtin")], by decide +kernel, by decide +kernel⟩, by decide +kernel⟩

/-- A downgrade cut off when the manifest of the older release is written. -/
def cutDowngrade : DeploymentState sampleEnvironment :=
  (cutAfter 46 (downgradeDeployment "1") (sampleDeployment "2" "1")).2

/-- The older release is back, with the configuration of the newer one. -/
theorem cutDowngrade_stays :
    Interrupted sampleEnvironment cutDowngrade ∧ ¬ ResumesConsistently cutDowngrade := by
  have hrun : run (advance respond) (downgradeDeployment "1", sampleDeployment "2" "1")
      (List.replicate 46 .works) =
        some (cutAfter 46 (downgradeDeployment "1") (sampleDeployment "2" "1")) :=
    run_eq_some_getD _ (by decide +kernel)
  have hcut : Interrupted sampleEnvironment cutDowngrade :=
    .downgrade "1" _ rfl hrun (by decide +kernel)
  refine ⟨hcut, ?_⟩
  intro hresumes
  obtain ⟨t, ht, hbetween⟩ := hcut.between
  obtain ⟨-, t', ht', hrestb⟩ := resumable_of_resumes ht hbetween hresumes
  have htrans : cutDowngrade.transaction = some ⟨.downgrade, "2", .activation, "1"⟩ := by
    decide +kernel
  cases htrans.symm.trans ht'
  have hwanted : wantedRelease ⟨.downgrade, "2", .activation, "1"⟩ cutDowngrade = "1" := by
    decide +kernel
  have hconfig := hrestb.config (by decide +kernel)
  exact absurd hconfig (by decide +kernel)

end Cfms.Deployment
