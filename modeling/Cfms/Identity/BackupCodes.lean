import Cfms.Access.Model
import Cfms.Lib.RowLock
import Cfms.Lib.Run

/-!
# TOTP backup codes

A second factor can be a backup code in place of a one-time password.  The hashes of the codes are a
list in the credential's row; `UserTotpCredential.verify` takes the matching hash off the list in
memory, and `TOTPAuthProvider.verify` writes the shorter list by an update that asks for the list it
has read.  The transaction is committed in `accept`, or rolled back when one of the later checks
fails.

The steps of any number of such requests are interleaved here with each other and with those of the
setup, the confirmation and the removal of the credential.  The lock on the user's row that the
management handlers take is left out, so that there are more interleavings than the server has.
For a login, `UserTotpCredential` of `Login` holds the secret and the codes as one text.
-/

namespace Cfms.Identity

open Access Lib Lib.Run List Option Function

/-! ### The credential -/

/-- A row of `user_totp_credentials`; the JSON text of the backup codes is the list that it writes
down. -/
structure TotpCredential where
  credentialId : String
  secret : String
  enabled : Bool
  backupCodes : Option (List String)
  deriving DecidableEq

/-- `pyotp.TOTP(secret).verify`, and the code that a hash was made of. -/
structure TotpChecks where
  totpVerify : String → String → Instant → Bool
  codeOf : String → String

/-- `_password_hasher.verify(hash_str, token + pepper)`. -/
def TotpChecks.verifyHash (checks : TotpChecks) (hash token : String) : Bool :=
  checks.codeOf hash == token

/-- What a token was accepted for. -/
inductive TotpProof
  | oneTime
  | backupCode (hash : String)
  deriving DecidableEq

/-- `UserTotpCredential.verify`, with the object as it leaves it. -/
def TotpCredential.verify (checks : TotpChecks) (credential : TotpCredential) (token : String)
    (now : Instant) : Option (TotpProof × TotpCredential) :=
  if credential.secret.isEmpty then none
  else if checks.totpVerify credential.secret token now then some (.oneTime, credential)
  else if credential.enabled then
    match credential.backupCodes with
    | none => none
    | some hashedCodes =>
      (hashedCodes.find? fun hash => checks.verifyHash hash token).map fun hash =>
        (.backupCode hash, { credential with backupCodes := some (hashedCodes.erase hash) })
  else none

/-- The hashes of a row, if there is one. -/
def storedCodes (credential : Option TotpCredential) : List String :=
  (credential.bind TotpCredential.backupCodes).getD []

/-! ### The transactions -/

/-- Where a transaction stands. -/
inductive TotpPhase
  | idle
  /-- `session.get` has read the row. -/
  | loaded (credential : Option TotpCredential)
  /-- A hash is off the list in memory. -/
  | consuming (read changed : TotpCredential) (proof : TotpProof)
  | verified (credentialId : String) (proof : TotpProof)
  /-- The provider or the handler reports a failure. -/
  | refused
  /-- A management handler has flushed its change. -/
  | managed
  | ended
  deriving DecidableEq

/-- A committed acceptance. -/
structure TotpAcceptance where
  tx : ℕ
  credentialId : String
  proof : TotpProof
  deriving DecidableEq

/-- The credential's row of one account, the transactions on it, and the acceptances so far. -/
structure TotpServer where
  row : LockedRow ℕ (Option TotpCredential)
  phase : ℕ → TotpPhase
  accepted : List TotpAcceptance

def TotpServer.initial (stored : Option TotpCredential) : TotpServer where
  row := ⟨stored, none⟩
  phase := fun _ => .idle
  accepted := []

/-- The steps of the transactions.  `setup` comes with what it draws. -/
inductive TotpAction
  | load
  | verify (token : String) (now : Instant)
  | consume
  | accept
  | setup (secret : String) (hashedCodes : List String) (credentialId : String)
  | confirm (token : String) (now : Instant)
  | remove
  | commit
  | rollback
  deriving DecidableEq

structure TotpEvent where
  tx : ℕ
  action : TotpAction
  deriving DecidableEq

/-- The event ends its transaction by a commit. -/
def TotpEvent.commits (event : TotpEvent) : Bool :=
  event.action == .accept || event.action == .commit

def TotpEvent.drawn (event : TotpEvent) : List String :=
  match event.action with
  | .setup _ hashedCodes _ => hashedCodes
  | _ => []

/-- What a statement that may write the row does. -/
inductive TotpEffect
  | flush (version : Option TotpCredential) (phase : TotpPhase)
  | refuse
  deriving DecidableEq

variable (s : TotpServer)

namespace TotpServer

/-- The part of `TOTPAuthProvider.verify` before the update. -/
def verifyLoaded (checks : TotpChecks) (credential : Option TotpCredential) (token : String)
    (now : Instant) : TotpPhase :=
  match credential with
  | none => .refused
  | some read =>
    if !read.enabled then .refused
    else
      match read.verify checks token now with
      | none => .refused
      | some (proof, changed) =>
        if changed.backupCodes ≠ read.backupCodes then .consuming read changed proof
        else .verified read.credentialId proof

/-- The conditional update; it finds the row as it was read, or changes nothing. -/
def consumeCode (found : Option TotpCredential) (read changed : TotpCredential)
    (proof : TotpProof) : TotpEffect :=
  match found with
  | none => .refuse
  | some found =>
    if found.credentialId = read.credentialId ∧ found.backupCodes = read.backupCodes then
      .flush (some { found with backupCodes := changed.backupCodes })
        (.verified read.credentialId proof)
    else .refuse

/-- `RequestSetupTotpHandler` from the check of the credential to the flush: an insert, or an update
of the columns that change. -/
def setupTotp (found credential : Option TotpCredential) (secret : String)
    (hashedCodes : List String) (credentialId : String) : TotpEffect :=
  match credential, found with
  | none, none => .flush (some ⟨credentialId, secret, false, some hashedCodes⟩) .managed
  | some read, some found =>
    if read.enabled then .refuse
    else .flush (some { found with secret, backupCodes := some hashedCodes }) .managed
  | _, _ => .refuse

/-- `RequestConfirmTotpSetupHandler`. -/
def confirmTotp (checks : TotpChecks) (found credential : Option TotpCredential) (token : String)
    (now : Instant) : TotpEffect :=
  match credential, found with
  | some read, some found =>
    if read.secret.isEmpty || read.enabled then .refuse
    else if (read.verify checks token now).isSome then
      .flush (some { found with enabled := true }) .managed
    else .refuse
  | _, _ => .refuse

/-- The flush of `remove_totp`. -/
def removeTotp (credential : Option TotpCredential) : TotpEffect :=
  match credential with
  | none => .refuse
  | some _ => .flush none .managed

def withPhase (tx : ℕ) (phase : TotpPhase) : TotpServer :=
  { s with phase := Function.update s.phase tx phase }

def perform (tx : ℕ) : TotpEffect → TotpServer
  | .flush version phase => { s with row := s.row.write tx version }.withPhase tx phase
  | .refuse => s.withPhase tx .refused

/-- A statement that writes waits for the lock of the row. -/
def statement (tx : ℕ) (effect : Option TotpCredential → TotpEffect) : Option TotpServer :=
  if s.row.writable tx then some (s.perform tx (effect (s.row.current tx))) else none

/-- The end of a transaction. -/
def conclude (tx : ℕ) (row : LockedRow ℕ (Option TotpCredential)) (accepted : List TotpAcceptance) :
    TotpServer :=
  { s with row, accepted }.withPhase tx .ended

/-- One step of a transaction. -/
def step (checks : TotpChecks) (s : TotpServer) (event : TotpEvent) : Option TotpServer :=
  let tx := event.tx
  match event.action, s.phase tx with
  | .load, .idle => some (s.withPhase tx (.loaded s.row.committed))
  | .verify token now, .loaded credential =>
    some (s.withPhase tx (verifyLoaded checks credential token now))
  | .consume, .consuming read changed proof =>
    s.statement tx fun found => consumeCode found read changed proof
  | .accept, .verified credentialId proof =>
    some (s.conclude tx (s.row.commit tx) (s.accepted ++ [⟨tx, credentialId, proof⟩]))
  | .setup secret hashedCodes credentialId, .loaded credential =>
    s.statement tx fun found => setupTotp found credential secret hashedCodes credentialId
  | .confirm token now, .loaded credential =>
    s.statement tx fun found => confirmTotp checks found credential token now
  | .remove, .loaded credential => s.statement tx fun _ => removeTotp credential
  | .commit, .managed => some (s.conclude tx (s.row.commit tx) s.accepted)
  | .rollback, _ => some (s.conclude tx (s.row.drop tx) s.accepted)
  | _, _ => none

theorem step_cases {checks : TotpChecks} {s s' : TotpServer} {event : TotpEvent}
    (h : step checks s event = some s') :
    (∃ phase, s' = s.withPhase event.tx phase ∧
      ((event.action = .load ∧ s.phase event.tx = .idle ∧ phase = .loaded s.row.committed) ∨
        ∃ token now credential, event.action = .verify token now ∧
          s.phase event.tx = .loaded credential ∧
            phase = verifyLoaded checks credential token now)) ∨
    (∃ effect, s.row.writable event.tx = true ∧
      s' = s.perform event.tx (effect (s.row.current event.tx)) ∧
      ((∃ read changed proof, event.action = .consume ∧
          s.phase event.tx = .consuming read changed proof ∧
            effect = fun found => consumeCode found read changed proof) ∨
        ∃ credential, s.phase event.tx = .loaded credential ∧ ((∃ secret hashedCodes credId,
              event.action = .setup secret hashedCodes credId ∧
              effect = fun found => setupTotp found credential secret hashedCodes credId) ∨
            (∃ token now, event.action = .confirm token now ∧
              effect = fun found => confirmTotp checks found credential token now) ∨
            (event.action = .remove ∧ effect = fun _ => removeTotp credential)))) ∨
    (∃ credId proof, event.action = .accept ∧ s.phase event.tx = .verified credId proof ∧
        s' = s.conclude event.tx (s.row.commit event.tx)
          (s.accepted ++ [⟨event.tx, credId, proof⟩])) ∨
    (event.action = .commit ∧ s.phase event.tx = .managed ∧
      s' = s.conclude event.tx (s.row.commit event.tx) s.accepted) ∨
    (event.action = .rollback ∧ s' = s.conclude event.tx (s.row.drop event.tx) s.accepted) := by
  obtain ⟨tx, action⟩ := event
  have hstmt : ∀ {effect}, s.statement tx effect = some s' →
      s.row.writable tx = true ∧ s' = s.perform tx (effect (s.row.current tx)) := by
    intro effect heff
    rw [statement, ite_none_right_eq_some, some.injEq] at heff
    exact ⟨heff.1, heff.2.symm⟩
  simp only [step] at h
  split at h
  · next hphase =>
    cases h
    exact .inl ⟨_, rfl, .inl ⟨rfl, hphase, rfl⟩⟩
  · next hphase =>
    cases h
    exact .inl ⟨_, rfl, .inr ⟨_, _, _, rfl, hphase, rfl⟩⟩
  · next hphase =>
    obtain ⟨hlock, rfl⟩ := hstmt h
    exact .inr (.inl ⟨_, hlock, rfl, .inl ⟨_, _, _, rfl, hphase, rfl⟩⟩)
  · next hphase =>
    cases h
    exact .inr (.inr (.inl ⟨_, _, rfl, hphase, rfl⟩))
  · next hphase =>
    obtain ⟨hlock, rfl⟩ := hstmt h
    exact .inr (.inl ⟨_, hlock, rfl, .inr ⟨_, hphase, .inl ⟨_, _, _, rfl, rfl⟩⟩⟩)
  · next hphase =>
    obtain ⟨hlock, rfl⟩ := hstmt h
    exact .inr (.inl ⟨_, hlock, rfl, .inr ⟨_, hphase, .inr (.inl ⟨_, _, rfl, rfl⟩)⟩⟩)
  · next hphase =>
    obtain ⟨hlock, rfl⟩ := hstmt h
    exact .inr (.inl ⟨_, hlock, rfl, .inr ⟨_, hphase, .inr (.inr ⟨rfl, rfl⟩)⟩⟩)
  · next hphase =>
    cases h
    exact .inr (.inr (.inr (.inl ⟨rfl, hphase, rfl⟩)))
  · cases h
    exact .inr (.inr (.inr (.inr ⟨rfl, rfl⟩)))
  · cases h

/-! ### Without one transaction -/

variable {checks : TotpChecks} {s s' : TotpServer} {event : TotpEvent} {tx : ℕ}

/-- The server as it is to everyone else while the transaction is open. -/
def without (tx : ℕ) (s : TotpServer) : TotpServer :=
  { s with row := s.row.drop tx }.withPhase tx .idle

@[simp] theorem stored_without : (s.without tx).row.committed = s.row.committed :=
  LockedRow.committed_drop

theorem without_withPhase_self (phase : TotpPhase) :
    (s.withPhase tx phase).without tx = s.without tx := by
  simp [without, withPhase]

variable {other : ℕ}

theorem without_withPhase (h : other ≠ tx) (phase : TotpPhase) :
    (s.withPhase other phase).without tx = (s.without tx).withPhase other phase := by
  simp only [without, withPhase, TotpServer.mk.injEq, true_and, and_true]
  exact (update_comm h.symm _ _ _).symm

theorem without_perform_self (h : s.row.writable tx = true) (effect : TotpEffect) :
    (s.perform tx effect).without tx = s.without tx := by
  cases effect with
  | flush version phase =>
    rw [perform, without_withPhase_self, without, without, LockedRow.drop_write_self h]
  | refuse => exact without_withPhase_self _

theorem without_perform (h : other ≠ tx) (effect : TotpEffect) :
    (s.perform other effect).without tx = (s.without tx).perform other effect := by
  cases effect with
  | flush version phase =>
    rw [perform, without_withPhase h, without, LockedRow.drop_write h]
    rfl
  | refuse => exact without_withPhase h _

theorem without_conclude (h : other ≠ tx) (row : LockedRow ℕ (Option TotpCredential))
    (accepted : List TotpAcceptance) :
    (s.conclude other row accepted).without tx =
      (s.without tx).conclude other (row.drop tx) accepted := by
  rw [conclude, without_withPhase h]
  rfl

theorem step_without (h : event.tx ≠ tx) (hstep : step checks s event = some s') :
    step checks (s.without tx) event = some (s'.without tx) := by
  have hphase : (s.without tx).phase event.tx = s.phase event.tx := update_of_ne h _ _
  have hcur : (s.without tx).row.current event.tx = s.row.current event.tx :=
    LockedRow.current_drop h
  have hstmt : ∀ {effect}, s.row.writable event.tx = true →
      s' = s.perform event.tx (effect (s.row.current event.tx)) →
        (s.without tx).statement event.tx effect = some (s'.without tx) := by
    rintro effect hlock rfl
    have hfree : (s.without tx).row.writable event.tx = true := LockedRow.writable_drop hlock
    rw [statement, if_pos hfree, hcur, without_perform h]
  rcases step_cases hstep with ⟨phase, rfl, hload | hverify⟩ | ⟨effect, hlock, hs', hstmts⟩ |
    ⟨credId, proof, hact, hver, rfl⟩ | ⟨hact, hman, rfl⟩ | ⟨hact, rfl⟩
  · obtain ⟨hact, hidle, rfl⟩ := hload
    simp only [step, hact, hphase, hidle, stored_without, without_withPhase h]
  · obtain ⟨token, now, credential, hact, hloaded, rfl⟩ := hverify
    simp only [step, hact, hphase, hloaded, without_withPhase h]
  · rcases hstmts with ⟨read, changed, proof, hact, hconsuming, rfl⟩ |
      ⟨credential, hloaded, ⟨secret, hashedCodes, credId, hact, rfl⟩ |
        ⟨token, now, hact, rfl⟩ | ⟨hact, rfl⟩⟩
    · simp only [step, hact, hphase, hconsuming]
      exact hstmt hlock hs'
    all_goals
      simp only [step, hact, hphase, hloaded]
      exact hstmt hlock hs'
  · simp only [step, hact, hphase, hver, without_conclude h, LockedRow.drop_commit h]
    rfl
  · simp only [step, hact, hphase, hman, without_conclude h, LockedRow.drop_commit h]
    rfl
  · simp only [step, hact, without_conclude h, LockedRow.drop_drop h]
    rfl

theorem step_without_self (hcomm : event.commits = false)
    (hstep : step checks s event = some s') : s'.without event.tx = s.without event.tx := by
  have hnot : event.action ≠ .accept ∧ event.action ≠ .commit := by
    simpa [TotpEvent.commits] using hcomm
  rcases step_cases hstep with ⟨phase, rfl, -⟩ | ⟨effect, hlock, rfl, -⟩ |
    ⟨credId, proof, hact, -⟩ | ⟨hact, -⟩ | ⟨-, rfl⟩
  · exact without_withPhase_self _
  · exact without_perform_self hlock _
  · exact absurd hact hnot.1
  · exact absurd hact hnot.2
  · rw [conclude, without_withPhase_self, without, without]
    simp only [LockedRow.drop_of_other fun _ _ h => (LockedRow.draft_drop_eq_some.mp h).2]

theorem run_without (history : List TotpEvent)
    (hrolledBack : ∀ event ∈ history, event.tx = tx → event.commits = false)
    (hrun : run (step checks) s history = some s') :
    run (step checks) (s.without tx) (history.filter fun event => event.tx != tx) =
      some (s'.without tx) := by
  induction history generalizing s with
  | nil =>
    cases hrun
    rfl
  | cons event history ih =>
    obtain ⟨next, hnext, hrest⟩ := run_cons_eq_some.mp hrun
    have hlater := ih (fun event hmem => hrolledBack event (mem_cons_of_mem _ hmem)) hrest
    by_cases hmine : event.tx = tx
    · rw [filter_cons_of_neg (by simp [hmine])]
      rw [← hmine] at hlater ⊢
      rwa [step_without_self (hrolledBack event mem_cons_self hmine) hnext] at hlater
    · rw [filter_cons_of_pos (by simp [hmine])]
      exact run_cons_eq_some.mpr ⟨_, step_without hmine hnext, hlater⟩

/-! ### What a token is accepted for -/

variable {read changed : TotpCredential} {token : String} {now : Instant}

theorem verify_backupCode {hash : String}
    (h : read.verify checks token now = some (.backupCode hash, changed)) :
    ∃ codes, read.backupCodes = some codes ∧ hash ∈ codes ∧ checks.codeOf hash = token ∧
      changed = { read with backupCodes := some (codes.erase hash) } := by
  unfold TotpCredential.verify at h
  split at h
  · cases h
  split at h
  · cases h
  split at h
  · split at h
    · cases h
    · next codes hcodes =>
      obtain ⟨found, hfound, hsame⟩ := map_eq_some_iff.mp h
      cases hsame
      have hcode := find?_some hfound
      rw [TotpChecks.verifyHash, beq_iff_eq] at hcode
      exact ⟨codes, hcodes, mem_of_find?_eq_some hfound, hcode, rfl⟩
  · cases h

theorem verify_oneTime
    (h : read.verify checks token now = some (.oneTime, changed)) : changed = read := by
  unfold TotpCredential.verify at h
  split at h
  · cases h
  split at h
  · cases h
    rfl
  · split at h
    · split at h
      · cases h
      · obtain ⟨found, -, hsame⟩ := map_eq_some_iff.mp h
        cases hsame
    · cases h

/-- A hash is on the list of the row that was read, and taken off in memory. -/
def TakenOff (read changed : TotpCredential) (proof : TotpProof) : Prop :=
  ∃ hash codes, proof = .backupCode hash ∧ read.backupCodes = some codes ∧ hash ∈ codes ∧
    changed.backupCodes = some (codes.erase hash)

theorem verifyLoaded_cases (checks : TotpChecks) (credential : Option TotpCredential)
    (token : String) (now : Instant) :
    verifyLoaded checks credential token now = .refused ∨
    (∃ credId, verifyLoaded checks credential token now = .verified credId .oneTime) ∨
    ∃ read changed proof, verifyLoaded checks credential token now =
      .consuming read changed proof ∧ TakenOff read changed proof := by
  unfold verifyLoaded
  cases credential with
  | none => exact .inl rfl
  | some read =>
    dsimp only
    split
    · exact .inl rfl
    cases hverify : read.verify checks token now with
    | none => exact .inl rfl
    | some result =>
      obtain ⟨proof, changed⟩ := result
      cases proof with
      | oneTime =>
        obtain rfl := verify_oneTime hverify
        dsimp only
        rw [if_neg (fun h => h rfl)]
        exact .inr (.inl ⟨_, rfl⟩)
      | backupCode hash =>
        obtain ⟨codes, hcodes, hmem, -, rfl⟩ := verify_backupCode hverify
        have hshorter : some (codes.erase hash) ≠ read.backupCodes := by
          rw [hcodes]
          intro hsame
          have hlen := length_erase_of_mem hmem
          rw [some.inj hsame] at hlen
          have hpos := length_pos_of_mem hmem
          omega
        dsimp only
        rw [if_pos hshorter]
        exact .inr (.inr ⟨_, _, _, rfl, hash, codes, rfl, hcodes, hmem, rfl⟩)

/-! ### The invariant -/

def consumed (s : TotpServer) : List String :=
  s.accepted.filterMap fun acceptance =>
    match acceptance.proof with
    | .oneTime => none
    | .backupCode hash => some hash

/-- The transaction has written the row, if anything. -/
def HasWritten (phase : TotpPhase) : Prop :=
  phase = .managed ∨ ∃ credentialId proof, phase = .verified credentialId proof

/-- No hash is stored and consumed at once.  A verified backup code is stored, and its transaction
holds the lock with a draft that no longer has it. -/
structure CodesKept (known : List String) (s : TotpServer) : Prop where
  nodup : (storedCodes s.row.committed).Nodup
  stored : ∀ hash ∈ storedCodes s.row.committed, hash ∈ known ∧ hash ∉ s.consumed
  consumed_nodup : s.consumed.Nodup
  consumed_known : ∀ hash ∈ s.consumed, hash ∈ known
  writer : ∀ tx version, s.row.draft = some (tx, version) → HasWritten (s.phase tx)
  draft : ∀ tx version, s.row.draft = some (tx, version) → (storedCodes version).Nodup ∧
    ∀ hash ∈ storedCodes version, hash ∈ known ∧ hash ∉ s.consumed
  consuming : ∀ tx read changed proof, s.phase tx = .consuming read changed proof →
    TakenOff read changed proof
  verified : ∀ tx credentialId hash, s.phase tx = .verified credentialId (.backupCode hash) →
    hash ∈ storedCodes s.row.committed ∧
      ∃ version, s.row.draft = some (tx, version) ∧ hash ∉ storedCodes version

variable {known : List String}

theorem CodesKept.mono (h : CodesKept known s) (more : List String) :
    CodesKept (known ++ more) s where
  nodup := h.nodup
  stored := fun hash hmem => ⟨mem_append_left _ (h.stored hash hmem).1, (h.stored hash hmem).2⟩
  consumed_nodup := h.consumed_nodup
  consumed_known := fun hash hmem => mem_append_left _ (h.consumed_known hash hmem)
  writer := h.writer
  draft := fun tx version hdraft => ⟨(h.draft tx version hdraft).1, fun hash hmem =>
    ⟨mem_append_left _ ((h.draft tx version hdraft).2 hash hmem).1,
      ((h.draft tx version hdraft).2 hash hmem).2⟩⟩
  consuming := h.consuming
  verified := h.verified

variable {phase : TotpPhase}

theorem CodesKept.withPhase (h : CodesKept known s) (hbef : ¬ HasWritten (s.phase tx))
    (hconsuming : ∀ read changed proof, phase = .consuming read changed proof →
      TakenOff read changed proof)
    (hver : ∀ credId hash, phase ≠ .verified credId (.backupCode hash)) :
    CodesKept known (s.withPhase tx phase) where
  nodup := h.nodup
  stored := h.stored
  consumed_nodup := h.consumed_nodup
  consumed_known := h.consumed_known
  writer := by
    intro other version hdraft
    have hother : other ≠ tx := by
      rintro rfl
      exact hbef (h.writer other version hdraft)
    show HasWritten (update s.phase tx phase other)
    rw [update_of_ne hother]
    exact h.writer other version hdraft
  draft := h.draft
  consuming := by
    intro other read changed proof hphase
    by_cases hother : other = tx
    · subst hother
      exact hconsuming read changed proof (by simpa [TotpServer.withPhase] using hphase)
    · exact h.consuming other read changed proof
        (by simpa [TotpServer.withPhase, hother] using hphase)
  verified := by
    intro other credId hash hphase
    by_cases hother : other = tx
    · subst hother
      exact absurd (by simpa [TotpServer.withPhase] using hphase) (hver credId hash)
    · exact h.verified other credId hash (by simpa [TotpServer.withPhase, hother] using hphase)

variable {version : Option TotpCredential}

theorem CodesKept.flush (h : CodesKept known s) (hfree : s.row.draft = none)
    (hwrit : HasWritten phase)
    (hnodup : (storedCodes version).Nodup)
    (hcodes : ∀ hash ∈ storedCodes version, hash ∈ known ∧ hash ∉ s.consumed)
    (hver : ∀ credId hash, phase = .verified credId (.backupCode hash) →
      hash ∈ storedCodes s.row.committed ∧ hash ∉ storedCodes version) :
    CodesKept known (s.perform tx (.flush version phase)) where
  nodup := h.nodup
  stored := h.stored
  consumed_nodup := h.consumed_nodup
  consumed_known := h.consumed_known
  writer := by
    intro other held hdraft
    cases hdraft
    show HasWritten (update s.phase tx phase tx)
    rwa [update_self]
  draft := by
    intro other held hdraft
    cases hdraft
    exact ⟨hnodup, hcodes⟩
  consuming := by
    intro other read changed proof hphase
    by_cases hother : other = tx
    · subst hother
      have hsame : phase = .consuming read changed proof := by
        simpa [perform, TotpServer.withPhase] using hphase
      subst hsame
      rcases hwrit with hman | ⟨_, _, hver⟩
      · cases hman
      · cases hver
    · exact h.consuming other read changed proof
        (by simpa [perform, TotpServer.withPhase, hother] using hphase)
  verified := by
    intro other credId hash hphase
    by_cases hother : other = tx
    · subst hother
      obtain ⟨hmem, hgone⟩ := hver credId hash
        (by simpa [perform, TotpServer.withPhase] using hphase)
      exact ⟨hmem, version, rfl, hgone⟩
    · obtain ⟨-, held, hdraft, -⟩ := h.verified other credId hash
        (by simpa [perform, TotpServer.withPhase, hother] using hphase)
      rw [hfree] at hdraft
      cases hdraft

variable {accepted : List TotpAcceptance}

theorem phase_conclude {row : LockedRow ℕ (Option TotpCredential)} :
    (s.conclude tx row accepted).phase other =
      if other = tx then .ended else s.phase other :=
  update_apply _ _ _ _

theorem CodesKept.rollback (h : CodesKept known s) :
    CodesKept known (s.conclude tx (s.row.drop tx) s.accepted) where
  nodup := by
    show (storedCodes (s.row.drop tx).committed).Nodup
    rw [LockedRow.committed_drop]
    exact h.nodup
  stored := by
    show ∀ hash ∈ storedCodes (s.row.drop tx).committed, hash ∈ known ∧ hash ∉ s.consumed
    rw [LockedRow.committed_drop]
    exact h.stored
  consumed_nodup := h.consumed_nodup
  consumed_known := h.consumed_known
  writer := by
    intro other version hdraft
    obtain ⟨hdraft, hother⟩ := LockedRow.draft_drop_eq_some.mp hdraft
    rw [phase_conclude, if_neg hother]
    exact h.writer other version hdraft
  draft := fun other version hdraft =>
    h.draft other version (LockedRow.draft_drop_eq_some.mp hdraft).1
  consuming := by
    intro other read changed proof hphase
    rw [phase_conclude] at hphase
    split at hphase
    · cases hphase
    · exact h.consuming other read changed proof hphase
  verified := by
    intro other credId hash hphase
    rw [phase_conclude] at hphase
    split at hphase
    · cases hphase
    next hother =>
    obtain ⟨hmem, version, hdraft, hgone⟩ := h.verified other credId hash hphase
    refine ⟨?_, version, LockedRow.draft_drop_eq_some.mpr ⟨hdraft, hother⟩, hgone⟩
    show hash ∈ storedCodes (s.row.drop tx).committed
    rwa [LockedRow.committed_drop]

theorem CodesKept.commit (h : CodesKept known s) (newly : Option String)
    (hcons : (s.conclude tx (s.row.commit tx) accepted).consumed = s.consumed ++ newly.toList)
    (hnewly : ∀ hash ∈ newly, ∃ credId, s.phase tx = .verified credId (.backupCode hash)) :
    CodesKept known (s.conclude tx (s.row.commit tx) accepted) := by
  have hphases : ∀ {other phase}, phase ≠ .ended →
      (s.conclude tx (s.row.commit tx) accepted).phase other = phase →
        other ≠ tx ∧ s.phase other = phase := by
    intro other phase hne hphase
    rw [phase_conclude] at hphase
    split at hphase
    · exact absurd hphase.symm hne
    · next hother => exact ⟨hother, hphase⟩
  have hconsuming : ∀ other read changed proof,
      (s.conclude tx (s.row.commit tx) accepted).phase other = .consuming read changed proof →
        TakenOff read changed proof := by
    intro other read changed proof hphase
    exact h.consuming other read changed proof (hphases (by simp) hphase).2
  by_cases hmine : ∃ version, s.row.draft = some (tx, version)
  · obtain ⟨version, hdraft⟩ := hmine
    have hrow : s.row.commit tx = ⟨version, none⟩ := LockedRow.commit_of_draft hdraft
    obtain ⟨hnodup, hcodes⟩ := h.draft tx version hdraft
    -- the hash that is consumed was stored until now, and the draft does not have it
    have hhash : ∀ hash ∈ newly, hash ∈ storedCodes s.row.committed ∧
        hash ∉ storedCodes version := by
      intro hash hmem
      obtain ⟨credId, hphase⟩ := hnewly hash hmem
      obtain ⟨hstor, held, hheld, hgone⟩ := h.verified tx credId hash hphase
      rw [hdraft] at hheld
      cases hheld
      exact ⟨hstor, hgone⟩
    rw [hrow] at hcons hconsuming hphases ⊢
    refine ⟨hnodup, fun hash hmem => ⟨(hcodes hash hmem).1, ?_⟩, ?_, ?_, nofun, nofun, hconsuming, ?_⟩
    · rw [hcons, mem_append, mem_toList]
      rintro (hold | hnew)
      · exact (hcodes hash hmem).2 hold
      · exact (hhash hash hnew).2 hmem
    · rw [hcons, nodup_append]
      refine ⟨h.consumed_nodup, by cases newly <;> simp, ?_⟩
      rintro hash hold other hnew rfl
      exact (h.stored hash (hhash hash (mem_toList.mp hnew)).1).2 hold
    · intro hash hmem
      rw [hcons, mem_append, mem_toList] at hmem
      rcases hmem with hold | hnew
      · exact h.consumed_known hash hold
      · exact (h.stored hash (hhash hash hnew).1).1
    · intro other credId hash hphase
      obtain ⟨hother, hphase⟩ := hphases (by simp) hphase
      obtain ⟨-, held, hheld, -⟩ := h.verified other credId hash hphase
      rw [hdraft, some.injEq, Prod.mk.injEq] at hheld
      exact absurd hheld.1.symm hother
  · have hother : ∀ writer version, s.row.draft = some (writer, version) → writer ≠ tx := by
      rintro writer version hdraft rfl
      exact hmine ⟨version, hdraft⟩
    have hnone : newly = none := by
      cases hnew : newly with
      | none => rfl
      | some hash =>
        obtain ⟨credId, hphase⟩ := hnewly hash hnew
        obtain ⟨-, version, hdraft, -⟩ := h.verified tx credId hash hphase
        exact absurd ⟨version, hdraft⟩ hmine
    rw [hnone, toList_none, append_nil] at hcons
    rw [LockedRow.commit_of_other hother] at hcons hconsuming hphases ⊢
    refine ⟨h.nodup, ?_, ?_, ?_, fun writer version hdraft => ?_, ?_, hconsuming, ?_⟩
    · rw [hcons]
      exact h.stored
    · rw [hcons]
      exact h.consumed_nodup
    · rw [hcons]
      exact h.consumed_known
    · rw [phase_conclude, if_neg (hother writer version hdraft)]
      exact h.writer writer version hdraft
    · rw [hcons]
      exact h.draft
    · intro other credId hash hphase
      exact h.verified other credId hash (hphases (by simp) hphase).2

/-! ### What the statements flush -/

variable {found : Option TotpCredential}

theorem consumeCode_flush {proof : TotpProof} (htaken : TakenOff read changed proof)
    (h : consumeCode found read changed proof = .flush version phase) :
    ∃ hash, phase = .verified read.credentialId (.backupCode hash) ∧ hash ∈ storedCodes found ∧
      storedCodes version = (storedCodes found).erase hash := by
  obtain ⟨hash, codes, rfl, hread, hmem, hchg⟩ := htaken
  cases found with
  | none => cases h
  | some found =>
    simp only [consumeCode] at h
    split at h
    · next hsame =>
      cases h
      have hcodes : storedCodes (some found) = codes := by
        simp [storedCodes, hsame.2, hread]
      refine ⟨hash, rfl, ?_, ?_⟩
      · rwa [hcodes]
      · rw [hcodes]
        simp [storedCodes, hchg]
    · cases h

variable {credential : Option TotpCredential}

theorem setupTotp_flush {secret credId : String} {hashedCodes : List String}
    (h : setupTotp found credential secret hashedCodes credId = .flush version phase) :
    phase = .managed ∧ storedCodes version = hashedCodes := by
  unfold setupTotp at h
  split at h
  · cases h
    exact ⟨rfl, rfl⟩
  · split at h
    · cases h
    · cases h
      exact ⟨rfl, rfl⟩
  · cases h

theorem confirmTotp_flush
    (h : confirmTotp checks found credential token now = .flush version phase) :
    phase = .managed ∧ storedCodes version = storedCodes found := by
  unfold confirmTotp at h
  split at h
  · split at h
    · cases h
    · split at h
      · cases h
        exact ⟨rfl, rfl⟩
      · cases h
  · cases h

theorem removeTotp_flush (h : removeTotp credential = .flush version phase) :
    phase = .managed ∧ storedCodes version = [] := by
  unfold removeTotp at h
  split at h
  · cases h
  · cases h
    exact ⟨rfl, rfl⟩

theorem CodesKept.perform (h : CodesKept known s) (hfree : s.row.draft = none)
    (hbef : ¬ HasWritten (s.phase tx)) {effect : TotpEffect}
    (heff : ∀ version phase, effect = .flush version phase → HasWritten phase ∧
      (storedCodes version).Nodup ∧
      (∀ hash ∈ storedCodes version, hash ∈ known ∧ hash ∉ s.consumed) ∧
      ∀ credId hash, phase = .verified credId (.backupCode hash) →
        hash ∈ storedCodes s.row.committed ∧ hash ∉ storedCodes version) :
    CodesKept known (s.perform tx effect) := by
  cases effect with
  | flush version phase =>
    obtain ⟨hwrit, hnodup, hcodes, hver⟩ := heff version phase rfl
    exact h.flush hfree hwrit hnodup hcodes hver
  | refuse => exact h.withPhase hbef nofun nofun

theorem step_kept (h : CodesKept known s) (hfresh : ∀ hash ∈ event.drawn, hash ∉ known)
    (hdrawn : event.drawn.Nodup) (hstep : step checks s event = some s') :
    CodesKept (known ++ event.drawn) s' := by
  have hwide : CodesKept (known ++ event.drawn) s := h.mono _
  have hlock : ¬ HasWritten (s.phase event.tx) → s.row.writable event.tx = true →
      s.row.draft = none := by
    intro hbef hwritable
    cases hdraft : s.row.draft with
    | none => rfl
    | some draft =>
      obtain ⟨writer, version⟩ := draft
      obtain rfl := LockedRow.writable_iff.mp hwritable writer version hdraft
      exact absurd (h.writer _ version hdraft) hbef
  have hcur : s.row.draft = none → s.row.current event.tx = s.row.committed := by
    intro hfree
    refine LockedRow.current_of_other fun writer version hdraft => ?_
    rw [hfree] at hdraft
    cases hdraft
  rcases step_cases hstep with ⟨phase, rfl, hload | hverify⟩ | ⟨effect, hwritable, rfl, hstmts⟩ |
    ⟨credId, proof, hact, hver, rfl⟩ | ⟨hact, hman, rfl⟩ | ⟨hact, rfl⟩
  · obtain ⟨-, hidle, rfl⟩ := hload
    refine hwide.withPhase ?_ nofun nofun
    rw [hidle]
    simp [HasWritten]
  · obtain ⟨token, now, credential, -, hloaded, rfl⟩ := hverify
    have hbef : ¬ HasWritten (s.phase event.tx) := by
      rw [hloaded]
      simp [HasWritten]
    refine hwide.withPhase hbef ?_ ?_
    · intro read changed proof hphase
      rcases verifyLoaded_cases checks credential token now with
        hcase | ⟨credId, hcase⟩ | ⟨read', changed', proof', hcase, htaken⟩ <;>
        rw [hcase] at hphase <;> cases hphase
      exact htaken
    · intro credId hash hphase
      rcases verifyLoaded_cases checks credential token now with
        hcase | ⟨credId, hcase⟩ | ⟨read', changed', proof', hcase, htaken⟩ <;>
        rw [hcase] at hphase <;> cases hphase
  · have hbef : ¬ HasWritten (s.phase event.tx) := by
      rcases hstmts with ⟨read, changed, proof, -, hphase, -⟩ | ⟨credential, hphase, -⟩ <;>
        simp [hphase, HasWritten]
    have hfree := hlock hbef hwritable
    rw [hcur hfree]
    refine hwide.perform hfree hbef fun version phase hflush => ?_
    -- a list that is known, or drawn just now
    have hman : phase = .managed → (storedCodes version).Nodup ∧ (∀ hash ∈ storedCodes version,
        hash ∈ known ++ event.drawn ∧ hash ∉ s.consumed) → HasWritten phase ∧
        (storedCodes version).Nodup ∧ (∀ hash ∈ storedCodes version,
          hash ∈ known ++ event.drawn ∧ hash ∉ s.consumed) ∧
        ∀ credId hash, phase = .verified credId (.backupCode hash) →
          hash ∈ storedCodes s.row.committed ∧ hash ∉ storedCodes version := by
      rintro rfl ⟨hnodup, hcodes⟩
      exact ⟨.inl rfl, hnodup, hcodes, nofun⟩
    rcases hstmts with ⟨read, changed, proof, -, hphase, rfl⟩ | ⟨credential, -, ⟨secret,
      hashedCodes, credId, hact, rfl⟩ | ⟨token, now, -, rfl⟩ | ⟨-, rfl⟩⟩
    · obtain ⟨hash, rfl, hmem, hcodes⟩ :=
        consumeCode_flush (h.consuming event.tx read changed proof hphase) hflush
      refine ⟨.inr ⟨_, _, rfl⟩, ?_, ?_, ?_⟩
      · rw [hcodes]
        exact h.nodup.erase hash
      · rw [hcodes]
        exact fun other hother => hwide.stored other (mem_of_mem_erase hother)
      · intro other verified hsame
        cases hsame
        rw [hcodes]
        exact ⟨hmem, h.nodup.not_mem_erase⟩
    · obtain ⟨hphase, hcodes⟩ := setupTotp_flush hflush
      have hdraws : event.drawn = hashedCodes := by
        rw [TotpEvent.drawn, hact]
      refine hman hphase ⟨?_, ?_⟩
      · rw [hcodes, ← hdraws]
        exact hdrawn
      · intro hash hmem
        rw [hcodes, ← hdraws] at hmem
        exact ⟨mem_append_right _ hmem, fun hold =>
          hfresh hash hmem (h.consumed_known hash hold)⟩
    · obtain ⟨hphase, hcodes⟩ := confirmTotp_flush hflush
      refine hman hphase ?_
      rw [hcodes]
      exact ⟨h.nodup, hwide.stored⟩
    · obtain ⟨hphase, hcodes⟩ := removeTotp_flush hflush
      refine hman hphase ?_
      rw [hcodes]
      exact ⟨nodup_nil, nofun⟩
  · cases proof with
    | oneTime => exact hwide.commit none (by simp [consumed, conclude, withPhase]) nofun
    | backupCode hash =>
      refine hwide.commit (some hash) (by simp [consumed, conclude, withPhase]) ?_
      rintro other ⟨⟩
      exact ⟨credId, hver⟩
  · exact hwide.commit none (by simp [consumed, conclude, withPhase]) nofun
  · exact hwide.rollback

theorem run_kept (history : List TotpEvent) (h : CodesKept known s)
    (hfresh : (known ++ history.flatMap TotpEvent.drawn).Nodup)
    (hrun : run (step checks) s history = some s') :
    CodesKept (known ++ history.flatMap TotpEvent.drawn) s' := by
  induction history generalizing known s with
  | nil =>
    cases hrun
    rw [flatMap_nil, append_nil]
    exact h
  | cons event history ih =>
    obtain ⟨next, hnext, hrest⟩ := run_cons_eq_some.mp hrun
    rw [flatMap_cons, ← append_assoc] at hfresh ⊢
    have hknown := nodup_append.mp hfresh
    have hevent := nodup_append.mp hknown.1
    refine ih (step_kept h (fun hash hmem hold => ?_) hevent.2.1 hnext) hfresh hrest
    exact hevent.2.2 hash hold hash hmem rfl

theorem codesKept_initial {stored : Option TotpCredential} (h : (storedCodes stored).Nodup) :
    CodesKept (storedCodes stored) (initial stored) where
  nodup := h
  stored := fun _ hmem => ⟨hmem, not_mem_nil⟩
  consumed_nodup := nodup_nil
  consumed_known := nofun
  writer := nofun
  draft := nofun
  consuming := nofun
  verified := nofun

/-! ### Runs -/

/-- In every run the hashes of committed acceptances are different from each other and from those
that are stored, as long as the setups draw new ones.  A transaction that does not commit might as
well not have run. -/
theorem backup_codes_used_once (checks : TotpChecks) (stored : Option TotpCredential)
    (history : List TotpEvent) (s : TotpServer)
    (hrun : run (step checks) (initial stored) history = some s)
    (hfresh : (storedCodes stored ++ history.flatMap TotpEvent.drawn).Nodup) :
    s.consumed.Nodup ∧
    (∀ hash ∈ s.consumed, hash ∉ storedCodes s.row.committed) ∧
    ∀ tx, (∀ event ∈ history, event.tx = tx → event.commits = false) →
      ∃ without, run (step checks) (initial stored) (history.filter fun event => event.tx != tx) =
          some without ∧
        without.row.committed = s.row.committed ∧ without.accepted = s.accepted := by
  have hkept := run_kept history (codesKept_initial (nodup_append.mp hfresh).1) hfresh hrun
  refine ⟨hkept.consumed_nodup, fun hash hmem hstor => (hkept.stored hash hstor).2 hmem, ?_⟩
  intro tx hrolledBack
  have hstart : (initial stored).without tx = initial stored := by
    simp [initial, TotpServer.without, withPhase, LockedRow.drop]
  have hwithout := run_without history hrolledBack hrun
  rw [hstart] at hwithout
  exact ⟨_, hwithout, stored_without, rfl⟩

/-! ### Two requests with one code -/

/-- Codes that are their own hashes, and no one-time password. -/
def plainChecks : TotpChecks := ⟨fun _ _ _ => false, id⟩

def emergencyCodes : TotpCredential := ⟨"totp", "secret", true, some ["red", "blue"]⟩

/-- Two requests read the row and send the same code; the first is committed, and the update of the
second finds another list. -/
def sameCodeTwice : List TotpEvent :=
  [⟨1, .load⟩, ⟨2, .load⟩, ⟨1, .verify "red" 0⟩, ⟨2, .verify "red" 0⟩, ⟨1, .consume⟩, ⟨1, .accept⟩,
    ⟨2, .consume⟩, ⟨2, .rollback⟩]

theorem backup_codes_used_once_red : ∃ s,
    run (step plainChecks) (initial (some emergencyCodes)) sameCodeTwice = some s ∧
      s.consumed = ["red"] ∧ s.consumed.Nodup ∧
      ∀ hash ∈ s.consumed, hash ∉ storedCodes s.row.committed := by
  have hrun : run (step plainChecks) (initial (some emergencyCodes)) sameCodeTwice = some _ :=
    run_eq_some_getD (initial none) (by decide)
  obtain ⟨hnodup, hgone, -⟩ := backup_codes_used_once plainChecks (some emergencyCodes)
    sameCodeTwice _ hrun (by decide)
  exact ⟨_, hrun, by decide, hnodup, hgone⟩

end TotpServer

end Cfms.Identity
