import Cfms.Backup.LegacyIdentities
import Mathlib.Data.List.Find

/-!
# What an identity upgrade preserves

Accounts keep their rows and references follow their accounts, with one id for each username, if
and only if the first row of `users` tells which layout all rows have.
-/

namespace Cfms.Backup

open Lib List Function

variable {uuid4 : ℕ → String} {dumps : JsonRow → ℕ}

/-! ### What an upgrade should do -/

/-- The account that a value of an old column names. -/
def identityOf (ids : String → Option String) : Json → Option String
  | .string username => ids username
  | _ => none

/-- The account of a row of `users`. -/
def accountId (ids : String → Option String) (row : JsonRow) : Option String :=
  identityOf ids (row.get "username")

/-- A row with the ids in place of the usernames; null for an unknown username. -/
def replacedBy (ids : String → Option String) (references : List (String × String))
    (row : JsonRow) : JsonRow := fun field =>
  match references.find? fun r => r.2 = field ∧ (row r.1).isSome with
  | some r => some (idOrNull (identityOf ids (row.get r.1)))
  | none => if field ∈ references.map Prod.fst then none else row field

/-- A row of a table other than `users`; `none` for a user access entry of an unknown user. -/
def convertedRow (ids : String → Option String) (name : String) (row : JsonRow) : Option JsonRow :=
  match name == "object_access_entries", row.get "entity_type" with
  | true, .string "user" =>
    (identityOf ids (row.get "entity_identifier")).map fun userId =>
      row.set "entity_identifier" (.string userId)
  | _, _ => some (replacedBy ids (usernameReferences name) row)

/-- A column that may not be null names an account. -/
def ReferencesKnown (ids : String → Option String) (name : String) (row : JsonRow) : Prop :=
  ∀ r ∈ usernameReferences name, columnNullable name r.2 = false →
    ∀ value, row r.1 = some value → (identityOf ids value).isSome = true

def movedRows (ids : String → Option String) (make : String → JsonRow → Option JsonRow)
    (users : List JsonRow) : List JsonRow :=
  users.filterMap fun row => (accountId ids row).bind fun userId => make userId row

/-- The rows that come out of the rows of `users`. -/
def movedTo (ids : String → Option String) (users : List JsonRow) : String → List JsonRow
  | "user_passwords" => movedRows ids passwordRow users
  | "user_totp_credentials" => movedRows ids totpRow users
  | _ => []

/-- The row describes this account, and the other row is its new one. -/
def UserKept (ids : String → Option String) (row row' : JsonRow) : Prop :=
  ∃ username userId, row "username" = some (.string username) ∧ ids username = some userId ∧
    row' = (row.without inlineFields).set "id" (.string userId)

structure IdentitiesPreserved (ids : String → Option String) (manifest upgraded : Manifest) :
    Prop where
  injective : ∀ {a b userId : String}, ids a = some userId → ids b = some userId → a = b
  users : List.Forall₂ (UserKept ids) (manifest.rowsOf "users") (upgraded.rowsOf "users")
  distinct : (manifest.rowsOf "users").Pairwise fun row row' => row "username" ≠ row' "username"
  accounts : ∀ username, (ids username).isSome = true →
    ∃ row ∈ manifest.rowsOf "users", row "username" = some (.string username)
  rows : ∀ name ≠ "users", upgraded.rowsOf name =
    (manifest.rowsOf name).filterMap (convertedRow ids name) ++
      movedTo ids (manifest.rowsOf "users") name
  known : ∀ name, ∀ row ∈ manifest.rowsOf name, ReferencesKnown ids name row
  unmixed : (∃ row ∈ manifest.rowsOf "users", ∃ field ∈ inlineFields, (row field).isSome = true) →
    ∀ name ∈ credentialTables, manifest.table? name = none
  counts : ∀ table ∈ upgraded.tables, (table.name = "users" ∨ isReferencing table.name = true) →
    table.rows = table.objects.length
  others : ∀ table ∈ manifest.tables, table.name ≠ "users" → isReferencing table.name = false →
    table ∈ upgraded.tables

variable (manifest : Manifest)

/-- An archive from before accounts had ids. -/
def Manifest.IsLegacy : Prop :=
  ∃ users, manifest.table? "users" = some users ∧ hasIds users users.objects.head? = false

/-- The first row of `users` holds a password hash, or no row holds credentials. -/
def Manifest.FirstRowDecides : Prop :=
  (∃ first, (manifest.rowsOf "users").head? = some first ∧ (first "pass_hash").isSome = true) ∨
    ∀ row ∈ manifest.rowsOf "users", ∀ field ∈ inlineFields, row field = none

/-! ### Written rows -/

@[simp] theorem Output.name_table (output : Output) (name : String) :
    (output.table name).name = name := rfl

@[simp] theorem Output.objects_table (output : Output) (name : String) :
    (output.table name).objects = output.objects := rfl

theorem Output.objects_write (output : Output) (row : JsonRow) :
    (output.write dumps row).objects = output.objects ++ [row] := by
  simp only [Output.objects, Output.write, filterMap_append]
  rfl

theorem Output.objects_writeIf (output : Output) (row : Option JsonRow) :
    (output.writeIf dumps row).objects = output.objects ++ row.toList := by
  cases row with
  | none => exact (append_nil _).symm
  | some row => exact output.objects_write row

/-- The count is the number of rows. -/
def Output.Counted (output : Output) : Prop := output.count = output.objects.length

variable {output : Output}

theorem Output.Counted.write (h : output.Counted) (row : JsonRow) :
    (output.write dumps row).Counted := by
  rw [Output.Counted, Output.objects_write, length_append, ← h]
  rfl

theorem Output.Counted.writeIf (h : output.Counted) (row : Option JsonRow) :
    (output.writeIf dumps row).Counted := by
  cases row with
  | none => exact h
  | some row => exact h.write row

/-! ### Accounts -/

section

variable {ids : String → Option String} {username userId : String} {row : JsonRow}

/-- A new user name leaves the accounts of other rows. -/
theorem accountId_update (hfresh : ids username = none) (h : (accountId ids row).isSome = true) :
    accountId (Function.update ids username (some userId)) row = accountId ids row := by
  rw [accountId] at h ⊢
  rw [accountId]
  cases hvalue : row.get "username" with
  | string other =>
    rw [hvalue] at h
    have hne : other ≠ username := by
      rintro rfl
      simp [identityOf, hfresh] at h
    exact update_of_ne hne ..
  | _ => rfl

variable {rows : List JsonRow}

theorem movedRows_update (hfresh : ids username = none)
    (h : ∀ row ∈ rows, (accountId ids row).isSome = true)
    (make : String → JsonRow → Option JsonRow) :
    movedRows (Function.update ids username (some userId)) make rows = movedRows ids make rows := by
  apply filterMap_congr
  intro row hrow
  rw [accountId_update hfresh (h row hrow)]

/-- The rows of `users` that the loop has gone through, and where it stands. -/
structure UsersUpgraded (uuid4 : ℕ → String) (inlineCredentials : Bool) (rows : List JsonRow)
    (state : UsersUpgrade) : Prop where
  named : ∀ row ∈ rows, (accountId state.identities row).isSome = true
  accounts : ∀ username, (state.identities username).isSome = true →
    ∃ row ∈ rows, row "username" = some (.string username)
  drawn : ∀ {username userId : String}, state.identities username = some userId →
    ∃ n < rows.length, userId = uuid4 n
  injective : ∀ {a b userId : String}, state.identities a = some userId →
    state.identities b = some userId → a = b
  distinct : rows.Pairwise fun row row' => row "username" ≠ row' "username"
  withoutId : ∀ row ∈ rows, row "id" = none
  users : state.users.objects =
    movedRows state.identities (fun userId row => some (userRow inlineCredentials userId row)) rows
  passwords : state.userPasswords.objects =
    if inlineCredentials then movedRows state.identities passwordRow rows else []
  totp : state.userTotpCredentials.objects =
    if inlineCredentials then movedRows state.identities totpRow rows else []
  draws : state.users.count = rows.length
  usersCounted : state.users.Counted
  passwordsCounted : state.userPasswords.Counted
  totpCounted : state.userTotpCredentials.Counted

variable {inlineCreds : Bool} {state state' : UsersUpgrade}

/-- An upgraded row has a user name that is new, and gets an id. -/
theorem upgradeUser_cases (h : upgradeUser uuid4 dumps inlineCreds state row = .ok state') :
    ∃ username, row "username" = some (.string username) ∧ state.identities username = none ∧
      row "id" = none ∧
      state' =
        { identities :=
            update state.identities username (some (uuid4 state.users.count))
          users :=
            state.users.write dumps (userRow inlineCreds (uuid4 state.users.count) row)
          userPasswords :=
            if inlineCreds then
              state.userPasswords.writeIf dumps (passwordRow (uuid4 state.users.count) row)
            else state.userPasswords
          userTotpCredentials :=
            if inlineCreds then
              state.userTotpCredentials.writeIf dumps (totpRow (uuid4 state.users.count) row)
            else state.userTotpCredentials } := by
  rw [upgradeUser] at h
  split at h
  next username huser =>
    split at h
    · cases h
    next hguard =>
      simp only [Bool.or_eq_true, not_or, Bool.not_eq_true, Option.isSome_eq_false_iff,
        Option.isNone_iff_eq_none] at hguard
      cases h
      exact ⟨username, huser, hguard.1, hguard.2, rfl⟩
  · cases h

theorem movedRows_snoc (hfresh : ids username = none)
    (huser : row "username" = some (.string username))
    (h : ∀ row ∈ rows, (accountId ids row).isSome = true)
    (make : String → JsonRow → Option JsonRow) :
    movedRows (Function.update ids username (some userId)) make (rows ++ [row]) =
      movedRows ids make rows ++ (make userId row).toList := by
  have hid : accountId (update ids username (some userId)) row = some userId := by
    simp [accountId, JsonRow.get, JsonRow.getD, huser, identityOf]
  rw [movedRows, filterMap_append, ← movedRows, movedRows_update hfresh h]
  congr 1
  rw [filterMap_cons, hid, Option.bind_some]
  cases make userId row <;> rfl

/-- One row of `users`. -/
theorem UsersUpgraded.step (huuid4 : Function.Injective uuid4)
    (hrows : UsersUpgraded uuid4 inlineCreds rows state)
    (h : upgradeUser uuid4 dumps inlineCreds state row = .ok state') :
    UsersUpgraded uuid4 inlineCreds (rows ++ [row]) state' := by
  obtain ⟨username, huser, hfresh, hid, rfl⟩ := upgradeUser_cases h
  have hlen : (rows ++ [row]).length = rows.length + 1 := length_append ..
  -- The new id differs from the ids drawn before.
  have hnew : ∀ other, state.identities other ≠ some (uuid4 state.users.count) := by
    intro other hother
    obtain ⟨n, hn, heq⟩ := hrows.drawn hother
    have hcount := huuid4 heq
    rw [hrows.draws] at hcount
    omega
  constructor
  case named =>
    intro other hother
    rcases mem_append.mp hother with hold | hnew
    · rw [accountId_update hfresh (hrows.named other hold)]
      exact hrows.named other hold
    · rw [mem_singleton.mp hnew]
      simp [accountId, JsonRow.get, JsonRow.getD, huser, identityOf]
  case accounts =>
    intro other hother
    dsimp only at hother
    by_cases heq : other = username
    · exact ⟨row, by simp, heq ▸ huser⟩
    rw [update_of_ne heq] at hother
    obtain ⟨row', hmem, hrow'⟩ := hrows.accounts other hother
    exact ⟨row', mem_append_left _ hmem, hrow'⟩
  case drawn =>
    intro other userId hother
    dsimp only at hother
    by_cases heq : other = username
    · subst heq
      rw [update_self] at hother
      exact ⟨rows.length, by omega, hrows.draws ▸ (Option.some.inj hother).symm⟩
    · rw [update_of_ne heq] at hother
      obtain ⟨n, hn, hdrawn⟩ := hrows.drawn hother
      exact ⟨n, by omega, hdrawn⟩
  case injective =>
    intro a b userId ha hb
    dsimp only at ha hb
    by_cases hau : a = username <;> by_cases hbu : b = username
    · rw [hau, hbu]
    · rw [hau, update_self] at ha
      rw [update_of_ne hbu, ← ha] at hb
      exact absurd hb (hnew b)
    · rw [hbu, update_self] at hb
      rw [update_of_ne hau, ← hb] at ha
      exact absurd ha (hnew a)
    · rw [update_of_ne hau] at ha
      rw [update_of_ne hbu] at hb
      exact hrows.injective ha hb
  case distinct =>
    refine pairwise_append.mpr ⟨hrows.distinct, pairwise_singleton .., ?_⟩
    intro row' hrow' last hlast heq
    rw [mem_singleton.mp hlast, huser] at heq
    have hnamed := hrows.named row' hrow'
    simp [accountId, JsonRow.get, JsonRow.getD, heq, identityOf, hfresh] at hnamed
  case withoutId =>
    intro other hother
    rcases mem_append.mp hother with hold | hnew
    · exact hrows.withoutId other hold
    · rw [mem_singleton.mp hnew, hid]
  case users =>
    rw [movedRows_snoc hfresh huser hrows.named, Output.objects_write, hrows.users]
    rfl
  case passwords =>
    cases inlineCreds with
    | true =>
      show (Output.writeIf ..).objects = movedRows _ _ _
      rw [movedRows_snoc hfresh huser hrows.named, Output.objects_writeIf, hrows.passwords,
        if_pos rfl]
    | false => exact hrows.passwords
  case totp =>
    cases inlineCreds with
    | true =>
      show (Output.writeIf ..).objects = movedRows _ _ _
      rw [movedRows_snoc hfresh huser hrows.named, Output.objects_writeIf, hrows.totp,
        if_pos rfl]
    | false => exact hrows.totp
  case draws => rw [hlen, ← hrows.draws]; rfl
  case usersCounted => exact hrows.usersCounted.write _
  case passwordsCounted =>
    cases inlineCreds with
    | true => exact hrows.passwordsCounted.writeIf _
    | false => exact hrows.passwordsCounted
  case totpCounted =>
    cases inlineCreds with
    | true => exact hrows.totpCounted.writeIf _
    | false => exact hrows.totpCounted

/-- All rows of `users`, by induction on those that are left. -/
theorem UsersUpgraded.run (huuid4 : Function.Injective uuid4) {done : List JsonRow}
    (hdone : UsersUpgraded uuid4 inlineCreds done state)
    (h : rows.foldlM (upgradeUser uuid4 dumps inlineCreds) state = .ok state') :
    UsersUpgraded uuid4 inlineCreds (done ++ rows) state' := by
  induction rows generalizing done state with
  | nil =>
    cases h
    rwa [append_nil]
  | cons row rows ih =>
    rw [foldlM_cons] at h
    cases hstep : upgradeUser uuid4 dumps inlineCreds state row with
    | error error =>
      rw [hstep] at h
      cases h
    | ok middle =>
      rw [hstep] at h
      have hrun := ih (hdone.step huuid4 hstep) h
      rwa [append_assoc] at hrun

theorem UsersUpgraded.start (inlineCreds : Bool) :
    UsersUpgraded uuid4 inlineCreds [] {} where
  named := nofun
  accounts := nofun
  drawn := nofun
  injective := nofun
  distinct := .nil
  withoutId := nofun
  users := rfl
  passwords := by cases inlineCreds <;> rfl
  totp := by cases inlineCreds <;> rfl
  draws := rfl
  usersCounted := rfl
  passwordsCounted := rfl
  totpCounted := rfl

end

/-! ### References -/

section

variable {ids : String → Option String} {name : String}

/-- No column is read after one of its two names has been written. -/
def Independent (references : List (String × String)) : Prop :=
  references.Pairwise fun r s => s.1 ≠ r.1 ∧ s.1 ≠ r.2 ∧ s.2 ≠ r.2

theorem usernameReferences_independent (name : String) : Independent (usernameReferences name) := by
  unfold Independent usernameReferences
  split <;> decide

variable {value : Json}

theorem lookupIdentity_ok {userId : Option String}
    (h : lookupIdentity ids value = .ok userId) : userId = identityOf ids value := by
  cases value <;> cases h <;> rfl

def replacedReference (ids : String → Option String) (row : JsonRow) (r : String × String) :
    JsonRow :=
  match row r.1 with
  | some value => (row.without [r.1]).set r.2 (idOrNull (identityOf ids value))
  | none => row

variable {row : JsonRow} {r : String × String} {row' : JsonRow}

/-- An accepted reference names a known user, or may be null. -/
theorem upgradeReference_ok (h : upgradeReference ids name row r = .ok row') :
    row' = replacedReference ids row r ∧
      (columnNullable name r.2 = false → ∀ value, row r.1 = some value →
        (identityOf ids value).isSome = true) := by
  obtain ⟨oldName, newName⟩ := r
  rw [upgradeReference] at h
  rw [replacedReference]
  cases hvalue : row oldName with
  | none =>
    rw [hvalue] at h
    cases h
    exact ⟨rfl, nofun⟩
  | some value =>
    simp only [hvalue] at h
    split at h
    · cases h
    next userId hlook =>
      obtain rfl := lookupIdentity_ok hlook
      split at h
      · cases h
      next hknown =>
        cases h
        refine ⟨rfl, ?_⟩
        intro hreq value' hvalue'
        cases hvalue'
        simpa [hreq, Option.isSome_iff_ne_none] using hknown

theorem replacedReference_none (h : row r.1 = none) :
    replacedReference ids row r = row := by
  simp only [replacedReference, h]

theorem replacedReference_some (h : row r.1 = some value) :
    replacedReference ids row r =
      (row.without [r.1]).set r.2 (idOrNull (identityOf ids value)) := by
  simp only [replacedReference, h]

theorem replacedReference_of_ne {field : String}
    (hold : field ≠ r.1) (hnew : field ≠ r.2) : replacedReference ids row r field = row field := by
  cases h : row r.1 with
  | none => rw [replacedReference_none h]
  | some value =>
    rw [replacedReference_some h]
    simp [JsonRow.set, JsonRow.without, hold, hnew]

variable {references : List (String × String)}

/-- References of a table do not touch one another's fields. -/
theorem replacedBy_cons (h : Independent (r :: references)) :
    replacedBy ids (r :: references) row =
      replacedBy ids references (replacedReference ids row r) := by
  obtain ⟨hfirst, hrest⟩ := pairwise_cons.mp h
  -- The columns that the other references read are as they were.
  have hread : ∀ s ∈ references, replacedReference ids row r s.1 = row s.1 := fun s hs =>
    replacedReference_of_ne (hfirst s hs).1 (hfirst s hs).2.1
  funext field
  have hfind : (references.find? fun s => s.2 = field ∧
      (replacedReference ids row r s.1).isSome) =
      references.find? fun s => s.2 = field ∧ (row s.1).isSome :=
    find?_congr fun s hs => by rw [hread s hs]
  rw [replacedBy, replacedBy, hfind, find?_cons]
  by_cases hwrit : r.2 = field ∧ (row r.1).isSome = true
  · -- Only the first reference writes the field.
    obtain ⟨rfl, hsome⟩ := hwrit
    obtain ⟨value, hvalue⟩ := Option.isSome_iff_exists.mp hsome
    have hnone : references.find? (fun s => s.2 = r.2 ∧ (row s.1).isSome) = none := by
      apply find?_eq_none.mpr
      intro s hs
      simp [(hfirst s hs).2.2]
    have hunread : r.2 ∉ references.map Prod.fst := by
      intro hmem
      obtain ⟨s, hs, heq⟩ := mem_map.mp hmem
      exact (hfirst s hs).2.1 heq
    simp only [hnone, hunread]
    rw [replacedReference_some hvalue]
    simp [hvalue, JsonRow.set, JsonRow.get, JsonRow.getD]
  · simp only [hwrit, decide_false]
    cases hother : references.find? fun s => s.2 = field ∧ (row s.1).isSome with
    | some s =>
      have hsame := hread s (mem_of_find?_eq_some hother)
      simp only [JsonRow.get, JsonRow.getD, hsame]
    | none =>
      by_cases hfield : field = r.1
      · subst hfield
        simp only [map_cons, mem_cons, true_or, if_true]
        cases hvalue : row r.1 with
        | none => rw [replacedReference_none hvalue, hvalue, ite_self]
        | some value =>
          have hne : r.1 ≠ r.2 := fun heq => hwrit ⟨heq.symm, by rw [hvalue]; rfl⟩
          rw [replacedReference_some hvalue]
          simp [JsonRow.set, JsonRow.without, hne]
      · simp only [map_cons, mem_cons, hfield, false_or]
        by_cases hnew : field = r.2
        · subst hnew
          cases hvalue : row r.1 with
          | none => rw [replacedReference_none hvalue]
          | some value => exact absurd ⟨rfl, by rw [hvalue]; rfl⟩ hwrit
        · rw [replacedReference_of_ne hfield hnew]

theorem foldlM_upgradeReference (hindep : Independent references)
    (h : references.foldlM (upgradeReference ids name) row = .ok row') :
    row' = replacedBy ids references row ∧
      ∀ r ∈ references, columnNullable name r.2 = false → ∀ value, row r.1 = some value →
        (identityOf ids value).isSome = true := by
  induction references generalizing row with
  | nil =>
    cases h
    exact ⟨rfl, nofun⟩
  | cons r references ih =>
    rw [foldlM_cons] at h
    cases hstep : upgradeReference ids name row r with
    | error error =>
      rw [hstep] at h
      cases h
    | ok middle =>
      rw [hstep] at h
      obtain ⟨hfirst, hrest⟩ := pairwise_cons.mp hindep
      obtain ⟨rfl, hknown⟩ := upgradeReference_ok hstep
      obtain ⟨hrow', hothers⟩ := ih hrest h
      refine ⟨hrow'.trans (replacedBy_cons hindep).symm, ?_⟩
      rintro s (_ | ⟨_, hs⟩) hreq value hvalue
      · exact hknown hreq value hvalue
      · apply hothers s hs hreq value
        rw [replacedReference_of_ne (hfirst s hs).1 (hfirst s hs).2.1, hvalue]

def IsUserEntry (name : String) (row : JsonRow) : Prop :=
  name = "object_access_entries" ∧ row.get "entity_type" = .string "user"

variable {identities : String → Option String}

/-- An entry about a user gets the user's id, or goes with the user. -/
theorem upgradeEntry_user (h : IsUserEntry name row) :
    upgradeEntry identities name row =
      match lookupIdentity identities (row.get "entity_identifier") with
      | .error error => .error error
      | .ok userId => .ok (userId.map fun userId => row.set "entity_identifier" (.string userId)) := by
  rw [upgradeEntry, h.1, h.2]
  rfl

theorem upgradeEntry_other
    (h : ¬ IsUserEntry name row) : upgradeEntry identities name row = .ok (some row) := by
  rw [upgradeEntry]
  split
  next hname htype => exact absurd ⟨beq_iff_eq.mp hname, htype⟩ h
  next => rfl

theorem convertedRow_user (h : IsUserEntry name row) :
    convertedRow ids name row = (identityOf ids (row.get "entity_identifier")).map fun userId =>
      row.set "entity_identifier" (.string userId) := by
  rw [convertedRow, h.1, h.2]
  rfl

theorem convertedRow_other (h : ¬ IsUserEntry name row) :
    convertedRow ids name row = some (replacedBy ids (usernameReferences name) row) := by
  rw [convertedRow]
  split
  next hname htype => exact absurd ⟨beq_iff_eq.mp hname, htype⟩ h
  next => rfl

variable {output output' : Output}

/-- An upgraded row is the converted one. -/
theorem upgradeRow_ok (h : upgradeRow dumps ids name output row = .ok output') :
    output' = output.writeIf dumps (convertedRow ids name row) ∧ ReferencesKnown ids name row := by
  rw [upgradeRow] at h
  split at h
  · cases h
  next replaced hrepl =>
    obtain ⟨rfl, hknown⟩ := foldlM_upgradeReference (usernameReferences_independent name) hrepl
    split at h
    · cases h
    next converted hconv =>
      cases h
      refine ⟨congrArg _ ?_, hknown⟩
      by_cases hentry : IsUserEntry name row
      · have hsame : replacedBy ids (usernameReferences name) row = row := by
          rw [hentry.1]
          rfl
        rw [hsame, upgradeEntry_user hentry] at hconv
        rw [convertedRow_user hentry]
        split at hconv
        · cases hconv
        next userId hlook =>
          cases hconv
          rw [lookupIdentity_ok hlook]
      · have hreplacedEntry : ¬ IsUserEntry name (replacedBy ids (usernameReferences name) row) := by
          rintro ⟨rfl, htype⟩
          exact hentry ⟨rfl, htype⟩
        rw [upgradeEntry_other hreplacedEntry] at hconv
        cases hconv
        rw [convertedRow_other hentry]

theorem foldlM_upgradeRow {rows : List JsonRow}
    (h : rows.foldlM (upgradeRow dumps ids name) output = .ok output') (hcounted : output.Counted) :
    output'.objects = output.objects ++ rows.filterMap (convertedRow ids name) ∧
      (∀ row ∈ rows, ReferencesKnown ids name row) ∧ output'.Counted := by
  induction rows generalizing output with
  | nil =>
    cases h
    exact ⟨(append_nil _).symm, nofun, hcounted⟩
  | cons row rows ih =>
    rw [foldlM_cons] at h
    cases hstep : upgradeRow dumps ids name output row with
    | error error =>
      rw [hstep] at h
      cases h
    | ok middle =>
      rw [hstep] at h
      obtain ⟨rfl, hknown⟩ := upgradeRow_ok hstep
      obtain ⟨hobjs, hrest, hcounted'⟩ := ih h (hcounted.writeIf _)
      refine ⟨?_, ?_, hcounted'⟩
      · rw [hobjs, Output.objects_writeIf, append_assoc, filterMap_cons]
        cases convertedRow ids name row <;> rfl
      · rintro other (_ | ⟨_, hother⟩)
        · exact hknown
        · exact hrest other hother

theorem usernameReferences_of_not_referencing (h : isReferencing name = false) :
    usernameReferences name = [] ∧ name ≠ "object_access_entries" := by
  rw [isReferencing, Bool.or_eq_false_iff] at h
  exact ⟨by simpa using h.1, by simpa using h.2⟩

theorem convertedRow_of_not_referencing (h : isReferencing name = false) (row : JsonRow) :
    convertedRow ids name row = some row := by
  obtain ⟨hreferences, hname⟩ := usernameReferences_of_not_referencing h
  rw [convertedRow, beq_eq_false_iff_ne.mpr hname, hreferences]
  rfl

/-- A table is upgraded row by row, or kept as it is. -/
theorem upgradeTable_cases {table table' : TablePayload}
    (h : upgradeTable dumps ids table = .ok table') :
    table'.objects = table.objects.filterMap (convertedRow ids table.name) ∧
      (∀ row ∈ table.objects, ReferencesKnown ids table.name row) ∧
      (isReferencing table.name = true → table'.rows = table'.objects.length) ∧
      (isReferencing table.name = false → table' = table) := by
  rw [upgradeTable] at h
  cases hrefs : isReferencing table.name with
  | true =>
    rw [hrefs, if_pos rfl] at h
    split at h
    · cases h
    next output houtput =>
      cases h
      obtain ⟨rows, hyields, hfold⟩ := RowStream.yields_of_forEach houtput
      obtain ⟨rfl, -⟩ := objects_of_yields hyields
      obtain ⟨hobjs, hknown, hcounted⟩ := foldlM_upgradeRow hfold rfl
      exact ⟨hobjs, hknown, fun _ => hcounted, fun h => absurd h.symm Bool.false_ne_true⟩
  | false =>
    rw [hrefs] at h
    cases h
    refine ⟨?_, ?_, fun h => absurd h Bool.false_ne_true, fun _ => rfl⟩
    · rw [filterMap_congr fun row _ => convertedRow_of_not_referencing hrefs row,
        filterMap_some]
    · intro row _ r hr
      rw [(usernameReferences_of_not_referencing hrefs).1] at hr
      cases hr

theorem replacedBy_of_absent
    (h : ∀ r ∈ references, row r.1 = none) : replacedBy ids references row = row := by
  funext field
  have hnone : references.find? (fun r => r.2 = field ∧ (row r.1).isSome) = none := by
    apply find?_eq_none.mpr
    intro r hr
    simp [h r hr]
  rw [replacedBy, hnone]
  dsimp only
  split
  next hmem =>
    obtain ⟨r, hr, rfl⟩ := mem_map.mp hmem
    exact (h r hr).symm
  next => rfl

theorem convertedRow_moved {users : List JsonRow} (h : row ∈ movedTo ids users name) :
    convertedRow ids name row = some row := by
  unfold movedTo at h
  split at h
  · obtain ⟨user, -, hmake⟩ := mem_filterMap.mp h
    obtain ⟨userId, -, hrow⟩ := Option.bind_eq_some_iff.mp hmake
    rw [passwordRow] at hrow
    split at hrow
    · cases hrow
    · cases hrow
      exact congrArg some (replacedBy_of_absent fun r hr => by rw [mem_singleton.mp hr]; rfl)
  · obtain ⟨user, -, hmake⟩ := mem_filterMap.mp h
    obtain ⟨userId, -, hrow⟩ := Option.bind_eq_some_iff.mp hmake
    rw [totpRow] at hrow
    split at hrow
    · cases hrow
    · cases hrow
      exact congrArg some (replacedBy_of_absent fun r hr => by rw [mem_singleton.mp hr]; rfl)
  · cases h

end

/-! ### The upgraded archive -/

section

variable {manifest upgraded : Manifest} {users : TablePayload} {state : UsersUpgrade}
  {inlineCreds : Bool}

/-- The parts of an accepted upgrade. -/
theorem upgrade_cases (huuid4 : Function.Injective uuid4) (hleg : manifest.IsLegacy)
    (h : upgradeLegacyIdentityPayload uuid4 dumps manifest = .ok upgraded) :
    ∃ users inlineCreds state, manifest.table? "users" = some users ∧
      inlineCreds = hasInlineCredentials users users.objects.head? ∧
      (inlineCreds = true → ∀ name ∈ credentialTables, manifest.table? name = none) ∧
      UsersUpgraded uuid4 inlineCreds users.objects state ∧
      (state.writeTables inlineCreds manifest).mapM (upgradeTable dumps state.identities)
        (upgradeTable_name dumps) = .ok upgraded := by
  obtain ⟨users, husers, hids⟩ := hleg
  simp only [upgradeLegacyIdentityPayload, husers] at h
  split at h
  · cases h
  next first hfirst =>
    obtain rfl := head_of_next hfirst
    rw [if_neg (by rw [hids]; exact Bool.false_ne_true)] at h
    split at h
    · cases h
    next hunmixed =>
      split at h
      · cases h
      next state hstate =>
        obtain ⟨rows, hyields, hfold⟩ := RowStream.yields_of_forEach hstate
        obtain ⟨rfl, -⟩ := objects_of_yields hyields
        refine ⟨users, _, state, husers, rfl, ?_, UsersUpgraded.run huuid4 (.start _) hfold, h⟩
        intro hinline name hname
        rw [hinline, Bool.true_and, Bool.not_eq_true, any_eq_false] at hunmixed
        simpa using hunmixed name hname

theorem table?_users_writeTables :
    (state.writeTables inlineCreds manifest).table? "users" =
      some (state.users.table "users") := by
  cases inlineCreds <;> simp [UsersUpgrade.writeTables, Manifest.table?_set]

theorem rowsOf_users_writeTables :
    (state.writeTables inlineCreds manifest).rowsOf "users" = state.users.objects := by
  rw [Manifest.rowsOf, table?_users_writeTables]
  rfl

variable {rows : List JsonRow} {name : String}

/-- The tables of the credentials hold the rows that were moved. -/
theorem rowsOf_writeTables
    (hunmixed : inlineCreds = true → ∀ name ∈ credentialTables, manifest.table? name = none)
    (hrows : UsersUpgraded uuid4 inlineCreds rows state)
    (hname : name ≠ "users") :
    (state.writeTables inlineCreds manifest).rowsOf name =
      manifest.rowsOf name ++
        if inlineCreds then movedTo state.identities rows name else [] := by
  have hrowsOf : ∀ {name}, manifest.table? name = none → manifest.rowsOf name = [] := fun hnone => by
    rw [Manifest.rowsOf, hnone]
    rfl
  cases inlineCreds with
  | false => simp [UsersUpgrade.writeTables, Manifest.rowsOf_set, hname]
  | true =>
    have habs := hunmixed rfl
    by_cases hpasswords : name = "user_passwords"
    · subst hpasswords
      have hnone := hrowsOf (habs "user_passwords" (by decide))
      simp [UsersUpgrade.writeTables, Manifest.rowsOf_set, hnone, movedTo, hrows.passwords]
    · by_cases htotp : name = "user_totp_credentials"
      · subst htotp
        have hnone := hrowsOf (habs "user_totp_credentials" (by decide))
        simp [UsersUpgrade.writeTables, Manifest.rowsOf_set, hnone, movedTo, hrows.totp]
      · have hmoved : movedTo state.identities rows name = [] := by
          unfold movedTo
          split
          · exact absurd rfl hpasswords
          · exact absurd rfl htotp
          · rfl
        simp [UsersUpgrade.writeTables, Manifest.rowsOf_set, hname, hpasswords, htotp, hmoved]

theorem table?_writeTables (hname : name ≠ "users") (hcreds : name ∉ credentialTables) :
    (state.writeTables inlineCreds manifest).table? name = manifest.table? name := by
  simp only [credentialTables, mem_cons, not_or] at hcreds
  cases inlineCreds <;>
    simp [UsersUpgrade.writeTables, Manifest.table?_set, hname, hcreds]

variable {ids : String → Option String} {prepared : Manifest}

theorem rowsOf_of_mapM
    (h : prepared.mapM (upgradeTable dumps ids) (upgradeTable_name dumps) = .ok upgraded)
    (name : String) :
    upgraded.rowsOf name = (prepared.rowsOf name).filterMap (convertedRow ids name) ∧
      ∀ row ∈ prepared.rowsOf name, ReferencesKnown ids name row := by
  rw [Manifest.rowsOf, Manifest.rowsOf]
  rcases Manifest.table?_of_mapM h name with ⟨hbef, hafter⟩ | ⟨table, table', hbef, hafter, ht⟩
  · rw [hbef, hafter]
    exact ⟨rfl, forall_mem_nil _⟩
  · obtain ⟨-, rfl⟩ := Manifest.table?_eq_some.mp hbef
    obtain ⟨hobjs, hknown, -⟩ := upgradeTable_cases ht
    rw [hbef, hafter]
    exact ⟨hobjs, hknown⟩

theorem usersNotReferencing : isReferencing "users" = false := by decide

theorem credentialTablesReferencing : ∀ name ∈ credentialTables, isReferencing name = true := by
  decide

theorem rowsOf_users_of_mapM
    (h : prepared.mapM (upgradeTable dumps ids) (upgradeTable_name dumps) = .ok upgraded) :
    upgraded.rowsOf "users" = prepared.rowsOf "users" := by
  rw [(rowsOf_of_mapM h "users").1,
    filterMap_congr fun row _ => convertedRow_of_not_referencing usersNotReferencing row,
    filterMap_some]

variable {row : JsonRow}

theorem accountId_eq_some {userId : String} (h : accountId ids row = some userId) :
    ∃ username, row "username" = some (.string username) ∧ ids username = some userId := by
  rw [accountId, JsonRow.get, JsonRow.getD] at h
  cases hvalue : row "username" with
  | none =>
    rw [hvalue] at h
    cases h
  | some value =>
    rw [hvalue] at h
    cases value with
    | string username => exact ⟨username, rfl, h⟩
    | _ => cases h

theorem forall₂_movedRows {make : String → JsonRow → JsonRow}
    (h : ∀ row ∈ rows, (accountId ids row).isSome = true) :
    List.Forall₂ (fun row row' => ∃ userId, accountId ids row = some userId ∧ row' = make userId row)
      rows (movedRows ids (fun userId row => some (make userId row)) rows) := by
  induction rows with
  | nil => exact .nil
  | cons row rows ih =>
    obtain ⟨userId, hid⟩ := Option.isSome_iff_exists.mp (h row mem_cons_self)
    rw [movedRows, filterMap_cons, hid]
    exact .cons ⟨userId, hid, rfl⟩ (ih fun other hother => h other (mem_cons_of_mem _ hother))

variable {R S : JsonRow → JsonRow → Prop} {rows' : List JsonRow}

theorem forall₂_of_forall_mem
    (h : List.Forall₂ R rows rows') (himp : ∀ row row', row ∈ rows → R row row' → S row row') :
    List.Forall₂ S rows rows' := by
  induction h with
  | nil => exact .nil
  | cons hrow _ ih =>
    exact .cons (himp _ _ mem_cons_self hrow)
      (ih fun row row' hmem => himp row row' (mem_cons_of_mem _ hmem))

theorem exists_of_forall₂ (hR : List.Forall₂ R rows rows') (hS : List.Forall₂ S rows rows') :
    ∀ row ∈ rows, ∃ row', R row row' ∧ S row row' := by
  induction hR with
  | nil => exact nofun
  | cons hrow _ ih =>
    obtain ⟨hrow', hrest⟩ := forall₂_cons.mp hS
    rintro row (_ | ⟨_, hmem⟩)
    · exact ⟨_, hrow, hrow'⟩
    · exact ih hrest row hmem

theorem without_inlineFields (h : ∀ field ∈ inlineFields, row field = none) :
    row.without inlineFields = row := by
  funext field
  rw [JsonRow.without]
  split
  next hfield => exact (h field hfield).symm
  next => rfl

theorem movedTo_of_absent
    (h : ∀ row ∈ rows, ∀ field ∈ inlineFields, row field = none) : movedTo ids rows name = [] := by
  unfold movedTo
  split
  · apply filterMap_eq_nil_iff.mpr
    intro row hrow
    have hnull : row.get "pass_hash" = .null := by
      rw [JsonRow.get, JsonRow.getD, h row hrow "pass_hash" (by decide), Option.getD_none]
    simp [passwordRow, hnull, Json.isNull]
  · apply filterMap_eq_nil_iff.mpr
    intro row hrow
    have hnull : row.get "totp_secret" = .null := by
      rw [JsonRow.get, JsonRow.getD, h row hrow "totp_secret" (by decide), Option.getD_none]
    simp [totpRow, hnull, Json.isNull]
  · rfl

/-- Rows of one layout keep the identities. -/
theorem preserved_of_firstRowDecides (hmanif : manifest.table? "users" = some users)
    (hinline : inlineCreds = hasInlineCredentials users users.objects.head?)
    (hunmixed : inlineCreds = true → ∀ name ∈ credentialTables, manifest.table? name = none)
    (hrows : UsersUpgraded uuid4 inlineCreds users.objects state)
    (h : (state.writeTables inlineCreds manifest).mapM (upgradeTable dumps state.identities)
      (upgradeTable_name dumps) = .ok upgraded)
    (hdec : manifest.FirstRowDecides) :
    IdentitiesPreserved state.identities manifest upgraded := by
  have husers : manifest.rowsOf "users" = users.objects := by rw [Manifest.rowsOf, hmanif]; rfl
  rw [Manifest.FirstRowDecides, husers] at hdec
  -- Either the rows are read as they are, or they hold nothing that could be lost.
  have hlayout : inlineCreds = true ∨
      ∀ row ∈ users.objects, ∀ field ∈ inlineFields, row field = none := by
    refine hdec.imp_left ?_
    rintro ⟨first, hfirst, hpassHash⟩
    rw [hinline, hfirst]
    exact hpassHash
  have hmoved : ∀ name, (if inlineCreds then movedTo state.identities users.objects name
      else []) = movedTo state.identities users.objects name := by
    intro name
    rcases hlayout with hinline' | habs
    · rw [hinline', if_pos rfl]
    · rw [movedTo_of_absent habs, ite_self]
  constructor
  case injective => exact hrows.injective
  case users =>
    rw [husers, rowsOf_users_of_mapM h, rowsOf_users_writeTables, hrows.users]
    apply forall₂_of_forall_mem (forall₂_movedRows hrows.named)
    rintro row row' hrow ⟨userId, hid, rfl⟩
    obtain ⟨username, huser, hid⟩ := accountId_eq_some hid
    refine ⟨username, userId, huser, hid, ?_⟩
    rcases hlayout with rfl | habs
    · rfl
    · rw [userRow, without_inlineFields (habs row hrow), ite_self]
  case distinct => rw [husers]; exact hrows.distinct
  case accounts => rw [husers]; exact hrows.accounts
  case rows =>
    intro name hname
    rw [(rowsOf_of_mapM h name).1, rowsOf_writeTables hunmixed hrows hname, hmoved, husers,
      filterMap_append]
    congr 1
    rw [filterMap_congr fun row hrow => convertedRow_moved hrow, filterMap_some]
  case known =>
    intro name row hrow
    by_cases hname : name = "users"
    · subst hname
      exact forall_mem_nil _
    · apply (rowsOf_of_mapM h name).2
      rw [rowsOf_writeTables hunmixed hrows hname]
      exact mem_append_left _ hrow
  case unmixed =>
    rintro ⟨row, hrow, field, hfield, hsome⟩
    rw [husers] at hrow
    rcases hlayout with hinline' | habs
    · exact hunmixed hinline'
    · rw [habs row hrow field hfield] at hsome
      cases hsome
  case counts =>
    intro table hmem hwrit
    have hafter : upgraded.table? table.name = some table := Manifest.table?_eq_some.mpr ⟨hmem, rfl⟩
    rcases Manifest.table?_of_mapM h table.name with ⟨-, hnone⟩ | ⟨before, after, hbef, hsome, ht⟩
    · rw [hnone] at hafter
      cases hafter
    · rw [hsome] at hafter
      cases hafter
      obtain ⟨-, hname⟩ := Manifest.table?_eq_some.mp hbef
      obtain ⟨-, -, hcount, hsame⟩ := upgradeTable_cases ht
      rcases hwrit with hiname | hrefs
      · rw [hiname] at hname hbef
        rw [hsame (hname ▸ usersNotReferencing)]
        rw [table?_users_writeTables] at hbef
        cases hbef
        exact hrows.usersCounted
      · exact hcount (hname ▸ hrefs)
  case others =>
    intro table hmem hname hrefs
    have hcreds : table.name ∉ credentialTables := fun hmem => by
      rw [credentialTablesReferencing _ hmem] at hrefs
      cases hrefs
    have hbef : (state.writeTables inlineCreds manifest).table? table.name = some table := by
      rw [table?_writeTables hname hcreds]
      exact Manifest.table?_eq_some.mpr ⟨hmem, rfl⟩
    rcases Manifest.table?_of_mapM h table.name with ⟨hnone, -⟩ | ⟨before, after, hsome, hafter, ht⟩
    · rw [hbef] at hnone
      cases hnone
    · rw [hbef] at hsome
      cases hsome
      obtain ⟨-, -, -, hsame⟩ := upgradeTable_cases ht
      rw [hsame hrefs] at hafter
      exact (Manifest.table?_eq_some.mp hafter).1

/-- Kept identities have rows of one layout. -/
theorem firstRowDecides_of_preserved (hmanif : manifest.table? "users" = some users)
    (hinline : inlineCreds = hasInlineCredentials users users.objects.head?)
    (hrows : UsersUpgraded uuid4 inlineCreds users.objects state)
    (h : (state.writeTables inlineCreds manifest).mapM (upgradeTable dumps state.identities)
      (upgradeTable_name dumps) = .ok upgraded) (hpreserved : IdentitiesPreserved ids manifest upgraded) :
    manifest.FirstRowDecides := by
  have husers : manifest.rowsOf "users" = users.objects := by rw [Manifest.rowsOf, hmanif]; rfl
  have hkept := hpreserved.users
  rw [husers, rowsOf_users_of_mapM h, rowsOf_users_writeTables, hrows.users] at hkept
  rw [Manifest.FirstRowDecides, husers]
  cases inlineCreds with
  | true =>
    cases hfirst : users.objects.head? with
    | none =>
      rw [head?_eq_none_iff.mp hfirst]
      exact Or.inr (forall_mem_nil _)
    | some first =>
      rw [hfirst] at hinline
      exact Or.inl ⟨first, rfl, hinline.symm⟩
  | false =>
    refine Or.inr ?_
    intro row hrow field hfield
    obtain ⟨row', ⟨userId, -, hwrit⟩, username, other, -, -, hmoved⟩ :=
      exists_of_forall₂ (forall₂_movedRows hrows.named) hkept row hrow
    have hne : field ≠ "id" := by
      rintro rfl
      exact absurd hfield (by decide)
    have hsame := congrFun (hwrit.symm.trans hmoved) field
    rwa [userRow, if_neg Bool.false_ne_true, JsonRow.set, JsonRow.set, update_of_ne hne,
      update_of_ne hne, JsonRow.without, if_pos hfield] at hsame

end

/-- An archive without ids that the upgrade accepts comes out with the same accounts, credentials
and references if and only if its first account has a password hash or no account holds credentials.
Archives with duplicate usernames, mixed layouts or unknown required usernames are refused. -/
theorem identities_preserved_iff (huuid4 : Function.Injective uuid4) {manifest upgraded : Manifest}
    (hleg : manifest.IsLegacy)
    (hacc : upgradeLegacyIdentityPayload uuid4 dumps manifest = .ok upgraded) :
    (∃ ids, IdentitiesPreserved ids manifest upgraded) ↔ manifest.FirstRowDecides := by
  obtain ⟨users, inlineCreds, state, hmanif, hinline, hunmixed, hrows, h⟩ :=
    upgrade_cases huuid4 hleg hacc
  constructor
  · rintro ⟨ids, hpreserved⟩
    exact firstRowDecides_of_preserved hmanif hinline hrows h hpreserved
  · intro hdec
    exact ⟨_, preserved_of_firstRowDecides hmanif hinline hunmixed hrows h hdec⟩

/-! ### Two archives -/

/-- Ids of growing length. -/
def countedIds (n : ℕ) : String := String.ofList (List.replicate n '0')

theorem countedIds_injective : Function.Injective countedIds := by
  intro m n h
  have hlen := congrArg String.length h
  simpa [countedIds] using hlen

/-- An archive with these accounts, the audit entry of a deleted one, and a row of 64 bytes each. -/
def archiveOf (users : List JsonRow) : Manifest where
  tables :=
    [⟨"users", ["username"], users.length, users.map fun row => ⟨64, .object row⟩⟩,
      ⟨"audit_entries", ["id", "username"], 1,
        [⟨64, .object (.ofFields [("id", .string "history"), ("username", .string "deleted")])⟩]⟩]
  nodup := (by decide : ["users", "audit_entries"].Nodup)

def inlineArchive : Manifest :=
  archiveOf
    [.ofFields [("username", .string "alice"), ("pass_hash", .string "hash"),
      ("passwd_last_modified", .null)],
      .ofFields [("username", .string "bob"), ("pass_hash", .null)]]

theorem inline_identities_preserved :
    ∃ upgraded, upgradeLegacyIdentityPayload countedIds (fun _ => 64) inlineArchive = .ok upgraded ∧
      ((∃ ids, IdentitiesPreserved ids inlineArchive upgraded) ↔ inlineArchive.FirstRowDecides) := by
  cases h : upgradeLegacyIdentityPayload countedIds (fun _ => 64) inlineArchive with
  | error error =>
    have hok : (upgradeLegacyIdentityPayload countedIds (fun _ => 64) inlineArchive).isOk := by
      decide +kernel
    rw [h] at hok
    cases hok
  | ok upgraded =>
    refine ⟨upgraded, rfl, ?_⟩
    apply identities_preserved_iff countedIds_injective ?_ h
    exact ⟨_, rfl, rfl⟩

/-- The first account has no password hash and the second one has. -/
def mixedArchive : Manifest :=
  archiveOf
    [.ofFields [("username", .string "alice")],
      .ofFields [("username", .string "bob"), ("pass_hash", .string "hash")]]

/-- The upgrade accepts the archive and leaves the second password hash in `users`. -/
theorem password_hash_stays_in_users :
    Function.Injective countedIds ∧ mixedArchive.IsLegacy ∧
      ∃ upgraded, upgradeLegacyIdentityPayload countedIds (fun _ => 64) mixedArchive = .ok upgraded ∧
        ¬ ∃ ids, IdentitiesPreserved ids mixedArchive upgraded := by
  have hleg : mixedArchive.IsLegacy := ⟨_, rfl, rfl⟩
  refine ⟨countedIds_injective, hleg, ?_⟩
  cases h : upgradeLegacyIdentityPayload countedIds (fun _ => 64) mixedArchive with
  | error error =>
    have hok : (upgradeLegacyIdentityPayload countedIds (fun _ => 64) mixedArchive).isOk := by
      decide +kernel
    rw [h] at hok
    cases hok
  | ok upgraded =>
    refine ⟨upgraded, rfl, ?_⟩
    rintro ⟨ids, hpreserved⟩
    obtain ⟨users, inlineCreds, state, hmanif, hinline, -, hrows, hmapM⟩ :=
      upgrade_cases countedIds_injective hleg h
    rcases firstRowDecides_of_preserved hmanif hinline hrows hmapM hpreserved with
      ⟨first, hfirst, hpassHash⟩ | habs
    · cases hfirst
      cases hpassHash
    · have hnone := habs _ (mem_cons_of_mem _ mem_cons_self) "pass_hash" (by decide)
      cases hnone

end Cfms.Backup
