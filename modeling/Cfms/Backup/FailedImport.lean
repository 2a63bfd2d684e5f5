import Cfms.Backup.Import

/-!
# A failed import leaves the target as it was

While an import restores, every object whose path is not listed is the one of before, and the listed
paths were free; the committed rows are those of before; and the two files are, until the flag is set.
Every call of the restore keeps this, but for the commit, after which nothing raises.  From there the
handler goes back to the target of before: it removes what is listed, and puts the snapshots back
where the flag is set.
-/

namespace Cfms.Backup

open Lib Lib.Process Lib.Run List Option Function AList

/-! ### The target of before -/

/-- The stores hold what they held. -/
structure LeftAsItWas (w₀ w : World) : Prop where
  objects : ∀ path, w.objects.lookup path = w₀.objects.lookup path
  rows : ∀ table, w.rows table = w₀.rows table
  file : w.file = w₀.file

def BackupTablesEmpty (server : Server) (w : World) : Prop :=
  ∀ table ∈ server.backupTables, w.rows table = []

/-- What holds while the import restores; `included` where it restores the configuration. -/
structure Restoring (w₀ : World) (included : Bool) (w : World) : Prop where
  kept : ∀ path ∉ w.writtenPaths, w.objects.lookup path = w₀.objects.lookup path
  fresh : ∀ path ∈ w.writtenPaths, w₀.objects.lookup path = none
  rows : ∀ table, w.rows table = w₀.rows table
  file : w.finalizationStarted = false → w.file = w₀.file
  config : included = false → w.file .config = w₀.file .config

theorem LeftAsItWas.refl (w : World) : LeftAsItWas w w := ⟨fun _ => rfl, fun _ => rfl, rfl⟩

theorem LeftAsItWas.restoring {w₀ w : World} (h : LeftAsItWas w₀ w) (hpaths : w.writtenPaths = [])
    (included : Bool) : Restoring w₀ included w where
  kept path _ := h.objects path
  fresh path hpath := by
    rw [hpaths] at hpath
    exact absurd hpath not_mem_nil
  rows := h.rows
  file _ := h.file
  config _ := congrFun h.file .config

/-! ### Tables of the target -/

theorem rowsIn_createTable (tables : Table String (List JsonRow)) (name table : String) :
    rowsIn (createTable tables name) table = rowsIn tables table := by
  rw [createTable]
  split
  · rfl
  next hnew =>
  rw [rowsIn, rowsIn]
  by_cases htable : table = name
  · rw [htable, lookup_insert, not_isSome_iff_eq_none.mp hnew]
    rfl
  · rw [lookup_insert_ne htable]

theorem rowsIn_createTables (names : List String) (tables : Table String (List JsonRow))
    (table : String) : rowsIn (names.foldl createTable tables) table = rowsIn tables table := by
  induction names generalizing tables with
  | nil => rfl
  | cons name rest ih =>
    rw [foldl_cons, ih]
    exact rowsIn_createTable tables name table

/-! ### One call -/

section

variable {server : Server} {archive : Archive} {contents : String → Option Bytes} {w₀ w w' : World}
  {included : Bool} {I : World → Prop}

/-- The files are read once the target has been found empty. -/
def allowedOp (server : Server) (w₀ : World) : Op → Prop
  | .file _ _ (.read _) => BackupTablesEmpty server w₀
  | _ => True

def importMachine (server : Server) (contents : String → Option Bytes) (w₀ : World) :
    Machine importSignature ImportFailure World where
  allowed _ op := allowedOp server w₀ op
  answers w op r w' := ∃ a, respond contents w op a = some (r, w')

variable {a : Answer} {op : Op} {r : Except ImportFailure op.Result}

/-- A call raises and changes nothing, or is answered. -/
theorem respond_cases (h : respond contents w op a = some (r, w')) :
    (op.mayRaise = true ∧ w' = w ∧ ∃ err, r = .error err) ∨
      answer contents w op a = some (r, w') := by
  cases a with
  | raises err =>
    simp only [respond] at h
    split at h
    · next hraise =>
      cases h
      exact .inl ⟨hraise, rfl, err, rfl⟩
    · cases h
  | _ => exact .inr h

/-- The rows others see change with a commit only. -/
theorem execute_tables {db db' : TargetDatabase} {op : DatabaseOp} {v : op.Result}
    (h : op.respond db a = some (v, db')) (hcomm : op ≠ .commit) (table : String) :
    rowsIn db'.tables table = rowsIn db.tables table := by
  unfold DatabaseOp.respond at h
  split at h
  case h_5 => exact absurd rfl hcomm
  case h_7 =>
    obtain ⟨tables, -, h⟩ := bind_eq_some_iff.mp h
    obtain ⟨result, -, h⟩ := map_eq_some_iff.mp h
    cases h
    rfl
  all_goals
    cases h
    first
    | rfl
    | exact rowsIn_createTables _ _ _

/-- Calls that keep the target. -/
def Op.isQuiet : Op → Prop
  | .outside _ => True
  | .database op => op ≠ .commit
  | .file _ _ .pathExists | .file _ _ (.read _) => True
  | _ => False

/-- A quiet call changes the open transaction only. -/
theorem answer_quiet (hop : op.isQuiet) (h : answer contents w op a = some (r, w')) :
    ∃ db, w' = { w with database := db } ∧ ∀ table, rowsIn db.tables table = w.rows table := by
  cases op with
  | outside op =>
    obtain ⟨result, -, h⟩ := map_eq_some_iff.mp h
    cases h
    exact ⟨w.database, rfl, fun _ => rfl⟩
  | database op =>
    obtain ⟨result, hres, h⟩ := map_eq_some_iff.mp h
    cases h
    exact ⟨result.2, rfl, fun table => execute_tables hres hop table⟩
  | file cleanUp target op =>
    obtain ⟨result, hres, h⟩ := map_eq_some_iff.mp h
    have hsame : result.2 = w.file target := by
      cases op <;> first | exact hop.elim | (cases a <;> cases hres; rfl)
    rw [hsame, update_eq_self] at h
    cases h
    exact ⟨w.database, rfl, fun _ => rfl⟩
  | storage op | local_ op => exact hop.elim

/-- The condition does not read the open transaction. -/
def IgnoresTransaction (I : World → Prop) : Prop :=
  ∀ w db, (∀ table, rowsIn db.tables table = w.rows table) → I w → I { w with database := db }

theorem ignoresTransaction_leftAsItWas : IgnoresTransaction (LeftAsItWas w₀) := by
  intro w db hrows hw
  exact ⟨hw.objects, fun table => (hrows table).trans (hw.rows table), hw.file⟩

theorem ignoresTransaction_restoring : IgnoresTransaction (Restoring w₀ included) := by
  intro w db hrows hw
  exact ⟨hw.kept, hw.fresh, fun table => (hrows table).trans (hw.rows table), hw.file, hw.config⟩

theorem answers_quiet (hI : IgnoresTransaction I) (op : Op) (hop : op.isQuiet)
    {r : Except ImportFailure op.Result} (h : (importMachine server contents w₀).answers w op r w')
    (hw : I w) : I w' := by
  obtain ⟨a, ha⟩ := h
  rcases respond_cases ha with ⟨-, rfl, -⟩ | ha
  · exact hw
  · obtain ⟨db, rfl, hrows⟩ := answer_quiet hop ha
    exact hI w db hrows hw

theorem keeps_quiet (hI : IgnoresTransaction I) (op : Op) (hop : op.isQuiet)
    (hallow : allowedOp server w₀ op) (hw : I w) :
    wp (importMachine server contents w₀) (call op) (fun _ => I) w := by
  refine ⟨hallow, ?_⟩
  intro r w' h
  exact answers_quiet hI op hop h hw

/-! ### The calls on rows -/

theorem keeps_rowCalls (hI : IgnoresTransaction I) {α : Type} {p : Import α}
    (hp : OnlyCalls Op.isRowCall p) (hw : I w) :
    wp (importMachine server contents w₀) p (fun _ => I) w := by
  refine wp_of_onlyCalls hp ?_ hw
  intro op s hop hs
  cases op with
  | outside op => exact ⟨trivial, fun _ _ h => answers_quiet hI (.outside op) trivial h hs⟩
  | database op =>
    have hcomm : op ≠ .commit := by
      rintro rfl
      exact hop
    exact ⟨trivial, fun _ _ h => answers_quiet hI (.database op) hcomm h hs⟩
  | storage op | file cleanUp target op | local_ op => exact hop.elim

end

section

variable {server : Server} {archive : Archive} {contents : String → Option Bytes} {w₀ w w' : World}
  {included : Bool} {I : World → Prop} {path : String}

/-! ### Storage files -/

theorem keeps_outside (op : OutsideOp) (hw : I w) :
    wp (importMachine server contents w₀) (outside op) (fun _ => I) w := by
  refine ⟨trivial, ?_⟩
  rintro r w' ⟨a, ha⟩
  rcases respond_cases ha with ⟨-, rfl, -⟩ | ha
  · exact hw
  obtain ⟨result, -, h⟩ := map_eq_some_iff.mp ha
  cases h
  exact hw

variable {α : Type}

theorem keeps_compute (result : Except ImportFailure α) (hw : I w) :
    wp (importMachine server contents w₀) (compute result) (fun _ => I) w := hw

variable {p cleanup : Import Unit}

theorem keeps_ensuring (hp : wp (importMachine server contents w₀) p (fun _ => I) w)
    (hcleanup : ∀ s, I s → wp (importMachine server contents w₀) cleanup (fun _ => I) s) :
    wp (importMachine server contents w₀) (ensuring p cleanup) (fun _ => I) w := by
  refine wp_bind_keeps ?_ fun _ s hs => hcleanup s hs
  refine wp_tryCatch_keeps hp ?_
  intro err s hs
  exact wp_bind_keeps (hcleanup s hs) fun _ s' hs' => hs'

theorem wp_local {op : VariableOp} {Q : Except ImportFailure op.Result → World → Prop}
    (h : ∀ v w', op.respond w .returns = some (v, w') → Q (.ok v) w') :
    wp (importMachine server contents w₀) (call (.local_ op)) Q w := by
  refine ⟨trivial, ?_⟩
  rintro r w' ⟨a, ha⟩
  rcases respond_cases ha with ⟨hraise, -⟩ | ha
  · cases hraise
  obtain ⟨⟨v, w''⟩, hres, heq⟩ := map_eq_some_iff.mp ha
  cases heq
  cases a with
  | returns => exact h v w'' hres
  | _ => cases op <;> cases hres

theorem lookup_setObject_ne {objects : Table String Bytes} {other : String} (h : other ≠ path)
    (object : Option Bytes) : (setObject objects path object).lookup other = objects.lookup other := by
  cases object with
  | none => exact lookup_erase_ne h
  | some bytes => exact lookup_insert_ne h

/-- The path is listed. -/
structure Written (w₀ : World) (included : Bool) (path : String) (w : World) : Prop
    extends Restoring w₀ included w where
  mem : path ∈ w.writtenPaths

theorem Written.setObject (hw : Written w₀ included path w) (object : Option Bytes) :
    Written w₀ included path { w with objects := setObject w.objects path object } where
  kept other hother := by
    have hne : other ≠ path := fun heq => hother (heq ▸ hw.mem)
    exact (lookup_setObject_ne hne object).trans (hw.kept other hother)
  fresh := hw.fresh
  rows := hw.rows
  file := hw.file
  config := hw.config
  mem := hw.mem

/-- Calls on an object that is listed. -/
def StorageOp.isWriteTo (path : String) (op : StorageOp) : Prop :=
  (∃ chunk, op = .write path chunk) ∨ op = .close path

/-- A write to a restored file keeps the other objects. -/
theorem keeps_write {op : StorageOp} (hop : op.isWriteTo path) (hw : Written w₀ included path w) :
    wp (importMachine server contents w₀) (storage op) (fun _ => Written w₀ included path) w := by
  refine ⟨trivial, ?_⟩
  rintro r w' ⟨a, ha⟩
  rcases respond_cases ha with ⟨-, rfl, -⟩ | ha
  · exact hw
  obtain ⟨result, hres, h⟩ := map_eq_some_iff.mp ha
  have hobjs : ∃ object, result.2 = Backup.setObject w.objects path object := by
    obtain ⟨chunk, rfl⟩ | rfl := hop
    all_goals
      cases a with
      | object err object => cases err <;> cases hres <;> exact ⟨object, rfl⟩
      | _ => cases hres
  obtain ⟨object, hobj⟩ := hobjs
  cases h
  rw [hobj]
  exact hw.setObject object

variable {entry : FileEntry}

theorem keeps_copyfileobj (hw : Written w₀ included entry.storagePath w) :
    wp (importMachine server contents w₀) (copyfileobj entry)
      (fun _ => Written w₀ included entry.storagePath) w := by
  refine wp_bind_keeps (keeps_outside _ hw) fun bytes s hs => wp_each_keeps ?_ _ hs
  intro chunk s hs
  exact keeps_write (.inl ⟨chunk, rfl⟩) hs

theorem wp_objectExists {Q : Except ImportFailure Bool → World → Prop}
    (hok : Q (.ok (w.objects.lookup path).isSome) w) (herror : ∀ err, Q (.error err) w) :
    wp (importMachine server contents w₀) (storage (.objectExists path)) Q w := by
  refine ⟨trivial, ?_⟩
  rintro r w' ⟨a, ha⟩
  rcases respond_cases ha with ⟨-, rfl, err, rfl⟩ | ha
  · exact herror err
  obtain ⟨result, hres, h⟩ := map_eq_some_iff.mp ha
  cases a with
  | returns =>
    cases hres
    cases h
    exact hok
  | _ => cases hres

theorem wp_fopen {Q : Except ImportFailure Unit → World → Prop}
    (hok : ∀ object, Q (.ok ()) { w with objects := setObject w.objects path object })
    (herror : ∀ err, Q (.error err) w) :
    wp (importMachine server contents w₀) (storage (.fopen path)) Q w := by
  refine ⟨trivial, ?_⟩
  rintro r w' ⟨a, ha⟩
  rcases respond_cases ha with ⟨-, rfl, err, rfl⟩ | ha
  · exact herror err
  obtain ⟨result, hres, h⟩ := map_eq_some_iff.mp ha
  cases a with
  | object err object =>
    cases err with
    | some err => cases hres
    | none =>
      cases hres
      cases h
      exact hok object
  | _ => cases hres

variable (hw : Restoring w₀ included w)

include hw

theorem written_append (hfresh : w₀.objects.lookup path = none)
    (object : Option Bytes) :
    Written w₀ included path
      { w with
        objects := setObject w.objects path object
        writtenPaths := w.writtenPaths ++ [path] } where
  kept other hother := by
    rw [mem_append, not_or, mem_singleton] at hother
    exact (lookup_setObject_ne hother.2 object).trans (hw.kept other hother.1)
  fresh other hother := by
    rcases mem_append.mp hother with hmem | hmem
    · exact hw.fresh other hmem
    · rw [mem_singleton.mp hmem]
      exact hfresh
  rows := hw.rows
  file := hw.file
  config := hw.config
  mem := mem_append_right _ (mem_singleton_self path)

/-- A restored file is recorded before its first byte is written. -/
theorem keeps_writeObject
    (hfresh : w₀.objects.lookup entry.storagePath = none) :
    wp (importMachine server contents w₀) (writeObject entry) (fun _ => Restoring w₀ included) w := by
  refine wp_bind_keeps (keeps_outside _ hw) fun _ s hs => ?_
  refine keeps_ensuring ?_ fun s hs => keeps_outside _ hs
  refine wp_fopen (fun object => ?_) fun err => hs
  -- nothing raises between the two calls, and from then on the path is listed
  refine wp_mono (Q := fun _ => Written w₀ included entry.storagePath) (fun _ _ h => h.toRestoring) ?_
  refine keeps_ensuring ?_ fun s hs => keeps_write (.inr rfl) hs
  refine wp_local ?_
  intro v w' h
  cases h
  exact keeps_copyfileobj (written_append hs hfresh object)

theorem keeps_createObject :
    wp (importMachine server contents w₀) (createObject entry) (fun _ => Restoring w₀ included) w := by
  rw [createObject, wp_bind]
  refine wp_objectExists ?_ fun err => hw
  rw [andThen_ok]
  split
  · exact hw
  next hfree =>
  have hfresh : w₀.objects.lookup entry.storagePath = none := by
    by_cases hmem : entry.storagePath ∈ w.writtenPaths
    · exact hw.fresh _ hmem
    · exact (hw.kept _ hmem).symm.trans (not_isSome_iff_eq_none.mp hfree)
  split
  · exact keeps_writeObject hw hfresh
  · exact wp_bind_keeps (keeps_outside _ hw) fun _ s hs => keeps_writeObject hs hfresh

theorem keeps_restoreFile :
    wp (importMachine server contents w₀) (restoreFile server entry)
      (fun _ => Restoring w₀ included) w := by
  refine wp_bind_keeps (keeps_compute _ hw) fun _ s hs => ?_
  refine wp_bind_keeps (keeps_outside _ hs) fun _ s hs => ?_
  refine wp_bind_keeps (keeps_outside _ hs) fun _ s hs => ?_
  refine wp_bind_keeps (keeps_compute _ hs) fun _ s hs => ?_
  refine wp_bind_keeps ?_ fun _ s hs => keeps_createObject hs
  exact wp_bind_keeps (keeps_outside _ hs) fun _ s hs => keeps_compute _ hs

/-- Restoring the files keeps what was there. -/
theorem keeps_restoreFiles :
    wp (importMachine server contents w₀) (restoreFiles server archive)
      (fun _ => Restoring w₀ included) w := by
  refine wp_bind_keeps (keeps_compute _ hw) fun _ s hs => ?_
  exact wp_each_keeps (fun entry s hs => keeps_restoreFile hs) _ hs

omit hw

/-! ### Configuration file and init marker -/

/-- Calls on the two files; on the configuration only where it is restored. -/
def Op.isFileCall (included : Bool) : Op → Prop
  | .file _ target _ => target = .config → included = true
  | _ => False

/-- The flag is set. -/
structure Finalizing (w₀ : World) (included : Bool) (w : World) : Prop
    extends Restoring w₀ included w where
  started : w.finalizationStarted = true

variable {target : TargetFile}

theorem Finalizing.setFile (hw : Finalizing w₀ included w)
    (htgt : target = .config → included = true) (file : Option Bytes) :
    Finalizing w₀ included { w with file := update w.file target file } where
  kept := hw.kept
  fresh := hw.fresh
  rows := hw.rows
  file hnot := absurd hw.started (by rw [hnot]; decide)
  config hincl := by
    have hne : TargetFile.config ≠ target := by
      intro heq
      rw [htgt heq.symm] at hincl
      cases hincl
    exact (update_of_ne hne _ _).trans (hw.config hincl)
  started := hw.started

theorem keeps_fileCalls (hempty : BackupTablesEmpty server w₀) {p : Import α}
    (hp : OnlyCalls (Op.isFileCall included) p) (hw : Finalizing w₀ included w) :
    wp (importMachine server contents w₀) p (fun _ => Finalizing w₀ included) w := by
  refine wp_of_onlyCalls hp ?_ hw
  intro op s hop hs
  cases op with
  | file cleanUp target op =>
    refine ⟨?_, ?_⟩
    · cases op with
      | read maximum => exact hempty
      | _ => trivial
    · rintro r s' ⟨a, ha⟩
      rcases respond_cases ha with ⟨-, rfl, -⟩ | ha
      · exact hs
      obtain ⟨result, -, h⟩ := map_eq_some_iff.mp ha
      cases h
      exact hs.setFile hop result.2
  | outside op | database op | storage op | local_ op => exact hop.elim

theorem fileCalls_ensuring {P : Op → Prop} (hp : OnlyCalls P p)
    (hcleanup : OnlyCalls P cleanup) : OnlyCalls P (ensuring p cleanup) :=
  (hp.tryCatch fun _ => hcleanup.bind fun _ => onlyCalls_throw).bind fun _ => hcleanup

theorem fileCalls_writeFileAtomically (htgt : target = .config → included = true) (bytes : Bytes) :
    OnlyCalls (Op.isFileCall included) (writeFileAtomically false target bytes) := by
  have hcall : ∀ op, OnlyCalls (Op.isFileCall included) (call (.file false target op)) :=
    fun op => onlyCalls_perform (show Op.isFileCall included (.file false target op) from htgt)
  refine (hcall .makeParent).bind fun _ => (hcall .mkstemp).bind fun _ => ?_
  refine fileCalls_ensuring ?_ (hcall .unlinkTemporary)
  refine (hcall _).bind fun _ => (hcall .pathExists).bind fun pathExists => ?_
  split
  · exact (hcall .copymode).bind fun _ => hcall _
  · exact hcall _

theorem fileCalls_restoreConfigKeys (configuration : Configuration) :
    OnlyCalls (Op.isFileCall true) (restoreConfigKeys server configuration) := by
  have hcall : ∀ op, OnlyCalls (Op.isFileCall true) (call (.file false .config op)) :=
    fun op => onlyCalls_perform (show Op.isFileCall true (.file false .config op) from fun _ => rfl)
  refine (hcall .pathExists).bind fun pathExists => ?_
  refine (show OnlyCalls _ (compute _) from trivial).bind fun _ => ?_
  refine (hcall _).bind fun text => ?_
  split
  · exact onlyCalls_throw
  split
  · exact onlyCalls_throw
  split
  · exact onlyCalls_throw
  · exact fileCalls_writeFileAtomically (fun _ => rfl) _

/-- The target's files are changed only where the rollback restores them. -/
theorem keeps_finalizeTargetFiles (hempty : BackupTablesEmpty server w₀)
    (hw : Restoring w₀ archive.configuration.isSome w) :
    wp (importMachine server contents w₀) (finalizeTargetFiles server archive)
      (fun _ => Restoring w₀ archive.configuration.isSome) w := by
  refine wp_mono (Q := fun _ => Finalizing w₀ archive.configuration.isSome)
    (fun _ _ h => h.toRestoring) ?_
  refine wp_local ?_
  intro v w' h
  cases h
  refine keeps_fileCalls hempty ?_ ⟨⟨hw.kept, hw.fresh, hw.rows, nofun, hw.config⟩, rfl⟩
  have hmarker : ∀ included, OnlyCalls (Op.isFileCall included)
      (writeFileAtomically false .initMarker initMarkerContents) :=
    fun included => fileCalls_writeFileAtomically (show TargetFile.initMarker = .config → _ from nofun) _
  cases archive.configuration with
  | none => exact hmarker _
  | some configuration => exact (fileCalls_restoreConfigKeys configuration).bind fun _ => hmarker _

/-! ### The transaction -/

theorem wp_transaction (hI : IgnoresTransaction I) {body : Import Unit}
    (hbody : ∀ s, I s → wp (importMachine server contents w₀) body (fun _ => I) s) (hw : I w) :
    wp (importMachine server contents w₀) (transaction body) (Ends (fun _ _ => True) I) w := by
  refine wp_bind_then (wp_ends_of_keeps (keeps_quiet hI (.database .beginTransaction) nofun
    trivial hw)) fun _ s hs => ?_
  rw [wp_tryCatch]
  have hcomm : wp (importMachine server contents w₀) (body >>= fun _ => database .commit)
      (Ends (fun _ _ => True) I) s := by
    refine wp_bind_then (wp_ends_of_keeps (hbody s hs)) fun _ s hs => ⟨trivial, ?_⟩
    rintro r s' ⟨a, ha⟩
    cases r with
    | ok v => trivial
    | error err =>
      rcases respond_cases ha with ⟨-, rfl, -⟩ | ha
      · exact hs
      · obtain ⟨result, -, h⟩ := map_eq_some_iff.mp ha
        cases h
  refine wp_mono ?_ hcomm
  intro r s' hr
  cases r with
  | ok v => trivial
  | error err =>
    refine wp_bind_then (wp_ends_of_keeps (keeps_quiet hI (.database .rollback) nofun trivial
      hr)) fun _ s hs => hs

/-- Before its commit a restore has changed no visible row. -/
theorem keeps_restoreDatabase (hempty : BackupTablesEmpty server w₀)
    (hw : Restoring w₀ archive.configuration.isSome w) :
    wp (importMachine server contents w₀) (restoreDatabasePayload server archive)
      (Ends (fun _ _ => True) (Restoring w₀ archive.configuration.isSome)) w := by
  refine wp_bind_then (wp_ends_of_keeps (keeps_compute _ hw)) fun manifest s hs => ?_
  refine wp_bind_then (wp_ends_of_keeps (keeps_outside _ hs)) fun _ s hs => ?_
  refine wp_transaction ignoresTransaction_restoring (fun s hs => ?_) hs
  refine wp_bind_keeps (keeps_rowCalls ignoresTransaction_restoring (onlyCalls_widen _) hs) ?_
  intro _ s hs
  exact keeps_finalizeTargetFiles hempty hs

theorem wp_report {phase : Phase} (hphase : phase = .restoreConfig ∨ phase = .completeImport) :
    wp (importMachine server contents w₀) (emitProgress phase) (Ends (fun _ _ => True) I) w := by
  refine ⟨trivial, ?_⟩
  rintro r w' ⟨a, ha⟩
  rcases respond_cases ha with ⟨hraise, -⟩ | ha
  · rcases hphase with rfl | rfl
    · cases hraise
    · cases hraise
  · obtain ⟨result, -, h⟩ := map_eq_some_iff.mp ha
    cases h
    trivial

/-- **The restore commits, or stops with nothing but what it has listed and flagged.** -/
theorem wp_restoreTarget (hempty : BackupTablesEmpty server w₀)
    (hw : Restoring w₀ archive.configuration.isSome w) :
    wp (importMachine server contents w₀) (restoreTarget server archive)
      (Ends (fun _ _ => True) (Restoring w₀ archive.configuration.isSome)) w := by
  refine wp_bind_then (wp_ends_of_keeps (keeps_outside _ hw)) fun _ s hs => ?_
  refine wp_bind_then (wp_ends_of_keeps (keeps_restoreFiles hs)) fun _ s hs => ?_
  refine wp_bind_then (wp_ends_of_keeps (keeps_outside _ hs)) fun _ s hs => ?_
  exact wp_bind_then (keeps_restoreDatabase hempty hs) fun _ s _ => wp_report (.inl rfl)

/-! ### The handler -/

/-- What `_cleanup_restored_files` leaves. -/
def World.withoutWritten (w : World) : World :=
  { w with objects := w.writtenPaths.reverse.foldl (fun objects path => objects.erase path) w.objects }

theorem lookup_foldl_erase (paths : List String) (objects : Table String Bytes) (other : String) :
    (paths.foldl (fun objects path => objects.erase path) objects).lookup other =
      if other ∈ paths then none else objects.lookup other := by
  induction paths generalizing objects with
  | nil => simp
  | cons path rest ih =>
    rw [foldl_cons, ih]
    by_cases hother : other = path
    · subst hother
      rw [lookup_erase, ite_self, if_pos mem_cons_self]
    · rw [lookup_erase_ne hother]
      simp only [mem_cons, hother, false_or]

/-- Without the recorded files the store is as before. -/
theorem lookup_withoutWritten (hw : Restoring w₀ included w) (other : String) :
    w.withoutWritten.objects.lookup other = w₀.objects.lookup other := by
  show (w.writtenPaths.reverse.foldl _ w.objects).lookup other = _
  rw [lookup_foldl_erase]
  split
  · next hmem => exact (hw.fresh other (mem_reverse.mp hmem)).symm
  · next hmem => exact hw.kept other fun h => hmem (mem_reverse.mpr h)

theorem returns_remove (w : World) (path : String) :
    Returns (importMachine server contents w₀) (storage (.remove path)) w
      { w with objects := w.objects.erase path } := by
  refine ⟨trivial, ?_⟩
  rintro r w' ⟨a, ha⟩
  rcases respond_cases ha with ⟨hraise, -⟩ | ha
  · cases hraise
  obtain ⟨result, hres, h⟩ := map_eq_some_iff.mp ha
  cases a with
  | returns =>
    cases hres
    cases h
    exact ⟨⟨(), rfl⟩, rfl⟩
  | _ => cases hres

theorem foldl_erase_objects (paths : List String) (w : World) :
    paths.foldl (fun s path => { s with objects := s.objects.erase path }) w =
      { w with objects := paths.foldl (fun objects path => objects.erase path) w.objects } := by
  induction paths generalizing w with
  | nil => rfl
  | cons path rest ih => exact ih _

/-- The cleanup removes exactly the recorded files. -/
theorem returns_cleanupRestoredFiles :
    Returns (importMachine server contents w₀) cleanupRestoredFiles w w.withoutWritten := by
  refine wp_local ?_
  intro v w' h
  cases h
  have hbody : ∀ path s, Returns (importMachine server contents w₀)
      (tryCatch (storage (.remove path)) fun _ => pure ()) s
      { s with objects := s.objects.erase path } :=
    fun path s => (returns_remove s path).tryCatch
  have heach := Returns.each hbody w.writtenPaths.reverse (s := w)
  rwa [foldl_erase_objects] at heach

theorem returns_cleanUp {op : FileOp} {file : Option Bytes}
    (hallow : allowedOp server w₀ (.file true target op))
    (h : ∀ v f, op.respond (w.file target) .returns = some (v, f) → f = file) :
    Returns (importMachine server contents w₀) (call (.file true target op)) w
      { w with file := update w.file target file } := by
  refine ⟨hallow, ?_⟩
  rintro r w' ⟨a, ha⟩
  rcases respond_cases ha with ⟨hraise, -⟩ | ha
  · cases hraise
  obtain ⟨⟨v, f⟩, hres, heq⟩ := map_eq_some_iff.mp ha
  cases heq
  cases a with
  | returns =>
    rw [h v f hres]
    exact ⟨⟨v, rfl⟩, rfl⟩
  | _ => cases op <;> cases hres

/-- Calls that neither read a file nor change it. -/
def FileOp.isAside : FileOp → Prop
  | .read _ | .replace _ | .unlink => False
  | _ => True

theorem returns_aside (op : FileOp) (hop : op.isAside) :
    Returns (importMachine server contents w₀) (call (.file true target op)) w w := by
  have hsame : ∀ v f, op.respond (w.file target) .returns = some (v, f) → f = w.file target := by
    intro v f h
    cases op <;> first | exact hop.elim | (cases h; rfl)
  have hallow : allowedOp server w₀ (.file true target op) := by
    cases op <;> first | exact hop.elim | trivial
  have hret : Returns (importMachine server contents w₀) (call (.file true target op)) w _ :=
    returns_cleanUp hallow hsame
  rwa [update_eq_self] at hret

theorem returns_ensuring {s t : World} (hp : Returns (importMachine server contents w₀) p w s)
    (hcleanup : Returns (importMachine server contents w₀) cleanup s t) :
    Returns (importMachine server contents w₀) (ensuring p cleanup) w t :=
  hp.tryCatch.bind fun _ => hcleanup

theorem returns_writeFileAtomically (target : TargetFile) (bytes : Bytes) :
    Returns (importMachine server contents w₀) (writeFileAtomically true target bytes) w
      { w with file := update w.file target (some bytes) } := by
  refine (returns_aside .makeParent trivial).bind fun _ =>
    (returns_aside .mkstemp trivial).bind fun _ => ?_
  refine returns_ensuring (s := { w with file := update w.file target (some bytes) }) ?_
    (returns_aside .unlinkTemporary trivial)
  refine (returns_aside (.writeTemporary bytes) trivial).bind fun _ => ?_
  refine (returns_aside .pathExists trivial).bind fun pathExists => ?_
  have hrepl : Returns (importMachine server contents w₀)
      (call (.file true target (.replace bytes))) w
      { w with file := update w.file target (some bytes) } :=
    returns_cleanUp trivial fun v f h => by cases h; rfl
  split
  · exact (returns_aside .copymode trivial).bind fun _ => hrepl
  · exact hrepl

/-- A file is put back to its snapshot. -/
theorem returns_rollBackFile (target : TargetFile) (snap : Option Bytes) :
    Returns (importMachine server contents w₀) (rollBackFile target snap) w
      { w with file := update w.file target snap } := by
  refine Returns.tryCatch ?_
  cases snap with
  | some bytes => exact returns_writeFileAtomically target bytes
  | none => exact returns_cleanUp trivial fun v f h => by cases h; rfl

/-- **The handler goes back to the target of before.** -/
theorem wp_rollBackImport (hw : Restoring w₀ included w) : wp (importMachine server contents w₀)
      (rollBackImport (if included then some (w₀.file .config) else none) (w₀.file .initMarker))
      (fun _ => LeftAsItWas w₀) w := by
  rw [rollBackImport, wp_bind]
  refine wp_mono ?_ returns_cleanupRestoredFiles
  rintro _ _ ⟨⟨a, rfl⟩, rfl⟩
  rw [andThen_ok, wp_bind]
  refine wp_local ?_
  intro v w' h
  cases h
  rw [andThen_ok]
  have hobjs := lookup_withoutWritten hw
  split
  · -- the flag is set: both files come from their snapshots
    cases hincl : included with
    | false =>
      refine wp_mono ?_ (returns_rollBackFile .initMarker (w₀.file .initMarker))
      rintro _ _ ⟨-, rfl⟩
      refine ⟨hobjs, hw.rows, ?_⟩
      funext target
      cases target with
      | config => exact hw.config hincl
      | initMarker => rfl
    | true =>
      have hconfig : Returns (importMachine server contents w₀)
          (rollBackFile .config (w₀.file .config)) w.withoutWritten _ := returns_rollBackFile _ _
      refine wp_mono ?_ (hconfig.bind fun _ => returns_rollBackFile .initMarker _)
      rintro _ _ ⟨-, rfl⟩
      refine ⟨hobjs, hw.rows, ?_⟩
      funext target
      cases target with
      | config | initMarker => rfl
  · next hflag => exact ⟨hobjs, hw.rows, hw.file (Bool.eq_false_iff.mpr hflag)⟩

/-! ### The whole import -/

/-- Nothing is listed. -/
structure Unwritten (w₀ w : World) : Prop extends LeftAsItWas w₀ w where
  paths : w.writtenPaths = []

theorem wp_readFileSnapshot (hempty : BackupTablesEmpty server w₀)
    {maximum : ℕ} (hw : Unwritten w₀ w) :
    wp (importMachine server contents w₀) (readFileSnapshot target maximum)
      (Ends (fun snap s => Unwritten w₀ s ∧ snap = w₀.file target) (Unwritten w₀)) w := by
  refine ⟨hempty, ?_⟩
  rintro r s ⟨a, ha⟩
  rcases respond_cases ha with ⟨-, rfl, err, rfl⟩ | ha
  · exact hw
  obtain ⟨⟨text, f⟩, hres, h⟩ := map_eq_some_iff.mp ha
  cases a with
  | returns =>
    cases hres
    rw [update_eq_self] at h
    cases h
    show wp _ (if ((w.file target).map fun contents => contents.take (maximum + 1)).any _ then _
      else _) _ w
    split
    · exact hw
    next hshort =>
    refine ⟨hw, ?_⟩
    rw [← hw.file]
    cases hfile : w.file target with
    | none => rfl
    | some bytes =>
      rw [hfile] at hshort
      simp only [map_some, any_some, decide_eq_true_eq, length_take] at hshort
      rw [map_some, take_of_length_le (by omega)]
  | _ => cases hres

/-- **A restore that raises leaves the target as it was.** -/
theorem wp_restoreArchive (hempty : BackupTablesEmpty server w₀) (hw : Unwritten w₀ w) :
    wp (importMachine server contents w₀) (restoreArchive server archive)
      (Ends (fun _ _ => True) (LeftAsItWas w₀)) w := by
  have hweaken : ∀ {α : Type} {R : α → World → Prop} (r : Except ImportFailure α) s,
      Ends R (Unwritten w₀) r s → Ends R (LeftAsItWas w₀) r s := by
    intro α R r s h
    cases r with
    | ok v => exact h
    | error err => exact h.toLeftAsItWas
  refine wp_bind_then (R := fun snap s => Unwritten w₀ s ∧
    snap = if archive.configuration.isSome then some (w₀.file .config) else none) ?_ ?_
  · rw [readConfigSnapshot]
    split
    · refine wp_bind_then (wp_mono hweaken (wp_readFileSnapshot hempty hw)) fun snap s hs => ?_
      exact ⟨hs.1, congrArg some hs.2⟩
    · exact ⟨hw, rfl⟩
  rintro _ s ⟨hs, rfl⟩
  refine wp_bind_then (wp_mono hweaken (wp_readFileSnapshot hempty hs)) ?_
  rintro _ s ⟨hs, rfl⟩
  rw [wp_bind]
  refine wp_local ?_
  intro v w' h
  cases h
  refine wp_bind_then (R := fun _ _ => True) ?_ fun _ s _ => wp_report (.inr rfl)
  rw [wp_tryCatch]
  have hbef : LeftAsItWas w₀ { s with finalizationStarted := false } :=
    ⟨hs.objects, hs.rows, hs.file⟩
  refine wp_mono ?_ (wp_restoreTarget hempty (hbef.restoring hs.paths _))
  intro r s' hr
  cases r with
  | ok v => trivial
  | error err => exact wp_bind_then (wp_ends_of_keeps (wp_rollBackImport hr)) fun _ s hs => hs

theorem wp_tableNames {Q : Except ImportFailure (List String) → World → Prop}
    (hok : Q (.ok w.database.tables.keys) w) (herror : ∀ err, Q (.error err) w) :
    wp (importMachine server contents w₀) (database .tableNames) Q w := by
  refine ⟨trivial, ?_⟩
  rintro r s ⟨a, ha⟩
  rcases respond_cases ha with ⟨-, rfl, err, rfl⟩ | ha
  · exact herror err
  obtain ⟨result, hres, h⟩ := map_eq_some_iff.mp ha
  cases a with
  | returns =>
    cases hres
    cases h
    exact hok
  | _ => cases hdb : w.database.transaction <;> simp [DatabaseOp.respond, DatabaseOp.execute] at hres

variable {table : String}

theorem wp_countRows {Q : Except ImportFailure ℕ → World → Prop}
    (hok : Q (.ok (w.rows table).length) w) (herror : ∀ err, Q (.error err) w) :
    wp (importMachine server contents w₀) (database (.countRows table)) Q w := by
  refine ⟨trivial, ?_⟩
  rintro r s ⟨a, ha⟩
  rcases respond_cases ha with ⟨-, rfl, err, rfl⟩ | ha
  · exact herror err
  obtain ⟨result, hres, h⟩ := map_eq_some_iff.mp ha
  cases a with
  | returns =>
    cases hres
    cases h
    exact hok
  | _ => cases hdb : w.database.transaction <;> simp [DatabaseOp.respond, DatabaseOp.execute] at hres

theorem rows_eq_nil_of_not_mem (h : table ∉ w.database.tables.keys) : w.rows table = [] := by
  rw [World.rows, rowsIn, AList.lookup_eq_none.mpr (mt AList.mem_keys.mp h)]
  rfl

/-- Past this check the tables of a backup are empty. -/
theorem wp_ensureTargetIsEmpty (hw : LeftAsItWas w₀ w) :
    wp (importMachine server contents w₀) (ensureTargetIsEmpty server)
      (Ends (fun _ s => LeftAsItWas w₀ s ∧ BackupTablesEmpty server w₀) (LeftAsItWas w₀)) w := by
  rw [ensureTargetIsEmpty, wp_bind]
  refine wp_tableNames ?_ fun err => hw
  rw [andThen_ok]
  dsimp only
  split
  · exact hw
  refine wp_each (I := LeftAsItWas w₀) (R := fun table => w₀.rows table = []) ?_ _ hw
  intro table s hs
  split
  · rw [wp_bind]
    refine wp_countRows ?_ fun err => hs
    rw [andThen_ok]
    split
    · next hcount => exact ⟨hs, (hs.rows table).symm.trans (length_eq_zero_iff.mp hcount)⟩
    · exact hs
  · next hmiss =>
    rw [contains_iff_mem] at hmiss
    exact ⟨hs, (hw.rows table).symm.trans (rows_eq_nil_of_not_mem hmiss)⟩

theorem ignoresTransaction_unwritten : IgnoresTransaction (Unwritten w₀) := by
  intro w db hrows hw
  exact ⟨ignoresTransaction_leftAsItWas w db hrows hw.toLeftAsItWas, hw.paths⟩

theorem wp_preparing (hI : IgnoresTransaction I) (hbef : ∀ s, I s → LeftAsItWas w₀ s) {op : Op}
    (hop : op.isRowCall) (hw : I w) : wp (importMachine server contents w₀) (call op)
      (Ends (fun _ => I) (LeftAsItWas w₀)) w := by
  refine wp_mono ?_ (keeps_rowCalls (p := call op) hI (onlyCalls_perform hop) hw)
  intro r s hs
  cases r with
  | ok v => exact hs
  | error err => exact hbef s hs

/-- **The same for the whole import.** -/
theorem wp_importBackup : wp (importMachine server contents w₀) (importBackup server archive)
    (Ends (fun _ _ => True) (LeftAsItWas w₀)) w₀ := by
  have hfirst : ∀ op s, op.isRowCall → LeftAsItWas w₀ s → wp (importMachine server contents w₀)
      (call op) (Ends (fun _ => LeftAsItWas w₀) (LeftAsItWas w₀)) s :=
    fun op s hop hs => wp_preparing ignoresTransaction_leftAsItWas (fun _ h => h) hop hs
  have hsnd : ∀ op s, op.isRowCall → Unwritten w₀ s → wp (importMachine server contents w₀)
      (call op) (Ends (fun _ => Unwritten w₀) (LeftAsItWas w₀)) s :=
    fun op s hop hs => wp_preparing ignoresTransaction_unwritten (fun _ h => h.toLeftAsItWas) hop hs
  refine wp_bind_then (hfirst _ _ trivial (.refl w₀)) fun _ s hs => ?_
  refine wp_bind_then (hfirst _ _ trivial hs) fun _ s hs => ?_
  refine wp_bind_then (hfirst _ _ trivial hs) fun _ s hs => ?_
  refine wp_bind_then (hfirst (.database (.createTables _)) _ trivial hs) fun _ s hs => ?_
  refine wp_bind_then (hfirst _ _ trivial hs) fun _ s hs => ?_
  refine wp_bind_then (wp_ensureTargetIsEmpty hs) ?_
  rintro _ s ⟨hs, hempty⟩
  rw [wp_bind]
  refine wp_local ?_
  intro v w' h
  cases h
  refine wp_bind_then (hsnd _ _ trivial ⟨⟨hs.objects, hs.rows, hs.file⟩, rfl⟩) fun _ s hs => ?_
  iterate 9
    refine wp_bind_then (hsnd _ _ trivial hs) fun _ s hs => ?_
  refine wp_bind_then (hsnd (.database (.createTables _)) _ trivial hs) fun _ s hs => ?_
  exact wp_restoreArchive hempty hs

end

/-! ### Failed imports -/

section

variable {server : Server} {archive : Archive} {contents : String → Option Bytes}

theorem next?_restoreArchive (server : Server) (archive : Archive) : ∃ target maximum,
    (restoreArchive server archive).next? = some (Op.file false target (.read maximum)) := by
  obtain ⟨manifest, files, configuration⟩ := archive
  cases configuration with
  | none => exact ⟨.initMarker, _, rfl⟩
  | some configuration => exact ⟨.config, _, rfl⟩

theorem respond_answers (w₀ : World) (w : World) (op : Op) (a : Answer)
    (r : Except ImportFailure op.Result) (w' : World) (h : respond contents w op a = some (r, w')) :
    (importMachine server contents w₀).answers (id w) op r (id w') := ⟨a, h⟩

/-- **A failed import leaves the target as it was**: the objects, the rows of every table, of which
those that a backup holds have none, and the two files. -/
theorem failedImport_leavesTarget {w₀ w w' : World} {before after : List Answer}
    {err : ImportFailure}
    (hreach : run (advance (respond contents)) (importBackup server archive, w₀) before =
      some (restoreArchive server archive, w))
    (hfail : run (advance (respond contents)) (restoreArchive server archive, w) after =
      some (.done (.error err), w')) :
    LeftAsItWas w₀ w' ∧ BackupTablesEmpty server w' := by
  have hwp := wp_run id (respond_answers w₀) wp_importBackup hreach
  have hleft : LeftAsItWas w₀ w' := wp_run id (respond_answers w₀) hwp hfail
  obtain ⟨target, maximum, hnext⟩ := next?_restoreArchive server archive
  have hempty : BackupTablesEmpty server w₀ := allowed_of_next? hwp hnext
  refine ⟨hleft, ?_⟩
  intro table htable
  rw [hleft.rows, hempty table htable]

end

def uploadedRow : JsonRow :=
  .ofFields [("id", .string "1"), ("path", .string "content/1"), ("active", .bool true)]

/-- A backup of a file and of the configuration. -/
def fileArchive : Archive where
  manifest := ⟨[⟨"files", ["id", "path", "active"], 1, [⟨46, .object uploadedRow⟩]⟩],
    List.nodup_singleton _⟩
  files := [⟨"1", "content/1", "files/1", 1, ""⟩]
  configuration := some ⟨"pepper", "key"⟩

/-- A server without extensions; `tomlkit` for a configuration that is empty. -/
def plainServer : Server where
  extensionTables := []
  otherExtensionTables := []
  uuid4 _ := ""
  dumps _ := 0
  str _ := ""
  sha256 _ := ""
  legacyRuleSetId nodeId := nodeId
  restoreKeys configuration _ :=
    some (("[security]\npepper = \"" ++ configuration.pepper ++ "\"\n\n[server]\nsecret_key = \"" ++
      configuration.secretKey ++ "\"\n").toList.map fun c => UInt8.ofNat c.toNat)

def limitedTarget : World where
  objects := (∅ : Table String Bytes).insert "content/0" [9]
  database :=
    { tables := (∅ : Table String (List JsonRow)).insert "rate_limit_buckets"
        [.ofFields [("bucket_key", .string "login")]] }
  file
    | .config => some []
    | .initMarker => none
  writtenPaths := []
  finalizationStarted := false

/-- The target when the archive has been validated. -/
def preparedTarget : World :=
  { limitedTarget with
    database :=
      { tables := Migration.applicationTableNames.foldl createTable limitedTarget.database.tables } }

/-- The extracted archive. -/
def extracted (_ : String) : Option Bytes := some [7]

/-- The commit raises, after the object, the row and both files have been written. -/
def failingCommit : List Answer :=
  List.replicate 10 .returns ++ .object none (some []) :: List.replicate 2 .returns ++
    List.replicate 2 (.object none (some [7])) ++ List.replicate 6 .returns ++
      .row uploadedRow :: List.replicate 19 .returns ++ .raises .other :: List.replicate 12 .returns

set_option maxRecDepth 10000 in
theorem run_preparing : run (advance (respond extracted))
    (importBackup plainServer fileArchive, limitedTarget) (List.replicate 47 .returns) =
      some (restoreArchive plainServer fileArchive, preparedTarget) := rfl

set_option maxRecDepth 10000 in
theorem run_failingCommit : ∃ w, run (advance (respond extracted))
    (restoreArchive plainServer fileArchive, preparedTarget) failingCommit =
      some (.done (.error .other), w) :=
  exists_run_done (by with_unfolding_all rfl)

theorem failingCommit_leavesTarget : ∃ w, run (advance (respond extracted))
      (restoreArchive plainServer fileArchive, preparedTarget) failingCommit =
        some (.done (.error .other), w) ∧
    LeftAsItWas limitedTarget w ∧ BackupTablesEmpty plainServer w := by
  obtain ⟨w, hrun⟩ := run_failingCommit
  exact ⟨w, hrun, failedImport_leavesTarget run_preparing hrun⟩

theorem failedImport_keepsOtherRows : ¬ ∀ (server : Server) (archive : Archive)
    (contents : String → Option Bytes) (w₀ w w' : World) (before after : List Answer)
    (err : ImportFailure),
    run (advance (respond contents)) (importBackup server archive, w₀) before =
      some (restoreArchive server archive, w) →
    run (advance (respond contents)) (restoreArchive server archive, w) after =
      some (.done (.error err), w') →
    (∀ path, w'.objects.lookup path = w₀.objects.lookup path) ∧ (∀ table, w'.rows table = []) ∧
      w'.file = w₀.file := by
  intro h
  obtain ⟨w, hrun⟩ := run_failingCommit
  have hempty := (h _ _ _ _ _ _ _ _ _ run_preparing hrun).2.1 "rate_limit_buckets"
  have hrows : w.rows "rate_limit_buckets" = limitedTarget.rows "rate_limit_buckets" := by
    have hwp : wp (importMachine plainServer extracted limitedTarget)
        (restoreArchive plainServer fileArchive)
        (Ends (fun _ _ => True) (LeftAsItWas limitedTarget)) preparedTarget :=
      wp_run id (respond_answers limitedTarget) wp_importBackup run_preparing
    exact LeftAsItWas.rows (wp_run id (respond_answers limitedTarget) hwp hrun) _
  rw [hrows] at hempty
  exact cons_ne_nil _ _ hempty

end Cfms.Backup
