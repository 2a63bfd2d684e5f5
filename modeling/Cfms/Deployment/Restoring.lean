import Cfms.Deployment.Lifecycle

/-!
# What restoring a release leaves

`execute` runs a script with the file system and the database working.  Each function of the
recovery has a lemma that says what it leaves, under what it needs: removing takes its files away,
copying a release succeeds where nothing stands in the way of its files, and copying a snapshot's
extensions succeeds where their directories and identifiers are free.

`restoreActive_iff` puts them together.
-/

namespace Cfms.Deployment

open Lib.FileTree Lib.Process List Option

variable {env : Environment} {α β : Type}

/-! ### Running a script -/

def execute : Script env α → DeploymentState env → Except DeploymentError α × DeploymentState env
  | .done r, d => (r, d)
  | .call .look next, d => execute (next (.ok d)) d
  | .call (.change c) next, d => execute (next (.ok ())) (c.apply d)

@[simp] theorem execute_pure (a : α) (d : DeploymentState env) :
    execute (pure a) d = (.ok a, d) := rfl

@[simp] theorem execute_throw (e : DeploymentError) (d : DeploymentState env) :
    execute (throw e : Script env α) d = (.error e, d) := rfl

theorem execute_change (c : Change env) (d : DeploymentState env) :
    execute (change c) d = (.ok (), c.apply d) := rfl

theorem execute_look_bind (f : DeploymentState env → Script env α) (d : DeploymentState env) :
    execute (look >>= f) d = execute (f d) d := rfl

theorem execute_change_bind (c : Change env) (f : Unit → Script env α) (d : DeploymentState env) :
    execute (change c >>= f) d = execute (f ()) (c.apply d) := rfl

variable {d : DeploymentState env} {p : Script env α} {f : α → Script env β}

theorem execute_bind_eq_ok {d'' : DeploymentState env}
    {b : β} (h : execute (p >>= f) d = (.ok b, d'')) :
    ∃ a d', execute p d = (.ok a, d') ∧ execute (f a) d' = (.ok b, d'') := by
  change execute (p.bind f) d = _ at h
  induction p generalizing d with
  | done r =>
    cases r with
    | ok a => exact ⟨a, d, rfl, h⟩
    | error e => cases h
  | call op next ih =>
    cases op with
    | look | change c => exact ih _ h

variable {d' : DeploymentState env}

theorem execute_bind_ok
    {a : α} (h : execute p d = (.ok a, d')) : execute (p >>= f) d = execute (f a) d' := by
  show execute (p.bind f) d = _
  induction p generalizing d with
  | done r =>
    cases h
    rfl
  | call op next ih =>
    cases op with
    | look | change c => exact ih _ h

theorem execute_each_files {l : List β} {body : β → Script env Unit} {F : β → Files → Files}
    (hbody : ∀ b d, execute (body b) d = (.ok (), { d with files := F b d.files }))
    (d : DeploymentState env) :
    execute (Proc.each l body) d =
      (.ok (), { d with files := l.foldl (fun files b => F b files) d.files }) := by
  induction l generalizing d with
  | nil => rfl
  | cons b rest ih =>
    show execute (body b >>= fun _ => Proc.each rest body) d = _
    rw [execute_bind_ok (hbody b d), ih]
    rfl

/-! ### Removing -/

theorem execute_unlinkFile (p : Path) (d : DeploymentState env) :
    execute (unlinkFile p) d = (.ok (), { d with files := unlink d.files p }) := by
  rw [unlinkFile, execute_look_bind]
  split
  · rfl
  next h =>
  rw [unlink_eq_self (not_isSome_iff_eq_none.mp h)]
  rfl

theorem execute_each_unlinkFile (paths : List Path) (d : DeploymentState env) :
    execute (Proc.each paths unlinkFile) d =
      (.ok (), { d with files := remove (fun p => decide (p ∈ paths)) d.files }) := by
  rw [execute_each_files execute_unlinkFile]
  congr 2
  exact unlinkAll_eq paths

theorem execute_rmtree (dir : String) (d : DeploymentState env) :
    execute (rmtree dir) d = (.ok (), { d with
        files := remove (fun p => decide (extensionPath dir <+: p)) d.files }) := by
  have hunlink : ∀ (p : Path) (d : DeploymentState env),
      execute (change (.unlink p)) d = (.ok (), { d with files := unlink d.files p }) :=
    fun _ _ => rfl
  rw [rmtree, execute_look_bind, execute_each_files hunlink]
  congr 2
  show unlinkAll _ d.files = _
  rw [unlinkAll_eq]
  refine filter_congr fun e he => ?_
  have hmem : e.1 ∈ d.files.map Prod.fst := mem_map_of_mem he
  simp [hmem]

def withoutRelease (release : Release) (catalog : List (Identifier × String)) (files : Files) :
    Files :=
  remove (fun p => decide (p ∈ release.paths))
    (remove (inDirectories (thirdPartyDirectories release catalog)) files)

theorem execute_each_rmtree (directories : List String) (d : DeploymentState env) :
    execute (Proc.each directories rmtree) d =
      (.ok (), { d with files := remove (inDirectories directories) d.files }) := by
  rw [execute_each_files execute_rmtree]
  congr 2
  induction directories generalizing d with
  | nil => exact (remove_eq_self fun _ _ => rfl).symm
  | cons dir rest ih =>
    rw [foldl_cons]
    have hrest := ih { d with
      files := remove (fun p => decide (extensionPath dir <+: p)) d.files }
    rw [hrest, remove_remove]
    rfl

theorem execute_discoverActive (d : DeploymentState env) : execute discoverActive d =
      (match discover env.identifier d.files with
        | some catalog => .ok catalog
        | none => .error .invalidExtension, d) := by
  rw [discoverActive, execute_look_bind]
  cases discover env.identifier d.files with
  | none | some catalog => rfl

variable {id : ReleaseId}

/-- Removing the active release takes away its files and the third-party directories. -/
theorem execute_removeActiveRelease {catalog : List (Identifier × String)}
    (h : discover env.identifier d.files = some catalog) :
    execute (removeActiveRelease id) d = (.ok (), { d with
        files := withoutRelease (env.release id) catalog d.files
        manifest := none }) := by
  have hcat : execute discoverActive d = (.ok catalog, d) := by
    rw [execute_discoverActive, h]
  rw [removeActiveRelease, execute_bind_ok hcat, execute_bind_ok (execute_each_rmtree _ d),
    execute_bind_ok (execute_each_unlinkFile _ _)]
  rfl

def matchesRelease (release : Release) (files : Files) (p : Path) : Bool :=
  match read release.files p with
  | some content => decide (read files p = some content ∧ p ∉ release.capitals)
  | none => false

def withoutMatching (release : Release) (files : Files) : Files :=
  remove (matchesRelease release files) files

/-- What `unlinkMatching` does to the files. -/
def unlinkFileMatching (release : Release) (e : Path × Content) (files : Files) : Files :=
  if read files e.1 = some e.2 ∧ e.1 ∉ release.capitals then unlink files e.1 else files

variable {l : Files} {release : Release}

theorem foldl_unlinkMatching (hl : (l.map Prod.fst).Nodup) (files : Files) :
    l.foldl (fun files e => unlinkFileMatching release e files) files =
      remove (fun p => match read l p with
        | some content => decide (read files p = some content ∧ p ∉ release.capitals)
        | none => false) files := by
  induction l generalizing files with
  | nil => exact (remove_eq_self fun _ _ => rfl).symm
  | cons e rest ih =>
    rw [map_cons, nodup_cons] at hl
    have hrest : read rest e.1 = none := read_eq_none.mpr hl.1
    rw [foldl_cons, ih hl.2, unlinkFileMatching]
    by_cases he : read files e.1 = some e.2 ∧ e.1 ∉ release.capitals
    · rw [if_pos he, unlink, remove_remove]
      congr 1
      funext p
      rw [read_cons]
      by_cases hp : p = e.1
      · subst hp
        simp [he]
      · rw [if_neg (fun h => hp h.symm), ← unlink, read_unlink]
        simp [hp]
    · rw [if_neg he]
      congr 1
      funext p
      rw [read_cons]
      by_cases hp : e.1 = p
      · subst hp
        rw [hrest]
        simp [he]
      · rw [if_neg hp]

theorem execute_unlinkMatching (e : Path × Content) (d : DeploymentState env) :
    execute (unlinkMatching release e) d =
      (.ok (), { d with files := unlinkFileMatching release e d.files }) := by
  rw [unlinkMatching, execute_look_bind, unlinkFileMatching]
  split
  · rfl
  · rfl

/-- The files that match go, and no others. -/
theorem execute_each_unlinkMatching (id : ReleaseId) (d : DeploymentState env) :
    execute (Proc.each (env.release id).files (unlinkMatching (env.release id))) d =
      (.ok (), { d with files := withoutMatching (env.release id) d.files }) := by
  rw [execute_each_files execute_unlinkMatching, foldl_unlinkMatching (env.release id).files_nodup]
  rfl

/-! ### Copying a release -/

variable {e : Path × Content}

theorem execute_copyFile_ok (h : Clear d.files e.1) : execute (copyFile e) d =
      (.ok (), { d with files := Cfms.Lib.FileTree.write d.files e.1 e.2 }) := by
  rw [copyFile, execute_look_bind, h.1, h.2]
  rfl

theorem clear_of_copyFile (h : execute (copyFile e) d = (.ok (), d')) : Clear d.files e.1 := by
  rw [copyFile, execute_look_bind] at h
  split at h
  · cases h
  next hocc =>
  split at h
  · cases h
  · next hobstructed => exact ⟨Bool.not_eq_true _ ▸ hocc, Bool.not_eq_true _ ▸ hobstructed⟩

/-- A list of files is copied where nothing is in the way. -/
theorem execute_each_copyFile (hl : (l.map Prod.fst).Nodup)
    (hapart : ∀ p ∈ l.map Prod.fst, ∀ q ∈ l.map Prod.fst, p ≠ q → Apart p q)
    (hclear : ∀ p ∈ l.map Prod.fst, Clear d.files p) :
    execute (Proc.each l copyFile) d = (.ok (), { d with files := copyAll l d.files }) := by
  induction l generalizing d with
  | nil => rfl
  | cons e rest ih =>
    rw [map_cons, nodup_cons] at hl
    have he : Clear d.files e.1 := hclear e.1 mem_cons_self
    show execute (copyFile e >>= fun _ => Proc.each rest copyFile) d = _
    rw [execute_bind_ok (execute_copyFile_ok he), ih hl.2]
    · rfl
    · exact fun p hp q hq => hapart p (mem_cons_of_mem _ hp) q (mem_cons_of_mem _ hq)
    intro p hp
    refine (hclear p (mem_cons_of_mem _ hp)).write (hapart p (mem_cons_of_mem _ hp) e.1
      mem_cons_self ?_)
    rintro rfl
    exact hl.1 hp

theorem clear_of_each_copyFile (h : execute (Proc.each l copyFile) d = (.ok (), d')) :
    ∀ p ∈ l.map Prod.fst, Clear d.files p := by
  induction l generalizing d with
  | nil => exact fun _ hp => nomatch hp
  | cons e rest ih =>
    obtain ⟨⟨⟩, d₁, hcopy, hrest⟩ :=
      execute_bind_eq_ok (p := copyFile e) (f := fun _ => Proc.each rest copyFile) h
    have he : Clear d.files e.1 := clear_of_copyFile hcopy
    rw [execute_copyFile_ok he] at hcopy
    cases hcopy
    intro p hp
    rcases mem_cons.mp hp with rfl | hp
    · exact he
    · exact (ih hrest p hp).of_write

/-- The release is copied where nothing is in the way. -/
theorem execute_copyReleaseToActive (hclear : ∀ p ∈ (env.release id).paths, Clear d.files p) :
    execute (copyReleaseToActive id) d = (.ok (), { d with
        files := copyAll (env.release id).files d.files
        manifest := some id }) := by
  rw [copyReleaseToActive, execute_bind_ok (execute_each_copyFile (env.release id).files_nodup
    (env.release id).files_apart hclear)]
  rfl

theorem clear_of_copyReleaseToActive (h : execute (copyReleaseToActive id) d = (.ok (), d')) :
    ∀ p ∈ (env.release id).paths, Clear d.files p := by
  obtain ⟨⟨⟩, d₁, hcopy, -⟩ := execute_bind_eq_ok h
  exact clear_of_each_copyFile hcopy

/-! ### Copying extensions -/

def placeAll (extensions : Files) (entries : List (Identifier × String)) (files : Files) : Files :=
  entries.foldl (fun files e => extensionFiles extensions e.2 ++ files) files

variable {extensions : Files} {dir : String}

/-- A copied extension has the files of its directory. -/
theorem read_extensionFiles {p : Path} : read (extensionFiles extensions dir) p =
      if extensionPath dir <+: p then read extensions p else none := by
  rw [extensionFiles, read_remove]
  by_cases h : extensionPath dir <+: p <;> simp [h]

variable {files : Files}

theorem occupied_placed {other : String}
    (h : occupied files (extensionPath other) = false) (hne : other ≠ dir) :
    occupied (extensionFiles extensions dir ++ files) (extensionPath other) = false := by
  rw [← Bool.not_eq_true, occupied_iff]
  rintro ⟨q, hq, hother⟩
  rw [← read_isSome, read_append, read_of_not_occupied h hother, read_extensionFiles] at hq
  split at hq
  · next hdir => exact hne (extensionPath_prefix_inj hother hdir)
  · cases hq

variable {entries : List (Identifier × String)}

theorem read_placeAll (hents : (entries.map Prod.snd).Nodup)
    (hfree : ∀ e ∈ entries, occupied files (extensionPath e.2) = false) (p : Path) :
    read (placeAll extensions entries files) p =
      if inDirectories (entries.map Prod.snd) p then read extensions p else read files p := by
  induction entries generalizing files with
  | nil => rfl
  | cons e rest ih =>
    rw [map_cons, nodup_cons] at hents
    have hrest : ∀ e' ∈ rest,
        occupied (extensionFiles extensions e.2 ++ files) (extensionPath e'.2) = false := by
      intro e' he'
      refine occupied_placed (hfree e' (mem_cons_of_mem _ he')) ?_
      intro heq
      exact hents.1 (heq ▸ mem_map_of_mem he')
    show read (placeAll extensions rest (extensionFiles extensions e.2 ++ files)) p = _
    rw [ih hents.2 hrest, read_append, read_extensionFiles]
    show _ = if (decide (extensionPath e.2 <+: p) || inDirectories (rest.map Prod.snd) p) then _
      else _
    by_cases he : extensionPath e.2 <+: p
    · rw [read_of_not_occupied (hfree e mem_cons_self) he]
      simp [he]
    · simp [he]

section

variable {id : ReleaseId} {extensions : Files} {targetCatalog : List (Identifier × String)}

variable {d : DeploymentState env}

variable {e : Identifier × String}

theorem execute_copyExtension_ok (extensions : Files)
    (hid : e.1 ∉ (env.release id).managedExtensions ∧ e.1 ∉ targetCatalog.map Prod.fst)
    (hfree : occupied d.files (extensionPath e.2) = false) :
    execute (copyExtension id extensions targetCatalog e) d =
      (.ok (), { d with files := extensionFiles extensions e.2 ++ d.files }) := by
  rw [copyExtension, if_neg (not_or.mpr hid), execute_look_bind, hfree]
  rfl

theorem free_of_copyExtension {d' : DeploymentState env}
    (h : execute (copyExtension id extensions targetCatalog e) d = (.ok (), d')) :
    (e.1 ∉ (env.release id).managedExtensions ∧ e.1 ∉ targetCatalog.map Prod.fst) ∧
      occupied d.files (extensionPath e.2) = false := by
  rw [copyExtension] at h
  split at h
  · cases h
  next hid =>
  rw [execute_look_bind] at h
  split at h
  · cases h
  · next hfree => exact ⟨not_or.mp hid, Bool.not_eq_true _ ▸ hfree⟩

variable {entries : List (Identifier × String)}

/-- The extensions are copied into free directories. -/
theorem execute_each_copyExtension (hents : (entries.map Prod.snd).Nodup)
    (hids : ∀ e ∈ entries, e.1 ∉ (env.release id).managedExtensions ∧
      e.1 ∉ targetCatalog.map Prod.fst)
    (hfree : ∀ e ∈ entries, occupied d.files (extensionPath e.2) = false) :
    execute (Proc.each entries (copyExtension id extensions targetCatalog)) d =
      (.ok (), { d with files := placeAll extensions entries d.files }) := by
  induction entries generalizing d with
  | nil => rfl
  | cons e rest ih =>
    rw [map_cons, nodup_cons] at hents
    have he := execute_copyExtension_ok extensions (hids e mem_cons_self) (hfree e mem_cons_self)
    show execute (copyExtension id extensions targetCatalog e >>= fun _ => _) d = _
    rw [execute_bind_ok he, ih hents.2 fun e' he' => hids e' (mem_cons_of_mem _ he')]
    · rfl
    intro e' he'
    refine occupied_placed (hfree e' (mem_cons_of_mem _ he')) ?_
    intro heq
    exact hents.1 (heq ▸ mem_map_of_mem he')

theorem of_each_copyExtension {d' : DeploymentState env}
    (h : execute (Proc.each entries (copyExtension id extensions targetCatalog)) d = (.ok (), d')) :
    (∀ e ∈ entries, occupied d.files (extensionPath e.2) = false) ∧
      d' = { d with files := placeAll extensions entries d.files } := by
  induction entries generalizing d with
  | nil =>
    cases h
    exact ⟨fun _ he => (nomatch he), rfl⟩
  | cons e rest ih =>
    obtain ⟨⟨⟩, d₁, hcopy, hrest⟩ := execute_bind_eq_ok
      (p := copyExtension id extensions targetCatalog e)
      (f := fun _ => Proc.each rest (copyExtension id extensions targetCatalog)) h
    obtain ⟨hid, hfree⟩ := free_of_copyExtension hcopy
    rw [execute_copyExtension_ok extensions hid hfree] at hcopy
    cases hcopy
    obtain ⟨hothers, hfiles⟩ := ih hrest
    refine ⟨?_, hfiles⟩
    intro e' he'
    rcases mem_cons.mp he' with rfl | he'
    · exact hfree
    · exact occupied_of_append (hothers e' he')

end

section

variable {id : ReleaseId} {snapshot : Snapshot env id} {d : DeploymentState env}

theorem execute_copyStateExtensions (hstate : d.states id = some snapshot) :
    execute (copyStateExtensions id) d = execute (discoverActive >>= fun catalog =>
        Proc.each snapshot.catalog (copyExtension id snapshot.extensions catalog) >>= fun _ =>
        discoverActive >>= fun _ => pure ()) d := by
  rw [copyStateExtensions, execute_look_bind, hstate]
  dsimp only
  rw [snapshot.readable]

variable {catalog : List (Identifier × String)}

theorem execute_discoverActive_some (h : discover env.identifier d.files = some catalog) :
    execute discoverActive d = (.ok catalog, d) := by
  rw [execute_discoverActive, h]

theorem discover_of_execute {d' : DeploymentState env}
    (h : execute discoverActive d = (.ok catalog, d')) :
    discover env.identifier d.files = some catalog ∧ d' = d := by
  rw [execute_discoverActive] at h
  cases hfound : discover env.identifier d.files with
  | none =>
    rw [hfound] at h
    cases h
  | some found =>
    rw [hfound] at h
    obtain ⟨hok, rfl⟩ := Prod.mk.inj h
    exact ⟨congrArg some (Except.ok.inj hok), rfl⟩

/-- The snapshot's extensions are put in place. -/
theorem execute_copyStateExtensions_ok (hstate : d.states id = some snapshot)
    (hcat : discover env.identifier d.files = some catalog)
    (hids : ∀ e ∈ catalog, e.1 ∈ (env.release id).managedExtensions)
    (hfree : ∀ e ∈ snapshot.catalog, occupied d.files (extensionPath e.2) = false)
    (hplaced : ∃ placed, discover env.identifier
      (placeAll snapshot.extensions snapshot.catalog d.files) = some placed) :
    execute (copyStateExtensions id) d =
      (.ok (), { d with files := placeAll snapshot.extensions snapshot.catalog d.files }) := by
  have hthird : ∀ e ∈ snapshot.catalog, e.1 ∉ (env.release id).managedExtensions ∧
      e.1 ∉ catalog.map Prod.fst := by
    intro e he
    refine ⟨snapshot.thirdParty e he, ?_⟩
    intro hmem
    obtain ⟨e', he', heq⟩ := mem_map.mp hmem
    exact snapshot.thirdParty e he (heq ▸ hids e' he')
  obtain ⟨placed, hplaced⟩ := hplaced
  have hend : execute discoverActive
      { d with files := placeAll snapshot.extensions snapshot.catalog d.files } =
        (.ok placed, { d with files := placeAll snapshot.extensions snapshot.catalog d.files }) :=
    execute_discoverActive_some hplaced
  rw [execute_copyStateExtensions hstate, execute_bind_ok (execute_discoverActive_some hcat),
    execute_bind_ok (execute_each_copyExtension (nodup_discover snapshot.readable).2 hthird hfree),
    execute_bind_ok hend]
  rfl

theorem of_execute_copyStateExtensions {d' : DeploymentState env}
    (hstate : d.states id = some snapshot)
    (h : execute (copyStateExtensions id) d = (.ok (), d')) :
    (∃ catalog, discover env.identifier d.files = some catalog) ∧
      (∀ e ∈ snapshot.catalog, occupied d.files (extensionPath e.2) = false) ∧
      d' = { d with files := placeAll snapshot.extensions snapshot.catalog d.files } := by
  rw [execute_copyStateExtensions hstate] at h
  obtain ⟨catalog, d₁, hfound, hrest⟩ := execute_bind_eq_ok h
  obtain ⟨hcat, rfl⟩ := discover_of_execute hfound
  obtain ⟨⟨⟩, d₂, hplace, hend⟩ := execute_bind_eq_ok hrest
  obtain ⟨placed, d₃, hplaced, hdone⟩ := execute_bind_eq_ok hend
  obtain ⟨-, rfl⟩ := discover_of_execute hplaced
  cases hdone
  obtain ⟨hfree, hfiles⟩ := of_each_copyExtension hplace
  exact ⟨⟨catalog, hcat⟩, hfree, hfiles⟩

end

/-! ### Releases in place -/

theorem discover_of_entries {identifier : Content → Option Identifier}
    (hents : (entries.map Prod.fst).Nodup)
    (h : ∀ d, isCandidate files d = true →
      ∃ i, (i, d) ∈ entries ∧ identityAt identifier files d = some i) :
    ∃ catalog, discover identifier files = some catalog ∧ ∀ e ∈ catalog, e ∈ entries := by
  have hreadable : ∃ catalog, discover identifier files = some catalog := by
    refine exists_discover (fun d hd => (h d hd).imp fun _ hi => hi.2) ?_
    intro d d' i hd hd' hi hi'
    obtain ⟨j, hj, hji⟩ := h d hd
    obtain ⟨j', hj', hji'⟩ := h d' hd'
    obtain rfl : i = j := some.inj (hi.symm.trans hji)
    obtain rfl : i = j' := some.inj (hi'.symm.trans hji')
    exact (Prod.mk.inj (inj_on_of_nodup_map hents hj hj' rfl)).2
  obtain ⟨catalog, hcat⟩ := hreadable
  refine ⟨catalog, hcat, ?_⟩
  intro e he
  obtain ⟨hcand, hident⟩ := (mem_discover hcat).mp he
  obtain ⟨i, hi, hie⟩ := h e.2 hcand
  obtain rfl : e.1 = i := some.inj (hident.symm.trans hie)
  exact hi

/-- The configuration and the third-party extensions are those of a snapshot, and no file of the
other release is left. -/
structure Settled (wanted other : ReleaseId) (snapshot : Snapshot env wanted)
    (d : DeploymentState env) : Prop where
  noOther : ∀ p ∈ (env.release other).paths, p ∉ (env.release wanted).paths →
    inDirectories (snapshot.catalog.map Prod.snd) p = false → read d.files p = none
  config : d.config = snapshot.config
  extensions : ∃ catalog, discover env.identifier d.files = some catalog ∧
    ∀ e, (e ∈ catalog ∧ e.1 ∉ (env.release wanted).managedExtensions) ↔ e ∈ snapshot.catalog
  extensionFiles : ∀ e ∈ snapshot.catalog, ∀ p, extensionPath e.2 <+: p →
    read d.files p = read snapshot.extensions p

structure IsRelease (wanted other : ReleaseId) (snapshot : Snapshot env wanted)
    (d : DeploymentState env) : Prop where
  manifest : d.manifest = some wanted
  files : ∀ e ∈ (env.release wanted).files, read d.files e.1 = some e.2
  settled : Settled wanted other snapshot d

/-- Nothing is in the way of a release and its snapshot: no file where one of the release belongs,
no file of the other release and, with the release in place, no extension that it does not manage
and no directory where one of the snapshot's extensions belongs. -/
structure Cleared (wanted other : ReleaseId) (snapshot : Snapshot env wanted) (files : Files) :
    Prop where
  clear : ∀ p ∈ (env.release wanted).paths, Clear files p
  noOther : ∀ p ∈ (env.release other).paths, p ∉ (env.release wanted).paths → read files p = none
  managed : ∃ catalog,
    discover env.identifier (copyAll (env.release wanted).files files) = some catalog ∧
      ∀ e ∈ catalog, e.1 ∈ (env.release wanted).managedExtensions
  free : ∀ e ∈ snapshot.catalog,
    occupied (copyAll (env.release wanted).files files) (extensionPath e.2) = false

section

variable {wanted other : ReleaseId} {snapshot : Snapshot env wanted} {d : DeploymentState env}
  {files : Files}

def inPlace (wanted : ReleaseId) (snapshot : Snapshot env wanted) (files : Files) : Files :=
  placeAll snapshot.extensions snapshot.catalog (copyAll (env.release wanted).files files)

variable (hfree : ∀ e ∈ snapshot.catalog,
    occupied (copyAll (env.release wanted).files files) (extensionPath e.2) = false)

include hfree

/-- What is in place: the snapshot's extensions over the release. -/
theorem read_inPlace (p : Path) :
    read (inPlace wanted snapshot files) p =
      if inDirectories (snapshot.catalog.map Prod.snd) p then read snapshot.extensions p
      else (read (env.release wanted).files p).or (read files p) := by
  rw [inPlace, read_placeAll (nodup_discover snapshot.readable).2 hfree,
    read_copyAll (env.release wanted).files_nodup]

variable {p : Path} {dir : String}

theorem read_inPlace_of_not_mem (h : dir ∉ snapshot.catalog.map Prod.snd)
    (hp : extensionPath dir <+: p) :
    read (inPlace wanted snapshot files) p = read (copyAll (env.release wanted).files files) p := by
  have hnot : inDirectories (snapshot.catalog.map Prod.snd) p = false :=
    Bool.not_eq_true _ ▸ mt (inDirectories_iff_mem hp).mp h
  rw [read_inPlace hfree, hnot, read_copyAll (env.release wanted).files_nodup]
  rfl

theorem read_inPlace_of_mem (h : dir ∈ snapshot.catalog.map Prod.snd)
    (hp : extensionPath dir <+: p) :
    read (inPlace wanted snapshot files) p = read snapshot.extensions p := by
  rw [read_inPlace hfree, (inDirectories_iff_mem hp).mpr h]
  rfl

theorem not_inDirectories_of_free
    (hp : (read (copyAll (env.release wanted).files files) p).isSome = true) :
    inDirectories (snapshot.catalog.map Prod.snd) p = false := by
  rw [← Bool.not_eq_true, inDirectories_iff]
  rintro ⟨dir, hdir, hprefix⟩
  obtain ⟨e, he, rfl⟩ := mem_map.mp hdir
  rw [read_of_not_occupied (hfree e he) hprefix] at hp
  cases hp

omit hfree

/-- A cleared deployment becomes settled. -/
theorem settled_inPlace (h : Cleared wanted other snapshot files)
    (hfiles : d.files = inPlace wanted snapshot files) (hconfig : d.config = snapshot.config) :
    Settled wanted other snapshot d := by
  obtain ⟨copied, hcopied, hman⟩ := h.managed
  have hcand : ∀ dir, isCandidate (inPlace wanted snapshot files) dir = true →
      ∃ i, (i, dir) ∈ snapshot.catalog ++ copied ∧
        identityAt env.identifier (inPlace wanted snapshot files) dir = some i := by
    intro dir hd
    by_cases hmem : dir ∈ snapshot.catalog.map Prod.snd
    · have hcongr := candidate_congr env.identifier
        (fun p hp => read_inPlace_of_mem h.free hmem (p := p) hp)
      rw [hcongr.1] at hd
      obtain ⟨i, hi⟩ := exists_mem_of_isCandidate snapshot.readable hd
      exact ⟨i, mem_append_left _ hi, hcongr.2.trans ((mem_discover snapshot.readable).mp hi).2⟩
    · have hcongr := candidate_congr env.identifier
        (fun p hp => read_inPlace_of_not_mem h.free hmem (p := p) hp)
      rw [hcongr.1] at hd
      obtain ⟨i, hi⟩ := exists_mem_of_isCandidate hcopied hd
      exact ⟨i, mem_append_right _ hi, hcongr.2.trans ((mem_discover hcopied).mp hi).2⟩
  have hnodup : ((snapshot.catalog ++ copied).map Prod.fst).Nodup := by
    rw [map_append, nodup_append]
    refine ⟨(nodup_discover snapshot.readable).1, (nodup_discover hcopied).1, ?_⟩
    rintro i hi _ hi' rfl
    obtain ⟨e, he, rfl⟩ := mem_map.mp hi
    obtain ⟨e', he', heq⟩ := mem_map.mp hi'
    exact snapshot.thirdParty e he (heq ▸ hman e' he')
  obtain ⟨catalog, hcat, hents⟩ := discover_of_entries hnodup hcand
  refine ⟨?_, hconfig, ⟨catalog, hfiles ▸ hcat, ?_⟩, ?_⟩
  · intro p hp hnot hdirs
    rw [hfiles, read_inPlace h.free, hdirs]
    show (read (env.release wanted).files p).or (read files p) = none
    rw [h.noOther p hp hnot, read_eq_none.mpr hnot]
    rfl
  · intro e
    constructor
    · rintro ⟨he, hthird⟩
      rcases mem_append.mp (hents e he) with he | he
      · exact he
      · exact absurd (hman e he) hthird
    · intro he
      have hmem : e.2 ∈ snapshot.catalog.map Prod.snd := mem_map_of_mem he
      have hcongr := candidate_congr env.identifier
        (fun p hp => read_inPlace_of_mem h.free hmem (p := p) hp)
      obtain ⟨hd, hident⟩ := (mem_discover snapshot.readable).mp he
      exact ⟨(mem_discover hcat).mpr ⟨hcongr.1.trans hd, hcongr.2.trans hident⟩,
        snapshot.thirdParty e he⟩
  · intro e he p hp
    rw [hfiles]
    exact read_inPlace_of_mem h.free (mem_map_of_mem he) hp

/-- Only a cleared deployment becomes settled. -/
theorem cleared_of_settled (hclear : ∀ p ∈ (env.release wanted).paths, Clear files p)
    {copied : List (Identifier × String)}
    (hcopied : discover env.identifier (copyAll (env.release wanted).files files) = some copied)
    (hfree : ∀ e ∈ snapshot.catalog,
      occupied (copyAll (env.release wanted).files files) (extensionPath e.2) = false)
    (hfiles : d.files = inPlace wanted snapshot files) (h : Settled wanted other snapshot d) :
    Cleared wanted other snapshot files := by
  refine ⟨hclear, ?_, ⟨copied, hcopied, ?_⟩, hfree⟩
  · intro p hp hnot
    by_contra hne
    have hsome : (read (copyAll (env.release wanted).files files) p).isSome = true := by
      rw [read_copyAll (env.release wanted).files_nodup, read_eq_none.mpr hnot]
      exact isSome_iff_ne_none.mpr hne
    have hnotIn := not_inDirectories_of_free hfree hsome
    have hnone := h.noOther p hp hnot hnotIn
    rw [hfiles, read_inPlace hfree, hnotIn, read_eq_none.mpr hnot] at hnone
    exact hne hnone
  · intro e he
    by_contra hthird
    obtain ⟨hd, hident⟩ := (mem_discover hcopied).mp he
    -- a free dir is no cand
    have hmem : e.2 ∉ snapshot.catalog.map Prod.snd := by
      intro hmem
      obtain ⟨e', he', heq⟩ := mem_map.mp hmem
      rw [isCandidate_eq_false fun p hp => read_of_not_occupied (hfree e' he') (heq ▸ hp)] at hd
      cases hd
    have hcongr := candidate_congr env.identifier
      (fun p hp => read_inPlace_of_not_mem hfree hmem (p := p) hp)
    obtain ⟨catalog, hcat, hsame⟩ := h.extensions
    have hin : e ∈ catalog := by
      rw [mem_discover hcat, hfiles, hcongr.1, hcongr.2]
      exact ⟨hd, hident⟩
    exact hmem (mem_map_of_mem ((hsame e).mp ⟨hin, hthird⟩))

variable (hstate : d.states wanted = some snapshot)

include hstate

/-- With nothing in the way the release is put in place. -/
theorem execute_placeActive
    (hmanif : d.manifest = none) (h : Cleared wanted other snapshot d.files) :
    execute (placeActive wanted snapshot.config) d = (.ok (), { d with
        files := inPlace wanted snapshot d.files
        manifest := some wanted
        config := snapshot.config }) := by
  obtain ⟨copied, hcopied, hman⟩ := h.managed
  obtain ⟨catalog, hcat, -⟩ := (settled_inPlace h (d := { d with
    files := inPlace wanted snapshot d.files
    config := snapshot.config }) rfl rfl).extensions
  have hextensions : execute (copyStateExtensions wanted) { d with
      files := copyAll (env.release wanted).files d.files
      manifest := some wanted
      config := snapshot.config } = _ :=
    execute_copyStateExtensions_ok hstate hcopied hman h.free ⟨catalog, hcat⟩
  rw [placeActive, execute_look_bind, if_pos hmanif,
    execute_bind_ok (execute_copyReleaseToActive h.clear)]
  exact hextensions

/-- A release is put in place only with nothing in the way. -/
theorem of_execute_placeActive {d' : DeploymentState env}
    (hmanif : d.manifest = none)
    (h : execute (placeActive wanted snapshot.config) d = (.ok (), d')) :
    (∀ p ∈ (env.release wanted).paths, Clear d.files p) ∧
      (∃ copied, discover env.identifier (copyAll (env.release wanted).files d.files) =
        some copied) ∧
      (∀ e ∈ snapshot.catalog,
        occupied (copyAll (env.release wanted).files d.files) (extensionPath e.2) = false) ∧
      d'.files = inPlace wanted snapshot d.files := by
  rw [placeActive, execute_look_bind, if_pos hmanif] at h
  obtain ⟨⟨⟩, d₁, hcopy, hrest⟩ := execute_bind_eq_ok h
  have hclear := clear_of_copyReleaseToActive hcopy
  rw [execute_copyReleaseToActive hclear] at hcopy
  cases hcopy
  have hplaced : d.states = ({ d with
      files := copyAll (env.release wanted).files d.files
      manifest := some wanted
      config := snapshot.config } : DeploymentState env).states := rfl
  obtain ⟨hcopied, hfree, rfl⟩ := of_execute_copyStateExtensions (hplaced ▸ hstate) hrest
  exact ⟨hclear, hcopied, hfree, rfl⟩

/-- The end of the recovery leaves the release in the state of its snapshot exactly when nothing is
in the way. -/
theorem placeActive_iff (hmanif : d.manifest = none) :
    (∃ d', execute (placeActive wanted snapshot.config) d = (.ok (), d') ∧
      IsRelease wanted other snapshot d') ↔ Cleared wanted other snapshot d.files := by
  constructor
  · rintro ⟨d', hrun, hrel⟩
    obtain ⟨hclear, ⟨copied, hcopied⟩, hfree, hfiles⟩ :=
      of_execute_placeActive hstate hmanif hrun
    exact cleared_of_settled hclear hcopied hfree hfiles hrel.settled
  · intro h
    refine ⟨_, execute_placeActive hstate hmanif h, rfl, ?_, settled_inPlace h rfl rfl⟩
    intro e he
    have hread : read (env.release wanted).files e.1 = some e.2 :=
      read_of_mem (env.release wanted).files_nodup he
    have hsome : (read (copyAll (env.release wanted).files d.files) e.1).isSome = true := by
      rw [read_copyAll (env.release wanted).files_nodup, hread]
      rfl
    show read (inPlace wanted snapshot d.files) e.1 = some e.2
    rw [read_inPlace h.free, not_inDirectories_of_free h.free hsome, hread]
    rfl

omit hstate

/-- The files that are left when `_restore_active` has taken away what it takes: the release that
the tree verifies as with its third-party extensions, or else the files that are still as the other
release has them, but for those whose digests its manifest spells with capitals. -/
def clearedFiles (other : ReleaseId) (d : DeploymentState env) : Option Files :=
  match activeRelease? d with
  | some current => (discover env.identifier d.files).map fun catalog =>
      withoutRelease (env.release current) catalog d.files
  | none => some (withoutMatching (env.release other) d.files)

def Restorable (wanted other : ReleaseId) (d : DeploymentState env) : Prop :=
  ∃ snapshot, d.states wanted = some snapshot ∧
    if activeRelease? d = some wanted then Settled wanted other snapshot d
    else ∃ files, clearedFiles other d = some files ∧ Cleared wanted other snapshot files

theorem activeRelease?_eq_some {id : ReleaseId} : activeRelease? d = some id ↔
      d.manifest = some id ∧ ∀ e ∈ (env.release id).files, read d.files e.1 = some e.2 := by
  simp [activeRelease?]

theorem isRelease_of_active (h : activeRelease? d = some wanted) :
    IsRelease wanted other snapshot d ↔ Settled wanted other snapshot d := by
  obtain ⟨hmanif, hfiles⟩ := activeRelease?_eq_some.mp h
  exact ⟨IsRelease.settled, fun hsett => ⟨hmanif, hfiles, hsett⟩⟩

theorem Restorable.config (h : Restorable wanted other d) (hact : activeRelease? d = some wanted) :
    (d.states wanted).map (fun snapshot => snapshot.config) = some d.config := by
  obtain ⟨snapshot, hstate, hrest⟩ := h
  rw [if_pos hact] at hrest
  rw [hstate, map_some, hrest.config]

/-- **`_restore_active` succeeds and leaves the wanted release in the state of its snapshot exactly
when the deployment is restorable.** -/
theorem restoreActive_iff : (∃ snapshot, d.states wanted = some snapshot ∧
      ∃ d', execute (restoreActive wanted (some other)) d = (.ok (), d') ∧
        IsRelease wanted other snapshot d') ↔ Restorable wanted other d := by
  refine exists_congr fun snapshot => and_congr_right fun hstate => ?_
  have hconfig : execute (stateConfig wanted) d = (.ok snapshot, d) := by
    rw [stateConfig, execute_look_bind, hstate]
    rfl
  rw [restoreActive, execute_bind_ok hconfig, execute_look_bind, clearedFiles]
  cases hact : activeRelease? d with
  | none =>
    show (∃ d', execute (Proc.each (env.release other).files (unlinkMatching (env.release other)) >>=
      fun _ => _) d = _ ∧ _) ↔ _
    rw [execute_bind_ok (execute_each_unlinkMatching other d)]
    simp only [some.injEq, exists_eq_left']
    exact placeActive_iff hstate rfl
  | some current =>
    by_cases hcur : current = wanted
    · subst hcur
      show (∃ d', execute (if current = current then _ else _) d = _ ∧ _) ↔ _
      rw [if_pos rfl, ← isRelease_of_active hact]
      simp
    · show (∃ d', execute (if current = wanted then _ else _) d = _ ∧ _) ↔ _
      rw [if_neg hcur, if_neg (by simpa using hcur)]
      cases hcat : discover env.identifier d.files with
      | none =>
        constructor
        · rintro ⟨d', hrun, -⟩
          obtain ⟨⟨⟩, d₁, hremove, -⟩ := execute_bind_eq_ok hrun
          obtain ⟨catalog, d₂, hfound, -⟩ := execute_bind_eq_ok hremove
          rw [(discover_of_execute hfound).1] at hcat
          cases hcat
        · rintro ⟨files, hfiles, -⟩
          cases hfiles
      | some catalog =>
        rw [execute_bind_ok (execute_removeActiveRelease hcat)]
        simp only [map_some, some.injEq, exists_eq_left']
        exact placeActive_iff hstate rfl

end

end Cfms.Deployment
