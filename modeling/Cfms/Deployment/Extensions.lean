import Cfms.Lib.FileTree
import Mathlib.Data.List.Dedup
import Mathlib.Data.List.Sort
import Mathlib.Data.String.Basic

/-!
# Releases, extensions and state snapshots

The data of a versioned deployment (`maintenance/operations/deployment`): the project files as a
file tree, a release with the files its manifest lists, the extension directories that
`_discover_extension_directories` finds, and the state snapshot kept with a stored release.

A digest stands for the content it is the digest of, and a release identifier for the release
whose manifest it is the digest of; `Environment.release` is that correspondence.  What
`tomllib` reads out of a `manifest.toml` and what `sync_config_template` makes of a configuration
are parameters.  A discovery says whether it succeeds, not with which message it fails.
-/

namespace Cfms.Deployment

open Lib.FileTree List

abbrev Path := List String
abbrev Content := String
abbrev Files := Tree String Content
abbrev ReleaseId := String
abbrev Identifier := String

instance : LawfulBEq Path := inferInstance

def extensionRoot : Path := ["src", "include", "extensions"]

def extensionPath (directory : String) : Path := extensionRoot ++ [directory]

def manifestPath (directory : String) : Path := extensionPath directory ++ ["manifest.toml"]

def entrypointPath (directory : String) : Path := extensionPath directory ++ ["_extension.py"]

/-! ### Discovery -/

/-- The directory directly under `src/include/extensions` that a file lies in. -/
def extensionDirectory? (p : Path) : Option String :=
  if p.take 3 = extensionRoot then
    match p.drop 3 with
    | directory :: _ :: _ => some directory
    | _ => none
  else none

/-- `sorted(extension_root.iterdir())`, the directories. -/
def extensionNames (files : Files) : List String :=
  ((files.filterMap fun e => extensionDirectory? e.1).dedup).insertionSort (· ≤ ·)

/-- `directory.name.startswith(("_", "."))`. -/
def hidden (directory : String) : Bool :=
  match directory.toList with
  | '_' :: _ => true
  | '.' :: _ => true
  | _ => false

/-- A directory with a manifest or an entry point. -/
def isCandidate (files : Files) (directory : String) : Bool :=
  !hidden directory && ((read files (manifestPath directory)).isSome ||
    (read files (entrypointPath directory)).isSome)

variable (identifier : Content → Option Identifier)

def identityAt (files : Files) (directory : String) : Option Identifier :=
  match read files (manifestPath directory), read files (entrypointPath directory) with
  | some manifest, some _ => identifier manifest
  | _, _ => none

/-- The loop of `_discover_extension_directories` with the catalog so far. -/
def discoverLoop (identifier : Content → Option Identifier) (files : Files) :
    List String → List (Identifier × String) → Option (List (Identifier × String))
  | [], catalog => some catalog
  | directory :: rest, catalog =>
    if isCandidate files directory then
      match identityAt identifier files directory with
      | none => none
      | some found =>
        if found ∈ catalog.map Prod.fst then none
        else discoverLoop identifier files rest (catalog ++ [(found, directory)])
    else discoverLoop identifier files rest catalog

/-- `_discover_extension_directories`: identifiers with their directories. -/
def discover (files : Files) : Option (List (Identifier × String)) :=
  discoverLoop identifier files (extensionNames files) []

section

variable {identifier : Content → Option Identifier} {files : Files}

theorem extensionDirectory?_eq_some {p : Path} {directory : String}
    (h : ∃ name, p = extensionPath directory ++ [name]) :
    extensionDirectory? p = some directory := by
  obtain ⟨name, rfl⟩ := h
  rfl

theorem mem_extensionNames_of_isCandidate {directory : String}
    (h : isCandidate files directory = true) : directory ∈ extensionNames files := by
  have hfile : ∃ p ∈ files.map Prod.fst, extensionDirectory? p = some directory := by
    rw [isCandidate, Bool.and_eq_true, Bool.or_eq_true] at h
    rcases h.2 with hmanif | hentry
    · exact ⟨_, read_isSome.mp hmanif, extensionDirectory?_eq_some ⟨_, rfl⟩⟩
    · exact ⟨_, read_isSome.mp hentry, extensionDirectory?_eq_some ⟨_, rfl⟩⟩
  obtain ⟨p, hp, hdir⟩ := hfile
  obtain ⟨e, he, rfl⟩ := mem_map.mp hp
  rw [extensionNames, (perm_insertionSort _ _).mem_iff, mem_dedup]
  exact mem_filterMap.mpr ⟨e, he, hdir⟩

theorem nodup_extensionNames (files : Files) : (extensionNames files).Nodup :=
  (perm_insertionSort _ _).nodup_iff.mpr (nodup_dedup _)

variable {names : List String} {catalog : List (Identifier × String)}

variable {found : List (Identifier × String)} {e : Identifier × String}

theorem mem_discoverLoop (h : discoverLoop identifier files names catalog = some found) :
    e ∈ found ↔ e ∈ catalog ∨ (e.2 ∈ names ∧ isCandidate files e.2 = true ∧
      identityAt identifier files e.2 = some e.1) := by
  induction names generalizing catalog with
  | nil =>
    cases h
    simp
  | cons directory rest ih =>
    rw [discoverLoop] at h
    split at h
    · next hcandidate =>
      split at h
      · cases h
      next i hi =>
      split at h
      · cases h
      rw [ih h, mem_append, mem_singleton, mem_cons]
      constructor
      · rintro ((he | rfl) | ⟨he, hrest⟩)
        · exact Or.inl he
        · exact Or.inr ⟨Or.inl rfl, hcandidate, hi⟩
        · exact Or.inr ⟨Or.inr he, hrest⟩
      · rintro (he | ⟨rfl | he, hrest⟩)
        · exact Or.inl (Or.inl he)
        · have hident : i = e.1 := Option.some.inj (hi.symm.trans hrest.2)
          exact Or.inl (Or.inr (by rw [hident]))
        · exact Or.inr ⟨he, hrest⟩
    · next hcandidate =>
      rw [ih h, mem_cons]
      constructor
      · rintro (he | ⟨he, hrest⟩)
        · exact Or.inl he
        · exact Or.inr ⟨Or.inr he, hrest⟩
      · rintro (he | ⟨rfl | he, hrest⟩)
        · exact Or.inl he
        · exact absurd hrest.1 hcandidate
        · exact Or.inr ⟨he, hrest⟩

theorem nodup_discoverLoop
    (h : discoverLoop identifier files names catalog = some found) (hnames : names.Nodup)
    (hids : (catalog.map Prod.fst).Nodup) (hdirs : (catalog.map Prod.snd).Nodup)
    (hnew : ∀ e ∈ catalog, e.2 ∉ names) :
    (found.map Prod.fst).Nodup ∧ (found.map Prod.snd).Nodup := by
  induction names generalizing catalog with
  | nil =>
    cases h
    exact ⟨hids, hdirs⟩
  | cons directory rest ih =>
    rw [nodup_cons] at hnames
    have hrest : ∀ e ∈ catalog, e.2 ∉ rest :=
      fun e he hmem => hnew e he (mem_cons_of_mem _ hmem)
    rw [discoverLoop] at h
    split at h
    · split at h
      · cases h
      · next i _ =>
        split at h
        · cases h
        next hi =>
        refine ih h hnames.2 ?_ ?_ ?_
        · rw [map_append, nodup_append]
          refine ⟨hids, nodup_singleton _, ?_⟩
          rintro a ha b hb rfl
          rw [map_singleton, mem_singleton] at hb
          have hai : a = i := hb
          exact hi (hai ▸ ha)
        · rw [map_append, nodup_append]
          refine ⟨hdirs, nodup_singleton _, ?_⟩
          rintro a ha b hb rfl
          rw [map_singleton, mem_singleton] at hb
          obtain ⟨e, he, rfl⟩ := mem_map.mp ha
          exact hnew e he (by rw [hb]; exact mem_cons_self)
        · intro e he
          rcases mem_append.mp he with he | he
          · exact hrest e he
          · obtain rfl := mem_singleton.mp he
            exact hnames.1
    · exact ih h hnames.2 hids hdirs hrest

theorem discoverLoop_isSome (hnames : names.Nodup)
    (hident : ∀ d ∈ names, isCandidate files d = true →
      ∃ i, identityAt identifier files d = some i ∧ i ∉ catalog.map Prod.fst)
    (hown : ∀ d ∈ names, ∀ d' ∈ names, isCandidate files d = true → isCandidate files d' = true →
      identityAt identifier files d = identityAt identifier files d' → d = d') :
    ∃ found, discoverLoop identifier files names catalog = some found := by
  induction names generalizing catalog with
  | nil => exact ⟨catalog, rfl⟩
  | cons directory rest ih =>
    rw [nodup_cons] at hnames
    have hlater : ∀ d ∈ rest, ∀ d' ∈ rest, isCandidate files d = true →
        isCandidate files d' = true →
        identityAt identifier files d = identityAt identifier files d' → d = d' :=
      fun d hd d' hd' => hown d (mem_cons_of_mem _ hd) d' (mem_cons_of_mem _ hd')
    rw [discoverLoop]
    split
    · next hcandidate =>
      obtain ⟨i, hi, hfresh⟩ := hident directory mem_cons_self hcandidate
      rw [hi]
      show ∃ found, (if i ∈ catalog.map Prod.fst then none else _) = some found
      rw [if_neg hfresh]
      refine ih hnames.2 ?_ hlater
      intro d hd hd'
      obtain ⟨j, hj, hjfresh⟩ := hident d (mem_cons_of_mem _ hd) hd'
      refine ⟨j, hj, ?_⟩
      rw [map_append, mem_append, map_singleton, mem_singleton]
      rintro (hmem | rfl)
      · exact hjfresh hmem
      have heq : directory = d := hown directory mem_cons_self d
        (mem_cons_of_mem _ hd) hcandidate hd' (hi.trans hj.symm)
      exact hnames.1 (heq ▸ hd)
    · exact ih hnames.2 (fun d hd => hident d (mem_cons_of_mem _ hd)) hlater

variable (h : discover identifier files = some catalog)

include h

theorem mem_discover :
    e ∈ catalog ↔ isCandidate files e.2 = true ∧ identityAt identifier files e.2 = some e.1 := by
  rw [mem_discoverLoop h]
  constructor
  · rintro (he | ⟨-, hrest⟩)
    · cases he
    · exact hrest
  · intro hrest
    exact Or.inr ⟨mem_extensionNames_of_isCandidate hrest.1, hrest⟩

theorem nodup_discover :
    (catalog.map Prod.fst).Nodup ∧ (catalog.map Prod.snd).Nodup :=
  nodup_discoverLoop h (nodup_extensionNames files) nodup_nil nodup_nil
    (fun _ he => nomatch he)

theorem exists_mem_of_isCandidate {d : String}
    (hcandidate : isCandidate files d = true) : ∃ i, (i, d) ∈ catalog := by
  -- a cand without an identifier would have stopped the loop
  have hloop : ∀ names (sofar : List (Identifier × String)), d ∈ names →
      discoverLoop identifier files names sofar = some catalog →
      ∃ i, identityAt identifier files d = some i := by
    intro names
    induction names with
    | nil => exact fun _ hd => nomatch hd
    | cons directory rest ih =>
      intro sofar hd hfound
      rw [discoverLoop] at hfound
      split at hfound
      · split at hfound
        · cases hfound
        · next i hi =>
          split at hfound
          · cases hfound
          rcases mem_cons.mp hd with rfl | hd
          · exact ⟨i, hi⟩
          · exact ih _ hd hfound
      · next hnot =>
        rcases mem_cons.mp hd with rfl | hd
        · exact absurd hcandidate hnot
        · exact ih _ hd hfound
  obtain ⟨i, hi⟩ := hloop _ _ (mem_extensionNames_of_isCandidate hcandidate) h
  exact ⟨i, (mem_discover h).mpr ⟨hcandidate, hi⟩⟩

omit h

theorem exists_discover
    (hident : ∀ d, isCandidate files d = true → ∃ i, identityAt identifier files d = some i)
    (hown : ∀ d d' i, isCandidate files d = true → isCandidate files d' = true →
      identityAt identifier files d = some i → identityAt identifier files d' = some i → d = d') :
    ∃ catalog, discover identifier files = some catalog := by
  refine discoverLoop_isSome (nodup_extensionNames files) ?_ ?_
  · intro d _ hd
    obtain ⟨i, hi⟩ := hident d hd
    exact ⟨i, hi, not_mem_nil⟩
  · intro d _ d' _ hd hd' heq
    obtain ⟨i, hi⟩ := hident d hd
    exact hown d d' i hd hd' hi (heq ▸ hi)

end

/-! ### Releases and snapshots -/

def pyprojectPath : Path := ["pyproject.toml"]

def mainPath : Path := ["src", "main.py"]

def configSamplePath : Path := ["src", "config.toml.sample"]

def requiredReleaseFiles : List Path :=
  [pyprojectPath, ["uv.lock"], ["src", "alembic.ini"], configSamplePath, mainPath]

/-- A release: the files of its manifest with their contents, the extensions it manages and the
head of its migrations.  Its files were read from a directory, so no path is another's directory.
A manifest may spell a digest with capital letters; `capitals` are the paths where it does. -/
structure Release where
  files : Files
  capitals : List Path
  managedExtensions : List Identifier
  head : String
  files_nodup : (files.map Prod.fst).Nodup
  files_apart : ∀ p ∈ files.map Prod.fst, ∀ q ∈ files.map Prod.fst, p ≠ q → Apart p q
  required : ∀ p ∈ requiredReleaseFiles, p ∈ files.map Prod.fst

namespace Release

def paths (release : Release) : List Path := release.files.map Prod.fst

end Release

/-- What the commands take from outside the deployment: the release with a given identifier, the
identifier a `manifest.toml` declares, and the configuration that `sync_config_template` makes of
one and a sample. -/
structure Environment where
  release : ReleaseId → Release
  identifier : Content → Option Identifier
  syncConfig : Content → Option Content → Option Content

/-- The state kept with a stored release: the configuration and the third-party extensions. -/
structure Snapshot (env : Environment) (id : ReleaseId) where
  config : Content
  extensions : Files
  catalog : List (Identifier × String)
  readable : discover env.identifier extensions = some catalog
  thirdParty : ∀ e ∈ catalog, e.1 ∉ (env.release id).managedExtensions

def thirdPartyDirectories (release : Release) (catalog : List (Identifier × String)) :
    List String :=
  (catalog.filter fun e => decide (e.1 ∉ release.managedExtensions)).map Prod.snd

def inDirectories (directories : List String) (p : Path) : Bool :=
  directories.any fun directory => decide (extensionPath directory <+: p)

def thirdPartyFiles (release : Release) (catalog : List (Identifier × String)) (files : Files) :
    Files :=
  remove (fun p => !inDirectories (thirdPartyDirectories release catalog) p) files

variable {directory : String}

theorem mem_thirdPartyDirectories {release : Release} {catalog : List (Identifier × String)} :
    directory ∈ thirdPartyDirectories release catalog ↔
      ∃ i, (i, directory) ∈ catalog ∧ i ∉ release.managedExtensions := by
  simp only [thirdPartyDirectories, mem_map, mem_filter, decide_eq_true_eq]
  constructor
  · rintro ⟨⟨i, d⟩, ⟨hmem, hi⟩, rfl⟩
    exact ⟨i, hmem, hi⟩
  · rintro ⟨i, hmem, hi⟩
    exact ⟨(i, directory), ⟨hmem, hi⟩, rfl⟩

variable {p : Path} {d : String}

theorem extensionPath_prefix_inj {d' : String} (h : extensionPath d <+: p)
    (h' : extensionPath d' <+: p) : d = d' := by
  have hlen : (extensionPath d).length = (extensionPath d').length := rfl
  have heq : extensionPath d = extensionPath d' :=
    (prefix_of_prefix_length_le h h' hlen.le).eq_of_length hlen
  exact (cons.inj (append_cancel_left heq)).1

variable {directories : List String}

theorem inDirectories_iff :
    inDirectories directories p = true ↔ ∃ d ∈ directories, extensionPath d <+: p := by
  simp [inDirectories]

theorem inDirectories_iff_mem (h : extensionPath d <+: p) :
    inDirectories directories p = true ↔ d ∈ directories := by
  rw [inDirectories_iff]
  constructor
  · rintro ⟨d', hd', hp⟩
    exact extensionPath_prefix_inj hp h ▸ hd'
  · intro hd
    exact ⟨d, hd, h⟩

variable {files : Files}

theorem candidate_congr {files' : Files}
    (h : ∀ p, extensionPath directory <+: p → read files p = read files' p) :
    isCandidate files directory = isCandidate files' directory ∧
      identityAt identifier files directory = identityAt identifier files' directory := by
  have hmanif := h (manifestPath directory) ⟨_, rfl⟩
  have hentry := h (entrypointPath directory) ⟨_, rfl⟩
  unfold isCandidate identityAt
  rw [hmanif, hentry]
  exact ⟨rfl, rfl⟩

theorem isCandidate_eq_false (h : ∀ p, extensionPath directory <+: p → read files p = none) :
    isCandidate files directory = false := by
  rw [isCandidate, h (manifestPath directory) ⟨_, rfl⟩, h (entrypointPath directory) ⟨_, rfl⟩]
  simp

section

variable {release : Release} {catalog : List (Identifier × String)} {files : Files}

theorem read_thirdPartyFiles {directory : String} {p : Path} (h : extensionPath directory <+: p) :
    read (thirdPartyFiles release catalog files) p =
      if directory ∈ thirdPartyDirectories release catalog then read files p else none := by
  rw [thirdPartyFiles, read_remove]
  by_cases hmem : directory ∈ thirdPartyDirectories release catalog
  · rw [if_pos hmem, (inDirectories_iff_mem h).mpr hmem]
    rfl
  · have hnot : inDirectories (thirdPartyDirectories release catalog) p = false :=
      Bool.not_eq_true _ ▸ mt (inDirectories_iff_mem h).mp hmem
    rw [if_neg hmem, hnot]
    rfl

theorem thirdPartyFiles_readable (release : Release) {identifier : Content → Option Identifier}
    (h : discover identifier files = some catalog) :
    ∃ found, discover identifier (thirdPartyFiles release catalog files) = some found ∧
      ∀ e ∈ found, e.1 ∉ release.managedExtensions := by
  have hcandidate : ∀ d, isCandidate (thirdPartyFiles release catalog files) d = true →
      d ∈ thirdPartyDirectories release catalog ∧ isCandidate files d = true ∧
        identityAt identifier (thirdPartyFiles release catalog files) d =
          identityAt identifier files d := by
    intro d hd
    by_cases hmem : d ∈ thirdPartyDirectories release catalog
    · have hsame : ∀ p, extensionPath d <+: p →
          read (thirdPartyFiles release catalog files) p = read files p :=
        fun p hp => (read_thirdPartyFiles hp).trans (if_pos hmem)
      have hcongr := candidate_congr identifier hsame
      exact ⟨hmem, hcongr.1 ▸ hd, hcongr.2⟩
    · rw [isCandidate_eq_false fun p hp => (read_thirdPartyFiles hp).trans (if_neg hmem)] at hd
      cases hd
  have hentry : ∀ d, isCandidate (thirdPartyFiles release catalog files) d = true →
      ∃ i, identityAt identifier (thirdPartyFiles release catalog files) d = some i ∧
        (i, d) ∈ catalog ∧ i ∉ release.managedExtensions := by
    intro d hd
    obtain ⟨hmem, -, hident⟩ := hcandidate d hd
    obtain ⟨i, hi, hthird⟩ := mem_thirdPartyDirectories.mp hmem
    exact ⟨i, hident.trans ((mem_discover h).mp hi).2, hi, hthird⟩
  have hread : ∃ found, discover identifier (thirdPartyFiles release catalog files) =
      some found := by
    refine exists_discover ?_ ?_
    · exact fun d hd => (hentry d hd).imp fun _ hi => hi.1
    intro d d' i hd hd' hi hi'
    obtain ⟨j, hj, hjmem, -⟩ := hentry d hd
    obtain ⟨j', hj', hjmem', -⟩ := hentry d' hd'
    obtain rfl : i = j := Option.some.inj (hi.symm.trans hj)
    obtain rfl : i = j' := Option.some.inj (hi'.symm.trans hj')
    exact (Prod.mk.inj (inj_on_of_nodup_map (nodup_discover h).1 hjmem hjmem' rfl)).2
  obtain ⟨found, hfound⟩ := hread
  refine ⟨found, hfound, ?_⟩
  intro e he
  obtain ⟨hcand, hident⟩ := (mem_discover hfound).mp he
  obtain ⟨i, hi, -, hthird⟩ := hentry e.2 hcand
  obtain rfl : e.1 = i := Option.some.inj (hident.symm.trans hi)
  exact hthird

end

end Cfms.Deployment
