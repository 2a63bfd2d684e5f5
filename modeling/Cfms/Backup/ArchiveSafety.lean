import Cfms.Backup.ArchiveValidation

/-!
# An accepted archive stays in its place

A manifest and a tree that pass the checks fit together: the regular files of the tree are the files
that the manifest lists, each of them once (`accepted_archive`).  No path of an accepted archive leads
out of a directory that it is joined to, and no two entries have the same paths, however their
letters are cased.

The check of the manifest lets an archive path end with a slash; such a path is the path of no file,
so that the tree is not accepted then.
-/

namespace Cfms.Backup

open Lib Lib.Fallible Lib.Paths List

@[simp] theorem require_ok_iff {condition : Prop} [Decidable condition] {error : ArchiveError}
    {u : Unit} : require condition error = .ok u ↔ condition := by
  rw [require]
  split <;> simp [*]

@[simp] theorem expect_ok_iff {α : Type} {error : ArchiveError} {x : Option α} {a : α} :
    expect error x = .ok a ↔ x = some a := by
  cases x <;> simp [expect]

/-! ### Safe paths -/

structure IsSafe (path : List Char) : Prop where
  relative : isRelative path = true
  plain : ∀ part ∈ components path, isPlain part = true

/-- A path strictly below a directory. -/
def LiesBelow (root path : List Component) : Prop :=
  ∃ parts, parts ≠ [] ∧ (∀ part ∈ parts, isPlain part = true) ∧ resolve path = resolve root ++ parts

variable {path : List Char}

theorem IsSafe.liesBelow (h : IsSafe path) (root : List Component) :
    LiesBelow root (joinpath root path) := by
  obtain ⟨hresolve, hne⟩ := resolve_joinpath root h.relative h.plain
  exact ⟨_, hne, h.plain, hresolve⟩

variable {archivePath : String}

theorem archivePathParts_ok {parts : List Component}
    (h : archivePathParts archivePath = .ok parts) :
    isRelative archivePath.toList = true ∧ parts = components (removeSlash archivePath.toList) ∧
      ∀ part ∈ parts, isPlain part = true := by
  rw [archivePathParts] at h
  by_cases hparts : (isRelative archivePath.toList &&
      (components (removeSlash archivePath.toList)).all isPlain) = true
  · rw [if_pos hparts] at h
    cases h
    rw [Bool.and_eq_true, all_eq_true] at hparts
    exact ⟨hparts.1, rfl, hparts.2⟩
  · rw [if_neg hparts] at h
    cases h

theorem safePayloadPath_ok {root target : List Component}
    (h : safePayloadPath root archivePath = .ok target) : LiesBelow root target := by
  obtain ⟨parts, hparts, htgt⟩ := exists_of_bind_eq_ok h
  obtain ⟨-, hcomps, hplain⟩ := archivePathParts_ok hparts
  have hbelow : target = root ++ parts := by
    dsimp only at htgt
    split at htgt
    · exact (Except.ok.inj htgt).symm
    · cases htgt
  refine ⟨parts, ?_, hplain, hbelow ▸ resolve_append hplain⟩
  rw [hcomps]
  exact components_ne_nil _

theorem exists_mem_components {c : Char} (hc : c ∈ path) (hslash : c ≠ '/') :
    ∃ part ∈ components path, c ∈ part := by
  have hjoin : c ∈ join (components path) := (join_components path).symm ▸ hc
  generalize components path = parts at hjoin
  induction parts with
  | nil => exact absurd hjoin not_mem_nil
  | cons part rest ih =>
    cases rest with
    | nil => exact ⟨part, mem_cons_self, by simpa [join] using hjoin⟩
    | cons next rest =>
      rw [join, intercalate_cons_cons, mem_append, mem_append, mem_singleton] at hjoin
      rcases hjoin with (hpart | hsep) | hrest
      · exact ⟨part, mem_cons_self, hpart⟩
      · exact absurd hsep hslash
      · obtain ⟨other, hother, hmem⟩ := ih hrest
        exact ⟨other, mem_cons_of_mem part hother, hmem⟩

theorem isSafe_of_isSafeStoragePath {path : String} (h : isSafeStoragePath path = true) :
    IsSafe path.toList := by
  simp only [isSafeStoragePath, Bool.and_eq_true, bne_iff_ne, all_eq_true] at h
  obtain ⟨⟨⟨⟨hempty, hbackslash⟩, hnull⟩, hhead⟩, hparts⟩ := h
  have hplain : ∀ part ∈ components path.toList, isPlain part = true := by
    intro part hpart
    simpa [isPlain] using hparts part hpart
  have hcolon : ':' ∉ path.toList := by
    intro hmem
    obtain ⟨part, hpart, hin⟩ := exists_mem_components hmem (by decide)
    have := hplain part hpart
    simp [isPlain, hin] at this
  refine ⟨?_, hplain⟩
  have hdrive : hasDrive path.toList = false := by
    rw [hasDrive, Bool.or_eq_false_iff]
    constructor
    · rw [beq_eq_false_iff_ne]
      exact fun hsnd => hcolon (mem_of_getElem? hsnd)
    · rw [Bool.eq_false_iff]
      intro hshare
      obtain ⟨rest, hrest⟩ := isPrefixOf_iff_prefix.mp hshare
      exact hhead (by rw [← hrest]; rfl)
  simp only [isRelative, Bool.and_eq_true, bne_iff_ne, Bool.not_eq_true']
  simp only [Bool.not_eq_true'] at hempty hbackslash hnull
  exact ⟨⟨⟨⟨hempty, hbackslash⟩, hnull⟩, hdrive⟩, hhead⟩

/-! ### The files of a manifest -/

section

variable (folding : CaseFolding) (extensionTables : List (String × String))

/-- What `checkFile` has checked of an entry on its own. -/
structure IsAccepted (entry : FileEntry) : Prop where
  storage : IsSafe entry.storagePath.toList
  relative : isRelative entry.archivePath.toList = true
  plain : ∀ part ∈ components (removeSlash entry.archivePath.toList), isPlain part = true
  inFiles : ∃ name, removeSlash entry.archivePath.toList = "files/".toList ++ name

def foldedStoragePath (entry : FileEntry) : List Char := folding.casefold entry.storagePath.toList

def foldedArchivePath (entry : FileEntry) : List Char := folding.casefold entry.archivePath.toList

/-- The entries seen so far, the last one first. -/
structure Seen (values : List Json) (seen : SeenFiles) (entries : List FileEntry) : Prop where
  values : values.map parseFile? = entries.map some
  accepted : ∀ entry ∈ entries, IsAccepted entry
  storagePaths : seen.storagePaths = (entries.map (foldedStoragePath folding)).reverse
  archivePaths : seen.archivePaths = (entries.map (foldedArchivePath folding)).reverse
  storageNodup : (entries.map (foldedStoragePath folding)).Nodup
  archiveNodup : (entries.map (foldedArchivePath folding)).Nodup

variable {folding extensionTables}

theorem nodup_map_append {α β : Type*} {f : α → β} {as : List α} {a : α} (h : (as.map f).Nodup)
    (ha : f a ∉ as.map f) : ((as ++ [a]).map f).Nodup := by
  rw [map_append, map_singleton, ← concat_eq_append]
  exact h.concat ha

theorem isAccepted_of_checks {entry : FileEntry} {parts : List Component}
    (hstorage : isSafeStoragePath entry.storagePath = true)
    (hparts : archivePathParts entry.archivePath = .ok parts)
    (hfiles : parts.length = 2 ∧ parts[0]? = some "files".toList) : IsAccepted entry := by
  obtain ⟨hrel, hcomps, hplain⟩ := archivePathParts_ok hparts
  refine ⟨isSafe_of_isSafeStoragePath hstorage, hrel, hcomps ▸ hplain, ?_⟩
  have hjoin : join parts = removeSlash entry.archivePath.toList := by
    rw [hcomps, join_components]
  match parts, hfiles with
  | [first, name], ⟨_, hfirst⟩ =>
    have hname : first = "files".toList := Option.some.inj hfirst
    refine ⟨name, ?_⟩
    rw [← hjoin, hname, join, intercalate_cons_cons, intercalate_singleton]
    rfl

theorem seen_checkFile {values : List Json} {seen seen' : SeenFiles}
    {value : Json} (h : ∃ entries, Seen folding values seen entries)
    (hcheck : checkFile folding seen value = .ok seen') :
    ∃ entries, Seen folding (values ++ [value]) seen' entries := by
  obtain ⟨entries, h⟩ := h
  obtain ⟨entry, hentry, hcheck⟩ := exists_of_bind_eq_ok hcheck
  obtain ⟨_, hstorage, hcheck⟩ := exists_of_bind_eq_ok hcheck
  obtain ⟨parts, hparts, hcheck⟩ := exists_of_bind_eq_ok hcheck
  obtain ⟨_, hfiles, hcheck⟩ := exists_of_bind_eq_ok hcheck
  obtain ⟨_, -, hcheck⟩ := exists_of_bind_eq_ok hcheck
  obtain ⟨_, hpaths, hcheck⟩ := exists_of_bind_eq_ok hcheck
  rw [require_ok_iff, h.storagePaths, h.archivePaths, mem_reverse, mem_reverse] at hpaths
  cases hcheck
  refine ⟨entries ++ [entry], ?_, ?_, ?_, ?_, ?_, ?_⟩
  · rw [map_append, map_append, h.values, map_singleton, map_singleton, expect_ok_iff.mp hentry]
  · intro other hother
    rcases mem_append.mp hother with hother | hother
    · exact h.accepted other hother
    · rw [mem_singleton.mp hother]
      exact isAccepted_of_checks (require_ok_iff.mp hstorage) hparts (require_ok_iff.mp hfiles)
  · simp [h.storagePaths, foldedStoragePath]
  · simp [h.archivePaths, foldedArchivePath]
  · exact nodup_map_append h.storageNodup hpaths.1
  · exact nodup_map_append h.archiveNodup hpaths.2

theorem validateManifest_ok {manifest : ManifestFields}
    (h : validateManifest folding extensionTables manifest = .ok ()) :
    (∃ values, manifest.get "files" = .array values ∧
        values.map parseFile? = (listedFiles manifest).map some) ∧
      (∀ entry ∈ listedFiles manifest, IsAccepted entry) ∧
      ((listedFiles manifest).map (foldedStoragePath folding)).Nodup ∧
      ((listedFiles manifest).map (foldedArchivePath folding)).Nodup := by
  obtain ⟨tables, -, h⟩ := exists_of_bind_eq_ok h
  obtain ⟨values, hvals, h⟩ := exists_of_bind_eq_ok h
  obtain ⟨configuration, -, h⟩ := exists_of_bind_eq_ok h
  obtain ⟨_, -, h⟩ := exists_of_bind_eq_ok h
  obtain ⟨_, -, h⟩ := exists_of_bind_eq_ok h
  obtain ⟨_, -, h⟩ := exists_of_bind_eq_ok h
  obtain ⟨_, -, h⟩ := exists_of_bind_eq_ok h
  obtain ⟨_, -, h⟩ := exists_of_bind_eq_ok h
  obtain ⟨missing, -, h⟩ := exists_of_bind_eq_ok h
  obtain ⟨_, -, h⟩ := exists_of_bind_eq_ok h
  obtain ⟨seen, hseen, -⟩ := exists_of_bind_eq_ok h
  obtain ⟨entries, hents⟩ := foldlM_relates
    (R := fun values seen => ∃ entries, Seen folding values seen entries)
    (fun _ _ _ _ => seen_checkFile)
    ⟨[], rfl, fun _ hnil => absurd hnil not_mem_nil, rfl, rfl, nodup_nil, nodup_nil⟩
    hseen
  have hfiles : manifest.get "files" = .array values := by
    have hexp := expect_ok_iff.mp hvals
    cases hget : manifest.get "files" <;> rw [hget] at hexp <;> cases hexp
    rfl
  have hlisted : listedFiles manifest = entries := by
    rw [listedFiles, hfiles]
    show values.filterMap parseFile? = entries
    calc values.filterMap parseFile? = (values.map parseFile?).filterMap id := by
          rw [filterMap_map]
          rfl
      _ = (entries.map some).filterMap id := by rw [hents.values]
      _ = entries := by
          rw [filterMap_map]
          exact filterMap_some
  rw [hlisted]
  exact ⟨⟨values, hfiles, hents.values⟩, hents.accepted, hents.storageNodup, hents.archiveNodup⟩

end

/-! ### The files of a tree -/

def Entries.files (path : List Component) : Entries → List (List Component)
  | .nil => []
  | .file name rest => (path ++ [name.text]) :: rest.files path
  | .link _ rest | .special _ rest => rest.files path
  | .directory name contents rest => contents.files (path ++ [name.text]) ++ rest.files path

def pendingFiles (pending : List (List Component × Entries)) : List (List Char) :=
  pending.flatMap fun (path, entries) => (entries.files path).map join

section

variable {directories : List (List Char)} {path : List Component} {entries : Entries}
  {remaining remaining' : List (List Char)} (pending : List (List Component × Entries))

theorem pendingFiles_cons : pendingFiles ((path, entries) :: pending) =
    (entries.files path).map join ++ pendingFiles pending := rfl

/-- The files of a directory that has been scanned are checked off, or are below a directory that
is pending. -/
theorem scan_files (h : scan directories path entries remaining = .ok remaining') :
    ∃ found, remaining.Perm (found ++ remaining') ∧
      ((entries.files path).map join ++ pendingFiles pending).Perm
        (found ++ pendingFiles (subdirectories path entries pending)) := by
  induction entries generalizing remaining pending with
  | nil =>
    cases h
    exact ⟨[], .refl _, .refl _⟩
  | link name rest ih | special name rest ih => cases h
  | file name rest ih =>
    rw [scan] at h
    by_cases hmem : join (path ++ [name.text]) ∈ remaining
    · rw [if_pos hmem] at h
      obtain ⟨found, hrem, hfiles⟩ := ih pending h
      refine ⟨join (path ++ [name.text]) :: found, ?_, ?_⟩
      · exact (perm_cons_erase hmem).trans (hrem.cons _)
      · exact hfiles.cons _
    · rw [if_neg hmem] at h
      cases h
  | directory name contents rest _ ih =>
    rw [scan] at h
    by_cases hmem : join (path ++ [name.text]) ∈ directories
    · rw [if_pos hmem] at h
      obtain ⟨found, hrem, hfiles⟩ :=
        ih ((path ++ [name.text], contents) :: pending) h
      refine ⟨found, hrem, .trans ?_ hfiles⟩
      rw [Entries.files, map_append, pendingFiles_cons, ← append_assoc]
      exact perm_append_comm.append_right _
    · rw [if_neg hmem] at h
      cases h

theorem walk_files (h : walk directories pending remaining = .ok remaining') :
    remaining.Perm (pendingFiles pending ++ remaining') := by
  induction pending, remaining using walk.induct directories with
  | case1 remaining =>
    rw [walk] at h
    cases h
    exact .refl _
  | case2 path entries pending remaining error hscan =>
    rw [walk, hscan] at h
    cases h
  | case3 path entries pending remaining scanned hscan ih =>
    rw [walk, hscan] at h
    obtain ⟨found, hrem, hfiles⟩ := scan_files pending hscan
    calc List.Perm remaining (found ++ scanned) := hrem
      List.Perm _ (found ++ (pendingFiles (subdirectories path entries pending) ++ remaining')) :=
        (ih h).append_left found
      List.Perm _ (((entries.files path).map join ++ pendingFiles pending) ++ remaining') := by
        rw [← append_assoc]
        exact hfiles.symm.append_right remaining'

theorem components_of_mem_files (hpath : SlashFree path ∧ [] ∉ path) {file : List Component}
    (h : file ∈ entries.files path) : components (join file) = file ∧ [] ∉ file := by
  have hbelow : ∀ (name : FileName) {path : List Component}, SlashFree path ∧ [] ∉ path →
      SlashFree (path ++ [name.text]) ∧ [] ∉ path ++ [name.text] := by
    intro name path hpath
    constructor
    · intro part hpart
      rcases mem_append.mp hpart with hpart | hpart
      · exact hpath.1 part hpart
      · exact mem_singleton.mp hpart ▸ name.slash
    · rw [mem_append, mem_singleton]
      exact not_or.mpr ⟨hpath.2, name.ne_nil.symm⟩
  induction entries generalizing path with
  | nil => exact absurd h not_mem_nil
  | file name rest ih =>
    rcases mem_cons.mp h with rfl | h
    · obtain ⟨hslash, hempty⟩ := hbelow name hpath
      exact ⟨components_join hslash (append_ne_nil_of_right_ne_nil _ (cons_ne_nil _ _)), hempty⟩
    · exact ih hpath h
  | link name rest ih | special name rest ih => exact ih hpath h
  | directory name contents rest ihcontents ih =>
    rcases mem_append.mp h with h | h
    · exact ihcontents (hbelow name hpath) h
    · exact ih hpath h

theorem validatePayloadTree_ok {manifest : ManifestFields} {root : Entries}
    (h : validatePayloadTree root manifest = .ok ()) :
    (expectedPaths manifest).dedup.Perm ((root.files []).map join) := by
  rw [validatePayloadTree] at h
  cases hwalk : walk (expectedDirectories manifest) [([], root)] (expectedPaths manifest).dedup with
  | error error =>
    rw [hwalk] at h
    cases h
  | ok remaining =>
    rw [hwalk] at h
    have hrem : remaining = [] := require_ok_iff.mp h
    have hfiles := walk_files _ hwalk
    rwa [hrem, append_nil, pendingFiles_cons, pendingFiles, flatMap_nil, append_nil] at hfiles

end

/-! ### Accepted archives -/

section

variable {folding : CaseFolding} {extensionTables : List (String × String)}
  {manifest : ManifestFields} {root : Entries}

variable {path : List Char}

theorem removeSlash_head (h : (removeSlash path).head? = some 'f') : path.head? = some 'f' := by
  rw [removeSlash] at h
  split at h
  · match path, h with
    | _ :: _ :: _, h => exact h
  · exact h

theorem IsAccepted.head {entry : FileEntry} (h : IsAccepted entry) :
    entry.archivePath.toList.head? = some 'f' := by
  obtain ⟨name, hname⟩ := h.inFiles
  apply removeSlash_head
  rw [hname]
  rfl

theorem tablePath_injective : Function.Injective tablePath := by
  intro name name' h
  exact String.toList_injective (append_cancel_left (append_cancel_right h))

theorem tablePath_head (name : String) : (tablePath name).head? = some 't' := rfl

theorem listedTables_nodup (manifest : ManifestFields) : (listedTables manifest).Nodup := by
  rw [listedTables]
  split
  · exact nodup_dedup _
  · exact nodup_nil

theorem expectedPaths_nodup (hents : ∀ entry ∈ listedFiles manifest, IsAccepted entry)
    (hnodup : ((listedFiles manifest).map fun entry => entry.archivePath.toList).Nodup) :
    (expectedPaths manifest).Nodup := by
  have htable : ∀ path ∈ (listedTables manifest).map tablePath, path.head? = some 't' := by
    intro path hpath
    obtain ⟨name, -, rfl⟩ := mem_map.mp hpath
    exact tablePath_head name
  have hfile : ∀ path ∈ (listedFiles manifest).map fun entry => entry.archivePath.toList,
      path.head? = some 'f' := by
    intro path hpath
    obtain ⟨entry, hentry, rfl⟩ := mem_map.mp hpath
    exact (hents entry hentry).head
  have hmanif : "manifest.json".toList.head? = some 'm' := rfl
  refine nodup_cons.mpr ⟨?_, nodup_append.mpr ⟨?_, hnodup, ?_⟩⟩
  · intro hmem
    rcases mem_append.mp hmem with hmem | hmem
    · exact absurd (hmanif.symm.trans (htable _ hmem)) (by simp)
    · exact absurd (hmanif.symm.trans (hfile _ hmem)) (by simp)
  · exact (listedTables_nodup manifest).map tablePath_injective
  · rintro path hpath _ hpath' rfl
    exact absurd ((htable path hpath).symm.trans (hfile path hpath')) (by simp)

theorem removeSlash_eq_self (h : [] ∉ components path) : removeSlash path = path := by
  rw [removeSlash]
  split
  next hlast =>
    obtain ⟨initial, hinit⟩ := getLast?_eq_some_iff.mp hlast
    refine absurd ?_ h
    rw [hinit, components_append]
    exact mem_append_right _ (mem_singleton.mpr rfl)
  next => rfl

theorem foldParts_components_ne {path' : List Char}
    (h : folding.casefold path ≠ folding.casefold path') :
    folding.foldParts (components path) ≠ folding.foldParts (components path') := by
  intro heq
  apply h
  rw [← join_components path, ← join_components path', CaseFolding.casefold_join,
    CaseFolding.casefold_join, heq]

theorem safeExtractTarXz_below {dir : List Component} {members : List TarMember}
    {extraction : Extraction}
    (h : safeExtractTarXz extensionTables dir members = .ok extraction) :
    extraction.extractedPaths.Nodup ∧
      ∀ target ∈ extraction.extractedPaths, LiesBelow dir target := by
  refine foldlM_preserves (P := fun state : Extraction => state.extractedPaths.Nodup ∧
      ∀ target ∈ state.extractedPaths, LiesBelow dir target) ?_
    ⟨nodup_nil, fun _ hnil => absurd hnil not_mem_nil⟩ h
  intro state member state' hstate hstep
  obtain ⟨_, -, hstep⟩ := exists_of_bind_eq_ok hstep
  obtain ⟨target, htgt, hstep⟩ := exists_of_bind_eq_ok hstep
  obtain ⟨_, hnew, hstep⟩ := exists_of_bind_eq_ok hstep
  have hpaths : state'.extractedPaths = target :: state.extractedPaths := by
    cases hkind : member.kind with
    | directory =>
      rw [hkind] at hstep
      cases hstep
      rfl
    | other =>
      rw [hkind] at hstep
      cases hstep
    | file =>
      rw [hkind] at hstep
      obtain ⟨_, -, hstep⟩ := exists_of_bind_eq_ok hstep
      obtain ⟨_, -, hstep⟩ := exists_of_bind_eq_ok hstep
      cases hstep
      rfl
  rw [hpaths]
  refine ⟨nodup_cons.mpr ⟨require_ok_iff.mp hnew, hstate.1⟩, ?_⟩
  intro other hother
  rcases mem_cons.mp hother with rfl | hother
  · exact safePayloadPath_ok htgt
  · exact hstate.2 other hother

/-- **An accepted archive stays in its place**: the files of the tree are the files that the manifest
lists, all paths lead below the directory they are joined to, and no two entries share a path. -/
theorem accepted_archive (hmanif : validateManifest folding extensionTables manifest = .ok ())
    (htree : validatePayloadTree root manifest = .ok ()) :
    (∃ values, manifest.get "files" = .array values ∧
        values.map parseFile? = (listedFiles manifest).map some) ∧
      (expectedPaths manifest).Nodup ∧
      ((root.files []).map join).Perm (expectedPaths manifest) ∧
      (∀ entry ∈ listedFiles manifest,
        ∀ path ∈ [entry.archivePath.toList, entry.storagePath.toList],
          IsSafe path ∧ ∀ dir, LiesBelow dir (joinpath dir path)) ∧
      ((listedFiles manifest).Pairwise fun entry entry' =>
        folding.foldParts (components entry.archivePath.toList) ≠
            folding.foldParts (components entry'.archivePath.toList) ∧
          folding.foldParts (components entry.storagePath.toList) ≠
            folding.foldParts (components entry'.storagePath.toList)) ∧
      ∀ dir members extraction, safeExtractTarXz extensionTables dir members = .ok extraction →
          extraction.extractedPaths.Nodup ∧
            ∀ target ∈ extraction.extractedPaths, LiesBelow dir target := by
  obtain ⟨hvals, hacc, hstorage, harchive⟩ := validateManifest_ok hmanif
  have hpaths : ((listedFiles manifest).map fun entry => entry.archivePath.toList).Nodup := by
    refine List.Nodup.of_map folding.casefold ?_
    rw [map_map]
    exact harchive
  have hnodup := expectedPaths_nodup hacc hpaths
  have hfiles := validatePayloadTree_ok htree
  rw [hnodup.dedup] at hfiles
  refine ⟨hvals, hnodup, hfiles.symm, ?_, ?_, fun _ _ _ => safeExtractTarXz_below⟩
  · intro entry hentry path hpath
    have hsafe : IsSafe path := by
      rcases mem_pair.mp hpath with rfl | rfl
      · -- the entry has a file, whose path has no empty component
        obtain ⟨file, hfile, hjoin⟩ := mem_map.mp (hfiles.subset
          (mem_cons_of_mem _ (mem_append_right _ (mem_map_of_mem hentry))))
        obtain ⟨hcomps, hempty⟩ := components_of_mem_files
          ⟨fun _ hnil => absurd hnil not_mem_nil, not_mem_nil⟩ hfile
        have hself := removeSlash_eq_self (by rwa [← hjoin, hcomps] :
          [] ∉ components entry.archivePath.toList)
        exact ⟨(hacc entry hentry).relative, hself ▸ (hacc entry hentry).plain⟩
      · exact (hacc entry hentry).storage
    exact ⟨hsafe, hsafe.liesBelow⟩
  · have harchive' := pairwise_map.mp harchive
    have hstorage' := pairwise_map.mp hstorage
    exact (harchive'.and hstorage').imp fun h =>
      ⟨foldParts_components_ne h.1, foldParts_components_ne h.2⟩

end

/-- An empty file. -/
def emptyFileEntry (id storagePath archivePath : String) : Json :=
  .object [("file_id", .string id), ("storage_path", .string storagePath),
    ("archive_path", .string archivePath), ("size", .int 0),
    ("sha256", .string "e3b0c44298fc1c149afbf4c8996fb92427ae41e4649b934ca495991b7852b855")]

def accountsManifest : ManifestFields :=
  [("format_version", .int 1), ("components", .array [.string "accounts"]),
    ("tables", .object [("users", .object [("rows", .int 0)])]),
    ("files", .array [emptyFileEntry "1" "content/1" "files/1",
      emptyFileEntry "2" "content/2" "files/2"])]

def accountsTree : Entries :=
  .directory ⟨"files".toList, by decide, by decide⟩
      (.file ⟨['1'], by decide, by decide⟩ (.file ⟨['2'], by decide, by decide⟩ .nil)) <|
    .file ⟨"manifest.json".toList, by decide, by decide⟩ <|
      .directory ⟨"tables".toList, by decide, by decide⟩
        (.file ⟨"users.jsonl".toList, by decide, by decide⟩ .nil) .nil

/-- Its files and its table are in their places. -/
theorem accountsManifest_accepted :
    List.Perm ((accountsTree.files []).map join) (expectedPaths accountsManifest) := by
  have hmanif : validateManifest asciiFolding [] accountsManifest = .ok () := by decide +kernel
  have htree : validatePayloadTree accountsTree accountsManifest = .ok () := by
    decide +kernel
  exact (accepted_archive hmanif htree).2.2.1

end Cfms.Backup
