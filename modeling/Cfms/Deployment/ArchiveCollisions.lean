import Cfms.Deployment.ArchiveMembers
import Cfms.Lib.Fallible

/-!
# Accepted archives have no collisions

The dictionary of a check holds the folded path of every member seen so far (`Tracks`), so the three
tests of `checkMember` are one test against these members: their paths differ, and neither is a file in
the way of the other.  This test is symmetric, hence the order of the members does not matter.
-/

namespace Cfms.Deployment

open Lib Lib.Fallible Lib.Paths List

variable {folding : CaseFolding}

/-! ### Names -/

variable {name : String} {parts : List Component}

theorem plainParts_eq_some (h : plainParts name = some parts) :
    isRelative name.toList = true ∧ parts = components (removeSlash name.toList) ∧
      ∀ part ∈ parts, isPlain part = true := by
  rw [plainParts] at h
  split at h
  next hparts =>
    cases h
    rw [Bool.and_eq_true, all_eq_true] at hparts
    exact ⟨hparts.1, rfl, hparts.2⟩
  next => cases h

theorem slashFree_of_plainParts
    (h : plainParts name = some parts) : SlashFree parts ∧ parts ≠ [] := by
  obtain ⟨-, rfl, -⟩ := plainParts_eq_some h
  exact ⟨slashFree_components _, components_ne_nil _⟩

/-! ### One member -/

def foldedEntry (folding : CaseFolding) (member : Member) : Entry Component :=
  (folding.foldParts ((plainParts member.name).getD []), member.isDirectory)

/-- The dictionary holds the entries. -/
structure Tracks (entries : List (Entry Component)) (check : MemberCheck) : Prop where
  slashFree : ∀ e ∈ entries, SlashFree e.1
  nonempty : ∀ e ∈ entries, e.1 ≠ []
  lookup : ∀ path kind, check.kinds.lookup path = some kind ↔
    ∃ e ∈ entries, join e.1 = path ∧ e.2 = kind

theorem tracks_empty : Tracks [] {} where
  slashFree _ h := absurd h not_mem_nil
  nonempty _ h := absurd h not_mem_nil
  lookup path kind := by
    constructor
    · exact fun h => nomatch h
    · rintro ⟨e, he, -⟩
      exact absurd he not_mem_nil

namespace Tracks

variable {entries : List (Entry Component)} {check : MemberCheck} {parts : List Component}

variable (h : Tracks entries check)

include h

theorem lookup_join (hslash : SlashFree parts) (hne : parts ≠ [])
    {kind : Bool} :
    check.kinds.lookup (join parts) = some kind ↔ (parts, kind) ∈ entries := by
  rw [h.lookup]
  constructor
  · rintro ⟨e, he, hjoin, rfl⟩
    rw [← join_injective (h.slashFree e he) hslash (h.nonempty e he) hne hjoin]
    exact he
  · exact fun he => ⟨_, he, rfl, rfl⟩

theorem isSome_lookup (hslash : SlashFree parts) (hne : parts ≠ []) :
    (check.kinds.lookup (join parts)).isSome = true ↔ ∃ e ∈ entries, e.1 = parts := by
  rw [Option.isSome_iff_exists]
  constructor
  · rintro ⟨kind, hkind⟩
    exact ⟨_, (h.lookup_join hslash hne).mp hkind, rfl⟩
  · rintro ⟨e, he, rfl⟩
    exact ⟨e.2, (h.lookup_join hslash hne).mpr he⟩

theorem hasFileParent_iff {original : List Component}
    (hslash : SlashFree original) :
    hasFileParent folding check.kinds original = true ↔
      ∃ e ∈ entries, e.2 = false ∧ e.1 <+: folding.foldParts original ∧
        e.1 ≠ folding.foldParts original := by
  rw [hasFileParent, any_eq_true]
  constructor
  · rintro ⟨index, hindex, hfile⟩
    rw [mem_range'_1] at hindex
    rw [beq_iff_eq, CaseFolding.casefold_join] at hfile
    have htake : SlashFree (original.take index) :=
      fun part hpart => hslash part (mem_of_mem_take hpart)
    have hne : original.take index ≠ [] := by
      intro hnil
      have hlen := congrArg length hnil
      rw [length_take, length_nil] at hlen
      omega
    have hmem := (h.lookup_join (CaseFolding.slashFree_foldParts htake)
      (CaseFolding.foldParts_ne_nil hne)).mp hfile
    refine ⟨_, hmem, rfl, ( take_prefix index original).map _, fun heq => ?_⟩
    have hlen := congrArg length heq
    simp only [CaseFolding.foldParts, length_map, length_take] at hlen
    omega
  · rintro ⟨e, he, hkind, hbegins, hdiff⟩
    have hlen := hbegins.length_le
    have hpos := length_pos_of_ne_nil (h.nonempty e he)
    have hlt : e.1.length < (folding.foldParts original).length := by
      refine lt_of_le_of_ne hlen fun heq => hdiff (hbegins.eq_of_length heq)
    rw [CaseFolding.foldParts, length_map] at hlt
    refine ⟨e.1.length, mem_range'_1.mpr (by omega), ?_⟩
    have hparts : folding.foldParts (original.take e.1.length) = e.1 := by
      rw [CaseFolding.foldParts, map_take]
      exact (prefix_iff_eq_take.mp hbegins).symm
    rw [beq_iff_eq, CaseFolding.casefold_join, hparts,
      h.lookup_join (h.slashFree e he) (h.nonempty e he), ← hkind]
    exact he

theorem any_startsWith_iff (hslash : SlashFree parts) (hne : parts ≠ []) :
    (check.kinds.any fun path _ => (join parts ++ ['/']).isPrefixOf path) = true ↔
      ∃ e ∈ entries, parts <+: e.1 ∧ parts ≠ e.1 := by
  rw [Table.any_iff]
  constructor
  · rintro ⟨path, kind, hlook, hbegins⟩
    obtain ⟨e, he, rfl, -⟩ := (h.lookup path kind).mp hlook
    rw [ isPrefixOf_iff_prefix] at hbegins
    exact ⟨e, he, (join_slash_prefix_iff hslash (h.slashFree e he) hne (h.nonempty e he)).mp hbegins⟩
  · rintro ⟨e, he, hbelow⟩
    refine ⟨join e.1, e.2, (h.lookup _ _).mpr ⟨e, he, rfl, rfl⟩, ?_⟩
    rw [ isPrefixOf_iff_prefix]
    exact (join_slash_prefix_iff hslash (h.slashFree e he) hne (h.nonempty e he)).mpr hbelow

theorem assign {e : Entry Component} (hslash : SlashFree e.1)
    (hne : e.1 ≠ []) (hfresh : ∀ other ∈ entries, other.1 ≠ e.1) {check' : MemberCheck}
    (hkinds : check'.kinds = check.kinds.assign (join e.1) e.2) : Tracks (entries ++ [e]) check' where
  slashFree other hother := by
    rcases mem_append.mp hother with hother | hother
    · exact h.slashFree other hother
    · rw [mem_singleton.mp hother]
      exact hslash
  nonempty other hother := by
    rcases mem_append.mp hother with hother | hother
    · exact h.nonempty other hother
    · rw [mem_singleton.mp hother]
      exact hne
  lookup path kind := by
    rw [hkinds, OrderedDict.lookup_assign]
    simp only [mem_append, mem_singleton]
    split
    next hpath =>
      subst hpath
      constructor
      · exact fun hkind => ⟨e, .inr rfl, rfl, Option.some.inj hkind⟩
      rintro ⟨other, hother | rfl, hjoin, hkind⟩
      · exact absurd (join_injective (h.slashFree other hother) hslash (h.nonempty other hother) hne
          hjoin) (hfresh other hother)
      · exact congrArg some hkind
    next hpath =>
      rw [h.lookup]
      constructor
      · rintro ⟨other, hother, hjoin⟩
        exact ⟨other, .inl hother, hjoin⟩
      · rintro ⟨other, hother | rfl, hjoin, hkind⟩
        · exact ⟨other, hother, hjoin, hkind⟩
        · exact absurd hjoin.symm hpath

end Tracks

variable {check check' : MemberCheck} {member : Member}

/-- **The three tests are one**: the member is compatible with those before it. -/
theorem checkMember_ok_iff {entries : List (Entry Component)} (h : Tracks entries check)
    (hparts : plainParts member.name = some parts) :
    checkMember folding check member parts = .ok check' ↔
      admits entries (foldedEntry folding member) = true ∧
        (member.isDirectory = false → check.totalSize + member.size ≤ maxUncompressedBytes) ∧
          check' = {
            roots := check.roots.insert (parts.headD [])
            kinds := check.kinds.assign (folding.casefold (join parts)) member.isDirectory
            totalSize := if member.isDirectory then check.totalSize
              else check.totalSize + member.size } := by
  obtain ⟨hslash, hne⟩ := slashFree_of_plainParts hparts
  have hfold : foldedEntry folding member = (folding.foldParts parts, member.isDirectory) := by
    rw [foldedEntry, hparts, Option.getD_some]
  have hslash' : SlashFree (folding.foldParts parts) := CaseFolding.slashFree_foldParts hslash
  have hne' : folding.foldParts parts ≠ [] := CaseFolding.foldParts_ne_nil hne
  rw [hfold, admits_iff, checkMember, CaseFolding.casefold_join]
  by_cases hdup : (check.kinds.lookup (join (folding.foldParts parts))).isSome = true
  · rw [if_pos hdup]
    refine iff_of_false nofun fun hok => ?_
    obtain ⟨e, he, heq⟩ := (h.isSome_lookup hslash' hne').mp hdup
    exact (hok.1 e he).path heq
  rw [if_neg hdup]
  by_cases hpar : hasFileParent folding check.kinds parts = true
  · rw [if_pos hpar]
    refine iff_of_false nofun fun hok => ?_
    obtain ⟨e, he, hfile, hbegins, -⟩ := (h.hasFileParent_iff hslash).mp hpar
    exact (hok.1 e he).file hfile hbegins
  rw [if_neg hpar]
  by_cases hbelow : (!member.isDirectory && check.kinds.any fun path _ =>
      (join (folding.foldParts parts) ++ ['/']).isPrefixOf path) = true
  · rw [if_pos hbelow]
    refine iff_of_false nofun fun hok => ?_
    rw [Bool.and_eq_true, Bool.not_eq_true'] at hbelow
    obtain ⟨e, he, hbegins, -⟩ := (h.any_startsWith_iff hslash' hne').mp hbelow.2
    exact (hok.1 e he).file' hbelow.1 hbegins
  rw [if_neg hbelow]
  by_cases hsize : (!member.isDirectory &&
      decide (maxUncompressedBytes < check.totalSize + member.size)) = true
  · rw [if_pos hsize]
    refine iff_of_false nofun fun hok => ?_
    rw [Bool.and_eq_true, Bool.not_eq_true', decide_eq_true_iff] at hsize
    exact absurd (hok.2.1 hsize.1) (not_le.mpr hsize.2)
  rw [if_neg hsize]
  have hadmits : ∀ e ∈ entries, Compatible e (folding.foldParts parts, member.isDirectory) := by
    intro e he
    have hpath : e.1 ≠ folding.foldParts parts :=
      fun heq => hdup ((h.isSome_lookup hslash' hne').mpr ⟨e, he, heq⟩)
    refine ⟨hpath, fun hfile hbegins => ?_, fun hfile hbegins => ?_⟩
    · exact hpar ((h.hasFileParent_iff hslash).mpr ⟨e, he, hfile, hbegins, hpath⟩)
    apply hbelow
    rw [Bool.and_eq_true, Bool.not_eq_true']
    exact ⟨hfile, (h.any_startsWith_iff hslash' hne').mpr ⟨e, he, hbegins, hpath.symm⟩⟩
  have hfits : member.isDirectory = false →
      check.totalSize + member.size ≤ maxUncompressedBytes := by
    intro hfile
    rw [Bool.and_eq_true, Bool.not_eq_true', decide_eq_true_iff, not_and, not_lt] at hsize
    exact hsize hfile
  rw [Except.ok.injEq, and_iff_right hadmits, and_iff_right hfits]
  exact eq_comm

/-! ### All members -/

/-- The name of every member is a relative path of plain components, the folded paths of any two
members differ, and none that is a file leads to another. -/
structure CollisionFree (folding : CaseFolding) (members : List Member) : Prop where
  plain : ∀ member ∈ members, isRelative member.name.toList = true ∧
    ∀ part ∈ components (removeSlash member.name.toList), isPlain part = true
  compatible : members.Pairwise fun member member' =>
    Compatible (foldedEntry folding member) (foldedEntry folding member')

def checkNamed (folding : CaseFolding) (check : MemberCheck) (member : Member) :
    Except ArchiveError MemberCheck :=
  (archiveParts member.name).bind fun parts => checkMember folding check member parts

theorem archiveParts_ok (h : archiveParts name = .ok parts) : plainParts name = some parts := by
  rw [archiveParts] at h
  split at h
  next hparts =>
    cases h
    exact hparts
  next => cases h

theorem archiveMemberPath_eq (name : String) : archiveMemberPath name = archiveParts name := rfl

/-- **Every loop of checks accepts archives without collisions only.** -/
theorem collisionFree_of_checkNamed {members : List Member}
    (h : members.foldlM (checkNamed folding) {} = .ok check) : CollisionFree folding members := by
  have hall : Tracks (members.map (foldedEntry folding)) check ∧ CollisionFree folding members := by
    refine foldlM_relates (R := fun seen state =>
      Tracks (seen.map (foldedEntry folding)) state ∧ CollisionFree folding seen) ?_ ?_ h
    · rintro seen member state state' ⟨htracks, hfree⟩ hstep
      obtain ⟨parts, hparts, hstep⟩ := exists_of_bind_eq_ok hstep
      have hplain := archiveParts_ok hparts
      obtain ⟨hadmits, -, hstate⟩ := (checkMember_ok_iff htracks hplain).mp hstep
      have hfold : foldedEntry folding member = (folding.foldParts parts, member.isDirectory) := by
        rw [foldedEntry, hplain, Option.getD_some]
      obtain ⟨hslash, hne⟩ := slashFree_of_plainParts hplain
      obtain ⟨hrel, hcomps, hparts⟩ := plainParts_eq_some hplain
      constructor
      · rw [map_append]
        refine htracks.assign ?_ ?_ (fun other hother => (admits_iff.mp hadmits other hother).path) ?_
        · rw [hfold]
          exact CaseFolding.slashFree_foldParts hslash
        · rw [hfold]
          exact CaseFolding.foldParts_ne_nil hne
        · rw [hstate, hfold, CaseFolding.casefold_join]
      · constructor
        · intro other hother
          rcases mem_append.mp hother with hother | hother
          · exact hfree.plain other hother
          · rw [mem_singleton.mp hother, ← hcomps]
            exact ⟨hrel, hparts⟩
        · have hpairwise := pairwise_compatible_append.mpr
            ⟨pairwise_map.mpr hfree.compatible, hadmits⟩
          rw [← map_singleton, ← map_append] at hpairwise
          exact pairwise_map.mp hpairwise
    · exact ⟨tracks_empty, fun _ h => absurd h not_mem_nil, .nil⟩
  exact hall.2

/-! ### The validators -/

theorem map_validatePath (state : MemberCheck × OrderedDict String (List Component))
    (member : Member) :
    (validatePath folding state member).map Prod.fst = checkNamed folding state.1 member := by
  rw [validatePath, checkNamed]
  cases archiveParts member.name with
  | error error => rfl
  | ok parts =>
    show Except.map Prod.fst ((checkMember folding state.1 member parts).bind _) =
      checkMember folding state.1 member parts
    cases checkMember folding state.1 member parts with
    | error error => rfl
    | ok check => rfl

variable {entries : List Member}

theorem validatePathSet_succeeds :
    Succeeds (validatePathSet folding entries) ↔ entries.length ≤ maxArchiveMembers ∧
      ∃ check, entries.foldlM (checkNamed folding) {} = .ok check ∧ Succeeds (topLevel check) := by
  have hloop := map_foldlM (@map_validatePath folding) entries ({}, ∅)
  rw [validatePathSet]
  split
  next hlong => exact iff_of_false (fun ⟨_, h⟩ => nomatch h) fun h => absurd h.1 (not_le.mpr hlong)
  next hshort =>
    rw [and_iff_right (not_lt.mp hshort), ← hloop]
    cases entries.foldlM (validatePath folding) ({}, ∅) with
    | error error => exact iff_of_false (fun ⟨_, h⟩ => nomatch h) fun ⟨_, h, _⟩ => nomatch h
    | ok state =>
      show Succeeds ((topLevel state.1).bind _) ↔ ∃ check, Except.ok state.1 = .ok check ∧ _
      rw [succeeds_bind]
      constructor
      · exact fun ⟨root, hroot, _⟩ => ⟨state.1, rfl, root, hroot⟩
      rintro ⟨check, hcheck, root, hroot⟩
      cases hcheck
      exact ⟨root, hroot, (root, state.2), rfl⟩

variable {state : ℕ × MemberCheck} {state' : ℕ × MemberCheck}

theorem extractMember_ok {info : TarInfo} (h : extractMember folding state info = .ok state') :
    state'.1 = state.1 + 1 ∧ state'.1 ≤ maxArchiveMembers ∧
      checkNamed folding state.2 info.member = .ok state'.2 := by
  rw [extractMember] at h
  split at h
  · cases h
  next hcount =>
    split at h
    · cases h
    next =>
      obtain ⟨parts, hparts, h⟩ := exists_of_bind_eq_ok h
      obtain ⟨check, hcheck, h⟩ := exists_of_bind_eq_ok h
      cases h
      refine ⟨rfl, not_lt.mp hcount, ?_⟩
      show (archiveParts info.name).bind _ = _
      rw [hparts]
      exact hcheck

theorem member_tarInfo (member : Member) : member.tarInfo.member = member := by
  obtain ⟨name, isDirectory, size⟩ := member
  cases isDirectory <;> rfl

variable {n : ℕ}

theorem extractMember_of_checkNamed
    (hcount : n + 1 ≤ maxArchiveMembers) (h : checkNamed folding check member = .ok check') :
    extractMember folding (n, check) member.tarInfo = .ok (n + 1, check') := by
  have hkind : member.tarInfo.kind ≠ .other := by
    rw [Member.tarInfo]
    split <;> exact nofun
  obtain ⟨parts, hparts, hcheck⟩ := exists_of_bind_eq_ok h
  rw [extractMember, if_neg (not_lt.mpr hcount), if_neg hkind, member_tarInfo]
  show (archiveParts member.name).bind _ = _
  rw [hparts]
  show (checkMember folding check member parts).bind _ = _
  rw [hcheck]
  rfl

variable {infos : List TarInfo}

theorem foldlM_extractMember_count (h : infos.foldlM (extractMember folding) (0, {}) = .ok state) :
    infos.length ≤ maxArchiveMembers := by
  have hall : state.1 = infos.length ∧ infos.length ≤ maxArchiveMembers := by
    refine foldlM_relates (R := fun seen state =>
      state.1 = seen.length ∧ seen.length ≤ maxArchiveMembers) ?_ ⟨rfl, Nat.zero_le _⟩ h
    rintro seen info state state' ⟨hcount, -⟩ hstep
    obtain ⟨hnext, hbound, -⟩ := extractMember_ok hstep
    rw [length_append, length_singleton, ← hcount, ← hnext]
    exact ⟨rfl, hbound⟩
  exact hall.2

theorem foldlM_extractMember (h : infos.foldlM (extractMember folding) state = .ok state') :
    (infos.map TarInfo.member).foldlM (checkNamed folding) state.2 = .ok state'.2 :=
  foldlM_simulates (fun _ _ _ hstep => (extractMember_ok hstep).2.2) h

theorem foldlM_extractMember_of_checkNamed (hcount : n + entries.length ≤ maxArchiveMembers)
    (h : entries.foldlM (checkNamed folding) check = .ok check') :
    (entries.map Member.tarInfo).foldlM (extractMember folding) (n, check) =
      .ok (n + entries.length, check') := by
  induction entries generalizing n check with
  | nil =>
    cases h
    rfl
  | cons member rest ih =>
    obtain ⟨middle, hmid, hrest⟩ := foldlM_cons_ok_iff.mp h
    rw [length_cons] at hcount ⊢
    refine foldlM_cons_ok_iff.mpr ⟨(n + 1, middle), extractMember_of_checkNamed (by omega) hmid, ?_⟩
    rw [ih (by omega) hrest]
    congr 2
    omega

theorem extractTar_succeeds : Succeeds (extractTar folding (entries.map Member.tarInfo)) ↔
      entries.length ≤ maxArchiveMembers ∧
        ∃ check, entries.foldlM (checkNamed folding) {} = .ok check ∧ Succeeds (topLevel check) := by
  have hmembers : (entries.map Member.tarInfo).map TarInfo.member = entries := by
    rw [map_map]
    exact map_id'' member_tarInfo entries
  constructor
  · intro h
    obtain ⟨state, hloop, hroot⟩ := succeeds_bind.mp h
    have hcount := foldlM_extractMember_count hloop
    rw [length_map] at hcount
    have hchecks := foldlM_extractMember hloop
    rw [hmembers] at hchecks
    exact ⟨hcount, state.2, hchecks, hroot⟩
  · rintro ⟨hcount, check, hchecks, hroot⟩
    exact succeeds_bind.mpr ⟨_, foldlM_extractMember_of_checkNamed (by omega) hchecks, hroot⟩

theorem validateMember_ok {state state' : MemberCheck × List (ZipInfo × List Component)}
    {info : ZipInfo} (h : validateMember folding state info = .ok state') :
    checkNamed folding state.1 info.member = .ok state'.1 := by
  rw [validateMember] at h
  split_ifs at h
  obtain ⟨parts, hparts, h⟩ := exists_of_bind_eq_ok h
  obtain ⟨check, hcheck, h⟩ := exists_of_bind_eq_ok h
  cases h
  show (archiveParts info.origFilename).bind _ = _
  rw [← archiveMemberPath_eq, hparts]
  exact hcheck

/-! ### Main result -/

/-- **The two validators of releases accept the same lists, and none of the three accepts
collisions**, whatever the order of the members. -/
theorem archiveValidators_agree (folding : CaseFolding) : (∀ entries : List Member,
      (Succeeds (validatePathSet folding entries) ↔
        Succeeds (extractTar folding (entries.map Member.tarInfo))) ∧
      (Succeeds (validatePathSet folding entries) → CollisionFree folding entries)) ∧
    (∀ infos : List TarInfo, Succeeds (extractTar folding infos) →
      CollisionFree folding (infos.map TarInfo.member)) ∧
    (∀ infos : List ZipInfo, Succeeds (validateArchiveMembers folding infos) →
      CollisionFree folding (infos.map ZipInfo.member)) := by
  refine ⟨fun entries => ⟨?_, fun h => ?_⟩, fun infos h => ?_, fun infos h => ?_⟩
  · rw [validatePathSet_succeeds, extractTar_succeeds]
  · obtain ⟨-, check, hchecks, -⟩ := validatePathSet_succeeds.mp h
    exact collisionFree_of_checkNamed hchecks
  · obtain ⟨state, hloop, -⟩ := succeeds_bind.mp h
    exact collisionFree_of_checkNamed (foldlM_extractMember hloop)
  · rw [validateArchiveMembers] at h
    split at h
    · exact absurd h fun ⟨_, h⟩ => nomatch h
    next =>
      obtain ⟨state, hloop, -⟩ := succeeds_bind.mp h
      exact collisionFree_of_checkNamed
        (foldlM_simulates (g := Prod.fst) (fun _ _ _ hstep => validateMember_ok hstep) hloop)

/-- A file stands in the way of another one, although their names differ in case. -/
example : (validatePathSet asciiFolding [⟨"r/A", false, 1⟩, ⟨"r/a/b", false, 1⟩]).map Prod.fst =
    .error (.conflict "r/a/b") := by decide

end Cfms.Deployment
