import Mathlib.Data.List.Infix
import Mathlib.Data.List.Pairwise

/-!
# Paths as texts and as components

A path is written as its components with slashes between.  Where no component has a slash, the text
says what the components are (`components_join`), and one text starts with another and a slash exactly
when the components do (`join_slash_prefix_iff`).  Case folding goes character by character and
keeps the slashes, so it can be done before or after the splitting (`casefold_join`).

`Compatible` says that two entries of an archive can stand in one tree: their paths differ, and neither
is a file in the way of the other.
-/

namespace Cfms.Lib.Paths

open List

abbrev Component := List Char

/-- `"/".join(parts)`. -/
def join (parts : List Component) : List Char := ['/'].intercalate parts

/-- `path.split("/")`. -/
def components (path : List Char) : List Component := path.splitOn '/'

def SlashFree (parts : List Component) : Prop := ∀ part ∈ parts, '/' ∉ part

section

variable {parts parts' : List Component} {part : Component} {path path' : List Char}

theorem join_components (path : List Char) : join (components path) = path :=
  intercalate_splitOn '/'

theorem components_join (h : SlashFree parts) (hne : parts ≠ []) :
    components (join parts) = parts := splitOn_intercalate '/' h hne

theorem components_ne_nil (path : List Char) : components path ≠ [] := splitOn_ne_nil '/' path

theorem components_append (path path' : List Char) :
    components (path ++ '/' :: path') = components path ++ components path' :=
  splitOn_append_cons_self path path'

theorem slashFree_components (path : List Char) : SlashFree (components path) := by
  induction path with
  | nil =>
    intro part hpart
    rw [components, splitOn_nil, mem_singleton] at hpart
    rw [hpart]
    exact not_mem_nil
  | cons c path ih =>
    intro part hpart
    rw [components, splitOn_cons_eq_if_modifyHead] at hpart
    split at hpart
    next =>
      rcases mem_cons.mp hpart with rfl | hpart
      · exact not_mem_nil
      · exact ih part hpart
    next hc =>
      cases hsplit : path.splitOn '/' with
      | nil => exact absurd hsplit (splitOn_ne_nil '/' path)
      | cons first rest =>
        have hall : SlashFree (first :: rest) := hsplit ▸ ih
        rw [hsplit] at hpart
        rcases mem_cons.mp hpart with rfl | hpart
        · rintro (_ | ⟨_, hslash⟩)
          · exact hc (beq_self_eq_true '/')
          · exact hall first mem_cons_self hslash
        · exact hall part (mem_cons_of_mem first hpart)

theorem join_injective (h : SlashFree parts) (h' : SlashFree parts') (hne : parts ≠ [])
    (hne' : parts' ≠ []) (heq : join parts = join parts') : parts = parts' := by
  rw [← components_join h hne, ← components_join h' hne', heq]

theorem join_append (h : SlashFree parts) (h' : SlashFree parts') (hne : parts ≠ [])
    (hne' : parts' ≠ []) : join (parts ++ parts') = join parts ++ '/' :: join parts' := by
  have hsplit : components (join parts ++ '/' :: join parts') = parts ++ parts' := by
    rw [components_append, components_join h hne, components_join h' hne']
  rw [← hsplit, join_components]

/-- **A text that starts with a path and a slash is a path below it.** -/
theorem join_slash_prefix_iff (h : SlashFree parts) (h' : SlashFree parts') (hne : parts ≠ [])
    (hne' : parts' ≠ []) :
    (join parts ++ ['/']) <+: join parts' ↔ parts <+: parts' ∧ parts ≠ parts' := by
  constructor
  · rintro ⟨rest, hrest⟩
    have hparts : parts' = parts ++ components rest := by
      rw [← components_join h' hne', ← hrest, append_assoc, singleton_append,
        components_append, components_join h hne]
    refine ⟨⟨_, hparts.symm⟩, fun heq => components_ne_nil rest ?_⟩
    rw [heq] at hparts
    exact self_eq_append_right.mp hparts
  · rintro ⟨⟨rest, rfl⟩, hdiff⟩
    have hrest : rest ≠ [] := by
      rintro rfl
      exact hdiff (append_nil parts).symm
    rw [join_append h (fun part hpart => h' part (mem_append_right _ hpart)) hne hrest]
    exact ⟨join rest, by rw [append_assoc, singleton_append]⟩

end

/-! ### Plain components -/

/-- A component that names an entry of a directory, here and on Windows. -/
def isPlain (part : Component) : Bool :=
  part != [] && part != ['.'] && part != ['.', '.'] && !part.contains ':' &&
    part.getLast? != some ' ' && part.getLast? != some '.'

/-- `PureWindowsPath(path).drive` of a path without backslashes: a letter and a colon, or a share. -/
def hasDrive (path : List Char) : Bool := path[1]? == some ':' || ['/', '/'].isPrefixOf path

/-- A path that is not empty, is not absolute, and has no drive, backslash or null character. -/
def isRelative (path : List Char) : Bool :=
  !path.isEmpty && !path.contains '\\' && !path.contains '\x00' && !hasDrive path &&
    path.head? != some '/'

/-- `path.removesuffix("/")`. -/
def removeSlash (path : List Char) : List Char :=
  if path.getLast? = some '/' then path.dropLast else path

/-- The path that a path is in a directory; an absolute path is itself. -/
def joinpath (root : List Component) (path : List Char) : List Component :=
  if path.head? = some '/' then components path else root ++ components path

/-- A path without empty components and dots, in which two dots lead up. -/
def resolve (parts : List Component) : List Component :=
  parts.foldl (fun resolved part =>
    if part = [] ∨ part = ['.'] then resolved
    else if part = ['.', '.'] then resolved.dropLast
    else resolved ++ [part]) []

theorem isPlain_ne {part : Component} (h : isPlain part = true) :
    part ≠ [] ∧ part ≠ ['.'] ∧ part ≠ ['.', '.'] := by
  simp only [isPlain, Bool.and_eq_true, bne_iff_ne] at h
  exact ⟨h.1.1.1.1.1, h.1.1.1.1.2, h.1.1.1.2⟩

theorem resolve_append {root parts : List Component} (h : ∀ part ∈ parts, isPlain part = true) :
    resolve (root ++ parts) = resolve root ++ parts := by
  rw [resolve, foldl_append]
  show foldl _ (resolve root) parts = _
  generalize resolve root = resolved
  induction parts generalizing resolved with
  | nil => exact (append_nil resolved).symm
  | cons part rest ih =>
    obtain ⟨hempty, hdot, hdots⟩ := isPlain_ne (h part mem_cons_self)
    rw [foldl_cons, if_neg (not_or.mpr ⟨hempty, hdot⟩), if_neg hdots,
      ih (fun part hpart => h part (mem_cons_of_mem _ hpart)), append_assoc,
      singleton_append]

/-- **A relative path with plain components leads strictly below any directory.** -/
theorem resolve_joinpath (root : List Component) {path : List Char}
    (hrel : isRelative path = true) (hplain : ∀ part ∈ components path, isPlain part = true) :
    resolve (joinpath root path) = resolve root ++ components path ∧ components path ≠ [] := by
  have hhead : path.head? ≠ some '/' := by
    simp only [isRelative, Bool.and_eq_true, bne_iff_ne] at hrel
    exact hrel.2
  rw [joinpath, if_neg hhead]
  exact ⟨resolve_append hplain, components_ne_nil path⟩

/-! ### Case folding -/

/-- What `str.casefold` makes of a character.  Only the slash becomes a slash. -/
structure CaseFolding where
  fold : Char → List Char
  slash : fold '/' = ['/']
  slash_of_mem : ∀ c, '/' ∈ fold c → c = '/'

namespace CaseFolding

variable (folding : CaseFolding)

/-- `text.casefold()`. -/
def casefold (text : List Char) : List Char := text.flatMap folding.fold

def foldParts (parts : List Component) : List Component := parts.map folding.casefold

variable {folding} {parts : List Component}

theorem slashFree_foldParts (h : SlashFree parts) : SlashFree (folding.foldParts parts) := by
  intro folded hfold hslash
  obtain ⟨part, hpart, rfl⟩ := mem_map.mp hfold
  obtain ⟨c, hc, hslash⟩ := mem_flatMap.mp hslash
  rw [folding.slash_of_mem c hslash] at hc
  exact h part hpart hc

theorem foldParts_ne_nil (h : parts ≠ []) : folding.foldParts parts ≠ [] :=
  fun hnil => h (map_eq_nil_iff.mp hnil)

theorem casefold_join (parts : List Component) :
    folding.casefold (join parts) = join (folding.foldParts parts) := by
  induction parts with
  | nil => rfl
  | cons part rest ih =>
    cases rest with
    | nil =>
      show folding.casefold (['/'].intercalate [part]) = ['/'].intercalate [folding.casefold part]
      rw [intercalate_singleton, intercalate_singleton]
    | cons next rest =>
      have hjoin : join (part :: next :: rest) = part ++ '/' :: join (next :: rest) := by
        rfl
      have hfold : join (folding.foldParts (part :: next :: rest)) =
          folding.casefold part ++ '/' :: join (folding.foldParts (next :: rest)) := by
        show ['/'].intercalate (_ :: _ :: _) = _
        rfl
      rw [hjoin, hfold, ← ih, casefold, flatMap_append, flatMap_cons, folding.slash]
      rfl

end CaseFolding

def asciiFolding : CaseFolding where
  fold c := [c.toLower]
  slash := rfl
  slash_of_mem := by
    intro c h
    rw [List.mem_singleton] at h
    change '/' = dite _ _ _ at h
    split at h
    next hupper =>
      -- no capital letter lies 32 before the slash
      have hval : (47 : UInt32) = c.val + 32 := congrArg Char.val h
      have hnat := congrArg UInt32.toNat hval
      have hlower := UInt32.le_iff_toNat_le.mp hupper.1
      have hhigher := UInt32.le_iff_toNat_le.mp hupper.2
      rw [UInt32.toNat_add] at hnat
      simp at hnat hlower hhigher
      omega
    next => exact h.symm

/-! ### Entries of a tree -/

section

variable {σ : Type*} [DecidableEq σ]

/-- A path, and whether it is a directory. -/
abbrev Entry (σ : Type*) := List σ × Bool

/-- Both entries can stand in one tree. -/
structure Compatible (e e' : Entry σ) : Prop where
  path : e.1 ≠ e'.1
  file : e.2 = false → ¬ e.1 <+: e'.1
  file' : e'.2 = false → ¬ e'.1 <+: e.1

/-- A check of a new entry against those before it. -/
def admits (entries : List (Entry σ)) (e : Entry σ) : Bool :=
  entries.all fun other => decide (other.1 ≠ e.1) &&
    (other.2 || !decide (other.1 <+: e.1)) && (e.2 || !decide (e.1 <+: other.1))

variable {entries : List (Entry σ)} {e : Entry σ}

theorem admits_iff : admits entries e = true ↔ ∀ other ∈ entries, Compatible other e := by
  rw [admits, all_eq_true]
  refine forall₂_congr fun other _ => ?_
  rw [Bool.and_eq_true, Bool.and_eq_true, decide_eq_true_iff, Bool.or_eq_true, Bool.or_eq_true,
    Bool.not_eq_true', Bool.not_eq_true', decide_eq_false_iff_not, decide_eq_false_iff_not]
  constructor
  · rintro ⟨⟨hpath, hother⟩, he⟩
    exact ⟨hpath, fun hfile => hother.resolve_left (Bool.eq_false_iff.mp hfile),
      fun hfile => he.resolve_left (Bool.eq_false_iff.mp hfile)⟩
  · rintro ⟨hpath, hother, he⟩
    refine ⟨⟨hpath, ?_⟩, ?_⟩
    · cases hkind : other.2 with
      | true => exact .inl rfl
      | false => exact .inr (hother hkind)
    · cases hkind : e.2 with
      | true => exact .inl rfl
      | false => exact .inr (he hkind)

theorem pairwise_compatible_append : (entries ++ [e]).Pairwise Compatible ↔
      entries.Pairwise Compatible ∧ admits entries e = true := by
  rw [pairwise_append, admits_iff]
  simp only [pairwise_singleton, mem_singleton, true_and, forall_eq]

end

end Cfms.Lib.Paths
