import Mathlib.Data.Finset.Card
import Mathlib.Data.List.FinRange
import Mathlib.Data.List.GetD

/-!
# Distinct representatives by augmenting paths

Each position has a pool of keys, and every position is to get a key of its own.  `assign` looks for
a key for one position: a free key is taken, and the owner of a key that is not free is asked to find
another one.  A key is tried once in a search, so fuel for one more than the keys is enough.

`assignAll_iff` is what a caller uses: every position finds a key exactly when the pools have distinct
representatives.  A search that fails has tried a set of keys whose owners, with the position it ran
for, are one more than the keys (`assign_succeeds`).
-/

namespace Cfms.Lib.AugmentingPath

open List Function

variable {κ : Type} {pools : List (List κ)}

/-- The keys a search has tried, and the owners of keys. -/
structure Search (κ : Type) where
  visited : Finset κ
  assignments : κ → Option ℕ

def Search.mark [DecidableEq κ] (search : Search κ) (key : κ) : Search κ :=
  { search with visited := insert key search.visited }

def Search.give [DecidableEq κ] (search : Search κ) (key : κ) (position : ℕ) : Search κ :=
  { search with assignments := Function.update search.assignments key (some position) }

/-- Try the keys of a pool in turn. -/
def tryKeys [DecidableEq κ] (assign : ℕ → Search κ → Bool × Search κ) (position : ℕ) :
    List κ → Search κ → Bool × Search κ
  | [], search => (false, search)
  | key :: rest, search =>
    if key ∈ search.visited then tryKeys assign position rest search
    else
      match search.assignments key with
      | none => (true, (search.mark key).give key position)
      | some owner =>
        match assign owner (search.mark key) with
        | (true, found) => (true, found.give key position)
        | (false, failed) => tryKeys assign position rest failed

def assign [DecidableEq κ] (pools : List (List κ)) : ℕ → ℕ → Search κ → Bool × Search κ
  | 0, _, search => (false, search)
  | fuel + 1, position, search =>
    tryKeys (assign pools fuel) position (pools.getD position []) search

/-- Find keys for the positions in turn, each with a search of its own. -/
def assignAll [DecidableEq κ] (pools : List (List κ)) (fuel : ℕ) : List ℕ → (κ → Option ℕ) → Bool
  | [], _ => true
  | position :: rest, assignments =>
    let result := assign pools fuel position ⟨∅, assignments⟩
    result.1 && assignAll pools fuel rest result.2.assignments

/-! ### What a search does -/

def Fits (pools : List (List κ)) (assignments : κ → Option ℕ) : Prop :=
  ∀ key pos, assignments key = some pos → key ∈ pools.getD pos []

def Served (assignments : κ → Option ℕ) (position : ℕ) : Prop :=
  ∃ key, assignments key = some position

/-- The outcome of a search for a position: keys that were tried before keep their owners, a failed
search changes no owner, and a successful one serves the position besides those served before. -/
structure Outcome (pools : List (List κ)) (position : ℕ) (before : Search κ)
    (result : Bool × Search κ) : Prop where
  grows : before.visited ⊆ result.2.visited
  fits : Fits pools result.2.assignments
  kept : ∀ key ∈ before.visited, result.2.assignments key = before.assignments key
  failed : result.1 = false → result.2.assignments = before.assignments
  found : result.1 = true → ∃ key, key ∉ before.visited ∧
    result.2.assignments key = some position
  served : result.1 = true → ∀ other, Served before.assignments other →
    Served result.2.assignments other

variable {pos : ℕ}

theorem Outcome.refl {search : Search κ} (h : Fits pools search.assignments) :
    Outcome pools pos search (false, search) where
  grows := Finset.Subset.refl _
  fits := h
  kept _ _ := rfl
  failed _ := rfl
  found := nofun
  served := nofun

section

variable [DecidableEq κ] {key : κ} {pos : ℕ} {assignments : κ → Option ℕ}

theorem fits_give (h : Fits pools assignments) (hkey : key ∈ pools.getD pos []) :
    Fits pools (Function.update assignments key (some pos)) := by
  intro other owner howner
  by_cases heq : other = key
  · subst heq
    rw [update_self, Option.some.injEq] at howner
    rw [← howner]
    exact hkey
  · rw [update_of_ne heq] at howner
    exact h other owner howner

variable {search : Search κ}

theorem outcome_free (h : Fits pools search.assignments) (hkey : key ∈ pools.getD pos [])
    (hnew : key ∉ search.visited) (hfree : search.assignments key = none) :
    Outcome pools pos search (true, (search.mark key).give key pos) where
  grows := Finset.subset_insert key search.visited
  fits := fits_give h hkey
  kept := by
    intro other hother
    have hne : other ≠ key := fun heq => hnew (heq ▸ hother)
    exact update_of_ne hne _ _
  failed := nofun
  found _ := ⟨key, hnew, update_self key _ _⟩
  served := by
    intro _ other ⟨owned, howned⟩
    have hne : owned ≠ key := by
      intro heq
      rw [heq, hfree] at howned
      cases howned
    refine ⟨owned, ?_⟩
    show update search.assignments key (some pos) owned = some other
    rw [update_of_ne hne]
    exact howned

variable {owner : ℕ}

theorem outcome_freed {found : Search κ}
    (hkey : key ∈ pools.getD pos []) (hnew : key ∉ search.visited)
    (howner : search.assignments key = some owner)
    (h : Outcome pools owner (search.mark key) (true, found)) :
    Outcome pools pos search (true, found.give key pos) where
  grows := (Finset.subset_insert key search.visited).trans h.grows
  fits := fits_give h.fits hkey
  kept := by
    intro other hother
    have hne : other ≠ key := fun heq => hnew (heq ▸ hother)
    show update found.assignments key (some pos) other = search.assignments other
    rw [update_of_ne hne]
    exact h.kept other (Finset.mem_insert_of_mem hother)
  failed := nofun
  found _ := ⟨key, hnew, update_self key _ _⟩
  served := by
    intro _ other hother
    -- The key was the owner's, so whoever else is served is served by another key.
    have hown : found.assignments key = some owner :=
      (h.kept key (Finset.mem_insert_self key search.visited)).trans howner
    have hother' : ∃ owned, owned ≠ key ∧ found.assignments owned = some other := by
      by_cases heq : other = owner
      · obtain ⟨owned, hfresh, howned⟩ := h.found rfl
        rw [heq]
        exact ⟨owned, fun hk => hfresh (hk ▸ Finset.mem_insert_self key search.visited), howned⟩
      · obtain ⟨owned, howned⟩ := h.served rfl other hother
        refine ⟨owned, ?_, howned⟩
        intro hk
        rw [hk, hown, Option.some.injEq] at howned
        exact heq howned.symm
    obtain ⟨owned, hne, howned⟩ := hother'
    refine ⟨owned, ?_⟩
    show update found.assignments key (some pos) owned = some other
    rw [update_of_ne hne]
    exact howned

theorem outcome_next {failed : Search κ} {result : Bool × Search κ}
    (hfailed : Outcome pools owner (search.mark key) (false, failed))
    (h : Outcome pools pos failed result) : Outcome pools pos search result := by
  have hsame : failed.assignments = search.assignments := hfailed.failed rfl
  have hgrows : search.visited ⊆ failed.visited :=
    (Finset.subset_insert key search.visited).trans hfailed.grows
  refine ⟨hgrows.trans h.grows, h.fits, ?_, ?_, ?_, ?_⟩
  · intro other hother
    rw [h.kept other (hgrows hother), hsame]
  · intro hres
    rw [h.failed hres, hsame]
  · intro hres
    obtain ⟨found, hfresh, hfound⟩ := h.found hres
    exact ⟨found, fun hmem => hfresh (hgrows hmem), hfound⟩
  · intro hres other hother
    rw [← hsame] at hother
    exact h.served hres other hother

theorem outcome_tryKeys {find : ℕ → Search κ → Bool × Search κ} {keys : List κ}
    (hfind : ∀ owner search, Fits pools search.assignments →
      Outcome pools owner search (find owner search))
    (hkeys : ∀ key ∈ keys, key ∈ pools.getD pos []) (h : Fits pools search.assignments) :
    Outcome pools pos search (tryKeys find pos keys search) := by
  induction keys generalizing search with
  | nil => exact Outcome.refl h
  | cons key rest ih =>
    have hkey := hkeys key mem_cons_self
    have hrest : ∀ other ∈ rest, other ∈ pools.getD pos [] :=
      fun other hother => hkeys other (mem_cons_of_mem key hother)
    rw [tryKeys]
    by_cases hvis : key ∈ search.visited
    · rw [if_pos hvis]
      exact ih hrest h
    · rw [if_neg hvis]
      cases howner : search.assignments key with
      | none => exact outcome_free h hkey hvis howner
      | some owner =>
        have hasked := hfind owner (search.mark key) h
        show Outcome pools pos search (match find owner (search.mark key) with
          | (true, found) => (true, found.give key pos)
          | (false, failed) => tryKeys find pos rest failed)
        cases hres : find owner (search.mark key) with
        | mk success after =>
          rw [hres] at hasked
          cases success with
          | true => exact outcome_freed hkey hvis howner hasked
          | false => exact outcome_next hasked (ih hrest hasked.fits)

/-- **One search.** -/
theorem outcome_assign (fuel pos : ℕ) (h : Fits pools search.assignments) :
    Outcome pools pos search (assign pools fuel pos search) := by
  induction fuel generalizing pos search with
  | zero => exact Outcome.refl h
  | succ fuel ih => exact outcome_tryKeys (fun owner search hfits => ih owner hfits) (fun _ h => h) h

theorem served_of_assignAll {fuel : ℕ} {positions : List ℕ}
    (h : assignAll pools fuel positions assignments = true) (hfits : Fits pools assignments) :
    ∃ final : κ → Option ℕ, Fits pools final ∧ (∀ p ∈ positions, Served final p) ∧
      ∀ p, Served assignments p → Served final p := by
  induction positions generalizing assignments with
  | nil => exact ⟨assignments, hfits, nofun, fun _ hp => hp⟩
  | cons pos rest ih =>
    rw [assignAll, Bool.and_eq_true] at h
    have houtc : Outcome pools pos ⟨∅, assignments⟩ _ := outcome_assign fuel pos hfits
    obtain ⟨final, hfinal, hrest, hkept⟩ := ih h.2 houtc.fits
    refine ⟨final, hfinal, ?_, fun p hp => hkept p (houtc.served h.1 p hp)⟩
    intro p hp
    rcases mem_cons.mp hp with rfl | hmem
    · obtain ⟨key, -, hkey⟩ := houtc.found h.1
      exact hkept p ⟨key, hkey⟩
    · exact hrest p hmem

end

def Representatives (pools : List (List κ)) (keys : List κ) : Prop :=
  List.Forall₂ (fun pool key => key ∈ pool) pools keys ∧ keys.Nodup

/-- **When every position finds a key, the pools have distinct representatives.** -/
theorem representatives_of_assignAll [DecidableEq κ] {fuel : ℕ}
    (h : assignAll pools fuel (List.range pools.length) (fun _ => none) = true) :
    ∃ keys, Representatives pools keys := by
  obtain ⟨final, hfits, hserved, -⟩ := served_of_assignAll h (by nofun)
  have hkey : ∀ i : Fin pools.length, ∃ key, final key = some i.val :=
    fun i => hserved i.val (mem_range.mpr i.isLt)
  choose key hkey using hkey
  refine ⟨ofFn key, ?_, ?_⟩
  · rw [forall₂_iff_get]
    refine ⟨length_ofFn.symm, ?_⟩
    intro i hi hi'
    have hmem := hfits _ _ (hkey ⟨i, hi⟩)
    rw [getD_eq_getElem _ _ hi] at hmem
    simpa using hmem
  · rw [nodup_ofFn]
    intro i j hij
    have hsame := hkey i
    rw [hij, hkey j, Option.some.injEq] at hsame
    exact Fin.ext hsame.symm

/-! ### Fuel -/

section

variable [DecidableEq κ]

/-- The keys that are not tried yet. -/
def untried (pools : List (List κ)) (search : Search κ) : Finset κ :=
  pools.flatten.toFinset \ search.visited

variable {key : κ}

omit [DecidableEq κ] in
theorem mem_flatten_of_getD {pos : ℕ} (h : key ∈ pools.getD pos []) : key ∈ pools.flatten := by
  rw [mem_flatten]
  by_cases hpos : pos < pools.length
  · rw [getD_eq_getElem _ _ hpos] at h
    exact ⟨_, getElem_mem hpos, h⟩
  · rw [getD_eq_default _ _ (by omega)] at h
    cases h

theorem untried_mark_lt {search : Search κ} (hkey : key ∈ pools.flatten)
    (hnew : key ∉ search.visited) :
    (untried pools (search.mark key)).card < (untried pools search).card := by
  apply Finset.card_lt_card
  refine ⟨Finset.sdiff_subset_sdiff (Finset.Subset.refl _) (Finset.subset_insert key _), ?_⟩
  intro hsub
  have hin := hsub (Finset.mem_sdiff.mpr ⟨mem_toFinset.mpr hkey, hnew⟩)
  exact (Finset.mem_sdiff.mp hin).2 (Finset.mem_insert_self key _)

theorem untried_le {small large : Search κ} (h : small.visited ⊆ large.visited) :
    (untried pools large).card ≤ (untried pools small).card :=
  Finset.card_le_card (Finset.sdiff_subset_sdiff (Finset.Subset.refl _) h)

end

/-! ### No search fails without reason -/

/-- No position owns two keys. -/
def Exclusive (assignments : κ → Option ℕ) : Prop :=
  ∀ key other pos, assignments key = some pos → assignments other = some pos →
    key = other

/-- Whatever the position owns was tried before. -/
def Spent (search : Search κ) (position : ℕ) : Prop :=
  ∀ key, search.assignments key = some position → key ∈ search.visited

structure OneMore (position : ℕ) (before after : Search κ) : Prop where
  others : ∀ owner ≠ position, ∀ key other, after.assignments key = some owner →
    after.assignments other = some owner → key = other
  own : ∀ key other, key ∉ before.visited → other ∉ before.visited →
    after.assignments key = some position → after.assignments other = some position → key = other
  spent : ∀ owner ≠ position, Spent before owner →
    ∀ key, after.assignments key = some owner → key ∈ before.visited

/-- What a failed search has tried: the pool of its position, and with each key it came across the
pool of the owner. -/
structure Exhausted (pools : List (List κ)) (keys : List κ) (before after : Search κ) : Prop where
  pool : ∀ key ∈ keys, key ∈ after.visited
  owners : ∀ key ∈ after.visited, key ∉ before.visited →
    ∃ owner, before.assignments key = some owner ∧
      ∀ other ∈ pools.getD owner [], other ∈ after.visited

theorem Spent.mono {before after : Search κ} (h : Spent before pos)
    (hsame : after.assignments = before.assignments) (hgrows : before.visited ⊆ after.visited) :
    Spent after pos := by
  intro key hkey
  rw [hsame] at hkey
  exact hgrows (h key hkey)

section

variable [DecidableEq κ] {pos : ℕ} {search : Search κ} {key : κ}

theorem oneMore_free (hexcl : Exclusive search.assignments) (hspent : Spent search pos) :
    OneMore pos search ((search.mark key).give key pos) := by
  have hcases : ∀ other owner, ((search.mark key).give key pos).assignments other = some owner →
      (other = key ∧ owner = pos) ∨ (other ≠ key ∧ search.assignments other = some owner) := by
    intro other owner h
    change update search.assignments key (some pos) other = some owner at h
    by_cases hother : other = key
    · rw [hother, update_self, Option.some.injEq] at h
      exact .inl ⟨hother, h.symm⟩
    · rw [update_of_ne hother] at h
      exact .inr ⟨hother, h⟩
  constructor
  · intro owner hne a b ha hb
    have ha' := (hcases a owner ha).resolve_left fun h => hne h.2
    have hb' := (hcases b owner hb).resolve_left fun h => hne h.2
    exact hexcl a b owner ha'.2 hb'.2
  · intro a b hnewa hnewb ha hb
    have hown : ∀ k, k ∉ search.visited →
        ((search.mark key).give key pos).assignments k = some pos → k = key := by
      intro k hnew hk
      rcases hcases k pos hk with h | h
      · exact h.1
      · exact absurd (hspent k h.2) hnew
    rw [hown a hnewa ha, hown b hnewb hb]
  · intro owner hne howner k hk
    exact howner k ((hcases k owner hk).resolve_left fun h => hne h.2).2

theorem oneMore_freed {owner : ℕ} {found : Search κ}
    (hexcl : Exclusive search.assignments) (hspent : Spent search pos)
    (hnew : key ∉ search.visited) (howner : search.assignments key = some owner)
    (hkept : ∀ other ∈ (search.mark key).visited,
      found.assignments other = search.assignments other)
    (h : OneMore owner (search.mark key) found) :
    OneMore pos search (found.give key pos) := by
  have hne : owner ≠ pos := by
    rintro rfl
    exact hnew (hspent key howner)
  have hcases : ∀ other q, (found.give key pos).assignments other = some q →
      (other = key ∧ q = pos) ∨ (other ≠ key ∧ found.assignments other = some q) := by
    intro other q h
    change update found.assignments key (some pos) other = some q at h
    by_cases hother : other = key
    · rw [hother, update_self, Option.some.injEq] at h
      exact .inl ⟨hother, h.symm⟩
    · rw [update_of_ne hother] at h
      exact .inr ⟨hother, h⟩
  have hmark : search.visited ⊆ (search.mark key).visited := Finset.subset_insert key search.visited
  -- a key that was tried before and is not the new one was tried before
  have hold : ∀ k, k ≠ key → k ∈ (search.mark key).visited → k ∈ search.visited :=
    fun k hk hmem => (Finset.mem_insert.mp hmem).resolve_left hk
  constructor
  · intro q hq a b ha hb
    have ha' := (hcases a q ha).resolve_left fun h => hq h.2
    have hb' := (hcases b q hb).resolve_left fun h => hq h.2
    by_cases hqo : q = owner
    · subst hqo
      have hfresh : ∀ k, k ≠ key → found.assignments k = some q → k ∉ (search.mark key).visited := by
        intro k hk hfound hmem
        rw [hkept k hmem] at hfound
        exact hk (hexcl k key q hfound howner)
      exact h.own a b (hfresh a ha'.1 ha'.2) (hfresh b hb'.1 hb'.2) ha'.2 hb'.2
    · exact h.others q hqo a b ha'.2 hb'.2
  · have hown : ∀ k, k ∉ search.visited →
        (found.give key pos).assignments k = some pos → k = key := by
      intro k hk hfound
      rcases hcases k pos hfound with hkey | ⟨hkey, hpos⟩
      · exact hkey.1
      · have hmem := h.spent pos hne.symm (hspent.mono rfl hmark) k hpos
        exact absurd (hold k hkey hmem) hk
    intro a b hnewa hnewb ha hb
    rw [hown a hnewa ha, hown b hnewb hb]
  · intro q hq hspentq k hk
    have hk' := (hcases k q hk).resolve_left fun h => hq h.2
    have hqo : q ≠ owner := by
      rintro rfl
      exact hnew (hspentq key howner)
    exact hold k hk'.1 (h.spent q hqo (hspentq.mono rfl hmark) k hk'.2)

omit [DecidableEq κ] in
theorem OneMore.after_failed {before middle after : Search κ}
    (hspent : Spent before pos) (hsame : middle.assignments = before.assignments)
    (hgrows : before.visited ⊆ middle.visited)
    (hkept : ∀ key ∈ middle.visited, after.assignments key = middle.assignments key)
    (h : OneMore pos middle after) : OneMore pos before after := by
  have hback : ∀ owner key, Spent before owner → after.assignments key = some owner →
      key ∈ middle.visited → key ∈ before.visited := by
    intro owner key howner hkey hmem
    rw [hkept key hmem, hsame] at hkey
    exact howner key hkey
  constructor
  · exact h.others
  · intro a b ha hb hpa hpb
    exact h.own a b (fun hmem => ha (hback pos a hspent hpa hmem))
      (fun hmem => hb (hback pos b hspent hpb hmem)) hpa hpb
  · intro owner hne howner key hkey
    exact hback owner key howner hkey (h.spent owner hne (howner.mono hsame hgrows) key hkey)

variable {keys : List κ} {find : ℕ → Search κ → Bool × Search κ}

theorem oneMore_tryKeys (hfind : ∀ owner search, Fits pools search.assignments →
      Outcome pools owner search (find owner search))
    (hone : ∀ owner search, Fits pools search.assignments → Exclusive search.assignments →
      Spent search owner → (find owner search).1 = true → OneMore owner search (find owner search).2)
    (hkeys : ∀ key ∈ keys, key ∈ pools.getD pos []) (hfits : Fits pools search.assignments)
    (hexcl : Exclusive search.assignments) (hspent : Spent search pos)
    (hres : (tryKeys find pos keys search).1 = true) :
    OneMore pos search (tryKeys find pos keys search).2 := by
  induction keys generalizing search with
  | nil => cases hres
  | cons key rest ih =>
    have hrest : ∀ other ∈ rest, other ∈ pools.getD pos [] :=
      fun other hother => hkeys other (mem_cons_of_mem key hother)
    rw [tryKeys] at hres ⊢
    by_cases hvis : key ∈ search.visited
    · rw [if_pos hvis] at hres ⊢
      exact ih hrest hfits hexcl hspent hres
    · rw [if_neg hvis] at hres ⊢
      cases howner : search.assignments key with
      | none => exact oneMore_free hexcl hspent
      | some owner =>
        rw [howner] at hres
        have hasked := hfind owner (search.mark key) hfits
        have hownerSpent : Spent (search.mark key) owner := by
          intro other hother
          rw [hexcl other key owner hother howner]
          exact Finset.mem_insert_self key search.visited
        have hfound := hone owner (search.mark key) hfits hexcl hownerSpent
        change (match find owner (search.mark key) with
          | (true, found) => (true, found.give key pos)
          | (false, failed) => tryKeys find pos rest failed).1 = true at hres
        show OneMore pos search (match find owner (search.mark key) with
          | (true, found) => (true, found.give key pos)
          | (false, failed) => tryKeys find pos rest failed).2
        cases hafter : find owner (search.mark key) with
        | mk success after =>
          rw [hafter] at hasked hfound hres
          cases success with
          | true => exact oneMore_freed hexcl hspent hvis howner hasked.kept (hfound rfl)
          | false =>
            have hsame : after.assignments = search.assignments := hasked.failed rfl
            have hgrows : search.visited ⊆ after.visited :=
              (Finset.subset_insert key search.visited).trans hasked.grows
            have hlater := outcome_tryKeys hfind hrest hasked.fits
            exact (ih hrest hasked.fits (hsame ▸ hexcl) (hspent.mono hsame hgrows)
              hres).after_failed hspent hsame hgrows hlater.kept

theorem oneMore_assign (fuel pos : ℕ) (hfits : Fits pools search.assignments)
    (hexcl : Exclusive search.assignments) (hspent : Spent search pos)
    (hres : (assign pools fuel pos search).1 = true) :
    OneMore pos search (assign pools fuel pos search).2 := by
  induction fuel generalizing pos search with
  | zero => cases hres
  | succ fuel ih =>
    exact oneMore_tryKeys (fun owner search h => outcome_assign fuel owner h)
      (fun owner search => ih owner) (fun _ h => h) hfits hexcl hspent hres

variable {fuel : ℕ}

theorem exhausted_tryKeys (hfind : ∀ owner search, Fits pools search.assignments →
      Outcome pools owner search (find owner search))
    (hfailed : ∀ owner search, Fits pools search.assignments → (untried pools search).card < fuel →
      (find owner search).1 = false →
        Exhausted pools (pools.getD owner []) search (find owner search).2)
    (hkeys : ∀ key ∈ keys, key ∈ pools.getD pos []) (hfits : Fits pools search.assignments)
    (hfuel : (untried pools search).card < fuel + 1)
    (hres : (tryKeys find pos keys search).1 = false) :
    Exhausted pools keys search (tryKeys find pos keys search).2 := by
  have hgrows : ∀ (keys : List κ) (search : Search κ), (∀ key ∈ keys, key ∈ pools.getD pos []) →
      Fits pools search.assignments →
        search.visited ⊆ (tryKeys find pos keys search).2.visited :=
    fun keys search hkeys hfits => (outcome_tryKeys hfind hkeys hfits).grows
  induction keys generalizing search with
  | nil => exact ⟨nofun, fun key hmem hnew => absurd hmem hnew⟩
  | cons key rest ih =>
    have hrest : ∀ other ∈ rest, other ∈ pools.getD pos [] :=
      fun other hother => hkeys other (mem_cons_of_mem key hother)
    rw [tryKeys] at hres ⊢
    by_cases hvis : key ∈ search.visited
    · rw [if_pos hvis] at hres ⊢
      have hlater := ih hrest hfits hfuel hres
      refine ⟨?_, hlater.owners⟩
      intro other hother
      rcases mem_cons.mp hother with rfl | hother
      · exact hgrows rest search hrest hfits hvis
      · exact hlater.pool other hother
    · rw [if_neg hvis] at hres ⊢
      cases howner : search.assignments key with
      | none =>
        rw [howner] at hres
        cases hres
      | some owner =>
        rw [howner] at hres
        have hasked := hfind owner (search.mark key) hfits
        have hless := untried_mark_lt (mem_flatten_of_getD (hkeys key mem_cons_self)) hvis
        have hinner := hfailed owner (search.mark key) hfits (by omega)
        change (match find owner (search.mark key) with
          | (true, found) => (true, found.give key pos)
          | (false, failed) => tryKeys find pos rest failed).1 = false at hres
        show Exhausted pools (key :: rest) search (match find owner (search.mark key) with
          | (true, found) => (true, found.give key pos)
          | (false, failed) => tryKeys find pos rest failed).2
        cases hafter : find owner (search.mark key) with
        | mk success after =>
          rw [hafter] at hasked hinner hres
          cases success with
          | true => cases hres
          | false =>
            have hsame : after.assignments = search.assignments := hasked.failed rfl
            have hmark : key ∈ after.visited :=
              hasked.grows (Finset.mem_insert_self key search.visited)
            have hle : (untried pools after).card ≤ (untried pools (search.mark key)).card :=
              untried_le hasked.grows
            have hfuelAfter : (untried pools after).card < fuel + 1 := by omega
            have hlater := ih hrest hasked.fits hfuelAfter hres
            have hlast := hgrows rest after hrest hasked.fits
            have hpool := (hinner rfl).pool
            constructor
            · intro other hother
              rcases mem_cons.mp hother with rfl | hother
              · exact hlast hmark
              · exact hlater.pool other hother
            · intro other hother hnew
              by_cases hmem : other ∈ after.visited
              · by_cases hother_key : other = key
                · subst hother_key
                  exact ⟨owner, howner, fun k hk => hlast (hpool k hk)⟩
                · have hnotMarked : other ∉ (search.mark key).visited := by
                    intro hmarked
                    exact hnew ((Finset.mem_insert.mp hmarked).resolve_left hother_key)
                  obtain ⟨q, hq, hcl⟩ := (hinner rfl).owners other hmem hnotMarked
                  exact ⟨q, hq, fun k hk => hlast (hcl k hk)⟩
              · obtain ⟨q, hq, hcl⟩ := hlater.owners other hother hmem
                rw [hsame] at hq
                exact ⟨q, hq, hcl⟩

theorem exhausted_assign
    (hfits : Fits pools search.assignments) (hfuel : (untried pools search).card < fuel)
    (hres : (assign pools fuel pos search).1 = false) :
    Exhausted pools (pools.getD pos []) search (assign pools fuel pos search).2 := by
  induction fuel generalizing pos search with
  | zero => omega
  | succ fuel ih =>
    exact exhausted_tryKeys (fun owner search h => outcome_assign fuel owner h)
      (fun owner search hfits hfuel hres => ih hfits hfuel hres) (fun _ h => h) hfits hfuel
      hres

variable {assignments : κ → Option ℕ}

/-- **A search that fails has found a set of positions with too few keys.** -/
theorem assign_succeeds (hkeys : Representatives pools keys) (hfits : Fits pools assignments)
    (hexcl : Exclusive assignments) (hunserved : ¬ Served assignments pos)
    (hpos : pos < pools.length) (hfuel : pools.flatten.length < fuel) :
    (assign pools fuel pos ⟨∅, assignments⟩).1 = true := by
  by_contra hfail
  rw [Bool.not_eq_true] at hfail
  have hcard : (untried pools ⟨∅, assignments⟩).card < fuel :=
    Nat.lt_of_le_of_lt ((Finset.card_le_card Finset.sdiff_subset).trans
      (toFinset_card_le pools.flatten)) hfuel
  have hexhausted : Exhausted pools (pools.getD pos []) ⟨∅, assignments⟩ _ :=
    exhausted_assign hfits hcard hfail
  obtain ⟨hpool, howners⟩ := hexhausted
  generalize (assign pools fuel pos ⟨∅, assignments⟩).2.visited = tried at hpool howners
  let owner : κ → ℕ := fun key => (assignments key).getD 0
  have howner : ∀ key ∈ tried, assignments key = some (owner key) ∧
      ∀ other ∈ pools.getD (owner key) [], other ∈ tried := by
    intro key hkey
    obtain ⟨q, hq, hcl⟩ := howners key hkey (Finset.notMem_empty key)
    change assignments key = some q at hq
    have hqowner : owner key = q := by
      show (assignments key).getD 0 = q
      rw [hq, Option.getD_some]
    rw [hqowner]
    exact ⟨hq, hcl⟩
  -- the pos and the owners of the tried keys: one more than there are tried keys
  have hinj : Set.InjOn owner tried := by
    intro a ha b hb hab
    have ha' := (howner a ha).1
    rw [hab] at ha'
    exact hexcl a b (owner b) ha' (howner b hb).1
  have hfresh : pos ∉ tried.image owner := by
    intro hmem
    obtain ⟨key, hkey, heq⟩ := Finset.mem_image.mp hmem
    exact hunserved ⟨key, heq ▸ (howner key hkey).1⟩
  have hmany : (insert pos (tried.image owner)).card = tried.card + 1 := by
    rw [Finset.card_insert_of_notMem hfresh, Finset.card_image_of_injOn hinj]
  have hshort : ∀ q ∈ insert pos (tried.image owner), ∃ h : q < keys.length, keys[q] ∈ tried := by
    intro q hq
    have hlen := hkeys.1.length_eq
    have hpoolq : (∀ other ∈ pools.getD q [], other ∈ tried) ∧ q < pools.length := by
      rcases Finset.mem_insert.mp hq with rfl | hq
      · exact ⟨hpool, hpos⟩
      obtain ⟨key, hkey, rfl⟩ := Finset.mem_image.mp hq
      refine ⟨(howner key hkey).2, ?_⟩
      have hmem := hfits key (owner key) (howner key hkey).1
      by_contra hge
      rw [getD_eq_default _ _ (by omega)] at hmem
      cases hmem
    refine ⟨by omega, hpoolq.1 _ ?_⟩
    rw [getD_eq_getElem _ _ hpoolq.2]
    exact hkeys.1.get hpoolq.2 (by omega)
  obtain ⟨hlt, -⟩ := hshort pos (Finset.mem_insert_self _ _)
  have hfew : (insert pos (tried.image owner)).card ≤ tried.card := by
    refine Finset.card_le_card_of_injOn (fun q => keys.getD q keys[pos]) ?_ ?_
    · intro q hq
      obtain ⟨h, hmem⟩ := hshort q hq
      simp only [getD_eq_getElem _ _ h]
      exact hmem
    · intro q hq r hr hqr
      obtain ⟨hq', -⟩ := hshort q hq
      obtain ⟨hr', -⟩ := hshort r hr
      simp only [getD_eq_getElem _ _ hq', getD_eq_getElem _ _ hr'] at hqr
      exact (List.Nodup.getElem_inj_iff hkeys.2).mp hqr
  omega

theorem assignAll_of_representatives {positions : List ℕ}
    (hkeys : Representatives pools keys) (hfuel : pools.flatten.length < fuel)
    (hfits : Fits pools assignments) (hexcl : Exclusive assignments)
    (hunserved : ∀ p ∈ positions, ¬ Served assignments p) (hnodup : positions.Nodup)
    (hpositions : ∀ p ∈ positions, p < pools.length) :
    assignAll pools fuel positions assignments = true := by
  induction positions generalizing assignments with
  | nil => rfl
  | cons pos rest ih =>
    rw [nodup_cons] at hnodup
    have hfree := hunserved pos mem_cons_self
    have hspent : Spent ⟨∅, assignments⟩ pos := fun key hkey => absurd ⟨key, hkey⟩ hfree
    have hfound := assign_succeeds hkeys hfits hexcl hfree (hpositions pos mem_cons_self) hfuel
    have houtc : Outcome pools pos ⟨∅, assignments⟩ _ := outcome_assign fuel pos hfits
    have hone : OneMore pos ⟨∅, assignments⟩ _ :=
      oneMore_assign fuel pos hfits hexcl hspent hfound
    rw [assignAll, Bool.and_eq_true]
    refine ⟨hfound, ih houtc.fits ?_ ?_ hnodup.2 fun p hp => hpositions p (mem_cons_of_mem pos hp)⟩
    · intro key other owner hkey hother
      by_cases hne : owner = pos
      · subst hne
        exact hone.own key other (Finset.notMem_empty key) (Finset.notMem_empty other) hkey hother
      · exact hone.others owner hne key other hkey hother
    · rintro p hp ⟨key, hkey⟩
      have hne : p ≠ pos := fun h => hnodup.1 (h ▸ hp)
      have hnone : Spent ⟨∅, assignments⟩ p :=
        fun key hkey => absurd ⟨key, hkey⟩ (hunserved p (mem_cons_of_mem pos hp))
      exact Finset.notMem_empty key (hone.spent p hne hnone key hkey)

/-- **The searches succeed exactly when the pools have distinct representatives.** -/
theorem assignAll_iff (hfuel : pools.flatten.length < fuel) :
    assignAll pools fuel (List.range pools.length) (fun _ => none) = true ↔
      ∃ keys, Representatives pools keys := by
  constructor
  · exact representatives_of_assignAll
  rintro ⟨keys, hkeys⟩
  refine assignAll_of_representatives hkeys hfuel nofun nofun ?_ nodup_range ?_
  · rintro p - ⟨key, hkey⟩
    cases hkey
  · exact fun p hp => mem_range.mp hp

end

end Cfms.Lib.AugmentingPath
