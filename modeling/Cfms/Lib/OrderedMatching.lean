import Mathlib.Data.List.Induction
import Mathlib.Data.List.TakeDrop

/-!
# Matching a chain of steps with a subsequence of events

Events arrive one after another, and each may or may not be taken for the next step of a chain.
Whether an event fits a step may depend on a memory of the events taken before, which `take`
updates.  `followAll` keeps the set of all states a choice of events can lead to, a state being the
number of steps done and the memory.

`consume` is the meaning: it takes given events for given steps, one for one and in order.
`mem_followAll` says that the states are exactly those that some subsequence of the events reaches.
-/

namespace Cfms.Lib.OrderedMatching

open List Option

variable {σ ε κ : Type} {take : σ → ε → κ → Option κ} {chain : List σ}

/-- The state after an event is taken for the next step. -/
def extend (take : σ → ε → κ → Option κ) (chain : List σ) (event : ε) (state : ℕ × κ) :
    Option (ℕ × κ) :=
  match chain[state.1]? with
  | none => none
  | some step => (take step event state.2).map fun memory => (state.1 + 1, memory)

def addState [DecidableEq κ] (following : List (ℕ × κ)) : Option (ℕ × κ) → List (ℕ × κ)
  | none => following
  | some state => following.insert state

/-- The states after an event that may be taken or left. -/
def follow [DecidableEq κ] (take : σ → ε → κ → Option κ) (chain : List σ) (states : List (ℕ × κ))
    (event : ε) :
    List (ℕ × κ) :=
  states.foldl (fun following state => addState following (extend take chain event state)) states

def followAll [DecidableEq κ] (take : σ → ε → κ → Option κ) (chain : List σ) (states : List (ℕ × κ))
    (events : List ε) : List (ℕ × κ) :=
  events.foldl (follow take chain) states

section

variable [DecidableEq κ] {state : ℕ × κ} {following : List (ℕ × κ)}

theorem mem_addState {added : Option (ℕ × κ)} :
    state ∈ addState following added ↔ added = some state ∨ state ∈ following := by
  cases added with
  | none => simp [addState]
  | some new => simp [addState, eq_comm]

variable {states : List (ℕ × κ)} {event : ε}

theorem mem_foldl_addState : state ∈ states.foldl
        (fun following state => addState following (extend take chain event state)) following ↔
      state ∈ following ∨ ∃ before ∈ states, extend take chain event before = some state := by
  induction states generalizing following with
  | nil => simp
  | cons first rest ih =>
    rw [foldl_cons, ih, mem_addState]
    simp only [mem_cons, exists_eq_or_imp]
    tauto

theorem mem_follow : state ∈ follow take chain states event ↔
      state ∈ states ∨ ∃ before ∈ states, extend take chain event before = some state :=
  mem_foldl_addState

theorem mem_followAll_of_mem {events : List ε}
    (h : state ∈ states) : state ∈ followAll take chain states events := by
  induction events generalizing states with
  | nil => exact h
  | cons event rest ih => exact ih (mem_follow.mpr (Or.inl h))

end

/-! ### The meaning -/

def consume (take : σ → ε → κ → Option κ) : List σ → List ε → κ → Option κ
  | [], [], memory => some memory
  | step :: steps, event :: events, memory =>
    (take step event memory).bind (consume take steps events)
  | _, _, _ => none

variable {events : List ε} {memory : κ} {steps : List σ} {memory' : κ}

theorem consume_length
    (h : consume take steps events memory = some memory') : steps.length = events.length := by
  induction steps generalizing events memory with
  | nil =>
    cases events with
    | nil => rfl
    | cons event rest => cases h
  | cons step steps ih =>
    cases events with
    | nil => cases h
    | cons event rest =>
      obtain ⟨_, -, hrest⟩ := bind_eq_some_iff.mp h
      simp only [length_cons, ih hrest]

theorem consume_concat (steps : List σ) (events : List ε) (step : σ) (event : ε) (memory : κ) :
    consume take (steps ++ [step]) (events ++ [event]) memory =
      (consume take steps events memory).bind (take step event) := by
  induction steps generalizing events memory with
  | nil =>
    cases events with
    | nil => simp [consume]
    | cons first rest => cases rest <;> simp [consume]
  | cons first rest ih =>
    cases events with
    | nil => cases rest <;> simp [consume]
    | cons e es =>
      simp only [consume, bind_assoc]
      exact congrArg _ (funext fun memory => ih es memory)

theorem consume_split {final : κ} (h : consume take steps events memory = some final) (k : ℕ) :
    ∃ middle, consume take (steps.take k) (events.take k) memory = some middle ∧
      consume take (steps.drop k) (events.drop k) middle = some final := by
  induction k generalizing steps events memory with
  | zero => exact ⟨memory, by simp [consume], by simpa using h⟩
  | succ k ih =>
    cases steps with
    | nil =>
      cases events with
      | nil => exact ⟨memory, rfl, h⟩
      | cons event events => cases h
    | cons step steps =>
      cases events with
      | nil => cases h
      | cons event events =>
        obtain ⟨next, htake, hrest⟩ := bind_eq_some_iff.mp h
        obtain ⟨middle, hfront, hback⟩ := ih hrest
        refine ⟨middle, ?_, hback⟩
        rw [take_succ_cons, take_succ_cons, consume, htake]
        exact hfront

variable {event : ε} {n : ℕ}

theorem extend_eq_some {m : ℕ} : extend take chain event (n, memory) = some (m, memory') ↔
      ∃ step, chain[n]? = some step ∧ take step event memory = some memory' ∧ m = n + 1 := by
  unfold extend
  cases hstep : chain[n]? with
  | none => simp
  | some step =>
    simp only [map_eq_some_iff, Prod.mk.injEq, some.injEq]
    constructor
    · rintro ⟨memory'', htake, rfl, rfl⟩
      exact ⟨step, rfl, htake, rfl⟩
    · rintro ⟨_, rfl, htake, rfl⟩
      exact ⟨memory', htake, rfl, rfl⟩

theorem sublist_concat_cases {front : List ε} {last : ε}
    (h : (front ++ [last]).Sublist (events ++ [event])) :
    (front ++ [last]).Sublist events ∨ (last = event ∧ front.Sublist events) := by
  rw [← reverse_sublist, reverse_concat, reverse_concat] at h
  cases h with
  | cons _ h =>
    refine Or.inl ?_
    rw [← reverse_sublist, reverse_concat]
    exact h
  | cons_cons _ h => exact Or.inr ⟨rfl, reverse_sublist.mp h⟩

/-- **The states are those that a subsequence of the events reaches.** -/
theorem mem_followAll [DecidableEq κ] {start memory : κ} :
    (n, memory) ∈ followAll take chain [(0, start)] events ↔
      n ≤ chain.length ∧ ∃ used : List ε, used.Sublist events ∧
        consume take (chain.take n) used start = some memory := by
  induction events using reverseRecOn generalizing n memory with
  | nil =>
    show (n, memory) ∈ [(0, start)] ↔ _
    rw [mem_singleton, Prod.mk.injEq]
    constructor
    · rintro ⟨rfl, rfl⟩
      exact ⟨Nat.zero_le _, [], List.Sublist.refl _, rfl⟩
    · rintro ⟨hle, used, hused, hcons⟩
      have hlen := consume_length hcons
      rw [sublist_nil] at hused
      subst hused
      rw [length_take, length_nil] at hlen
      obtain rfl : n = 0 := by omega
      exact ⟨rfl, (some.inj hcons).symm⟩
  | append_singleton events event ih =>
    have hfollow : followAll take chain [(0, start)] (events ++ [event]) =
        follow take chain (followAll take chain [(0, start)] events) event := by
      rw [followAll, foldl_append]
      rfl
    rw [hfollow, mem_follow, ih]
    constructor
    · rintro (⟨hle, used, hused, hcons⟩ | ⟨⟨m, memory₁⟩, hbef, hextend⟩)
      · exact ⟨hle, used, hused.trans (sublist_append_left events [event]), hcons⟩
      · obtain ⟨step, hstep, htake, rfl⟩ := extend_eq_some.mp hextend
        obtain ⟨hle, used, hused, hcons⟩ := ih.mp hbef
        have hlt : m < chain.length := (List.getElem?_eq_some_iff.mp hstep).1
        refine ⟨hlt, used ++ [event], hused.append (List.Sublist.refl _), ?_⟩
        rw [take_add_one, hstep, toList_some, consume_concat, hcons]
        exact htake
    · rintro ⟨hle, used, hused, hcons⟩
      rcases used.eq_nil_or_concat with rfl | ⟨front, last, rfl⟩
      · exact Or.inl ⟨hle, [], nil_sublist events, hcons⟩
      rw [concat_eq_append] at hused hcons
      have hlen := consume_length hcons
      rw [length_take, length_append, length_singleton] at hlen
      obtain ⟨m, rfl⟩ : ∃ m, n = m + 1 := ⟨n - 1, by omega⟩
      have hlt : m < chain.length := by omega
      rcases sublist_concat_cases hused with hearlier | ⟨rfl, hfront⟩
      · exact Or.inl ⟨hle, _, hearlier, hcons⟩
      refine Or.inr ?_
      rw [take_add_one, getElem?_eq_getElem hlt, toList_some, consume_concat] at hcons
      obtain ⟨memory₁, hbef, htake⟩ := bind_eq_some_iff.mp hcons
      exact ⟨(m, memory₁), ih.mpr ⟨Nat.le_of_lt hlt, front, hfront, hbef⟩,
        extend_eq_some.mpr ⟨_, getElem?_eq_getElem hlt, htake, rfl⟩⟩

end Cfms.Lib.OrderedMatching
