import Mathlib.Data.Rat.Floor

/-!
# Token buckets

A bucket has a capacity and is refilled at a constant rate.  It is described by its level at the
last use; a bucket that was never used is full.  Whatever the requests, the cost that is granted
over an interval is at most the capacity and what flows in meanwhile.
-/

namespace Cfms.Lib.TokenBucket

/-- The level after the last use, and its instant. -/
structure Bucket where
  level : ℚ
  usedAt : ℚ
  deriving DecidableEq

def available (capacity rate : ℚ) (now : ℚ) : Option Bucket → ℚ
  | none => capacity
  | some bucket => min capacity (bucket.level + (now - bucket.usedAt) * rate)

/-- A request for the given cost: whether it is granted, and the bucket afterwards. -/
def take (capacity rate cost now : ℚ) (bucket : Option Bucket) : Bool × Bucket :=
  let tokens := available capacity rate now bucket
  if cost ≤ tokens then (true, ⟨tokens - cost, now⟩) else (false, ⟨tokens, now⟩)

/-- The bucket was used at `now` or earlier, and its level is not negative. -/
def Sound (now : ℚ) : Option Bucket → Prop
  | none => True
  | some bucket => bucket.usedAt ≤ now ∧ 0 ≤ bucket.level

section

variable {capacity rate cost now later : ℚ} {bucket : Option Bucket}

theorem available_le_capacity (capacity rate now : ℚ) (bucket : Option Bucket) :
    available capacity rate now bucket ≤ capacity := by
  cases bucket with
  | none => exact le_rfl
  | some bucket => exact min_le_left _ _

theorem available_nonneg (hcapacity : 0 ≤ capacity) (hrate : 0 ≤ rate) (h : Sound now bucket) :
    0 ≤ available capacity rate now bucket := by
  cases bucket with
  | none => exact hcapacity
  | some bucket =>
    obtain ⟨hused, hlevel⟩ := h
    have hflow : 0 ≤ (now - bucket.usedAt) * rate := mul_nonneg (sub_nonneg.mpr hused) hrate
    exact le_min hcapacity (by linarith)

theorem available_le_add (hrate : 0 ≤ rate) (hlater : now ≤ later) :
    available capacity rate later bucket ≤
      available capacity rate now bucket + (later - now) * rate := by
  have hflow : 0 ≤ (later - now) * rate := mul_nonneg (sub_nonneg.mpr hlater) hrate
  cases bucket with
  | none =>
    show capacity ≤ capacity + _
    linarith
  | some bucket =>
    show min capacity (bucket.level + (later - bucket.usedAt) * rate) ≤
      min capacity (bucket.level + (now - bucket.usedAt) * rate) + (later - now) * rate
    have hsplit : (later - bucket.usedAt) * rate =
        (now - bucket.usedAt) * rate + (later - now) * rate := by ring
    cases min_choice capacity (bucket.level + (now - bucket.usedAt) * rate) with
    | inl hfull =>
      exact (min_le_left _ _).trans (by linarith)
    | inr hlevel =>
      exact (min_le_right _ _).trans (by linarith)

theorem available_mono (hrate : 0 ≤ rate) (hlater : now ≤ later) :
    available capacity rate now bucket ≤ available capacity rate later bucket := by
  cases bucket with
  | none => exact le_rfl
  | some bucket =>
    have hflow : (now - bucket.usedAt) * rate ≤ (later - bucket.usedAt) * rate :=
      mul_le_mul_of_nonneg_right (by linarith) hrate
    exact min_le_min_left capacity (by linarith)

/-- **A bucket that was idle long enough is full.** -/
theorem available_of_idle {retention : ℚ} (hrate : 0 ≤ rate) (hcover : capacity ≤ retention * rate)
    {bucket : Bucket} (hlevel : 0 ≤ bucket.level) (hidle : bucket.usedAt + retention ≤ now) :
    available capacity rate now (some bucket) = capacity := by
  have hflow : retention * rate ≤ (now - bucket.usedAt) * rate :=
    mul_le_mul_of_nonneg_right (by linarith) hrate
  exact min_eq_left (by linarith)

/-! ### One request -/

theorem take_usedAt (capacity rate cost now : ℚ) (bucket : Option Bucket) :
    (take capacity rate cost now bucket).2.usedAt = now := by
  unfold take
  simp only
  split <;> rfl

theorem take_sound (hcapacity : 0 ≤ capacity) (hrate : 0 ≤ rate) (h : Sound now bucket) :
    Sound now (some (take capacity rate cost now bucket).2) := by
  have hnonneg := available_nonneg hcapacity hrate h
  unfold take
  simp only
  split
  · rename_i hcost
    exact ⟨le_rfl, sub_nonneg.mpr hcost⟩
  · exact ⟨le_rfl, hnonneg⟩

theorem take_level (capacity rate cost now : ℚ) (bucket : Option Bucket) :
    (take capacity rate cost now bucket).2.level +
    (if (take capacity rate cost now bucket).1 then cost else 0) =
      available capacity rate now bucket := by
  unfold take
  simp only
  split
  · show available capacity rate now bucket - cost + cost = _
    ring
  · show available capacity rate now bucket + 0 = _
    ring

theorem take_level_le (hcost : 0 ≤ cost) :
    (take capacity rate cost now bucket).2.level ≤ available capacity rate now bucket := by
  have hlevel := take_level capacity rate cost now bucket
  split at hlevel <;> linarith

theorem available_take (hcost : 0 ≤ cost) :
    available capacity rate now (some (take capacity rate cost now bucket).2) =
      (take capacity rate cost now bucket).2.level := by
  have hlevel : (take capacity rate cost now bucket).2.level ≤ available capacity rate now bucket :=
    take_level_le hcost
  have hcap := available_le_capacity capacity rate now bucket
  show min capacity (_ + (now - (take capacity rate cost now bucket).2.usedAt) * rate) = _
  rw [take_usedAt, sub_self, zero_mul, add_zero]
  exact min_eq_right (hlevel.trans hcap)

theorem available_take_le (hcost : 0 ≤ cost) :
    available capacity rate later (some (take capacity rate cost now bucket).2) ≤
      available capacity rate later bucket := by
  have hlevel : (take capacity rate cost now bucket).2.level ≤ available capacity rate now bucket :=
    take_level_le hcost
  show min capacity (_ + (later - (take capacity rate cost now bucket).2.usedAt) * rate) ≤ _
  rw [take_usedAt]
  cases bucket with
  | none => exact min_le_left _ _
  | some bucket =>
    apply min_le_min_left
    have hflow : available capacity rate now (some bucket) ≤
        bucket.level + (now - bucket.usedAt) * rate := min_le_right _ _
    linarith

/-! ### Many requests -/

/-- The instants of the requests do not go back. -/
def Nondecreasing : ℚ → List (ℚ × ℚ) → Prop
  | _, [] => True
  | clock, (now, _) :: rest => clock ≤ now ∧ Nondecreasing now rest

/-- The cost that is granted between `first` and `last`; a request is an instant and a cost. -/
def grantedCost (capacity rate first last : ℚ) : Option Bucket → List (ℚ × ℚ) → ℚ
  | _, [] => 0
  | bucket, (now, cost) :: rest =>
    let result := take capacity rate cost now bucket
    (if result.1 = true ∧ first ≤ now ∧ now ≤ last then cost else 0) +
      grantedCost capacity rate first last (some result.2) rest

variable {first last clock : ℚ} {requests : List (ℚ × ℚ)}

theorem grantedCost_of_lt (hclock : last < clock) (htimes : Nondecreasing clock requests) :
    grantedCost capacity rate first last bucket requests = 0 := by
  induction requests generalizing clock bucket with
  | nil => rfl
  | cons request rest ih =>
    obtain ⟨now, cost⟩ := request
    obtain ⟨hnow, hrest⟩ := htimes
    have hlate : last < now := hclock.trans_le hnow
    rw [grantedCost, ih hlate hrest, if_neg fun h => absurd h.2.2 (not_le.mpr hlate), add_zero]

theorem grantedCost_le_available (hcapacity : 0 ≤ capacity) (hrate : 0 ≤ rate)
    (hcosts : ∀ request ∈ requests, 0 ≤ request.2) (htimes : Nondecreasing clock requests)
    (hsound : Sound clock bucket) (hlast : max first clock ≤ last) :
    grantedCost capacity rate first last bucket requests ≤
      available capacity rate (max first clock) bucket + (last - max first clock) * rate := by
  have hbucket : 0 ≤ available capacity rate (max first clock) bucket :=
    (available_nonneg hcapacity hrate hsound).trans (available_mono hrate (le_max_right _ _))
  have hflow : 0 ≤ (last - max first clock) * rate := mul_nonneg (sub_nonneg.mpr hlast) hrate
  induction requests generalizing clock bucket with
  | nil =>
    show (0 : ℚ) ≤ _
    linarith
  | cons request rest ih =>
    obtain ⟨now, cost⟩ := request
    obtain ⟨hnow, hrest⟩ := htimes
    have hcost : 0 ≤ cost := hcosts (now, cost) List.mem_cons_self
    have hcosts' : ∀ request ∈ rest, 0 ≤ request.2 :=
      fun request hmem => hcosts request (List.mem_cons_of_mem _ hmem)
    have hsound' : Sound now bucket := by
      cases bucket with
      | none => trivial
      | some bucket => exact ⟨hsound.1.trans hnow, hsound.2⟩
    have htake : Sound now (some (take capacity rate cost now bucket).2) :=
      take_sound hcapacity hrate hsound'
    have hleft : ∀ later, now ≤ later →
        0 ≤ available capacity rate later (some (take capacity rate cost now bucket).2) :=
      fun later hlater =>
        (available_nonneg hcapacity hrate htake).trans (available_mono hrate hlater)
    rw [grantedCost]
    by_cases hover : last < now
    · -- the interval is over
      rw [grantedCost_of_lt hover hrest, if_neg fun h => absurd h.2.2 (not_le.mpr hover)]
      linarith
    · have hwithin : now ≤ last := not_lt.mp hover
      by_cases hearly : now < first
      · -- the interval has not begun
        have hfirst : first ≤ last := (le_max_left _ _).trans hlast
        have hstart : max first now = first := max_eq_left hearly.le
        have hstart' : max first clock = first := max_eq_left (hnow.trans hearly.le)
        have hih := ih hcosts' hrest htake (hstart.le.trans hfirst)
          (hleft _ (le_max_right _ _)) (mul_nonneg (sub_nonneg.mpr (hstart.le.trans hfirst)) hrate)
        have hshrink : available capacity rate first (some (take capacity rate cost now bucket).2) ≤
            available capacity rate first bucket := available_take_le hcost
        rw [hstart] at hih
        rw [if_neg fun h => absurd h.2.1 (not_le.mpr hearly), hstart']
        linarith
      · have hbegun : first ≤ now := not_lt.mp hearly
        have hstart : max first now = now := max_eq_right hbegun
        have hih := ih hcosts' hrest htake (hstart.le.trans hwithin)
          (hleft _ (le_max_right _ _)) (mul_nonneg (sub_nonneg.mpr (hstart.le.trans hwithin)) hrate)
        rw [hstart, available_take hcost] at hih
        have hlevel := take_level capacity rate cost now bucket
        have hinflow : available capacity rate now bucket ≤
            available capacity rate (max first clock) bucket + (now - max first clock) * rate :=
          available_le_add hrate (max_le hbegun hnow)
        have hgrant : (if (take capacity rate cost now bucket).1 = true ∧ first ≤ now ∧ now ≤ last
            then cost else 0) = if (take capacity rate cost now bucket).1 = true then cost else 0 := by
          simp only [hbegun, hwithin, and_true]
        linarith

/-- **Over any interval at most the capacity and what flows in is granted.** -/
theorem grantedCost_le (hcapacity : 0 ≤ capacity) (hrate : 0 ≤ rate)
    (hcosts : ∀ request ∈ requests, 0 ≤ request.2) (htimes : Nondecreasing clock requests)
    (hsound : Sound clock bucket) (hint : first ≤ last) :
    grantedCost capacity rate first last bucket requests ≤ capacity + (last - first) * rate := by
  have hflow : 0 ≤ (last - first) * rate := mul_nonneg (sub_nonneg.mpr hint) hrate
  by_cases hover : last < clock
  · rw [grantedCost_of_lt hover htimes]
    linarith
  · have hlast : max first clock ≤ last := max_le hint (not_lt.mp hover)
    have hgranted : grantedCost capacity rate first last bucket requests ≤ _ :=
      grantedCost_le_available hcapacity hrate hcosts htimes hsound hlast
    have hcap := available_le_capacity capacity rate (max first clock) bucket
    have hshort : (last - max first clock) * rate ≤ (last - first) * rate :=
      mul_le_mul_of_nonneg_right (by linarith [le_max_left first clock]) hrate
    linarith

end

end Cfms.Lib.TokenBucket
