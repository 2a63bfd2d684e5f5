import Mathlib.Algebra.BigOperators.Group.List.Basic
import Mathlib.Algebra.GroupWithZero.Nat
import Mathlib.Data.List.Dedup

/-!
# Queries in chunks

A query whose condition is `key IN keys` is run once for each chunk of the keys, because a
statement takes only so many bound values.  `batched` cuts a list into chunks; joined, the chunks
are the list again (`batched_flatten`).

What the chunks select together is what the whole list selects (`exists_mem_batched`), and counts
add up when no key comes twice (`sum_ite_mem`, `sum_countP_mem`).  `tally` is the dictionary that
collects the counts of the single runs.
-/

namespace Cfms.Lib.Chunks

open List

variable {α κ ρ : Type*}

/-- Cuts of length `n`; `fuel` bounds their number. -/
def cuts (n : ℕ) : ℕ → List α → List (List α)
  | 0, _ => []
  | _ + 1, [] => []
  | fuel + 1, a :: l => (a :: l).take n :: cuts n fuel ((a :: l).drop n)

def batched (n : ℕ) (l : List α) : List (List α) := cuts n l.length l

theorem cuts_flatten {n : ℕ} (hn : 0 < n) :
    ∀ (fuel : ℕ) (l : List α), l.length ≤ fuel → (cuts n fuel l).flatten = l := by
  intro fuel
  induction fuel with
  | zero =>
    intro l hl
    rw [length_eq_zero_iff.mp (by omega : l.length = 0)]
    rfl
  | succ fuel ih =>
    intro l hl
    cases l with
    | nil => rfl
    | cons a l =>
      have hdrop : ((a :: l).drop n).length ≤ fuel := by
        rw [length_drop]
        omega
      rw [cuts, flatten_cons, ih _ hdrop, take_append_drop]

theorem batched_flatten {n : ℕ} (hn : 0 < n) (l : List α) : (batched n l).flatten = l :=
  cuts_flatten hn l.length l (Nat.le_refl _)

theorem exists_mem_batched {n : ℕ} (hn : 0 < n) {l : List α} {a : α} :
    (∃ chunk ∈ batched n l, a ∈ chunk) ↔ a ∈ l := by
  rw [← mem_flatten, batched_flatten hn]

theorem foldl_batched {σ : Type*} {n : ℕ} (hn : 0 < n) {f : σ → List α → σ}
    (hnil : ∀ s, f s [] = s) (happend : ∀ s a b, f (f s a) b = f s (a ++ b)) (s : σ) (l : List α) :
    (batched n l).foldl f s = f s l := by
  have hchunks : ∀ (chunks : List (List α)) (s : σ), chunks.foldl f s = f s chunks.flatten := by
    intro chunks
    induction chunks with
    | nil => exact fun s => (hnil s).symm
    | cons chunk chunks ih =>
      intro s
      rw [foldl_cons, ih, happend, flatten_cons]
  rw [hchunks, batched_flatten hn]

/-! ### Counting by chunks -/

section

variable [DecidableEq κ]

theorem sum_ite_mem (chunks : List (List κ)) (hchunks : chunks.flatten.Nodup) (key : κ) (value : ℕ) :
    (chunks.map fun chunk => if key ∈ chunk then value else 0).sum =
      if key ∈ chunks.flatten then value else 0 := by
  induction chunks with
  | nil => simp
  | cons chunk chunks ih =>
    rw [flatten_cons, nodup_append] at hchunks
    rw [map_cons, sum_cons, ih hchunks.2.1]
    by_cases hkey : key ∈ chunk
    · have hrest : key ∉ chunks.flatten := fun hmem => hchunks.2.2 key hkey key hmem rfl
      simp [hrest]
    · simp [hkey]

theorem sum_countP_mem (rows : List ρ) (key : ρ → κ) (p : ρ → Bool) (chunks : List (List κ))
    (hchunks : chunks.flatten.Nodup) :
    (chunks.map fun chunk => rows.countP fun row => p row && decide (key row ∈ chunk)).sum =
      rows.countP fun row => p row && decide (key row ∈ chunks.flatten) := by
  induction rows with
  | nil => simp
  | cons row rows ih =>
    simp only [countP_cons]
    rw [sum_map_add]
    congr 1
    by_cases hp : p row
    · simpa [hp] using sum_ite_mem chunks hchunks (key row) 1
    · simp [hp]

end

theorem flatMap_filter_mem_perm [DecidableEq κ] (rows : List ρ) (key : ρ → κ)
    (chunks : List (List κ)) (hchunks : chunks.flatten.Nodup) :
    (chunks.flatMap fun chunk => rows.filter fun row => chunk.contains (key row)).Perm
      (rows.filter fun row => chunks.flatten.contains (key row)) := by
  induction chunks with
  | nil => simp
  | cons chunk chunks ih =>
    rw [flatten_cons, nodup_append] at hchunks
    have hsplit := filter_append_perm (fun row => chunk.contains (key row))
      (rows.filter fun row => (chunk ++ chunks.flatten).contains (key row))
    refine List.Perm.trans ?_ hsplit
    rw [filter_filter, filter_filter]
    refine List.Perm.append (List.Perm.of_eq (filter_congr ?_))
      ((ih hchunks.2.1).trans (List.Perm.of_eq (filter_congr ?_)))
    · intro row _
      by_cases hrow : key row ∈ chunk <;> simp [hrow]
    · intro row _
      by_cases hrow : key row ∈ chunk
      · have hrest : key row ∉ chunks.flatten := fun hmem => hchunks.2.2 _ hrow _ hmem rfl
        simp [hrest]
      · simp [hrow]

/-! ### Collecting counts -/

section

variable [DecidableEq κ]

/-- `d[k] = d.get(k, 0) + v` for every row `(k, v)`; a missing key stands at zero. -/
def tally (d : κ → ℕ) (rows : List (κ × ℕ)) : κ → ℕ :=
  rows.foldl (fun d row => Function.update d row.1 (d row.1 + row.2)) d

/-- The counts that the rows give to one key. -/
def sumAt (rows : List (κ × ℕ)) (key : κ) : ℕ :=
  ((rows.filter fun row => row.1 = key).map Prod.snd).sum

theorem sumAt_append (rows rows' : List (κ × ℕ)) (key : κ) :
    sumAt (rows ++ rows') key = sumAt rows key + sumAt rows' key := by
  simp [sumAt]

theorem sumAt_cons (row : κ × ℕ) (rows : List (κ × ℕ)) (key : κ) :
    sumAt (row :: rows) key = (if row.1 = key then row.2 else 0) + sumAt rows key := by
  by_cases hkey : row.1 = key <;> simp [sumAt, hkey]

theorem tally_apply (rows : List (κ × ℕ)) :
    ∀ (d : κ → ℕ) (key : κ), tally d rows key = d key + sumAt rows key := by
  induction rows with
  | nil => intro d key; rfl
  | cons row rows ih =>
    intro d key
    show tally (Function.update d row.1 (d row.1 + row.2)) rows key = _
    rw [ih, sumAt_cons]
    by_cases hkey : row.1 = key
    · subst hkey
      rw [Function.update_self, if_pos rfl, Nat.add_assoc]
    · rw [Function.update_of_ne (Ne.symm hkey), if_neg hkey, Nat.zero_add]

theorem sumAt_flatMap (queries : List α) (rows : α → List (κ × ℕ)) (key : κ) :
    sumAt (queries.flatMap rows) key = (queries.map fun query => sumAt (rows query) key).sum := by
  induction queries with
  | nil => rfl
  | cons query queries ih => rw [flatMap_cons, sumAt_append, ih, map_cons, sum_cons]

/-- `SELECT key, COUNT(*) … GROUP BY key`. -/
def groupCounts (rows : List ρ) (key : ρ → κ) : List (κ × ℕ) :=
  (rows.map key).dedup.map fun k => (k, (rows.map key).count k)

/-- `SELECT key, SUM(count) … GROUP BY key`. -/
def groupSums (rows : List (κ × ℕ)) : List (κ × ℕ) :=
  (rows.map Prod.fst).dedup.map fun k => (k, sumAt rows k)

theorem sumAt_map_key (value : κ → ℕ) {keys : List κ} (hkeys : keys.Nodup) (key : κ) :
    sumAt (keys.map fun k => (k, value k)) key = if key ∈ keys then value key else 0 := by
  induction keys with
  | nil => rfl
  | cons a keys ih =>
    rw [nodup_cons] at hkeys
    rw [map_cons, sumAt_cons, ih hkeys.2]
    by_cases hk : a = key
    · subst hk
      simp [hkeys.1]
    · simp [hk, Ne.symm hk]

@[simp] theorem sumAt_groupCounts (rows : List ρ) (key : ρ → κ) (k : κ) :
    sumAt (groupCounts rows key) k = (rows.map key).count k := by
  rw [groupCounts, sumAt_map_key _ (nodup_dedup _)]
  simp only [mem_dedup]
  split
  · rfl
  · rename_i hmem
    exact (count_eq_zero_of_not_mem hmem).symm

@[simp] theorem sumAt_groupSums (rows : List (κ × ℕ)) (k : κ) :
    sumAt (groupSums rows) k = sumAt rows k := by
  rw [groupSums, sumAt_map_key _ (nodup_dedup _)]
  simp only [mem_dedup]
  split
  · rfl
  rename_i hmem
  have hnone : (rows.filter fun row => row.1 = k) = [] := by
    rw [filter_eq_nil_iff]
    intro row hrow hkey
    rw [decide_eq_true_eq] at hkey
    exact hmem (hkey ▸ mem_map_of_mem hrow)
  rw [sumAt, hnone]
  rfl

end

end Cfms.Lib.Chunks
