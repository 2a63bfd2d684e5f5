import Mathlib.Data.List.Pairwise
import Mathlib.Data.List.Perm.Subperm
import Mathlib.Data.List.Sort

/-!
# Relational databases with constraints

Rows with nulls, unique keys and foreign keys, the order of a query, and its conditions, in which a
null is equal to nothing.
-/

namespace Cfms.Lib.Relational

variable {V : Type*}

/-- The values by column; `none` is the null of the engine. -/
abbrev Row (V : Type*) := String → Option V

def valuesOf (row : Row V) (columns : List String) : List (Option V) := columns.map row

def hasNull (values : List (Option V)) : Bool := values.any Option.isNone

structure ForeignKey where
  columns : List String
  table : String
  referred : List String
  deriving DecidableEq

abbrev Database (V : Type*) := String → List (Row V)

/-- The order in which an engine sorts the values of a key. -/
structure KeyOrder (V : Type*) where
  le : List (Option V) → List (Option V) → Bool
  total : ∀ a b, le a b = true ∨ le b a = true
  trans : ∀ a b c, le a b = true → le b c = true → le a c = true
  antisymm : ∀ a b, le a b = true → le b a = true → a = b

/-- `SELECT … ORDER BY columns`. -/
def orderBy (order : KeyOrder V) (columns : List String) (rows : List (Row V)) : List (Row V) :=
  rows.insertionSort fun row row' => order.le (valuesOf row columns) (valuesOf row' columns) = true

/-! ### Constraints -/

section

variable [DecidableEq V]

/-- Two rows with the same values in a unique key; keys with a null are never the same.  A key
without columns is none. -/
def conflicts (columns : List String) (row row' : Row V) : Bool :=
  !columns.isEmpty && !hasNull (valuesOf row columns) &&
    valuesOf row columns == valuesOf row' columns

def ForeignKey.holds (key : ForeignKey) (rows : List (Row V)) (row : Row V) : Bool :=
  hasNull (valuesOf row key.columns) ||
    rows.any fun other => valuesOf other key.referred == valuesOf row key.columns

end

/-! ### Sorting -/

theorem orderBy_perm (order : KeyOrder V) (columns : List String) (rows : List (Row V)) :
    (orderBy order columns rows).Perm rows := List.perm_insertionSort _ rows

/-! ### Conditions of a query -/

section

variable [DecidableEq V]

/-- `value = value'`; a null is equal to nothing. -/
def sameValue : Option V → Option V → Bool
  | some v, some v' => v == v'
  | _, _ => false

/-- `value IN (SELECT …)`. -/
def isIn (value : Option V) (values : List (Option V)) : Bool := values.any (sameValue value)

variable {value value' : Option V}

theorem sameValue_iff : sameValue value value' = true ↔ value = value' ∧ value.isSome = true := by
  cases value with
  | none => simp [sameValue]
  | some v =>
    cases value' with
    | none | some v' => simp [sameValue]

theorem sameValue_symm (h : sameValue value value' = true) : sameValue value' value = true := by
  obtain ⟨rfl, hsome⟩ := sameValue_iff.mp h
  exact h

theorem sameValue_trans {value'' : Option V} (h : sameValue value value' = true)
    (h' : sameValue value' value'' = true) : sameValue value value'' = true := by
  obtain ⟨rfl, hsome⟩ := sameValue_iff.mp h
  exact h'

variable {values : List (Option V)}

theorem isIn_iff : isIn value values = true ↔ value ∈ values ∧ value.isSome = true := by
  rw [isIn, List.any_eq_true]
  constructor
  · rintro ⟨value', hmem, hsame⟩
    obtain ⟨rfl, hsome⟩ := sameValue_iff.mp hsame
    exact ⟨hmem, hsome⟩
  · rintro ⟨hmem, hsome⟩
    exact ⟨value, hmem, sameValue_iff.mpr ⟨rfl, hsome⟩⟩

variable {v : V}

theorem isIn_some : isIn (some v) values = true ↔ some v ∈ values := by
  rw [isIn_iff]
  simp

variable {row row' : Row V} {column : String}

theorem conflicts_single (h : row column = some v)
    (h' : row' column = some v) : conflicts [column] row row' = true := by
  simp [conflicts, hasNull, valuesOf, h, h']

variable {columns : List String}

theorem conflicts_symm
    (h : conflicts columns row row' = true) : conflicts columns row' row = true := by
  simp only [conflicts, Bool.and_eq_true, beq_iff_eq] at h ⊢
  exact ⟨⟨h.1.1, h.2 ▸ h.1.2⟩, h.2.symm⟩

variable {rows : List (Row V)}

theorem eq_of_conflicts
    (hkey : rows.Pairwise fun row row' => conflicts columns row row' = false) (hrow : row ∈ rows)
    (hrow' : row' ∈ rows) (h : conflicts columns row row' = true) : row = row' := by
  by_contra hne
  have hsymm : Std.Symm fun row row' : Row V => conflicts columns row row' = false := by
    refine ⟨fun a b hab => ?_⟩
    rw [Bool.eq_false_iff] at hab ⊢
    exact fun hba => hab (conflicts_symm hba)
  have hfalse := hkey.forall hrow hrow' hne
  rw [h] at hfalse
  cases hfalse

theorem holds_single_iff {table referred : String} :
    ForeignKey.holds ⟨[column], table, [referred]⟩ rows row = true ↔
      ∀ v, row column = some v → ∃ other ∈ rows, other referred = some v := by
  rw [ForeignKey.holds, Bool.or_eq_true]
  cases hvalue : row column with
  | none | some v => simp [hasNull, valuesOf, hvalue]

end

end Cfms.Lib.Relational
