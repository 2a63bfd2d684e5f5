import Mathlib.Data.Rat.Defs

/-!
# JSON values

A value as Python's JSON modules read and write it.  An integer is not a float of the same value, but
the two are equal, and so are dicts whose members come in another order: `Json.equal` is `==`.  A
tuple is written as an array, so that it is not what is read back: `Json.dumped` is what a column of
JSON returns for the value that was stored in it.

The readers take a value apart and fail where it has another shape.
-/

namespace Cfms.Lib

open List

inductive Json
  | null
  | bool (value : Bool)
  | int (value : ℤ)
  | float (value : ℚ)
  | string (value : String)
  | array (items : List Json)
  /-- Only written, never read. -/
  | tuple (items : List Json)
  | object (members : List (String × Json))

namespace Json

/-! ### Readers -/

def isNull : Json → Bool
  | .null => true
  | _ => false

/-- `bool(value)`. -/
def truthy : Json → Bool
  | .null => false
  | .bool value => value
  | .int value => value != 0
  | .float value => value != 0
  | .string value => value != ""
  | .array items | .tuple items => !items.isEmpty
  | .object members => !members.isEmpty

/-- `value or 0`. -/
def orZero (value : Json) : Json := if value.truthy then value else .int 0

/-- `isinstance(value, str)`. -/
def text? : Json → Option String
  | .string value => some value
  | _ => none

/-- A value that is an `int` and not a `bool`. -/
def int? : Json → Option ℤ
  | .int value => some value
  | _ => none

/-- An integer that is not negative. -/
def natural? (value : Json) : Option ℕ :=
  value.int?.bind fun n => if n < 0 then none else some n.toNat

/-- `isinstance(value, dict)`. -/
def object? : Json → Option (List (String × Json))
  | .object members => some members
  | _ => none

/-- `isinstance(value, list)`. -/
def array? : Json → Option (List Json)
  | .array items => some items
  | _ => none

/-- `value.get(key)` of an object. -/
def get? (value : Json) (key : String) : Option Json := value.object?.bind (List.lookup key)

/-- A dict without keys. -/
def isEmptyObject : Json → Bool
  | .object members => members.isEmpty
  | _ => false

variable {α : Type}

/-- A member that may be absent. -/
def getMember (value : Json) (key : String) (read : Json → Option α) : Option (Option α) :=
  match value.get? key with
  | none => some none
  | some member => (read member).map some

def readArray (read : Json → Option α) (value : Json) : Option (List α) :=
  value.array?.bind (List.mapM read)

/-! ### Equality and storage -/

/-- A number, with `True` and `False` for 1 and 0. -/
def number? : Json → Option ℚ
  | .bool value => some (if value then 1 else 0)
  | .int value => some value
  | .float value => some value
  | _ => none

mutual

/-- `==`. -/
def equal : Json → Json → Bool
  | .null, .null => true
  | .string first, .string second => first == second
  | .array first, .array second => equalItems first second
  | .tuple first, .tuple second => equalItems first second
  | .object first, .object second =>
    memberOf first second && second.all fun member => (first.lookup member.1).isSome
  | first, second => first.number?.any fun value => second.number? == some value

def equalItems : List Json → List Json → Bool
  | [], [] => true
  | first :: firsts, second :: seconds => equal first second && equalItems firsts seconds
  | _, _ => false

/-- Every key of the first dict is in the second one with an equal value. -/
def memberOf : List (String × Json) → List (String × Json) → Bool
  | [], _ => true
  | (key, value) :: rest, second => (second.lookup key).any (equal value) && memberOf rest second

end

mutual

/-- `json.loads(json.dumps(value))`. -/
def dumped : Json → Json
  | .array items | .tuple items => .array (dumpedItems items)
  | .object members => .object (dumpedMembers members)
  | value => value

def dumpedItems : List Json → List Json
  | [] => []
  | item :: rest => dumped item :: dumpedItems rest

def dumpedMembers : List (String × Json) → List (String × Json)
  | [] => []
  | (key, value) :: rest => (key, dumped value) :: dumpedMembers rest

end

/-- The value equals what a column returns for it. -/
def comesBack (value : Json) : Bool := value.dumped.equal value

variable {first second : List (String × Json)} {key text : String}

theorem equal_text {value : Json} (h : value.equal (.string text) = true) : value = .string text := by
  cases value with
  | string other => rw [beq_iff_eq.mp (show (other == text) = true from h)]
  | null | bool _ | int _ | float _ | array _ | tuple _ | object _ => cases h

theorem exists_equal_of_memberOf (h : memberOf first second = true) {value : Json}
    (hvalue : first.lookup key = some value) :
    ∃ other, second.lookup key = some other ∧ value.equal other = true := by
  induction first with
  | nil => cases hvalue
  | cons member rest ih =>
    obtain ⟨own, head⟩ := member
    rw [memberOf, Bool.and_eq_true, Option.any_eq_true] at h
    obtain ⟨hhead, hrest⟩ := h
    rw [lookup_cons] at hvalue
    by_cases hkey : key = own
    · rw [beq_iff_eq.mpr hkey] at hvalue
      cases hvalue
      obtain ⟨other, hother, hequal⟩ := hhead
      exact ⟨other, hkey ▸ hother, hequal⟩
    · rw [beq_eq_false_iff_ne.mpr hkey] at hvalue
      exact ih hrest hvalue

/-- A dict that equals another one has its texts under the same keys. -/
theorem lookup_of_equal (h : (Json.object first).equal (.object second) = true)
    (hvalue : second.lookup key = some (.string text)) : first.lookup key = some (.string text) := by
  obtain ⟨hmember, hkeys⟩ := (Bool.and_eq_true _ _).mp h
  have hmem : (key, Json.string text) ∈ second := by
    obtain ⟨before, after, rfl, -⟩ := lookup_eq_some_iff.mp hvalue
    exact mem_append_right before mem_cons_self
  obtain ⟨value, hfirst⟩ := Option.isSome_iff_exists.mp (all_eq_true.mp hkeys _ hmem)
  obtain ⟨other, hother, hequal⟩ := exists_equal_of_memberOf hmember hfirst
  rw [hvalue, Option.some.injEq] at hother
  subst hother
  rw [hfirst, equal_text hequal]

theorem memberOf_append {more : List (String × Json)} (h : memberOf first second = true) :
    memberOf first (second ++ more) = true := by
  induction first with
  | nil => rfl
  | cons member rest ih =>
    rw [memberOf, Bool.and_eq_true, Option.any_eq_true] at h ⊢
    obtain ⟨⟨value, hvalue, hequal⟩, hrest⟩ := h
    refine ⟨⟨value, ?_, hequal⟩, ih hrest⟩
    rw [lookup_append, hvalue]
    rfl

theorem memberOf_concat (h : memberOf first second = true) (hkey : second.lookup key = none) :
    memberOf (first ++ [(key, .string text)]) (second ++ [(key, .string text)]) = true := by
  induction first with
  | nil =>
    rw [nil_append, memberOf, lookup_append, hkey, lookup_cons_self]
    show ((text == text) && true) = true
    rw [beq_self_eq_true, Bool.true_and]
  | cons member rest ih =>
    rw [memberOf, Bool.and_eq_true] at h
    rw [cons_append, memberOf, Bool.and_eq_true]
    have hhead : memberOf [member] (second ++ [(key, .string text)]) = true :=
      memberOf_append (Bool.and_eq_true_iff.mpr ⟨h.1, rfl⟩)
    exact ⟨(Bool.and_eq_true_iff.mp hhead).1, ih h.2⟩

theorem dumpedMembers_append (more : List (String × Json)) :
    dumpedMembers (first ++ more) = dumpedMembers first ++ dumpedMembers more := by
  induction first with
  | nil => rfl
  | cons member rest ih => rw [cons_append, dumpedMembers, ih, dumpedMembers, cons_append]

theorem lookup_dumpedMembers :
    (dumpedMembers first).lookup key = (first.lookup key).map dumped := by
  induction first with
  | nil => rfl
  | cons member rest ih =>
    rw [dumpedMembers, lookup_cons, lookup_cons, ih]
    cases key == member.1 <;> rfl

theorem bind_dumped {read : Json → Option α} (hread : ∀ value : Json, read value.dumped = read value) :
    ((dumpedMembers first).lookup key).bind read = (first.lookup key).bind read := by
  rw [lookup_dumpedMembers]
  cases first.lookup key with
  | none => rfl
  | some value => exact hread value

@[simp] theorem text?_dumped (value : Json) : value.dumped.text? = value.text? := by
  cases value <;> rfl

@[simp] theorem int?_dumped (value : Json) : value.dumped.int? = value.int? := by
  cases value <;> rfl

/-- A text under a new key changes nothing about what comes back. -/
theorem comesBack_concat (h : (Json.object first).comesBack = true) (hkey : first.lookup key = none) :
    (Json.object (first ++ [(key, .string text)])).comesBack = true := by
  obtain ⟨hmember, hkeys⟩ := (Bool.and_eq_true _ _).mp h
  refine (Bool.and_eq_true _ _).mpr ?_
  rw [dumpedMembers_append]
  refine ⟨memberOf_concat hmember hkey, ?_⟩
  rw [all_append, Bool.and_eq_true]
  constructor
  · rw [all_eq_true] at hkeys ⊢
    intro member hmem
    rw [lookup_append, Option.isSome_or, hkeys member hmem, Bool.true_or]
  · rw [all_cons, lookup_append, Option.isSome_or, dumpedMembers, lookup_cons_self,
      Option.isSome_some, Bool.or_true]
    rfl

end Json

end Cfms.Lib
