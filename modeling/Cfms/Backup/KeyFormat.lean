import Cfms.Lib.Base64
import Cfms.Lib.Chunks
import Cfms.Lib.Digits
import Cfms.Lib.Fallible
import Cfms.Transport.ClientAddress
import Mathlib.Data.List.DropRight

/-!
# The text of a backup key

A key is shown in groups of four characters, as a numeral of 52 digits to the base 31.
`decode_backup_key` of `maintenance/backup/format.py` also takes the key in base64url, and tries
that first: separators and digits are letters of base64url too.  The two forms differ in length.
A text of base64url with 32 bytes has 43 letters, and separators and spaces aside a numeral has 52
(`IsHumanKey.not_isBase64Key`).

Texts are lists of characters.
-/

namespace Cfms.Backup

open Lib.Base64 Lib.Chunks Lib.Digits Lib.Fallible List
open Transport (isPythonSpace strip)

/-! ### Keys in base64url -/

def encodeBytes (value : List UInt8) : List Char :=
  (urlsafeB64encode value).rdropWhile (· == '=')

theorem base64Alphabet_spaces :
    (base64Alphabet.all fun c => !isPythonSpace (toUrlsafe c)) = true := by
  decide +kernel

section

variable {text : List Char} {value : List UInt8}

theorem dropWhile_of_forall_not {p : Char → Bool} (h : ∀ c ∈ text, p c = false) :
    text.dropWhile p = text := by
  cases text with
  | nil => rfl
  | cons c text => simp [h c mem_cons_self]

theorem exists_letters_encodeBytes (value : List UInt8) : ∃ letters,
    encodeBytes value = letters.map toUrlsafe ∧ b2aBase64 value = letters ++ padding letters ∧
      ∀ c ∈ letters, c ∈ base64Alphabet := by
  obtain ⟨letters, hletters, hmem⟩ := exists_letters_b2aBase64 value
  refine ⟨letters, ?_, hletters, hmem⟩
  have hpadding : (padding letters).map toUrlsafe = padding letters := by simp [padding, toUrlsafe]
  rw [encodeBytes, urlsafeB64encode, hletters, map_append, hpadding, rdropWhile,
    reverse_append, dropWhile_append_of_pos, dropWhile_of_forall_not, reverse_reverse]
  · simp only [mem_reverse, mem_map, beq_eq_false_iff_ne]
    rintro _ ⟨c, hc, rfl⟩
    exact (urlsafe_of_mem (hmem c hc)).2.1
  · simp [padding]

theorem b64decode_encodeBytes :
    b64decode (encodeBytes value ++ padding (encodeBytes value)) = some value := by
  obtain ⟨letters, htext, hletters, hmem⟩ := exists_letters_encodeBytes value
  have hpadding : (padding letters).map toStandard = padding letters := by simp [padding, toStandard]
  have hstandard : (letters.map toUrlsafe).map toStandard = letters := by
    rw [map_map]
    exact (map_congr_left fun c hc => (urlsafe_of_mem (hmem c hc)).1).trans (map_id _)
  have hlen : padding (letters.map toUrlsafe) = padding letters := by simp [padding]
  rw [b64decode, htext, hlen, map_append, hstandard, hpadding, ← hletters, a2bBase64_b2aBase64]

end

/-! ### Numbers as bytes -/

def fromBytes (value : List UInt8) : ℕ := bigEndian 256 (value.map UInt8.toNat)

def toBytes (length value : ℕ) : List UInt8 :=
  ((fixedDigits 256 length value).1.map UInt8.ofNat).reverse

section

variable {length number : ℕ} {value : List UInt8}

theorem length_toBytes : (toBytes length number).length = length := by
  rw [toBytes, length_reverse, length_map, length_fixedDigits]

theorem fromBytes_toBytes (hnumber : number < 256 ^ length) :
    fromBytes (toBytes length number) = number := by
  have hbytes : ((fixedDigits 256 length number).1.map UInt8.ofNat).map UInt8.toNat =
      (fixedDigits 256 length number).1 := by
    rw [map_map]
    refine (map_congr_left fun digit hdigit => ?_).trans (map_id _)
    have := fixedDigits_lt (by omega) digit hdigit
    simpa using Nat.mod_eq_of_lt this
  rw [fromBytes, toBytes, bigEndian_eq_ofDigits, map_reverse, reverse_reverse, hbytes,
    (fixedDigits_of_lt hnumber).2]

theorem toBytes_fromBytes : toBytes value.length (fromBytes value) = value := by
  have hdigs : ∀ digit ∈ (value.map UInt8.toNat).reverse, digit < 256 := by
    simp only [mem_reverse, mem_map]
    rintro _ ⟨byte, -, rfl⟩
    exact byte.toNat_lt
  have hlen : value.length = (value.map UInt8.toNat).reverse.length := by simp
  rw [toBytes, fromBytes, bigEndian_eq_ofDigits, hlen, fixedDigits_ofDigits hdigs]
  simp [Function.comp_def]

theorem fromBytes_lt : fromBytes value < 256 ^ value.length := by
  have hlen : value.length = (value.map UInt8.toNat).reverse.length := by simp
  rw [fromBytes, bigEndian_eq_ofDigits, hlen]
  refine Nat.ofDigits_lt_base_pow_length (by omega) ?_
  simp only [mem_reverse, mem_map]
  rintro _ ⟨byte, -, rfl⟩
  exact byte.toNat_lt

end

/-! ### Readable keys -/

/-- The `ValueError`s of `encode_backup_key` and `decode_backup_key`. -/
inductive BackupKeyError
  /-- `Backup key must be exactly 32 bytes` -/
  | wrongLength
  /-- `Backup key is too large for the human-readable format` -/
  | tooLarge
  /-- `Backup key cannot be empty` -/
  | empty
  /-- `Backup key is not valid base64url` -/
  | notBase64url
  /-- `Backup key must decode to exactly 32 bytes` -/
  | wrongDecodedLength
  /-- `Human-readable backup key must contain 52 data characters` -/
  | dataCharacters
  /-- `Human-readable backup key contains invalid character` -/
  | invalidCharacter (character : Char)
  /-- `Human-readable backup key value is out of range` -/
  | outOfRange
  deriving DecidableEq

def humanKeyAlphabet : List Char := "23456789ABCDEFGHJKMNPQRSTUVWXYZ".toList

def humanKeyDataLength : ℕ := 52

def humanKeyGroupSize : ℕ := 4

def humanKeyMaxValue : ℕ := 2 ^ 256

def humanKeySeparator : Char := '-'

def encodeBackupKey (key : List UInt8) : Except BackupKeyError (List Char) :=
  if key.length ≠ 32 then .error .wrongLength
  else
    let digits := fixedDigits humanKeyAlphabet.length humanKeyDataLength (fromBytes key)
    if digits.2 ≠ 0 then .error .tooLarge
    else
      let encoded := (digits.1.map (letter humanKeyAlphabet)).reverse
      .ok ([humanKeySeparator].intercalate (batched humanKeyGroupSize encoded))

def normalizeHumanBackupKey (value : List Char) : List Char :=
  (value.filter (· ≠ humanKeySeparator)).filter (· ≠ ' ')

def looksLikeHumanBackupKey (value : List Char) : Bool :=
  (normalizeHumanBackupKey value).length == humanKeyDataLength || value.contains humanKeySeparator

/-- One round of the loop of `_decode_human_backup_key`. -/
def addCharacter (number : ℕ) (character : Char) : Except BackupKeyError ℕ :=
  match letterIndex humanKeyAlphabet character with
  | some digit => .ok (number * humanKeyAlphabet.length + digit)
  | none => .error (.invalidCharacter character)

def decodeHumanBackupKey (value : List Char) : Except BackupKeyError (List UInt8) := do
  let data := normalizeHumanBackupKey value
  if data.length ≠ humanKeyDataLength then throw .dataCharacters
  let number ← data.foldlM addCharacter 0
  if humanKeyMaxValue ≤ number then throw .outOfRange
  return toBytes 32 number

def decodeBackupKey (value : List Char) : Except BackupKeyError (List UInt8) :=
  let normalized := strip value
  if normalized = [] then .error .empty
  else
    match b64decode (normalized ++ padding normalized) with
    | some decoded =>
      if decoded.length = 32 then .ok decoded
      else if looksLikeHumanBackupKey normalized then decodeHumanBackupKey normalized
      else .error .wrongDecodedLength
    | none =>
      if looksLikeHumanBackupKey normalized then decodeHumanBackupKey normalized
      else .error .notBase64url

/-! ### Digits and data characters -/

theorem humanKeyAlphabet_nodup : humanKeyAlphabet.Nodup := by decide +kernel

theorem humanKeyAlphabet_data :
    (humanKeyAlphabet.all fun c => c != humanKeySeparator && c != '=' && !isPythonSpace c) = true := by
  decide +kernel

/-- 52 digits are enough for 256 bits. -/
theorem humanKeyMaxValue_le : humanKeyMaxValue ≤ humanKeyAlphabet.length ^ humanKeyDataLength := by
  decide +kernel

section

variable {text value before after : List Char} {key other : List UInt8} {c : Char}
  {number result : ℕ}

/-- The digits of a key, the highest first. -/
def humanDigits (key : List UInt8) : List ℕ :=
  (fixedDigits humanKeyAlphabet.length humanKeyDataLength (fromBytes key)).1.reverse

theorem humanDigits_lt : ∀ digit ∈ humanDigits key, digit < humanKeyAlphabet.length :=
  fun digit hdigit => fixedDigits_lt (by decide) digit (mem_reverse.mp hdigit)

theorem fromBytes_lt_max (hkey : key.length = 32) : fromBytes key < humanKeyMaxValue := by
  have hbytes := @fromBytes_lt key
  rwa [hkey] at hbytes

theorem data_of_mem (hc : c ∈ humanKeyAlphabet) :
    c ≠ humanKeySeparator ∧ c ≠ '=' ∧ isPythonSpace c = false := by
  simpa [and_assoc] using all_eq_true.mp humanKeyAlphabet_data c hc

theorem addCharacter_ok_iff : addCharacter number c = .ok result ↔
    ∃ digit < humanKeyAlphabet.length, c = letter humanKeyAlphabet digit ∧
      result = number * humanKeyAlphabet.length + digit := by
  rw [addCharacter]
  constructor
  · intro h
    split at h
    next digit hdigit =>
      cases h
      obtain ⟨hlt, hletter, -⟩ := letterIndex_eq_some hdigit
      exact ⟨digit, hlt, hletter.symm, rfl⟩
    next => cases h
  · rintro ⟨digit, hlt, rfl, rfl⟩
    rw [letterIndex_letter humanKeyAlphabet_nodup hlt]

/-- The loop takes digits and nothing else. -/
theorem foldlM_addCharacter_iff : text.foldlM addCharacter number = .ok result ↔
    ∃ digits : List ℕ, text = digits.map (letter humanKeyAlphabet) ∧
      (∀ digit ∈ digits, digit < humanKeyAlphabet.length) ∧
      result = digits.foldl (fun value digit => value * humanKeyAlphabet.length + digit) number := by
  induction text generalizing number with
  | nil =>
    constructor
    · intro h
      cases h
      exact ⟨[], rfl, by simp, rfl⟩
    · rintro ⟨digits, hdigs, -, rfl⟩
      rw [map_eq_nil_iff.mp hdigs.symm]
      rfl
  | cons c text ih =>
    simp only [foldlM_cons_ok_iff, addCharacter_ok_iff, ih]
    constructor
    · rintro ⟨_, ⟨digit, hdigit, rfl, rfl⟩, digits, rfl, hdigs, rfl⟩
      exact ⟨digit :: digits, rfl, forall_mem_cons.mpr ⟨hdigit, hdigs⟩, rfl⟩
    · rintro ⟨digits, hmap, hdigs, rfl⟩
      obtain ⟨digit, digits, rfl, rfl, rfl⟩ := map_eq_cons_iff.mp hmap.symm
      obtain ⟨hdigit, hdigs⟩ := forall_mem_cons.mp hdigs
      exact ⟨_, ⟨digit, hdigit, rfl, rfl⟩, digits, rfl, hdigs, rfl⟩

theorem decodeHumanBackupKey_ok_iff : decodeHumanBackupKey value = .ok key ↔
    ∃ digits : List ℕ, normalizeHumanBackupKey value = digits.map (letter humanKeyAlphabet) ∧
      (∀ digit ∈ digits, digit < humanKeyAlphabet.length) ∧ digits.length = humanKeyDataLength ∧
      bigEndian humanKeyAlphabet.length digits < humanKeyMaxValue ∧
      key = toBytes 32 (bigEndian humanKeyAlphabet.length digits) := by
  constructor
  · intro h
    rw [decodeHumanBackupKey] at h
    split at h
    next => cases h
    next hlen =>
      obtain ⟨number, hnumber, h⟩ := exists_of_bind_eq_ok h
      split at h
      next => cases h
      next hrange =>
        cases h
        obtain ⟨digits, hdata, hdigs, rfl⟩ := foldlM_addCharacter_iff.mp hnumber
        refine ⟨digits, hdata, hdigs, ?_, Nat.lt_of_not_le hrange, rfl⟩
        simpa [hdata] using hlen
  · rintro ⟨digits, hdata, hdigs, hlen, hrange, rfl⟩
    have hloop : (digits.map (letter humanKeyAlphabet)).foldlM addCharacter 0 =
        .ok (bigEndian humanKeyAlphabet.length digits) :=
      foldlM_addCharacter_iff.mpr ⟨digits, rfl, hdigs, rfl⟩
    have hdatalength : (digits.map (letter humanKeyAlphabet)).length = humanKeyDataLength := by
      rw [length_map, hlen]
    simp only [decodeHumanBackupKey, hdata, hdatalength, hloop]
    exact if_neg (Nat.not_le.mpr hrange)

/-- What is left of a text without its separators and spaces. -/
def dataCharacters (text : List Char) : List Char := text.filter fun c => c ≠ '-' ∧ c ≠ ' '

theorem normalizeHumanBackupKey_eq : normalizeHumanBackupKey text = dataCharacters text := by
  rw [normalizeHumanBackupKey, filter_filter]
  congr 1
  funext c
  rw [Bool.decide_and, Bool.and_comm]
  rfl

theorem dataCharacters_append :
    dataCharacters (text ++ value) = dataCharacters text ++ dataCharacters value :=
  filter_append ..

theorem dataCharacters_of_mem (htext : ∀ c ∈ text, c ∈ humanKeyAlphabet) :
    dataCharacters text = text := by
  refine filter_eq_self.mpr fun c hc => ?_
  obtain ⟨hseparator, -, hspace⟩ := data_of_mem (htext c hc)
  refine decide_eq_true ⟨hseparator, ?_⟩
  rintro rfl
  exact absurd hspace (by decide)

theorem dataCharacters_intercalate (groups : List (List Char)) :
    dataCharacters ([humanKeySeparator].intercalate groups) = dataCharacters groups.flatten := by
  induction groups with
  | nil => rfl
  | cons group groups ih =>
    cases groups with
    | nil => rw [intercalate_singleton, flatten_singleton]
    | cons next groups =>
      rw [intercalate_cons_cons, dataCharacters_append, ih]
      simp [dataCharacters, humanKeySeparator]

/-- The text of a key is its digits in groups. -/
theorem encodeBackupKey_eq_ok (hkey : key.length = 32) : ∃ encoded,
    encodeBackupKey key = .ok encoded ∧
      dataCharacters encoded = (humanDigits key).map (letter humanKeyAlphabet) := by
  have hrange := Nat.lt_of_lt_of_le (fromBytes_lt_max hkey) humanKeyMaxValue_le
  have hencoded : encodeBackupKey key = .ok ([humanKeySeparator].intercalate
      (batched humanKeyGroupSize ((humanDigits key).map (letter humanKeyAlphabet)))) := by
    rw [encodeBackupKey, if_neg (by simp [hkey]), humanDigits]
    exact if_neg (by simp [(fixedDigits_of_lt hrange).1])
  refine ⟨_, hencoded, ?_⟩
  rw [dataCharacters_intercalate, batched_flatten (by decide), dataCharacters_of_mem]
  simp only [mem_map]
  rintro _ ⟨digit, hdigit, rfl⟩
  exact letter_mem (humanDigits_lt digit hdigit)

/-! ### White space around a key -/

theorem strip_surrounded (hbef : ∀ c ∈ before, isPythonSpace c = true)
    (hafter : ∀ c ∈ after, isPythonSpace c = true) :
    strip (before ++ text ++ after) = strip text := by
  rw [strip, strip, append_assoc, dropWhile_append_of_pos hbef, dropWhile_append]
  split
  next hempty =>
    rw [dropWhile_eq_nil_iff.mpr hafter, isEmpty_iff.mp hempty]
  next =>
    rw [reverse_append, dropWhile_append_of_pos]
    simpa using hafter

theorem exists_strip (text : List Char) : ∃ before after, text = before ++ strip text ++ after ∧
    (∀ c ∈ before, isPythonSpace c = true) ∧ ∀ c ∈ after, isPythonSpace c = true := by
  have hleft := takeWhile_append_dropWhile (p := isPythonSpace) (l := text)
  have hright := takeWhile_append_dropWhile (p := isPythonSpace)
    (l := (text.dropWhile isPythonSpace).reverse)
  refine ⟨text.takeWhile isPythonSpace,
    ((text.dropWhile isPythonSpace).reverse.takeWhile isPythonSpace).reverse, ?_, ?_, ?_⟩
  · rw [strip, append_assoc, ← reverse_append, hright, reverse_reverse, hleft]
  · exact fun c hc => mem_takeWhile_imp hc
  · exact fun c hc => mem_takeWhile_imp (mem_reverse.mp hc)

theorem dataCharacters_strip (htext : ∀ c ∈ dataCharacters text, isPythonSpace c = false) :
    dataCharacters (strip text) = dataCharacters text := by
  obtain ⟨before, after, heq, hbef, hafter⟩ := exists_strip text
  have hempty : ∀ part : List Char, (∀ c ∈ part, isPythonSpace c = true) →
      (∀ c ∈ dataCharacters part, isPythonSpace c = false) → dataCharacters part = [] := by
    intro part hspace hdata
    refine eq_nil_iff_forall_not_mem.mpr fun c hc => ?_
    have := hspace c (mem_filter.mp hc).1
    rw [hdata c hc] at this
    cases this
  rw [heq, dataCharacters_append, dataCharacters_append] at htext
  simp only [forall_mem_append] at htext
  conv_rhs => rw [heq, dataCharacters_append, dataCharacters_append, hempty before hbef htext.1.1,
    hempty after hafter htext.2]
  simp

/-! ### The two forms -/

/-- The text, stripped, is base64url with 32 bytes. -/
def IsBase64Key (value : List Char) (key : List UInt8) : Prop :=
  b64decode (strip value ++ padding (strip value)) = some key ∧ key.length = 32

/-- The text, stripped, is a numeral with a value below `2 ^ 256`. -/
def IsHumanKey (value : List Char) (key : List UInt8) : Prop :=
  decodeHumanBackupKey (strip value) = .ok key

theorem IsHumanKey.data (h : IsHumanKey value key) :
    (dataCharacters (strip value)).length = humanKeyDataLength ∧
      ∀ c ∈ dataCharacters (strip value), c ∈ humanKeyAlphabet := by
  obtain ⟨digits, hdata, hdigs, hlen, -⟩ := decodeHumanBackupKey_ok_iff.mp h
  rw [← normalizeHumanBackupKey_eq, hdata]
  refine ⟨by rw [length_map, hlen], ?_⟩
  simp only [mem_map]
  rintro _ ⟨digit, hdigit, rfl⟩
  exact letter_mem (hdigs digit hdigit)

/-- A numeral has 52 letters of base64url, which are at least 39 bytes. -/
theorem IsHumanKey.not_isBase64Key (h : IsHumanKey value key) : ¬ IsBase64Key value other := by
  rintro ⟨hdec, hother⟩
  obtain ⟨hlen, hmem⟩ := h.data
  have hbytes := length_of_a2bBase64 hdec
  have hall : (dataCharacters (strip value)).countP ((· != '=') ∘ toStandard) = humanKeyDataLength := by
    rw [← hlen, countP_eq_length]
    exact fun c hc => bne_iff_ne.mpr (toStandard_ne_padding (data_of_mem (hmem c hc)).2.1)
  have hsub : (dataCharacters (strip value)).Sublist (strip value ++ padding (strip value)) :=
    filter_sublist.trans (sublist_append_left ..)
  have hcount := hsub.countP_le (p := (· != '=') ∘ toStandard)
  rw [hall, humanKeyDataLength] at hcount
  rw [countP_map] at hbytes
  omega

theorem decodeBackupKey_ok_iff :
    decodeBackupKey value = .ok key ↔ IsBase64Key value key ∨ IsHumanKey value key := by
  constructor
  · intro h
    rw [decodeBackupKey] at h
    split at h
    next => cases h
    next =>
      split at h
      next decoded hdec =>
        split at h
        next hlen =>
          cases h
          exact .inl ⟨hdec, hlen⟩
        next =>
          split at h
          next => exact .inr h
          next => cases h
      next =>
        split at h
        next => exact .inr h
        next => cases h
  · rintro (h | h)
    · obtain ⟨hdec, hlen⟩ := h
      have hne : strip value ≠ [] := by
        intro hempty
        rw [hempty] at hdec
        cases hdec
        cases hlen
      simp only [decodeBackupKey, if_neg hne, hdec, if_pos hlen]
    · obtain ⟨hlen, -⟩ := h.data
      have hne : strip value ≠ [] := by
        intro hempty
        rw [hempty] at hlen
        cases hlen
      have hlooks : looksLikeHumanBackupKey (strip value) = true := by
        simp [looksLikeHumanBackupKey, normalizeHumanBackupKey_eq, hlen]
      rw [decodeBackupKey]
      simp only [if_neg hne, if_pos hlooks]
      split
      next decoded hdec => rw [if_neg fun hother => h.not_isBase64Key ⟨hdec, hother⟩, h]
      next => exact h

theorem isBase64Key_encodeBytes (hkey : key.length = 32) : IsBase64Key (encodeBytes key) key := by
  obtain ⟨letters, htext, -, hmem⟩ := exists_letters_encodeBytes key
  have hspace : ∀ c ∈ encodeBytes key, isPythonSpace c = false := by
    rw [htext]
    simp only [mem_map]
    rintro _ ⟨c, hc, rfl⟩
    simpa using all_eq_true.mp base64Alphabet_spaces c (hmem c hc)
  have hstrip : strip (encodeBytes key) = encodeBytes key := by
    rw [strip, dropWhile_of_forall_not hspace, dropWhile_of_forall_not, reverse_reverse]
    simpa using hspace
  exact ⟨by rw [hstrip, b64decode_encodeBytes], hkey⟩

/-- Only the data characters of a numeral count. -/
theorem isHumanKey_of_data (hkey : key.length = 32)
    (hdata : dataCharacters text = (humanDigits key).map (letter humanKeyAlphabet))
    (hbef : ∀ c ∈ before, isPythonSpace c = true) (hafter : ∀ c ∈ after, isPythonSpace c = true) :
    IsHumanKey (before ++ text ++ after) key := by
  have hrange := fromBytes_lt_max hkey
  have hvalue : bigEndian humanKeyAlphabet.length (humanDigits key) = fromBytes key := by
    rw [bigEndian_eq_ofDigits, humanDigits]
    exact (fixedDigits_of_lt (Nat.lt_of_lt_of_le hrange humanKeyMaxValue_le)).2
  have hspace : ∀ c ∈ dataCharacters text, isPythonSpace c = false := by
    rw [hdata]
    simp only [mem_map]
    rintro _ ⟨digit, hdigit, rfl⟩
    exact (data_of_mem (letter_mem (humanDigits_lt digit hdigit))).2.2
  refine decodeHumanBackupKey_ok_iff.mpr ⟨humanDigits key, ?_, humanDigits_lt, ?_, ?_, ?_⟩
  · rw [normalizeHumanBackupKey_eq, strip_surrounded hbef hafter, dataCharacters_strip hspace,
      hdata]
  · rw [humanDigits, length_reverse, length_fixedDigits]
  · rwa [hvalue]
  · rw [hvalue, ← hkey, toBytes_fromBytes]

/-- A numeral is the one that its value is written as. -/
theorem IsHumanKey.encode_eq (h : IsHumanKey value key) : ∃ encoded,
    encodeBackupKey key = .ok encoded ∧ dataCharacters encoded = dataCharacters (strip value) := by
  obtain ⟨digits, hdata, hdigs, hlen, hrange, rfl⟩ := decodeHumanBackupKey_ok_iff.mp h
  obtain ⟨encoded, hencoded, htext⟩ := encodeBackupKey_eq_ok length_toBytes
  refine ⟨encoded, hencoded, ?_⟩
  rw [htext, humanDigits, fromBytes_toBytes (by simpa [humanKeyMaxValue] using hrange),
    bigEndian_eq_ofDigits, ← hlen, ← @length_reverse _ digits,
    fixedDigits_ofDigits (by simpa using hdigs),
    reverse_reverse, ← normalizeHumanBackupKey_eq, hdata]

/-- The two forms of a key exclude each other, and both are read back.  Separators, spaces and the
white space around a numeral are free. -/
theorem backup_key_unambiguous :
    (∀ key : List UInt8, key.length = 32 → ∃ encoded, encodeBackupKey key = .ok encoded ∧
      ∀ before text after : List Char, (∀ c ∈ before, isPythonSpace c = true) →
        (∀ c ∈ after, isPythonSpace c = true) → dataCharacters text = dataCharacters encoded →
        decodeBackupKey (before ++ text ++ after) = .ok key) ∧
    (∀ key : List UInt8, key.length = 32 → decodeBackupKey (encodeBytes key) = .ok key) ∧
    (∀ value key, decodeBackupKey value = .ok key ↔ IsBase64Key value key ∨ IsHumanKey value key) ∧
    (∀ value key other, ¬ (IsBase64Key value key ∧ IsHumanKey value other)) ∧
    ∀ value key, IsHumanKey value key → ∃ encoded, encodeBackupKey key = .ok encoded ∧
      dataCharacters encoded = dataCharacters (strip value) := by
  refine ⟨fun key hkey => ?_, ?_, fun _ _ => decodeBackupKey_ok_iff, ?_, fun _ _ h => h.encode_eq⟩
  · obtain ⟨encoded, hencoded, htext⟩ := encodeBackupKey_eq_ok hkey
    refine ⟨encoded, hencoded, fun before text after hbef hafter hdata => ?_⟩
    exact decodeBackupKey_ok_iff.mpr (.inr (isHumanKey_of_data hkey (hdata.trans htext) hbef hafter))
  · exact fun key hkey => decodeBackupKey_ok_iff.mpr (.inl (isBase64Key_encodeBytes hkey))
  · exact fun value key other h => h.2.not_isBase64Key h.1

end

example : encodeBackupKey (List.replicate 32 0) =
    .ok "2222-2222-2222-2222-2222-2222-2222-2222-2222-2222-2222-2222-2222".toList := by
  decide +kernel

end Cfms.Backup
