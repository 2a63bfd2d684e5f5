import Mathlib.Data.List.GetD
import Mathlib.Data.List.Nodup

/-!
# Base64

`a2bBase64` is a strict decoder, and `b2aBase64` the encoder.  Decoding takes back what encoding did
(`a2bBase64_b2aBase64`).  Four letters stand for three bytes, so the length of what is decoded can be
read off the text (`length_of_a2bBase64`).
-/

namespace Cfms.Lib.Base64

open List Option

/-! ### Letters -/

def letter (alphabet : List Char) (index : ℕ) : Char := alphabet.getD index ' '

def letterIndex (alphabet : List Char) (c : Char) : Option ℕ :=
  if c ∈ alphabet then some (alphabet.idxOf c) else none

section

variable {alphabet : List Char} {index : ℕ} {c : Char}

theorem letterIndex_letter (halphabet : alphabet.Nodup) (hindex : index < alphabet.length) :
    letterIndex alphabet (letter alphabet index) = some index := by
  rw [letter, getD_eq_getElem _ _ hindex, letterIndex, if_pos (getElem_mem hindex),
    halphabet.idxOf_getElem]

theorem letterIndex_eq_some (hc : letterIndex alphabet c = some index) :
    index < alphabet.length ∧ letter alphabet index = c ∧ c ∈ alphabet := by
  rw [letterIndex] at hc
  split at hc
  next hmem =>
    cases hc
    have hlt := idxOf_lt_length_of_mem hmem
    exact ⟨hlt, by rw [letter, getD_eq_getElem _ _ hlt, getElem_idxOf], hmem⟩
  next => cases hc

theorem letter_mem (hindex : index < alphabet.length) : letter alphabet index ∈ alphabet := by
  rw [letter, getD_eq_getElem _ _ hindex]
  exact getElem_mem hindex

end

/-! ### Encoding and decoding -/

def base64Alphabet : List Char :=
  "ABCDEFGHIJKLMNOPQRSTUVWXYZabcdefghijklmnopqrstuvwxyz0123456789+/".toList

/-- Only the last quantum has padding, at most two characters of it.  The bits that padding leaves
over are not looked at. -/
def a2bBase64 : List Char → Option (List UInt8)
  | [] => some []
  | a :: b :: c :: d :: rest => do
    let first ← letterIndex base64Alphabet a
    let second ← letterIndex base64Alphabet b
    if c = '=' ∧ d = '=' ∧ rest = [] then
      some [UInt8.ofNat (first * 4 + second / 16)]
    else
      let third ← letterIndex base64Alphabet c
      if d = '=' ∧ rest = [] then
        some [UInt8.ofNat (first * 4 + second / 16), UInt8.ofNat (second % 16 * 16 + third / 4)]
      else
        let fourth ← letterIndex base64Alphabet d
        let decoded ← a2bBase64 rest
        some (UInt8.ofNat (first * 4 + second / 16) :: UInt8.ofNat (second % 16 * 16 + third / 4) ::
          UInt8.ofNat (third % 4 * 64 + fourth) :: decoded)
  | _ => none

def b2aBase64 : List UInt8 → List Char
  | [] => []
  | [x] =>
    [letter base64Alphabet (x.toNat / 4), letter base64Alphabet (x.toNat % 4 * 16), '=', '=']
  | [x, y] =>
    [letter base64Alphabet (x.toNat / 4), letter base64Alphabet (x.toNat % 4 * 16 + y.toNat / 16),
      letter base64Alphabet (y.toNat % 16 * 4), '=']
  | x :: y :: z :: rest =>
    letter base64Alphabet (x.toNat / 4) :: letter base64Alphabet (x.toNat % 4 * 16 + y.toNat / 16) ::
      letter base64Alphabet (y.toNat % 16 * 4 + z.toNat / 64) ::
      letter base64Alphabet (z.toNat % 64) :: b2aBase64 rest

/-- What `altchars=b"-_"` stands for.  The letters `+` and `/` are still taken. -/
def toStandard (c : Char) : Char := if c = '-' then '+' else if c = '_' then '/' else c

def toUrlsafe (c : Char) : Char := if c = '+' then '-' else if c = '/' then '_' else c

def b64decode (text : List Char) : Option (List UInt8) := a2bBase64 (text.map toStandard)

def urlsafeB64encode (value : List UInt8) : List Char := (b2aBase64 value).map toUrlsafe

/-- The padding that makes the length a multiple of four. -/
def padding (text : List Char) : List Char := List.replicate ((4 - text.length % 4) % 4) '='

theorem base64Alphabet_nodup : base64Alphabet.Nodup := by decide +kernel

theorem base64Alphabet_urlsafe :
    (base64Alphabet.all fun c => toStandard (toUrlsafe c) == c && toUrlsafe c != '=' && c != '=') =
      true := by
  decide +kernel

section

variable {text : List Char} {value decoded : List UInt8} {index : ℕ} {c : Char}

theorem urlsafe_of_mem (hc : c ∈ base64Alphabet) :
    toStandard (toUrlsafe c) = c ∧ toUrlsafe c ≠ '=' ∧ c ≠ '=' := by
  simpa [and_assoc] using all_eq_true.mp base64Alphabet_urlsafe c hc

theorem letterIndex_base64 (hindex : index < 64) :
    letterIndex base64Alphabet (letter base64Alphabet index) = some index :=
  letterIndex_letter base64Alphabet_nodup hindex

theorem letter_ne_padding (hindex : index < 64) : letter base64Alphabet index ≠ '=' :=
  (urlsafe_of_mem (letter_mem hindex)).2.2

theorem ofNat_eq {x : UInt8} {n : ℕ} (h : n = x.toNat) : UInt8.ofNat n = x := by
  rw [h, UInt8.ofNat_toNat]

/-- Decoding takes back what encoding did. -/
theorem a2bBase64_b2aBase64 : a2bBase64 (b2aBase64 value) = some value := by
  induction value using b2aBase64.induct with
  | case1 => rfl
  | case2 x =>
    have hx := x.toNat_lt
    have hfirst : UInt8.ofNat (x.toNat / 4 * 4 + x.toNat % 4 * 16 / 16) = x := ofNat_eq (by omega)
    simp only [b2aBase64, a2bBase64]
    rw [letterIndex_base64 (by omega), letterIndex_base64 (by omega)]
    simp only [bind_eq_bind, bind_some, and_self, if_true, hfirst]
  | case3 x y =>
    have hx := x.toNat_lt
    have hy := y.toNat_lt
    have hfirst : UInt8.ofNat (x.toNat / 4 * 4 + (x.toNat % 4 * 16 + y.toNat / 16) / 16) = x :=
      ofNat_eq (by omega)
    have hsnd : UInt8.ofNat ((x.toNat % 4 * 16 + y.toNat / 16) % 16 * 16 +
        y.toNat % 16 * 4 / 4) = y := ofNat_eq (by omega)
    have hletter : letter base64Alphabet (y.toNat % 16 * 4) ≠ '=' := letter_ne_padding (by omega)
    simp only [b2aBase64, a2bBase64]
    rw [letterIndex_base64 (by omega), letterIndex_base64 (by omega), letterIndex_base64 (by omega)]
    simp only [bind_eq_bind, bind_some, hletter, false_and, if_false, and_self, if_true,
      hfirst, hsnd]
  | case4 x y z rest ih =>
    have hx := x.toNat_lt
    have hy := y.toNat_lt
    have hz := z.toNat_lt
    have hfirst : UInt8.ofNat (x.toNat / 4 * 4 + (x.toNat % 4 * 16 + y.toNat / 16) / 16) = x :=
      ofNat_eq (by omega)
    have hsnd : UInt8.ofNat ((x.toNat % 4 * 16 + y.toNat / 16) % 16 * 16 +
        (y.toNat % 16 * 4 + z.toNat / 64) / 4) = y := ofNat_eq (by omega)
    have hthird : UInt8.ofNat ((y.toNat % 16 * 4 + z.toNat / 64) % 4 * 64 + z.toNat % 64) = z :=
      ofNat_eq (by omega)
    have hc : letter base64Alphabet (y.toNat % 16 * 4 + z.toNat / 64) ≠ '=' :=
      letter_ne_padding (by omega)
    have hd : letter base64Alphabet (z.toNat % 64) ≠ '=' := letter_ne_padding (by omega)
    simp only [b2aBase64, a2bBase64]
    rw [letterIndex_base64 (by omega), letterIndex_base64 (by omega), letterIndex_base64 (by omega),
      letterIndex_base64 (by omega), ih]
    simp only [bind_eq_bind, bind_some, hc, hd, false_and, if_false, hfirst, hsnd, hthird]

theorem ne_padding (hc : letterIndex base64Alphabet c = some index) : c ≠ '=' :=
  (urlsafe_of_mem (letterIndex_eq_some hc).2.2).2.2

/-- Four letters are three bytes. -/
theorem length_of_a2bBase64 (h : a2bBase64 text = some decoded) :
    decoded.length = text.countP (· != '=') * 3 / 4 := by
  induction text using a2bBase64.induct generalizing decoded with
  | case1 =>
    cases h
    rfl
  | case2 a b c d rest ih =>
    simp only [a2bBase64, bind_eq_bind, bind_eq_some_iff] at h
    obtain ⟨first, hfirst, second, hsnd, h⟩ := h
    have ha := ne_padding hfirst
    have hb := ne_padding hsnd
    split at h
    next hpad =>
      cases h
      obtain ⟨rfl, rfl, rfl⟩ := hpad
      simp [ha, hb]
    next =>
      obtain ⟨third, hthird, h⟩ := bind_eq_some_iff.mp h
      have hc := ne_padding hthird
      split at h
      next hpad =>
        cases h
        obtain ⟨rfl, rfl⟩ := hpad
        simp [ha, hb, hc]
      next =>
        simp only [bind_eq_some_iff] at h
        obtain ⟨fourth, hfourth, tail, htail, h⟩ := h
        cases h
        have hd := ne_padding hfourth
        simp only [length_cons, countP_cons, ih htail, bne_iff_ne.mpr ha, bne_iff_ne.mpr hb,
          bne_iff_ne.mpr hc, bne_iff_ne.mpr hd, if_true]
        omega
  | case3 text hnil hcons =>
    rw [a2bBase64] at h
    · cases h
    · exact hnil
    · exact hcons

theorem letter_mem_base64 (hindex : index < 64) : letter base64Alphabet index ∈ base64Alphabet :=
  letter_mem hindex

/-- Encoded text is letters and the padding that they need. -/
theorem exists_letters_b2aBase64 (value : List UInt8) : ∃ letters,
    b2aBase64 value = letters ++ padding letters ∧ ∀ c ∈ letters, c ∈ base64Alphabet := by
  induction value using b2aBase64.induct with
  | case1 => exact ⟨[], rfl, by simp⟩
  | case2 x =>
    have hx := x.toNat_lt
    refine ⟨[_, _], rfl, ?_⟩
    simp only [forall_mem_cons, not_mem_nil, false_implies, implies_true, and_true]
    exact ⟨letter_mem_base64 (by omega), letter_mem_base64 (by omega)⟩
  | case3 x y =>
    have hx := x.toNat_lt
    have hy := y.toNat_lt
    refine ⟨[_, _, _], rfl, ?_⟩
    simp only [forall_mem_cons, not_mem_nil, false_implies, implies_true, and_true]
    exact ⟨letter_mem_base64 (by omega), letter_mem_base64 (by omega), letter_mem_base64 (by omega)⟩
  | case4 x y z rest ih =>
    have hx := x.toNat_lt
    have hy := y.toNat_lt
    have hz := z.toNat_lt
    obtain ⟨letters, hletters, hmem⟩ := ih
    have hstep : ∃ a b c d, b2aBase64 (x :: y :: z :: rest) = a :: b :: c :: d :: b2aBase64 rest ∧
        a ∈ base64Alphabet ∧ b ∈ base64Alphabet ∧ c ∈ base64Alphabet ∧ d ∈ base64Alphabet :=
      ⟨_, _, _, _, rfl, letter_mem_base64 (by omega), letter_mem_base64 (by omega),
        letter_mem_base64 (by omega), letter_mem_base64 (by omega)⟩
    obtain ⟨a, b, c, d, htext, ha, hb, hc, hd⟩ := hstep
    have hpadding : padding (a :: b :: c :: d :: letters) = padding letters := by
      simp only [padding, length_cons]
      congr 1
      omega
    refine ⟨a :: b :: c :: d :: letters, ?_, ?_⟩
    · rw [htext, hletters, hpadding]
      rfl
    · simp only [forall_mem_cons]
      exact ⟨ha, hb, hc, hd, hmem⟩

theorem toStandard_ne_padding (hc : c ≠ '=') : toStandard c ≠ '=' := by
  rw [toStandard]
  split
  next => decide
  next =>
    split
    next => decide
    next => exact hc

end

end Cfms.Lib.Base64
