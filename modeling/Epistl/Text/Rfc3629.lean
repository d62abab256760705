import Epistl.Text.Rfc4648
import Epistl.Text.Utf8

/-! # Text as bytes and as base64

The four exports of `utils/base64.ts` that convert text. They give back every JavaScript
string. The text of a string without lone surrogates is a sequence of Unicode scalar values,
and what is written for it is their UTF-8 encoding of RFC 3629.
-/
namespace Epistl.JsString
open Base64

def utf8ToBytes (text : JsString) : Bytes := utf8Bytes text

def bytesToUtf8 (bytes : Bytes) : JsString := decodeUtf8Bytes bytes

/-- The bytes of `utf8Bytes`, in a loop of its own that is the one of `bytesToBase64`. -/
def utf8ToBase64 (text : JsString) : JsString := encodeFrom (utf8Bytes text) 0

/-- The loop of `base64ToBytes`, and then `decodeUtf8Bytes`. -/
def base64ToUtf8 (base64 : JsString) : JsString := decodeUtf8Bytes (base64ToBytes base64)

/-- No code unit is a lone surrogate. -/
def isWellFormed : JsString → Bool
  | [] => true
  | [c] => !isHighSurrogate c && !isLowSurrogate c
  | c :: low :: rest =>
    if isHighSurrogate c && isLowSurrogate low then isWellFormed rest
    else !isHighSurrogate c && !isLowSurrogate c && isWellFormed (low :: rest)

/-- The UTF-8 encoding of a text. -/
def rfc3629 (text : String) : Bytes := text.toList.flatMap String.utf8EncodeChar

/-- The code units of a scalar value. -/
def units (c : Char) : JsString :=
  if c.toNat < 0x10000 then [UInt16.ofNat c.toNat]
  else [UInt16.ofNat (0xd800 + (c.toNat - 0x10000) / 0x400),
    UInt16.ofNat (0xdc00 + (c.toNat - 0x10000) % 0x400)]

theorem ofString_ofList (cs : List Char) : ofString (String.ofList cs) = cs.flatMap units := by
  rw [ofString, String.toList_ofList]
  rfl

/-! ### One scalar value -/

theorem or_eq_add {x k : ℕ} (t : ℕ) (hx : x < 2 ^ k) : (t * 2 ^ k) ||| x = x + t * 2 ^ k := by
  rw [Nat.add_comm, ← Nat.shiftLeft_eq, Nat.shiftLeft_add_eq_or_of_lt hx]

theorem toNat_lt (c : Char) : c.toNat < 0x110000 := by
  rcases c.valid with h | h
  · exact Nat.lt_trans h (by decide)
  · exact h.2

theorem codePointBytes_toNat (c : Char) : codePointBytes c.toNat = String.utf8EncodeChar c := by
  have hlt := toNat_lt c
  have hval : c.val.toNat = c.toNat := rfl
  have htail (n : ℕ) : 0x80 ||| n % 64 = n % 64 + 0x80 := or_eq_add (k := 6) 2 (Nat.mod_lt _ (by decide))
  unfold codePointBytes String.utf8EncodeChar
  simp only [hval, and_sixBits, Nat.shiftRight_eq_div_pow, htail]
  by_cases h1 : c.toNat < 0x80
  · have h1' : c.toNat ≤ 0x7f := by omega
    rw [if_pos h1, if_pos h1']
  have h1' : ¬c.toNat ≤ 0x7f := by omega
  rw [if_neg h1, if_neg h1']
  by_cases h2 : c.toNat < 0x800
  · have h2' : c.toNat ≤ 0x7ff := by omega
    rw [if_pos h2, if_pos h2', show (0xc0 : ℕ) = 6 * 2 ^ 5 from rfl,
      or_eq_add 6 (show c.toNat / 2 ^ 6 < 2 ^ 5 by omega),
      show c.toNat / 64 % 0x20 = c.toNat / 2 ^ 6 by omega]
  have h2' : ¬c.toNat ≤ 0x7ff := by omega
  rw [if_neg h2, if_neg h2']
  by_cases h3 : c.toNat < 0x10000
  · have h3' : c.toNat ≤ 0xffff := by omega
    rw [if_pos h3, if_pos h3', show (0xe0 : ℕ) = 14 * 2 ^ 4 from rfl,
      or_eq_add 14 (show c.toNat / 2 ^ 12 < 2 ^ 4 by omega),
      show c.toNat / 4096 % 0x10 = c.toNat / 2 ^ 12 by omega]
  · have h3' : ¬c.toNat ≤ 0xffff := by omega
    rw [if_neg h3, if_neg h3', show (0xf0 : ℕ) = 30 * 2 ^ 3 from rfl,
      or_eq_add 30 (show c.toNat / 2 ^ 18 < 2 ^ 3 by omega),
      show c.toNat / 262144 % 0x08 = c.toNat / 2 ^ 18 by omega]

theorem utf8Bytes_cons {c : UInt16} (hc : isHighSurrogate c = false) (rest : JsString) :
    utf8Bytes (c :: rest) = codePointBytes c.toNat ++ utf8Bytes rest := by
  cases rest with
  | nil => rw [utf8Bytes, utf8Bytes, List.append_nil]
  | cons low rest => rw [utf8Bytes, if_neg (by simp [hc])]

theorem utf8Bytes_pair {high low : UInt16} (hh : isHighSurrogate high = true)
    (hl : isLowSurrogate low = true) (rest : JsString) :
    utf8Bytes (high :: low :: rest) = codePointBytes (pairCodePoint high low) ++ utf8Bytes rest := by
  rw [utf8Bytes, if_pos (by simp [hh, hl])]

/-! ### Well-formed strings -/

theorem isHighSurrogate_eq {c : UInt16} :
    isHighSurrogate c = true ↔ 0xd800 ≤ c.toNat ∧ c.toNat ≤ 0xdbff := by
  simp [isHighSurrogate, UInt16.le_iff_toNat_le]

theorem isLowSurrogate_eq {c : UInt16} :
    isLowSurrogate c = true ↔ 0xdc00 ≤ c.toNat ∧ c.toNat ≤ 0xdfff := by
  simp [isLowSurrogate, UInt16.le_iff_toNat_le]

/-- A scalar value is one code unit that is no surrogate, or a surrogate pair. -/
theorem units_cases (c : Char) :
    (∃ u : UInt16, units c = [u] ∧ u.toNat = c.toNat ∧ isHighSurrogate u = false ∧
      isLowSurrogate u = false) ∨
    ∃ high low : UInt16, units c = [high, low] ∧ pairCodePoint high low = c.toNat ∧
      isHighSurrogate high = true ∧ isLowSurrogate low = true := by
  by_cases hc : c.toNat < 0x10000
  · have hvalid : c.toNat < 0xd800 ∨ 0xdfff < c.toNat := by
      rcases c.valid with h | h
      · exact .inl h
      · exact .inr h.1
    have hunit : (UInt16.ofNat c.toNat).toNat = c.toNat := by
      rw [UInt16.toNat_ofNat', Nat.mod_eq_of_lt hc]
    refine .inl ⟨UInt16.ofNat c.toNat, if_pos hc, hunit, ?_, ?_⟩
    · rw [← Bool.not_eq_true, isHighSurrogate_eq, hunit]
      omega
    · rw [← Bool.not_eq_true, isLowSurrogate_eq, hunit]
      omega
  · have hlt := toNat_lt c
    have hshift (n : ℕ) : n <<< 10 = n * 1024 := Nat.shiftLeft_eq n 10
    obtain ⟨n, hn⟩ : ∃ n, n = c.toNat - 0x10000 := ⟨_, rfl⟩
    have hhigh : (UInt16.ofNat (0xd800 + n / 0x400)).toNat = 0xd800 + n / 0x400 := by
      rw [UInt16.toNat_ofNat', Nat.mod_eq_of_lt (by omega)]
    have hlow : (UInt16.ofNat (0xdc00 + n % 0x400)).toNat = 0xdc00 + n % 0x400 := by
      rw [UInt16.toNat_ofNat', Nat.mod_eq_of_lt (by omega)]
    refine .inr ⟨UInt16.ofNat (0xd800 + n / 0x400), UInt16.ofNat (0xdc00 + n % 0x400), ?_, ?_,
      isHighSurrogate_eq.mpr (by omega), isLowSurrogate_eq.mpr (by omega)⟩
    · rw [units, if_neg hc, ← hn]
    · unfold pairCodePoint
      rw [hhigh, hlow, hshift]
      omega

theorem utf8Bytes_units (c : Char) (rest : JsString) :
    utf8Bytes (units c ++ rest) = String.utf8EncodeChar c ++ utf8Bytes rest := by
  rw [← codePointBytes_toNat]
  rcases units_cases c with ⟨u, hunits, hu, hhigh, -⟩ | ⟨high, low, hunits, hpair, hh, hl⟩
  · rw [hunits, ← hu]
    exact utf8Bytes_cons hhigh rest
  · rw [hunits, ← hpair]
    exact utf8Bytes_pair hh hl rest

theorem isWellFormed_units (c : Char) (rest : JsString) :
    isWellFormed (units c ++ rest) = isWellFormed rest := by
  rcases units_cases c with ⟨u, hunits, -, hhigh, hlow⟩ | ⟨high, low, hunits, -, hh, hl⟩
  · rw [hunits]
    cases rest <;> simp [isWellFormed, hhigh, hlow]
  · rw [hunits]
    simp [isWellFormed, hh, hl]

theorem utf8Bytes_ofString (text : String) : utf8Bytes (ofString text) = rfc3629 text := by
  have hlist (cs : List Char) : utf8Bytes (cs.flatMap units) = cs.flatMap String.utf8EncodeChar := by
    induction cs with
    | nil => rfl
    | cons c cs ih => rw [List.flatMap_cons, List.flatMap_cons, utf8Bytes_units, ih]
  have h := hlist text.toList
  rwa [← ofString_ofList, String.ofList_toList] at h

/-- A code unit that is no surrogate is a scalar value. -/
theorem units_ofUnit {c : UInt16} (hhigh : isHighSurrogate c = false)
    (hlow : isLowSurrogate c = false) : ∃ d : Char, units d = [c] := by
  have hlt := c.toNat_lt
  rw [← Bool.not_eq_true, isHighSurrogate_eq] at hhigh
  rw [← Bool.not_eq_true, isLowSurrogate_eq] at hlow
  have hvalid : c.toNat.isValidChar := by
    unfold Nat.isValidChar
    omega
  refine ⟨Char.ofNatAux c.toNat hvalid, ?_⟩
  have hval : (Char.ofNatAux c.toNat hvalid).toNat = c.toNat := rfl
  rw [units, hval, if_pos (by omega), UInt16.ofNat_toNat]

theorem units_ofPair {high low : UInt16} (hh : isHighSurrogate high = true)
    (hl : isLowSurrogate low = true) : ∃ d : Char, units d = [high, low] := by
  have hhigh := isHighSurrogate_eq.mp hh
  have hlow := isLowSurrogate_eq.mp hl
  set n := 0x10000 + (high.toNat - 0xd800) * 0x400 + (low.toNat - 0xdc00) with hn
  have hvalid : n.isValidChar := by
    unfold Nat.isValidChar
    omega
  have hval : (Char.ofNatAux n hvalid).toNat = n := rfl
  refine ⟨Char.ofNatAux n hvalid, ?_⟩
  have h1 : 0xd800 + (n - 0x10000) / 0x400 = high.toNat := by omega
  have h2 : 0xdc00 + (n - 0x10000) % 0x400 = low.toNat := by omega
  rw [units, hval, if_neg (by omega), h1, h2, UInt16.ofNat_toNat, UInt16.ofNat_toNat]

/-- A string without lone surrogates is a text. -/
theorem exists_ofString {s : JsString} (h : isWellFormed s = true) :
    ∃ text : String, ofString text = s := by
  have hlist : ∃ cs : List Char, cs.flatMap units = s := by
    induction s using isWellFormed.induct with
    | case1 => exact ⟨[], rfl⟩
    | case2 c =>
      simp only [isWellFormed, Bool.and_eq_true, Bool.not_eq_true'] at h
      obtain ⟨d, hd⟩ := units_ofUnit h.1 h.2
      exact ⟨[d], by simp [hd]⟩
    | case3 c low rest hpair ih =>
      rw [isWellFormed, if_pos hpair] at h
      obtain ⟨hh, hl⟩ := Bool.and_eq_true_iff.mp hpair
      obtain ⟨d, hd⟩ := units_ofPair hh hl
      obtain ⟨cs, hcs⟩ := ih h
      exact ⟨d :: cs, by rw [List.flatMap_cons, hd, hcs]; rfl⟩
    | case4 c low rest hpair ih =>
      rw [isWellFormed, if_neg hpair] at h
      simp only [Bool.and_eq_true, Bool.not_eq_true'] at h
      obtain ⟨d, hd⟩ := units_ofUnit h.1.1 h.1.2
      obtain ⟨cs, hcs⟩ := ih h.2
      exact ⟨d :: cs, by rw [List.flatMap_cons, hd, hcs]; rfl⟩
  obtain ⟨cs, rfl⟩ := hlist
  exact ⟨String.ofList cs, ofString_ofList cs⟩

theorem isWellFormed_ofString (text : String) : isWellFormed (ofString text) = true := by
  have hlist (cs : List Char) : isWellFormed (cs.flatMap units) = true := by
    induction cs with
    | nil => rfl
    | cons c cs ih => rw [List.flatMap_cons, isWellFormed_units, ih]
  have h := hlist text.toList
  rwa [← ofString_ofList, String.ofList_toList] at h

theorem base64ToUtf8_utf8ToBase64 (s : JsString) : base64ToUtf8 (utf8ToBase64 s) = s := by
  rw [base64ToUtf8, utf8ToBase64, encodeFrom_eq, List.drop_zero, base64ToBytes_bytesToBase64,
    decodeUtf8Bytes_utf8Bytes]

/-- Every string comes back from its bytes and from its base64 text. The strings without lone
surrogates are the texts; a text is written in its UTF-8 encoding and read from it. -/
theorem text_roundTrip :
    (∀ s : JsString, bytesToUtf8 (utf8ToBytes s) = s ∧ base64ToUtf8 (utf8ToBase64 s) = s) ∧
    (∀ s : JsString, isWellFormed s = true ↔ ∃ text : String, ofString text = s) ∧
    ∀ text : String, utf8ToBytes (ofString text) = rfc3629 text ∧
      bytesToUtf8 (rfc3629 text) = ofString text := by
  refine ⟨fun s => ⟨decodeUtf8Bytes_utf8Bytes s, base64ToUtf8_utf8ToBase64 s⟩,
    fun s => ⟨exists_ofString, ?_⟩, fun text => ⟨utf8Bytes_ofString text, ?_⟩⟩
  · rintro ⟨text, rfl⟩
    exact isWellFormed_ofString text
  · rw [← utf8Bytes_ofString]
    exact decodeUtf8Bytes_utf8Bytes _

end Epistl.JsString
