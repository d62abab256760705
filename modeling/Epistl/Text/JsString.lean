import Mathlib.Algebra.Group.Nat.Defs
import Mathlib.Data.List.Basic
import Mathlib.Tactic.Common

/-! # JavaScript strings and their UTF-8 bytes

A JavaScript string is a list of UTF-16 code units, lone surrogates included.
The encoder and the decoder are the hand written ones of `utils/base64.ts`; the
text encoder used for key derivation first replaces lone surrogates.
-/
namespace Epistl

abbrev Bytes := List UInt8

/-- UTF-16 code units. -/
abbrev JsString := List UInt16

instance lawfulJsString : LawfulBEq JsString := inferInstanceAs (LawfulBEq (List UInt16))

namespace JsString

def ofString (s : String) : JsString :=
  s.toList.flatMap fun c =>
    if c.toNat < 0x10000 then [UInt16.ofNat c.toNat]
    else [UInt16.ofNat (0xd800 + (c.toNat - 0x10000) / 0x400),
      UInt16.ofNat (0xdc00 + (c.toNat - 0x10000) % 0x400)]

/-- The code units `String.prototype.trim` strips. -/
def isTrimmed (c : UInt16) : Bool :=
  c.toNat ∈ [0x09, 0x0a, 0x0b, 0x0c, 0x0d, 0x20, 0xa0, 0x1680, 0x2028, 0x2029, 0x202f, 0x205f,
    0x3000, 0xfeff] || (0x2000 ≤ c.toNat && c.toNat ≤ 0x200a)

def trim (s : JsString) : JsString :=
  ((s.dropWhile isTrimmed).reverse.dropWhile isTrimmed).reverse

/-- The order of `Array.prototype.sort` on strings: by UTF-16 code units. -/
def less : JsString → JsString → Bool
  | [], [] => false
  | [], _ :: _ => true
  | _ :: _, [] => false
  | a :: as, b :: bs => if a < b then true else if b < a then false else less as bs

theorem less_asymm {a b : JsString} (h : less a b = true) : less b a = false := by
  induction a generalizing b with
  | nil => cases b <;> simp_all [less]
  | cons x a ih =>
    cases b with
    | nil => simp [less] at h
    | cons y b =>
      simp only [less] at h ⊢
      by_cases hxy : x < y
      · simp [hxy, UInt16.lt_asymm hxy]
      · by_cases hyx : y < x
        · simp [hxy, hyx] at h
        · simp only [hxy, hyx, if_false] at h ⊢
          exact ih h

theorem eq_of_not_less {a b : JsString} (hab : less a b = false) (hba : less b a = false) :
    a = b := by
  induction a generalizing b with
  | nil => cases b <;> simp_all [less]
  | cons x a ih =>
    cases b with
    | nil => simp [less] at hba
    | cons y b =>
      simp only [less] at hab hba
      by_cases hxy : x < y
      · simp [hxy] at hab
      · by_cases hyx : y < x
        · simp [hyx] at hba
        · simp only [hxy, hyx, if_false] at hab hba
          have hx : x = y := UInt16.le_antisymm (UInt16.not_lt.mp hyx) (UInt16.not_lt.mp hxy)
          rw [hx, ih hab hba]

/-- `[a, b].sort()`. -/
def sortPair (a b : JsString) : JsString × JsString :=
  if less b a then (b, a) else (a, b)

theorem sortPair_comm (a b : JsString) : sortPair a b = sortPair b a := by
  unfold sortPair
  cases hba : less b a with
  | true => simp [less_asymm hba]
  | false =>
    cases hab : less a b with
    | true => simp
    | false => simp [eq_of_not_less hab hba]

def isHighSurrogate (c : UInt16) : Bool := 0xd800 ≤ c && c ≤ 0xdbff
def isLowSurrogate (c : UInt16) : Bool := 0xdc00 ≤ c && c ≤ 0xdfff

/-- The code point of a surrogate pair. -/
def pairCodePoint (high low : UInt16) : ℕ :=
  0x10000 + ((high.toNat - 0xd800) <<< 10) + (low.toNat - 0xdc00)

/-- The bytes `utf8Bytes` pushes for one code point. -/
def codePointBytes (codePoint : ℕ) : Bytes :=
  if codePoint < 0x80 then [UInt8.ofNat codePoint]
  else if codePoint < 0x800 then
    [UInt8.ofNat (0xc0 ||| (codePoint >>> 6)), UInt8.ofNat (0x80 ||| (codePoint &&& 0x3f))]
  else if codePoint < 0x10000 then
    [UInt8.ofNat (0xe0 ||| (codePoint >>> 12)),
      UInt8.ofNat (0x80 ||| ((codePoint >>> 6) &&& 0x3f)),
      UInt8.ofNat (0x80 ||| (codePoint &&& 0x3f))]
  else
    [UInt8.ofNat (0xf0 ||| (codePoint >>> 18)),
      UInt8.ofNat (0x80 ||| ((codePoint >>> 12) &&& 0x3f)),
      UInt8.ofNat (0x80 ||| ((codePoint >>> 6) &&& 0x3f)),
      UInt8.ofNat (0x80 ||| (codePoint &&& 0x3f))]

/-- `utf8Bytes`: a lone surrogate is encoded as the three bytes of its code unit. -/
def utf8Bytes : JsString → Bytes
  | [] => []
  | [c] => codePointBytes c.toNat
  | c :: low :: rest =>
    if isHighSurrogate c && isLowSurrogate low then
      codePointBytes (pairCodePoint c low) ++ utf8Bytes rest
    else codePointBytes c.toNat ++ utf8Bytes (low :: rest)

/-- Replaces every lone surrogate by U+FFFD. -/
def toWellFormed : JsString → JsString
  | [] => []
  | [c] => [if isHighSurrogate c || isLowSurrogate c then 0xfffd else c]
  | c :: low :: rest =>
    if isHighSurrogate c && isLowSurrogate low then c :: low :: toWellFormed rest
    else (if isHighSurrogate c || isLowSurrogate c then 0xfffd else c) :: toWellFormed (low :: rest)

/-- `TextEncoder.encode`, the text encoder of the key derivation code. -/
def textEncode (s : JsString) : Bytes := utf8Bytes (toWellFormed s)

/-- The code units `decodeUtf8Bytes` appends for one code point. -/
def codePointUnits (codePoint : ℕ) : JsString :=
  if 0xffff < codePoint then
    [UInt16.ofNat (0xd800 + ((codePoint - 0x10000) >>> 10)),
      UInt16.ofNat (0xdc00 + ((codePoint - 0x10000) &&& 0x3ff))]
  else [UInt16.ofNat codePoint]

/-- One continuation byte shifted into the code point under construction. -/
def pushContinuation (codePoint : ℕ) (next : UInt8) : ℕ :=
  (codePoint <<< 6) ||| (next.toNat &&& 0x3f)

/-- `decodeUtf8Bytes`: an invalid lead byte is skipped, a sequence cut off by the
end of the input yields nothing. -/
def decodeUtf8Bytes : Bytes → JsString
  | [] => []
  | byte0 :: rest =>
    if byte0 < 0x80 then codePointUnits byte0.toNat ++ decodeUtf8Bytes rest
    else if byte0 &&& 0xe0 = 0xc0 then
      match rest with
      | b1 :: rest =>
        codePointUnits (pushContinuation (byte0 &&& 0x1f).toNat b1) ++ decodeUtf8Bytes rest
      | [] => []
    else if byte0 &&& 0xf0 = 0xe0 then
      match rest with
      | b1 :: b2 :: rest =>
        codePointUnits (pushContinuation (pushContinuation (byte0 &&& 0x0f).toNat b1) b2) ++
          decodeUtf8Bytes rest
      | _ => []
    else if byte0 &&& 0xf8 = 0xf0 then
      match rest with
      | b1 :: b2 :: b3 :: rest =>
        codePointUnits (pushContinuation
          (pushContinuation (pushContinuation (byte0 &&& 0x07).toNat b1) b2) b3) ++
          decodeUtf8Bytes rest
      | _ => []
    else decodeUtf8Bytes rest

end JsString

end Epistl
