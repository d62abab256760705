import Mathlib.Data.List.Induction
import Mathlib.Data.Nat.Notation
import Mathlib.Tactic.Common

/-! # Decimal numerals

What `str::parse` reads as a number of an unsigned type: the decimal digits of the number,
behind an optional plus sign and any zeros.
-/
namespace Epistl.Text

def dropSign : List Char → List Char
  | [] => []
  | c :: s => if c = '+' then s else c :: s

/-- `str::parse` for the unsigned numbers below the bound. -/
def parseUnsigned (bound : ℕ) (s : List Char) : Option ℕ :=
  let digits := dropSign s
  if digits ≠ [] ∧ digits.all Char.isDigit ∧ Nat.ofDigitChars 10 digits 0 < bound then
    some (Nat.ofDigitChars 10 digits 0)
  else none

def IsNumeral (s : List Char) (n : ℕ) : Prop :=
  ∃ sign zeros, (sign = [] ∨ sign = ['+']) ∧
    s = sign ++ (List.replicate zeros '0' ++ Nat.toDigits 10 n)

variable {s digits : List Char} {n bound : ℕ}

theorem digitChar_of_isDigit {c : Char} (h : c.isDigit = true) :
    ∃ d < 10, c = Nat.digitChar d ∧ c.toNat - '0'.toNat = d := by
  have hc : 48 ≤ c.toNat ∧ c.toNat ≤ 57 := by simpa [Char.isDigit, UInt32.le_iff_toNat_le] using h
  refine ⟨c.toNat - 48, by omega, ?_, rfl⟩
  apply Char.toNat_inj.mp
  rw [Nat.toNat_digitChar_of_lt_ten (by omega)]
  omega

theorem isDigit_of_mem_toDigits {c : Char} (h : c ∈ Nat.toDigits 10 n) : c.isDigit = true :=
  Nat.isDigit_of_mem_toDigits (by decide) (by decide) h

/-- Digits are zeros and the decimal digits of their number. -/
theorem eq_toDigits_of_digits (hne : digits ≠ []) (hall : digits.all Char.isDigit) :
    ∃ zeros, digits = List.replicate zeros '0' ++ Nat.toDigits 10 (Nat.ofDigitChars 10 digits 0) := by
  induction digits using List.reverseRecOn with
  | nil => exact absurd rfl hne
  | append_singleton digits c ih =>
    simp only [List.all_append, Bool.and_eq_true, List.all_cons, List.all_nil, and_true] at hall
    obtain ⟨d, hd, hc, hval⟩ := digitChar_of_isDigit hall.2
    have hlast : Nat.toDigits 10 d = [c] := by rw [Nat.toDigits_of_lt_base hd, hc]
    rw [Nat.ofDigitChars_append, Nat.ofDigitChars_cons, Nat.ofDigitChars_nil, hval]
    by_cases hdigits : digits = []
    · subst hdigits
      exact ⟨0, by simp [hlast]⟩
    · obtain ⟨zeros, hzeros⟩ := ih hdigits hall.1
      generalize Nat.ofDigitChars 10 digits 0 = m at hzeros ⊢
      by_cases hm : m = 0
      · subst hm
        refine ⟨zeros + 1, ?_⟩
        rw [hzeros, Nat.mul_zero, Nat.zero_add, hlast, Nat.toDigits_zero, List.replicate_succ']
      · refine ⟨zeros, ?_⟩
        rw [← Nat.toDigits_append_toDigits (by decide) (Nat.pos_of_ne_zero hm) hd, hlast,
          ← List.append_assoc, ← hzeros]

theorem exists_sign (s : List Char) : ∃ sign, (sign = [] ∨ sign = ['+']) ∧ s = sign ++ dropSign s := by
  cases s with
  | nil => exact ⟨[], Or.inl rfl, rfl⟩
  | cons c s =>
    by_cases hc : c = '+'
    · exact ⟨['+'], Or.inr rfl, by simp [dropSign, hc]⟩
    · exact ⟨[], Or.inl rfl, by simp [dropSign, hc]⟩

theorem dropSign_append {sign : List Char} (hsign : sign = [] ∨ sign = ['+'])
    (hall : digits.all Char.isDigit) : dropSign (sign ++ digits) = digits := by
  rcases hsign with rfl | rfl
  · cases digits with
    | nil => rfl
    | cons c digits =>
      have hc : c ≠ '+' := by
        rintro rfl
        simp at hall
      simp [dropSign, hc]
  · rfl

theorem all_isDigit_zeros (zeros n : ℕ) :
    (List.replicate zeros '0' ++ Nat.toDigits 10 n).all Char.isDigit := by
  rw [List.all_eq_true]
  intro c hc
  rcases List.mem_append.mp hc with hc | hc
  · rw [List.eq_of_mem_replicate hc]
    decide
  · exact isDigit_of_mem_toDigits hc

theorem IsNumeral.dot_notMem (h : IsNumeral s n) : '.' ∉ s := by
  obtain ⟨sign, zeros, hsign, rfl⟩ := h
  intro hdot
  rcases List.mem_append.mp hdot with hdot | hdot
  · rcases hsign with rfl | rfl
    · cases hdot
    · exact absurd hdot (by decide)
  · exact absurd (List.all_eq_true.mp (all_isDigit_zeros zeros n) _ hdot) (by decide)

theorem isNumeral_toDigits (n : ℕ) : IsNumeral (Nat.toDigits 10 n) n := ⟨[], 0, Or.inl rfl, rfl⟩

theorem parseUnsigned_eq_some : parseUnsigned bound s = some n ↔ IsNumeral s n ∧ n < bound := by
  simp only [parseUnsigned]
  constructor
  · intro h
    split at h
    · rename_i hparse
      cases h
      obtain ⟨hne, hall, hlt⟩ := hparse
      obtain ⟨zeros, hzeros⟩ := eq_toDigits_of_digits hne hall
      obtain ⟨sign, hsign, hs⟩ := exists_sign s
      exact ⟨⟨sign, zeros, hsign, hzeros ▸ hs⟩, hlt⟩
    · cases h
  · rintro ⟨⟨sign, zeros, hsign, rfl⟩, hlt⟩
    have hall := all_isDigit_zeros zeros n
    have hvalue : Nat.ofDigitChars 10 (List.replicate zeros '0' ++ Nat.toDigits 10 n) 0 = n := by
      simp [Nat.ofDigitChars_append]
    rw [dropSign_append hsign hall, hvalue, if_pos ⟨by simp [Nat.toDigits_ne_nil], hall, hlt⟩]

end Epistl.Text
