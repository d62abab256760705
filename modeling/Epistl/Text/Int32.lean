import Epistl.Text.JsString

/-! # The bit operators of JavaScript

Every operator cuts its operands to 32 bits. The result is read as a signed number, only
`>>>` reads it as an unsigned one.
-/
namespace Epistl.Js

/-- `ToInt32`: the low 32 bits of a number. -/
def toInt32 (x : ℤ) : BitVec 32 := BitVec.ofInt 32 x

/-- `x << n`, for a literal `n` below 32. -/
def shiftLeft (x : ℤ) (n : ℕ) : ℤ := (toInt32 x <<< n).toInt

/-- `x >>> n`. -/
def shiftRight (x : ℤ) (n : ℕ) : ℤ := (toInt32 x >>> n).toNat

/-- `x | y`. -/
def or (x y : ℤ) : ℤ := (toInt32 x ||| toInt32 y).toInt

/-- `x & y`. -/
def and (x y : ℤ) : ℤ := (toInt32 x &&& toInt32 y).toInt

@[simp] theorem toInt32_toInt (v : BitVec 32) : toInt32 v.toInt = v := BitVec.ofInt_toInt

theorem toInt32_natCast (n : ℕ) : toInt32 n = BitVec.ofNat 32 n := BitVec.ofInt_natCast 32 n

theorem toInt32_shiftLeft (x : ℤ) (n : ℕ) : toInt32 (shiftLeft x n) = toInt32 x <<< n :=
  toInt32_toInt _

theorem toInt32_or (x y : ℤ) : toInt32 (or x y) = toInt32 x ||| toInt32 y := toInt32_toInt _

/-- `>>> 0` reads the 32 bits as an unsigned number. -/
theorem shiftRight_zero (x : ℤ) : shiftRight x 0 = (toInt32 x).toNat := by
  simp [shiftRight]

theorem shiftRight_natCast (n k : ℕ) : shiftRight n k = (n % 2 ^ 32 / 2 ^ k : ℕ) := by
  rw [shiftRight, toInt32_natCast, BitVec.toNat_ushiftRight, BitVec.toNat_ofNat,
    Nat.shiftRight_eq_div_pow]

/-- The low byte of a number. -/
theorem and_byte (n : ℕ) : and n 0xff = (n % 2 ^ 8 : ℕ) := by
  have hmask : toInt32 0xff = BitVec.ofNat 32 (2 ^ 8 - 1) := by decide
  have hlow : ((toInt32 n) &&& toInt32 0xff).toNat = n % 2 ^ 8 := by
    rw [hmask, toInt32_natCast, BitVec.toNat_and, BitVec.toNat_ofNat, BitVec.toNat_ofNat,
      Nat.mod_eq_of_lt (show 2 ^ 8 - 1 < 2 ^ 32 by decide), Nat.and_two_pow_sub_one_eq_mod,
      Nat.mod_mod_of_dvd _ (by decide)]
  have hlt : n % 2 ^ 8 < 2 ^ 8 := Nat.mod_lt _ (by decide)
  rw [and, BitVec.toInt_eq_toNat_of_lt (by omega), hlow]

/-- Four bytes side by side. -/
theorem toNat_bytes {a b c d : ℕ} (ha : a < 256) (hb : b < 256) (hc : c < 256) (hd : d < 256) :
    ((BitVec.ofNat 32 a <<< 24 ||| BitVec.ofNat 32 b <<< 16) ||| BitVec.ofNat 32 c <<< 8 |||
      BitVec.ofNat 32 d).toNat = a * 2 ^ 24 + b * 2 ^ 16 + c * 2 ^ 8 + d := by
  have hab : a * 2 ^ 24 ||| b * 2 ^ 16 = a * 2 ^ 24 + b * 2 ^ 16 := by
    rw [Nat.mul_comm a, ← Nat.two_pow_add_eq_or_of_lt (by omega)]
  have habc : a * 2 ^ 24 + b * 2 ^ 16 ||| c * 2 ^ 8 = a * 2 ^ 24 + b * 2 ^ 16 + c * 2 ^ 8 := by
    have heq : a * 2 ^ 24 + b * 2 ^ 16 = 2 ^ 16 * (a * 2 ^ 8 + b) := by omega
    rw [heq, ← Nat.two_pow_add_eq_or_of_lt (by omega)]
  have habcd : a * 2 ^ 24 + b * 2 ^ 16 + c * 2 ^ 8 ||| d =
      a * 2 ^ 24 + b * 2 ^ 16 + c * 2 ^ 8 + d := by
    have heq : a * 2 ^ 24 + b * 2 ^ 16 + c * 2 ^ 8 = 2 ^ 8 * (a * 2 ^ 16 + b * 2 ^ 8 + c) := by omega
    rw [heq, ← Nat.two_pow_add_eq_or_of_lt (by omega)]
  have hshift {n k : ℕ} (h : n * 2 ^ k < 2 ^ 32) : (BitVec.ofNat 32 n <<< k).toNat = n * 2 ^ k := by
    have hn : n < 2 ^ 32 := Nat.lt_of_le_of_lt (Nat.le_mul_of_pos_right n (Nat.two_pow_pos k)) h
    rw [BitVec.toNat_shiftLeft, BitVec.toNat_ofNat, Nat.shiftLeft_eq, Nat.mod_eq_of_lt hn,
      Nat.mod_eq_of_lt h]
  rw [BitVec.toNat_or, BitVec.toNat_or, BitVec.toNat_or, hshift (by omega), hshift (by omega),
    hshift (by omega), BitVec.toNat_ofNat, Nat.mod_eq_of_lt (by omega), hab, habc, habcd]

end Epistl.Js
