import Epistl.Text.JsString

/-! # Base64 over raw bytes

The encoder handles three bytes at a time; the decoder shifts six bits at a time
into a signed 32 bit accumulator that is never masked. Only its low bits are ever
read, so the overflow is harmless and decoding inverts encoding on every input.
-/
namespace Epistl.Base64

/-- `BASE64_CHARS`. -/
def base64Chars : JsString :=
  JsString.ofString "ABCDEFGHIJKLMNOPQRSTUVWXYZabcdefghijklmnopqrstuvwxyz0123456789+/"

def padding : UInt16 := 0x3d

def charAt (v : ℕ) : UInt16 := base64Chars.getD v 0

/-- `bytesToBase64`; the two short patterns are the reads past the end. -/
def bytesToBase64 : Bytes → JsString
  | [] => []
  | [b0] => [charAt (b0.toNat / 4), charAt (b0.toNat % 4 * 16), padding, padding]
  | [b0, b1] =>
    [charAt (b0.toNat / 4), charAt (b0.toNat % 4 * 16 + b1.toNat / 16),
      charAt (b1.toNat % 16 * 4), padding]
  | b0 :: b1 :: b2 :: rest =>
    charAt (b0.toNat / 4) :: charAt (b0.toNat % 4 * 16 + b1.toNat / 16) ::
      charAt (b1.toNat % 16 * 4 + b2.toNat / 64) :: charAt (b2.toNat % 64) :: bytesToBase64 rest

/-- The locals of the decoding loop. -/
structure Decoder where
  buffer : BitVec 32
  bitsCollected : ℕ
  bytes : Bytes

def Decoder.start : Decoder := ⟨0, 0, []⟩

/-- The loop body for a character of the alphabet. -/
def Decoder.push (d : Decoder) (value : ℕ) : Decoder :=
  let buffer := (d.buffer <<< 6) ||| BitVec.ofNat 32 value
  let bitsCollected := d.bitsCollected + 6
  if 8 ≤ bitsCollected then
    ⟨buffer, bitsCollected - 8,
      d.bytes ++ [UInt8.ofNat ((buffer.sshiftRight (bitsCollected - 8)) &&& 0xff).toNat]⟩
  else ⟨buffer, bitsCollected, d.bytes⟩

/-- The loop body: a character outside the alphabet is skipped. -/
def Decoder.pushChar (d : Decoder) (char : UInt16) : Decoder :=
  if char ∈ base64Chars then d.push (base64Chars.idxOf char) else d

/-- `base64.replace(/=+$/, '')`. -/
def stripPadding (s : JsString) : JsString :=
  (s.reverse.dropWhile (· == padding)).reverse

def base64ToBytes (base64 : JsString) : Bytes :=
  ((stripPadding base64).foldl Decoder.pushChar Decoder.start).bytes

theorem pushChar_charAt (d : Decoder) {v : ℕ} (hv : v < 64) :
    d.pushChar (charAt v) = d.push v := by
  have h : ∀ v : Fin 64, charAt v ∈ base64Chars ∧ base64Chars.idxOf (charAt v) = v := by decide +kernel
  obtain ⟨hm, hi⟩ := h ⟨v, hv⟩
  simp only at hm hi
  simp only [Decoder.pushChar, if_pos hm, hi]

theorem charAt_ne_padding {v : ℕ} (hv : v < 64) : charAt v ≠ padding := by
  have h : ∀ v : Fin 64, charAt v ≠ padding := by decide +kernel
  exact h ⟨v, hv⟩

theorem toNat_shift_or (b : BitVec 32) {v : ℕ} (hv : v < 64) :
    ((b <<< 6) ||| BitVec.ofNat 32 v).toNat = b.toNat % 2 ^ 26 * 64 + v := by
  have hs : b.toNat <<< 6 % 2 ^ 32 = (b.toNat % 2 ^ 26) <<< 6 := by
    simp only [Nat.shiftLeft_eq]
    omega
  rw [BitVec.toNat_or, BitVec.toNat_shiftLeft, hs, BitVec.toNat_ofNat,
    Nat.mod_eq_of_lt (by omega : v < 2 ^ 32), ← Nat.shiftLeft_add_eq_or_of_lt (by omega : v < 2 ^ 6),
    Nat.shiftLeft_eq]

/-- Reading eight bits at a shift below 25 never sees the sign bit. -/
theorem toNat_sshiftRight_and (b : BitVec 32) {k : ℕ} (hk : k ≤ 24) :
    ((b.sshiftRight k) &&& 0xff).toNat = b.toNat / 2 ^ k % 256 := by
  have he : (b.sshiftRight k) &&& 0xff#32 = (b >>> k) &&& 0xff#32 := by
    apply BitVec.eq_of_getLsbD_eq
    intro i hi
    by_cases h8 : i < 8
    · simp only [BitVec.getLsbD_and, BitVec.getLsbD_sshiftRight, BitVec.getLsbD_ushiftRight]
      have h1 : ¬ 32 ≤ i := by omega
      have h2 : k + i < 32 := by omega
      simp [h1, h2]
    · have : (0xff#32).getLsbD i = false := by
        have h : ∀ i : Fin 32, 8 ≤ i.val → (0xff#32).getLsbD i = false := by decide
        exact h ⟨i, hi⟩ (by simpa using h8)
      simp [this]
  rw [show (0xff : BitVec 32) = 0xff#32 from rfl, he, BitVec.toNat_and, BitVec.toNat_ushiftRight,
    Nat.shiftRight_eq_div_pow, show (0xff#32).toNat = 2 ^ 8 - 1 from rfl, Nat.and_two_pow_sub_one_eq_mod]

/-- Two values after a byte boundary yield one byte and leave four bits. -/
theorem push_two (d : Decoder) (hd : d.bitsCollected = 0) {v w : ℕ} (hv : v < 64) (hw : w < 64) :
    ∃ buffer : BitVec 32, (d.push v).push w =
      ⟨buffer, 4, d.bytes ++ [UInt8.ofNat (v * 4 + w / 16)]⟩ ∧ buffer.toNat % 16 = w % 16 := by
  have hbuf := toNat_shift_or ((d.buffer <<< 6) ||| BitVec.ofNat 32 v) hw
  refine ⟨(((d.buffer <<< 6) ||| BitVec.ofNat 32 v) <<< 6) ||| BitVec.ofNat 32 w, ?_, ?_⟩
  · have hbyte := toNat_sshiftRight_and
      ((((d.buffer <<< 6) ||| BitVec.ofNat 32 v) <<< 6) ||| BitVec.ofNat 32 w) (by omega : 4 ≤ 24)
    rw [hbuf, toNat_shift_or d.buffer hv] at hbyte
    simp only [Decoder.push, hd, Nat.zero_add, Nat.reduceLeDiff, if_false, Nat.reduceAdd, if_true,
      Nat.reduceSub, hbyte]
    congr 4
    omega
  · rw [hbuf]
    omega

/-- A third value yields the second byte and leaves two bits. -/
theorem push_third (d : Decoder) (hd : d.bitsCollected = 4) {x : ℕ} (hx : x < 64) :
    ∃ buffer : BitVec 32, d.push x =
      ⟨buffer, 2, d.bytes ++ [UInt8.ofNat (d.buffer.toNat % 16 * 16 + x / 4)]⟩ ∧
      buffer.toNat % 4 = x % 4 := by
  have hbuf := toNat_shift_or d.buffer hx
  refine ⟨(d.buffer <<< 6) ||| BitVec.ofNat 32 x, ?_, by rw [hbuf]; omega⟩
  have hbyte := toNat_sshiftRight_and ((d.buffer <<< 6) ||| BitVec.ofNat 32 x) (by omega : 2 ≤ 24)
  rw [hbuf] at hbyte
  simp only [Decoder.push, hd, Nat.reduceAdd, Nat.reduceLeDiff, if_true, Nat.reduceSub, hbyte]
  congr 4
  omega

/-- A fourth value completes the third byte. -/
theorem push_fourth (d : Decoder) (hd : d.bitsCollected = 2) {y : ℕ} (hy : y < 64) :
    ∃ buffer : BitVec 32, d.push y =
      ⟨buffer, 0, d.bytes ++ [UInt8.ofNat (d.buffer.toNat % 4 * 64 + y)]⟩ := by
  have hbuf := toNat_shift_or d.buffer hy
  refine ⟨(d.buffer <<< 6) ||| BitVec.ofNat 32 y, ?_⟩
  have hbyte := toNat_sshiftRight_and ((d.buffer <<< 6) ||| BitVec.ofNat 32 y) (by omega : 0 ≤ 24)
  rw [hbuf] at hbyte
  simp only [Decoder.push, hd, Nat.reduceAdd, Nat.le_refl, if_true, Nat.sub_self, hbyte]
  congr 4
  omega

/-- The encoder's output before padding. -/
def unpadded : Bytes → JsString
  | [] => []
  | [b0] => [charAt (b0.toNat / 4), charAt (b0.toNat % 4 * 16)]
  | [b0, b1] =>
    [charAt (b0.toNat / 4), charAt (b0.toNat % 4 * 16 + b1.toNat / 16), charAt (b1.toNat % 16 * 4)]
  | b0 :: b1 :: b2 :: rest =>
    charAt (b0.toNat / 4) :: charAt (b0.toNat % 4 * 16 + b1.toNat / 16) ::
      charAt (b1.toNat % 16 * 4 + b2.toNat / 64) :: charAt (b2.toNat % 64) :: unpadded rest

theorem bytesToBase64_eq (b : Bytes) :
    ∃ n, bytesToBase64 b = unpadded b ++ List.replicate n padding := by
  induction b using unpadded.induct with
  | case1 => exact ⟨0, rfl⟩
  | case2 b0 => exact ⟨2, rfl⟩
  | case3 b0 b1 => exact ⟨1, rfl⟩
  | case4 b0 b1 b2 rest ih =>
    obtain ⟨n, hn⟩ := ih
    exact ⟨n, by simp [bytesToBase64, unpadded, hn]⟩

theorem ne_padding_of_mem_unpadded (b : Bytes) : ∀ c ∈ unpadded b, c ≠ padding := by
  have hb (x : UInt8) : x.toNat < 256 := x.toNat_lt
  induction b using unpadded.induct with
  | case1 => simp [unpadded]
  | case2 b0 =>
    have h0 := hb b0
    simp only [unpadded, List.mem_cons, List.not_mem_nil, or_false, forall_eq_or_imp, forall_eq]
    exact ⟨charAt_ne_padding (by omega), charAt_ne_padding (by omega)⟩
  | case3 b0 b1 =>
    have h0 := hb b0
    have h1 := hb b1
    simp only [unpadded, List.mem_cons, List.not_mem_nil, or_false, forall_eq_or_imp, forall_eq]
    exact ⟨charAt_ne_padding (by omega), charAt_ne_padding (by omega),
      charAt_ne_padding (by omega)⟩
  | case4 b0 b1 b2 rest ih =>
    have h0 := hb b0
    have h1 := hb b1
    have h2 := hb b2
    simp only [unpadded, List.mem_cons, forall_eq_or_imp]
    exact ⟨charAt_ne_padding (by omega), charAt_ne_padding (by omega),
      charAt_ne_padding (by omega), charAt_ne_padding (by omega), ih⟩

theorem stripPadding_append {u : JsString} (hu : ∀ c ∈ u, c ≠ padding) (n : ℕ) :
    stripPadding (u ++ List.replicate n padding) = u := by
  have hdrop : u.reverse.dropWhile (· == padding) = u.reverse := by
    cases hr : u.reverse with
    | nil => rfl
    | cons c rest =>
      have hc : c ≠ padding := hu c (List.mem_reverse.mp (hr ▸ List.mem_cons_self))
      simp [hc]
  rw [stripPadding, List.reverse_append, List.reverse_replicate, List.dropWhile_append_of_pos
    (by intro c hc; simp [List.eq_of_mem_replicate hc]), hdrop, List.reverse_reverse]

/-- From a byte boundary the decoding loop appends exactly the encoded bytes. -/
theorem foldl_unpadded (b : Bytes) (d : Decoder) (hd : d.bitsCollected = 0) :
    ((unpadded b).foldl Decoder.pushChar d).bytes = d.bytes ++ b := by
  have hb (x : UInt8) : x.toNat < 256 := x.toNat_lt
  induction b using unpadded.induct generalizing d with
  | case1 => simp [unpadded]
  | case2 b0 =>
    have h0 := hb b0
    obtain ⟨B, hB, -⟩ := push_two d hd (v := b0.toNat / 4) (w := b0.toNat % 4 * 16)
      (by omega) (by omega)
    simp only [unpadded, List.foldl_cons, List.foldl_nil]
    rw [pushChar_charAt d (by omega), pushChar_charAt _ (by omega), hB]
    have e0 : b0.toNat / 4 * 4 + b0.toNat % 4 * 16 / 16 = b0.toNat := by omega
    simp only [e0, UInt8.ofNat_toNat]
  | case3 b0 b1 =>
    have h0 := hb b0
    have h1 := hb b1
    obtain ⟨B, hB, hm⟩ := push_two d hd (v := b0.toNat / 4)
      (w := b0.toNat % 4 * 16 + b1.toNat / 16) (by omega) (by omega)
    obtain ⟨C, hC, -⟩ := push_third
      ⟨B, 4, d.bytes ++ [UInt8.ofNat (b0.toNat / 4 * 4 + (b0.toNat % 4 * 16 + b1.toNat / 16) / 16)]⟩
      rfl (x := b1.toNat % 16 * 4) (by omega)
    simp only [unpadded, List.foldl_cons, List.foldl_nil]
    rw [pushChar_charAt d (by omega), pushChar_charAt _ (by omega), pushChar_charAt _ (by omega),
      hB, hC]
    have e0 : b0.toNat / 4 * 4 + (b0.toNat % 4 * 16 + b1.toNat / 16) / 16 = b0.toNat := by omega
    have e1 : B.toNat % 16 * 16 + b1.toNat % 16 * 4 / 4 = b1.toNat := by omega
    simp only [e0, e1, UInt8.ofNat_toNat, List.append_assoc, List.cons_append, List.nil_append]
  | case4 b0 b1 b2 rest ih =>
    have h0 := hb b0
    have h1 := hb b1
    have h2 := hb b2
    obtain ⟨B, hB, hm⟩ := push_two d hd (v := b0.toNat / 4)
      (w := b0.toNat % 4 * 16 + b1.toNat / 16) (by omega) (by omega)
    have e0 : b0.toNat / 4 * 4 + (b0.toNat % 4 * 16 + b1.toNat / 16) / 16 = b0.toNat := by omega
    rw [e0] at hB
    obtain ⟨C, hC, hn⟩ := push_third ⟨B, 4, d.bytes ++ [UInt8.ofNat b0.toNat]⟩ rfl
      (x := b1.toNat % 16 * 4 + b2.toNat / 64) (by omega)
    have e1 : B.toNat % 16 * 16 + (b1.toNat % 16 * 4 + b2.toNat / 64) / 4 = b1.toNat := by omega
    simp only [e1] at hC
    obtain ⟨D, hD⟩ := push_fourth
      ⟨C, 2, d.bytes ++ [UInt8.ofNat b0.toNat] ++ [UInt8.ofNat b1.toNat]⟩ rfl
      (y := b2.toNat % 64) (by omega)
    have e2 : C.toNat % 4 * 64 + b2.toNat % 64 = b2.toNat := by omega
    simp only [e2] at hD
    simp only [unpadded, List.foldl_cons]
    rw [pushChar_charAt d (by omega), pushChar_charAt _ (by omega), pushChar_charAt _ (by omega),
      pushChar_charAt _ (by omega), hB, hC, hD, ih _ rfl]
    simp

/-- Decoding inverts encoding on every byte string. -/
theorem base64ToBytes_bytesToBase64 (b : Bytes) : base64ToBytes (bytesToBase64 b) = b := by
  obtain ⟨n, hn⟩ := bytesToBase64_eq b
  rw [base64ToBytes, hn, stripPadding_append (ne_padding_of_mem_unpadded b),
    foldl_unpadded b _ rfl]
  rfl

end Epistl.Base64
