import Epistl.Text.JsString

/-! # Decoding what was encoded as UTF-8

The encoder writes a lone surrogate as a code point of its own and the decoder reads it
back, so the round trip holds of every JavaScript string, and after it the bytes that
follow are read as they stand.
-/
namespace Epistl.JsString

theorem continuation {y : ℕ} (hy : y < 64) (codePoint : ℕ) :
    pushContinuation codePoint (UInt8.ofNat (0x80 ||| y)) = codePoint * 64 + y := by
  have h : ∀ y : Fin 64, (UInt8.ofNat (0x80 ||| y)).toNat &&& 0x3f = y := by decide
  have hy' : (UInt8.ofNat (0x80 ||| y)).toNat &&& 0x3f = y := h ⟨y, hy⟩
  rw [pushContinuation, hy', ← Nat.shiftLeft_add_eq_or_of_lt hy, Nat.shiftLeft_eq]

/-- The lead byte of two. -/
theorem lead_two {x : ℕ} (hx : x < 32) : ¬ UInt8.ofNat (0xc0 ||| x) < 0x80 ∧
    UInt8.ofNat (0xc0 ||| x) &&& 0xe0 = 0xc0 ∧ (UInt8.ofNat (0xc0 ||| x) &&& 0x1f).toNat = x := by
  have h : ∀ x : Fin 32, ¬ UInt8.ofNat (0xc0 ||| x) < 0x80 ∧
      UInt8.ofNat (0xc0 ||| x) &&& 0xe0 = 0xc0 ∧
      (UInt8.ofNat (0xc0 ||| x) &&& 0x1f).toNat = x := by decide
  exact h ⟨x, hx⟩

/-- The lead byte of three. -/
theorem lead_three {x : ℕ} (hx : x < 16) : ¬ UInt8.ofNat (0xe0 ||| x) < 0x80 ∧
    UInt8.ofNat (0xe0 ||| x) &&& 0xe0 ≠ 0xc0 ∧ UInt8.ofNat (0xe0 ||| x) &&& 0xf0 = 0xe0 ∧
    (UInt8.ofNat (0xe0 ||| x) &&& 0x0f).toNat = x := by
  have h : ∀ x : Fin 16, ¬ UInt8.ofNat (0xe0 ||| x) < 0x80 ∧
      UInt8.ofNat (0xe0 ||| x) &&& 0xe0 ≠ 0xc0 ∧ UInt8.ofNat (0xe0 ||| x) &&& 0xf0 = 0xe0 ∧
      (UInt8.ofNat (0xe0 ||| x) &&& 0x0f).toNat = x := by decide
  exact h ⟨x, hx⟩

/-- The lead byte of four. -/
theorem lead_four {x : ℕ} (hx : x < 8) : ¬ UInt8.ofNat (0xf0 ||| x) < 0x80 ∧
    UInt8.ofNat (0xf0 ||| x) &&& 0xe0 ≠ 0xc0 ∧ UInt8.ofNat (0xf0 ||| x) &&& 0xf0 ≠ 0xe0 ∧
    UInt8.ofNat (0xf0 ||| x) &&& 0xf8 = 0xf0 ∧ (UInt8.ofNat (0xf0 ||| x) &&& 0x07).toNat = x := by
  have h : ∀ x : Fin 8, ¬ UInt8.ofNat (0xf0 ||| x) < 0x80 ∧
      UInt8.ofNat (0xf0 ||| x) &&& 0xe0 ≠ 0xc0 ∧ UInt8.ofNat (0xf0 ||| x) &&& 0xf0 ≠ 0xe0 ∧
      UInt8.ofNat (0xf0 ||| x) &&& 0xf8 = 0xf0 ∧
      (UInt8.ofNat (0xf0 ||| x) &&& 0x07).toNat = x := by decide
  exact h ⟨x, hx⟩

theorem and_sixBits (n : ℕ) : n &&& 0x3f = n % 64 := Nat.and_two_pow_sub_one_eq_mod n 6

/-- One code point is read back. -/
theorem decode_codePointBytes {codePoint : ℕ} (h : codePoint < 0x200000) (rest : Bytes) :
    decodeUtf8Bytes (codePointBytes codePoint ++ rest) =
      codePointUnits codePoint ++ decodeUtf8Bytes rest := by
  have hlow : codePoint % 64 < 64 := Nat.mod_lt _ (by omega)
  have hmid : codePoint / 64 % 64 < 64 := Nat.mod_lt _ (by omega)
  have hhigh : codePoint / 4096 % 64 < 64 := Nat.mod_lt _ (by omega)
  unfold codePointBytes
  simp only [and_sixBits, Nat.shiftRight_eq_div_pow]
  split
  · rename_i h1
    have hbyte : UInt8.ofNat codePoint < 0x80 ∧ (UInt8.ofNat codePoint).toNat = codePoint := by
      have hd : ∀ c : Fin 128, UInt8.ofNat c < 0x80 ∧ (UInt8.ofNat c).toNat = c := by decide
      exact hd ⟨codePoint, h1⟩
    rw [List.cons_append, List.nil_append, decodeUtf8Bytes.eq_def]
    simp only [if_pos hbyte.1, hbyte.2]
  · split
    · rename_i h2
      obtain ⟨hge, hlead, hbits⟩ := lead_two (x := codePoint / 2 ^ 6) (by omega)
      simp only [List.cons_append, List.nil_append, decodeUtf8Bytes, if_neg hge, if_pos hlead, hbits,
        continuation hlow]
      rw [show codePoint / 2 ^ 6 * 64 + codePoint % 64 = codePoint by omega]
    · split
      · rename_i h3
        obtain ⟨hge, htwo, hlead, hbits⟩ := lead_three (x := codePoint / 2 ^ 12) (by omega)
        simp only [List.cons_append, List.nil_append, decodeUtf8Bytes, if_neg hge, if_neg htwo,
          if_pos hlead, hbits, continuation hlow, continuation hmid]
        rw [show (codePoint / 2 ^ 12 * 64 + codePoint / 64 % 64) * 64 + codePoint % 64 = codePoint by
          omega]
      · obtain ⟨hge, htwo, hthree, hlead, hbits⟩ := lead_four (x := codePoint / 2 ^ 18) (by omega)
        simp only [List.cons_append, List.nil_append, decodeUtf8Bytes, if_neg hge, if_neg htwo,
          if_neg hthree, if_pos hlead, hbits, continuation hlow, continuation hmid,
          continuation hhigh]
        rw [show ((codePoint / 2 ^ 18 * 64 + codePoint / 4096 % 64) * 64 + codePoint / 64 % 64) * 64 +
          codePoint % 64 = codePoint by omega]

/-- A code unit that is encoded by itself. -/
theorem codePointUnits_toNat (c : UInt16) : codePointUnits c.toNat = [c] := by
  have hc : ¬ 0xffff < c.toNat := by
    have := c.toNat_lt
    omega
  rw [codePointUnits, if_neg hc, UInt16.ofNat_toNat]

/-- A surrogate pair. -/
theorem codePointUnits_pair {high low : UInt16} (hh : isHighSurrogate high = true)
    (hl : isLowSurrogate low = true) :
    pairCodePoint high low < 0x200000 ∧ codePointUnits (pairCodePoint high low) = [high, low] := by
  simp only [isHighSurrogate, isLowSurrogate, Bool.and_eq_true, decide_eq_true_eq,
    UInt16.le_iff_toNat_le] at hh hl
  have h1 : (0xd800 : UInt16).toNat = 0xd800 := rfl
  have h2 : (0xdbff : UInt16).toNat = 0xdbff := rfl
  have h3 : (0xdc00 : UInt16).toNat = 0xdc00 := rfl
  have h4 : (0xdfff : UInt16).toNat = 0xdfff := rfl
  rw [h1, h2] at hh
  rw [h3, h4] at hl
  have hpair : pairCodePoint high low =
      0x10000 + (high.toNat - 0xd800) * 1024 + (low.toNat - 0xdc00) := by
    have hshift (n : ℕ) : n <<< 10 = n * 1024 := Nat.shiftLeft_eq n 10
    unfold pairCodePoint
    rw [hshift]
  have hgt : 0xffff < pairCodePoint high low := by omega
  have hlt : pairCodePoint high low < 0x200000 := by omega
  refine ⟨hlt, ?_⟩
  have hand : (pairCodePoint high low - 0x10000) &&& 0x3ff = low.toNat - 0xdc00 := by
    rw [show (0x3ff : ℕ) = 2 ^ 10 - 1 from rfl, Nat.and_two_pow_sub_one_eq_mod]
    omega
  have hshift : (pairCodePoint high low - 0x10000) >>> 10 = high.toNat - 0xd800 := by
    rw [Nat.shiftRight_eq_div_pow]
    omega
  have hhigh : 0xd800 + (high.toNat - 0xd800) = high.toNat := by omega
  have hlow : 0xdc00 + (low.toNat - 0xdc00) = low.toNat := by omega
  rw [codePointUnits, if_pos hgt, hand, hshift, hhigh, hlow, UInt16.ofNat_toNat, UInt16.ofNat_toNat]

/-- Decoding returns the encoded string and goes on with the bytes after it. -/
theorem decodeUtf8Bytes_utf8Bytes_append (s : JsString) (rest : Bytes) :
    decodeUtf8Bytes (utf8Bytes s ++ rest) = s ++ decodeUtf8Bytes rest := by
  have hone (c : UInt16) (rest : Bytes) : decodeUtf8Bytes (codePointBytes c.toNat ++ rest) =
      c :: decodeUtf8Bytes rest := by
    have hlt := c.toNat_lt
    rw [decode_codePointBytes (by omega), codePointUnits_toNat]
    rfl
  induction s using utf8Bytes.induct with
  | case1 => rfl
  | case2 c =>
    rw [utf8Bytes]
    exact hone c rest
  | case3 c low tail hpair ih =>
    obtain ⟨hh, hl⟩ := Bool.and_eq_true_iff.mp hpair
    obtain ⟨hlt, hunits⟩ := codePointUnits_pair hh hl
    rw [utf8Bytes, if_pos hpair, List.append_assoc, decode_codePointBytes hlt, hunits, ih]
    rfl
  | case4 c low tail hpair ih =>
    rw [utf8Bytes, if_neg hpair, List.append_assoc, hone, ih]
    rfl

/-- `bytesToUtf8` after `utf8ToBytes`. -/
theorem decodeUtf8Bytes_utf8Bytes (s : JsString) : decodeUtf8Bytes (utf8Bytes s) = s := by
  have h := decodeUtf8Bytes_utf8Bytes_append s []
  rwa [List.append_nil, decodeUtf8Bytes, List.append_nil] at h

/-- Two strings of known lengths can be told from their concatenated bytes. -/
theorem utf8Bytes_append_inj {a b a' b' : JsString} (hlength : a.length = a'.length)
    (h : utf8Bytes a ++ utf8Bytes b = utf8Bytes a' ++ utf8Bytes b') : a = a' ∧ b = b' := by
  apply List.append_inj _ hlength
  rw [← decodeUtf8Bytes_utf8Bytes b, ← decodeUtf8Bytes_utf8Bytes_append, h,
    decodeUtf8Bytes_utf8Bytes_append, decodeUtf8Bytes_utf8Bytes]

end Epistl.JsString
