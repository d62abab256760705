import Epistl.Text.Base64
import Mathlib.Tactic.Ring

/-! # Base64 as RFC 4648 has it

The bits of the bytes, from left to right, are cut into groups of six. The last group is
filled up with zeros and the text with `=` to a multiple of four characters. A strict decoder
takes nothing else. `bytesToBase64` reads three bytes a time, past the end of the array in
the last turn, and writes that text.
-/
namespace Epistl.Base64

/-! ### The standard encoding -/

/-- The bits of a byte, the most significant first. -/
def bits (b : UInt8) : List Bool := [7, 6, 5, 4, 3, 2, 1, 0].map b.toNat.testBit

def value (group : List Bool) : ℕ := group.foldl (fun v bit => 2 * v + bit.toNat) 0

def sextets : List Bool → List ℕ
  | [] => []
  | x0 :: x1 :: x2 :: x3 :: x4 :: x5 :: rest => value [x0, x1, x2, x3, x4, x5] :: sextets rest
  | short => [value (short ++ List.replicate (6 - short.length) false)]

/-- The digits of an encoding, without the padding. -/
def digits (b : Bytes) : JsString := (sextets (b.flatMap bits)).map charAt

/-- The encoding of section 4. -/
def standard (b : Bytes) : JsString :=
  digits b ++ List.replicate ((4 - (digits b).length % 4) % 4) padding

def sextet (c : UInt16) : Option ℕ := if c ∈ base64Chars then some (base64Chars.idxOf c) else none

/-- A group of four characters without padding. -/
def decodeGroup (c0 c1 c2 c3 : UInt16) : Option Bytes := do
  let v0 ← sextet c0
  let v1 ← sextet c1
  let v2 ← sextet c2
  let v3 ← sextet c3
  return [UInt8.ofNat (v0 * 4 + v1 / 16), UInt8.ofNat (v1 % 16 * 16 + v2 / 4),
    UInt8.ofNat (v2 % 4 * 64 + v3)]

/-- The last group of four: the bits that make no byte are zeros. -/
def decodeLast (c0 c1 c2 c3 : UInt16) : Option Bytes :=
  if c3 ≠ padding then decodeGroup c0 c1 c2 c3
  else if c2 ≠ padding then do
    let v0 ← sextet c0
    let v1 ← sextet c1
    let v2 ← sextet c2
    if v2 % 4 = 0 then
      some [UInt8.ofNat (v0 * 4 + v1 / 16), UInt8.ofNat (v1 % 16 * 16 + v2 / 4)]
    else none
  else do
    let v0 ← sextet c0
    let v1 ← sextet c1
    if v1 % 16 = 0 then some [UInt8.ofNat (v0 * 4 + v1 / 16)] else none

/-- The strict decoder of RFC 4648: nothing outside the alphabet, full padding, no stray bits. -/
def decodeStandard : JsString → Option Bytes
  | [] => some []
  | [c0, c1, c2, c3] => decodeLast c0 c1 c2 c3
  | c0 :: c1 :: c2 :: c3 :: rest => do
    let group ← decodeGroup c0 c1 c2 c3
    let bytes ← decodeStandard rest
    return group ++ bytes
  | _ => none

/-! ### The loop of the encoder -/

/-- One turn of the loop: `b1` and `b2` are `undefined` past the end. -/
def encodeTurn (b0 : ℕ) (b1 b2 : Option ℕ) : JsString :=
  [charAt (b0 >>> 2),
    charAt (((b0 &&& 0x03) <<< 4) ||| match b1 with
      | none => 0
      | some b1 => b1 >>> 4),
    match b1 with
      | none => padding
      | some b1 => charAt (((b1 &&& 0x0f) <<< 2) ||| match b2 with
        | none => 0
        | some b2 => b2 >>> 6),
    match b2 with
      | none => padding
      | some b2 => charAt (b2 &&& 0x3f)]

/-- `for (let i = 0; i < bytes.length; i += 3)`. -/
def encodeFrom (bytes : Bytes) (i : ℕ) : JsString :=
  if h : i < bytes.length then
    encodeTurn bytes[i].toNat (bytes[i + 1]?.map UInt8.toNat) (bytes[i + 2]?.map UInt8.toNat) ++
      encodeFrom bytes (i + 3)
  else []
termination_by bytes.length - i

section Loop
variable {x y : ℕ}

theorem or_low (hy : y < 16) : ((x &&& 0x03) <<< 4) ||| y = x % 4 * 16 + y := by
  rw [show (0x03 : ℕ) = 2 ^ 2 - 1 from rfl, Nat.and_two_pow_sub_one_eq_mod,
    ← Nat.shiftLeft_add_eq_or_of_lt (show y < 2 ^ 4 from hy), Nat.shiftLeft_eq]

theorem or_middle (hy : y < 4) : ((x &&& 0x0f) <<< 2) ||| y = x % 16 * 4 + y := by
  rw [show (0x0f : ℕ) = 2 ^ 4 - 1 from rfl, Nat.and_two_pow_sub_one_eq_mod,
    ← Nat.shiftLeft_add_eq_or_of_lt (show y < 2 ^ 2 from hy), Nat.shiftLeft_eq]

theorem and_high : x &&& 0x3f = x % 64 := Nat.and_two_pow_sub_one_eq_mod x 6

theorem encodeTurn_one (b0 : UInt8) :
    encodeTurn b0.toNat none none = bytesToBase64 [b0] := by
  simp only [encodeTurn, bytesToBase64, or_low (show 0 < 16 by decide), Nat.shiftRight_eq_div_pow,
    Nat.add_zero]

theorem encodeTurn_two (b0 b1 : UInt8) :
    encodeTurn b0.toNat (some b1.toNat) none = bytesToBase64 [b0, b1] := by
  have h1 := b1.toNat_lt
  simp only [encodeTurn, bytesToBase64, Nat.shiftRight_eq_div_pow,
    or_low (show b1.toNat / 2 ^ 4 < 16 by omega), or_middle (show 0 < 4 by decide), Nat.add_zero]
  rfl

theorem encodeTurn_three (b0 b1 b2 : UInt8) (rest : Bytes) :
    encodeTurn b0.toNat (some b1.toNat) (some b2.toNat) ++ bytesToBase64 rest =
      bytesToBase64 (b0 :: b1 :: b2 :: rest) := by
  have h1 := b1.toNat_lt
  have h2 := b2.toNat_lt
  simp only [encodeTurn, bytesToBase64, Nat.shiftRight_eq_div_pow, and_high,
    or_low (show b1.toNat / 2 ^ 4 < 16 by omega), or_middle (show b2.toNat / 2 ^ 6 < 4 by omega)]
  rfl

end Loop

theorem encodeFrom_eq (bytes : Bytes) (i : ℕ) :
    encodeFrom bytes i = bytesToBase64 (bytes.drop i) := by
  fun_induction encodeFrom bytes i with
  | case1 i h ih =>
    have h1 : bytes[i + 1]? = (bytes.drop i)[1]? := by rw [List.getElem?_drop]
    have h2 : bytes[i + 2]? = (bytes.drop i)[2]? := by rw [List.getElem?_drop]
    have hrest : bytes.drop (i + 3) = (bytes.drop i).drop 3 := by rw [List.drop_drop]
    have hdrop := List.drop_eq_getElem_cons h
    rw [ih, h1, h2, hrest]
    generalize bytes[i] = b0 at hdrop ⊢
    rw [hdrop]
    rcases bytes.drop (i + 1) with _ | ⟨b1, _ | ⟨b2, rest⟩⟩
    · exact encodeTurn_one b0
    · exact encodeTurn_two b0 b1
    · exact encodeTurn_three b0 b1 b2 rest
  | case2 i h => rw [List.drop_eq_nil_of_le (Nat.le_of_not_lt h), bytesToBase64]

/-! ### The encoder writes the standard encoding -/

theorem foldl_value (v : ℕ) (group : List Bool) :
    group.foldl (fun v bit => 2 * v + bit.toNat) v = v * 2 ^ group.length + value group := by
  induction group generalizing v with
  | nil => simp [value]
  | cons bit group ih =>
    rw [value, List.foldl_cons, List.foldl_cons, ih, ih, List.length_cons]
    ring

theorem value_append (l m : List Bool) : value (l ++ m) = value l * 2 ^ m.length + value m := by
  rw [value, List.foldl_append, foldl_value, ← value]

/-- The parts of a byte that fall into different groups. -/
theorem value_bits (b : UInt8) :
    value ((bits b).take 6) = b.toNat / 4 ∧ value ((bits b).drop 6) = b.toNat % 4 ∧
    value ((bits b).take 4) = b.toNat / 16 ∧ value ((bits b).drop 4) = b.toNat % 16 ∧
    value ((bits b).take 2) = b.toNat / 64 ∧ value ((bits b).drop 2) = b.toNat % 64 := by
  have h : ∀ n : Fin 256, let bits := [7, 6, 5, 4, 3, 2, 1, 0].map n.val.testBit
      value (bits.take 6) = n / 4 ∧ value (bits.drop 6) = n % 4 ∧
      value (bits.take 4) = n / 16 ∧ value (bits.drop 4) = n % 16 ∧
      value (bits.take 2) = n / 64 ∧ value (bits.drop 2) = n % 64 := by decide +kernel
  exact h ⟨b.toNat, b.toNat_lt⟩

theorem sextets_one (b0 : UInt8) :
    sextets (bits b0) = [b0.toNat / 4, b0.toNat % 4 * 16] := by
  obtain ⟨h6, h6', -⟩ := value_bits b0
  have hlow : value ((bits b0).drop 6 ++ List.replicate 4 false) = b0.toNat % 4 * 16 := by
    rw [value_append, h6']
    rfl
  rw [← h6, ← hlow]
  rfl

theorem sextets_two (b0 b1 : UInt8) : sextets (bits b0 ++ bits b1) =
    [b0.toNat / 4, b0.toNat % 4 * 16 + b1.toNat / 16, b1.toNat % 16 * 4] := by
  obtain ⟨h6, h6', -⟩ := value_bits b0
  obtain ⟨-, -, h4, h4', -⟩ := value_bits b1
  have hmiddle : value ((bits b0).drop 6 ++ (bits b1).take 4) =
      b0.toNat % 4 * 16 + b1.toNat / 16 := by
    rw [value_append, h6', h4]
    rfl
  have hlow : value ((bits b1).drop 4 ++ List.replicate 2 false) = b1.toNat % 16 * 4 := by
    rw [value_append, h4']
    rfl
  rw [← h6, ← hmiddle, ← hlow]
  rfl

theorem sextets_three (b0 b1 b2 : UInt8) (rest : List Bool) :
    sextets (bits b0 ++ (bits b1 ++ (bits b2 ++ rest))) =
      b0.toNat / 4 :: (b0.toNat % 4 * 16 + b1.toNat / 16) ::
        (b1.toNat % 16 * 4 + b2.toNat / 64) :: b2.toNat % 64 :: sextets rest := by
  obtain ⟨h6, h6', -⟩ := value_bits b0
  obtain ⟨-, -, h4, h4', -⟩ := value_bits b1
  obtain ⟨-, -, -, -, h2, h2'⟩ := value_bits b2
  have hmiddle : value ((bits b0).drop 6 ++ (bits b1).take 4) =
      b0.toNat % 4 * 16 + b1.toNat / 16 := by
    rw [value_append, h6', h4]
    rfl
  have hmiddle' : value ((bits b1).drop 4 ++ (bits b2).take 2) =
      b1.toNat % 16 * 4 + b2.toNat / 64 := by
    rw [value_append, h4', h2]
    rfl
  rw [← h6, ← hmiddle, ← hmiddle', ← h2']
  rfl

theorem digits_three (b0 b1 b2 : UInt8) (rest : Bytes) : digits (b0 :: b1 :: b2 :: rest) =
    charAt (b0.toNat / 4) :: charAt (b0.toNat % 4 * 16 + b1.toNat / 16) ::
      charAt (b1.toNat % 16 * 4 + b2.toNat / 64) :: charAt (b2.toNat % 64) :: digits rest := by
  rw [digits, List.flatMap_cons, List.flatMap_cons, List.flatMap_cons, sextets_three]
  rfl

theorem bytesToBase64_standard (b : Bytes) : bytesToBase64 b = standard b := by
  induction b using bytesToBase64.induct with
  | case1 => rfl
  | case2 b0 =>
    have hdigits : digits [b0] = [charAt (b0.toNat / 4), charAt (b0.toNat % 4 * 16)] := by
      rw [digits, List.flatMap_singleton, sextets_one]
      rfl
    rw [standard, hdigits]
    rfl
  | case3 b0 b1 =>
    have hdigits : digits [b0, b1] = [charAt (b0.toNat / 4),
        charAt (b0.toNat % 4 * 16 + b1.toNat / 16), charAt (b1.toNat % 16 * 4)] := by
      rw [digits, List.flatMap_cons, List.flatMap_singleton, sextets_two]
      rfl
    rw [standard, hdigits]
    rfl
  | case4 b0 b1 b2 rest ih =>
    rw [bytesToBase64, ih, standard, standard, digits_three]
    simp only [List.length_cons, List.cons_append, Nat.add_assoc, Nat.reduceAdd, Nat.add_mod_right]

/-! ### The strict decoder -/

theorem sextet_charAt {v : ℕ} (hv : v < 64) : sextet (charAt v) = some v := by
  have h : ∀ v : Fin 64, sextet (charAt v) = some v.val := by decide +kernel
  exact h ⟨v, hv⟩

theorem charAt_of_sextet {c : UInt16} {v : ℕ} (h : sextet c = some v) : c = charAt v ∧ v < 64 := by
  unfold sextet at h
  split at h
  · rename_i hc
    cases h
    have hlt := List.idxOf_lt_length_of_mem hc
    refine ⟨?_, hlt⟩
    rw [charAt, List.getD_eq_getElem?_getD, List.getElem?_eq_getElem hlt, List.getElem_idxOf]
    rfl
  · cases h

/-- A group of four digits and its three bytes. -/
theorem decodeGroup_eq_some {c0 c1 c2 c3 : UInt16} {b : Bytes} :
    decodeGroup c0 c1 c2 c3 = some b ↔ ∃ b0 b1 b2 : UInt8, b = [b0, b1, b2] ∧
      c0 = charAt (b0.toNat / 4) ∧ c1 = charAt (b0.toNat % 4 * 16 + b1.toNat / 16) ∧
      c2 = charAt (b1.toNat % 16 * 4 + b2.toNat / 64) ∧ c3 = charAt (b2.toNat % 64) := by
  constructor
  · intro h
    simp only [decodeGroup, Option.bind_eq_bind, Option.bind_eq_some_iff, Option.pure_def,
      Option.some.injEq] at h
    obtain ⟨v0, h0, v1, h1, v2, h2, v3, h3, rfl⟩ := h
    obtain ⟨rfl, hv0⟩ := charAt_of_sextet h0
    obtain ⟨rfl, hv1⟩ := charAt_of_sextet h1
    obtain ⟨rfl, hv2⟩ := charAt_of_sextet h2
    obtain ⟨rfl, hv3⟩ := charAt_of_sextet h3
    refine ⟨_, _, _, rfl, ?_, ?_, ?_, ?_⟩ <;> congr 1 <;>
      simp only [UInt8.toNat_ofNat', Nat.reducePow] <;> omega
  · rintro ⟨b0, b1, b2, rfl, rfl, rfl, rfl, rfl⟩
    have h0 := b0.toNat_lt
    have h1 := b1.toNat_lt
    have h2 := b2.toNat_lt
    have e0 : b0.toNat / 4 * 4 + (b0.toNat % 4 * 16 + b1.toNat / 16) / 16 = b0.toNat := by omega
    have e1 : (b0.toNat % 4 * 16 + b1.toNat / 16) % 16 * 16 +
        (b1.toNat % 16 * 4 + b2.toNat / 64) / 4 = b1.toNat := by omega
    have e2 : (b1.toNat % 16 * 4 + b2.toNat / 64) % 4 * 64 + b2.toNat % 64 = b2.toNat := by omega
    rw [decodeGroup, sextet_charAt (by omega), sextet_charAt (by omega), sextet_charAt (by omega),
      sextet_charAt (by omega)]
    simp only [Option.bind_eq_bind, Option.bind_some, e0, e1, e2, UInt8.ofNat_toNat]
    rfl

theorem decodeLast_two {c0 c1 : UInt16} {b : Bytes} :
    decodeLast c0 c1 padding padding = some b ↔
      ∃ b0 : UInt8, b = [b0] ∧ c0 = charAt (b0.toNat / 4) ∧ c1 = charAt (b0.toNat % 4 * 16) := by
  simp only [decodeLast, ne_eq, not_true_eq_false, if_false, Option.bind_eq_bind,
    Option.bind_eq_some_iff]
  constructor
  · rintro ⟨v0, h0, v1, h1, h⟩
    obtain ⟨rfl, hv0⟩ := charAt_of_sextet h0
    obtain ⟨rfl, hv1⟩ := charAt_of_sextet h1
    split at h
    · cases h
      refine ⟨_, rfl, ?_, ?_⟩ <;> congr 1 <;> simp only [UInt8.toNat_ofNat', Nat.reducePow] <;> omega
    · cases h
  · rintro ⟨b0, rfl, rfl, rfl⟩
    have h0 := b0.toNat_lt
    have e0 : b0.toNat / 4 * 4 + b0.toNat % 4 * 16 / 16 = b0.toNat := by omega
    refine ⟨_, sextet_charAt (by omega), _, sextet_charAt (by omega), ?_⟩
    rw [if_pos (by omega), e0, UInt8.ofNat_toNat]

theorem decodeLast_three {c0 c1 c2 : UInt16} {b : Bytes} (hc2 : c2 ≠ padding) :
    decodeLast c0 c1 c2 padding = some b ↔ ∃ b0 b1 : UInt8, b = [b0, b1] ∧
      c0 = charAt (b0.toNat / 4) ∧ c1 = charAt (b0.toNat % 4 * 16 + b1.toNat / 16) ∧
      c2 = charAt (b1.toNat % 16 * 4) := by
  simp only [decodeLast, ne_eq, not_true_eq_false, if_false, hc2, not_false_eq_true, if_true,
    Option.bind_eq_bind, Option.bind_eq_some_iff]
  constructor
  · rintro ⟨v0, h0, v1, h1, v2, h2, h⟩
    obtain ⟨rfl, hv0⟩ := charAt_of_sextet h0
    obtain ⟨rfl, hv1⟩ := charAt_of_sextet h1
    obtain ⟨rfl, hv2⟩ := charAt_of_sextet h2
    split at h
    · cases h
      refine ⟨_, _, rfl, ?_, ?_, ?_⟩ <;> congr 1 <;> simp only [UInt8.toNat_ofNat', Nat.reducePow] <;>
        omega
    · cases h
  · rintro ⟨b0, b1, rfl, rfl, rfl, rfl⟩
    have h0 := b0.toNat_lt
    have h1 := b1.toNat_lt
    have e0 : b0.toNat / 4 * 4 + (b0.toNat % 4 * 16 + b1.toNat / 16) / 16 = b0.toNat := by omega
    have e1 : (b0.toNat % 4 * 16 + b1.toNat / 16) % 16 * 16 + b1.toNat % 16 * 4 / 4 = b1.toNat := by
      omega
    refine ⟨_, sextet_charAt (by omega), _, sextet_charAt (by omega), _, sextet_charAt (by omega), ?_⟩
    rw [if_pos (by omega), e0, e1, UInt8.ofNat_toNat, UInt8.ofNat_toNat]

/-- The bytes of four characters: one, two or three. -/
theorem bytesToBase64_eq_four {c0 c1 c2 c3 : UInt16} {b : Bytes} :
    bytesToBase64 b = [c0, c1, c2, c3] ↔
      (∃ b0 : UInt8, b = [b0] ∧ c0 = charAt (b0.toNat / 4) ∧ c1 = charAt (b0.toNat % 4 * 16) ∧
        c2 = padding ∧ c3 = padding) ∨
      (∃ b0 b1 : UInt8, b = [b0, b1] ∧ c0 = charAt (b0.toNat / 4) ∧
        c1 = charAt (b0.toNat % 4 * 16 + b1.toNat / 16) ∧ c2 = charAt (b1.toNat % 16 * 4) ∧
        c3 = padding) ∨
      ∃ b0 b1 b2 : UInt8, b = [b0, b1, b2] ∧ c0 = charAt (b0.toNat / 4) ∧
        c1 = charAt (b0.toNat % 4 * 16 + b1.toNat / 16) ∧
        c2 = charAt (b1.toNat % 16 * 4 + b2.toNat / 64) ∧ c3 = charAt (b2.toNat % 64) := by
  constructor
  · intro h
    rcases b with _ | ⟨b0, _ | ⟨b1, _ | ⟨b2, _ | ⟨b3, rest⟩⟩⟩⟩
    · cases h
    · simp only [bytesToBase64, List.cons.injEq] at h
      exact .inl ⟨b0, rfl, h.1.symm, h.2.1.symm, h.2.2.1.symm, h.2.2.2.1.symm⟩
    · simp only [bytesToBase64, List.cons.injEq] at h
      exact .inr (.inl ⟨b0, b1, rfl, h.1.symm, h.2.1.symm, h.2.2.1.symm, h.2.2.2.1.symm⟩)
    · simp only [bytesToBase64, List.cons.injEq] at h
      exact .inr (.inr ⟨b0, b1, b2, rfl, h.1.symm, h.2.1.symm, h.2.2.1.symm, h.2.2.2.1.symm⟩)
    · have hlength := congrArg List.length h
      have hrest : 0 < (bytesToBase64 (b3 :: rest)).length := by
        rcases rest with _ | ⟨b4, _ | ⟨b5, rest⟩⟩ <;> simp [bytesToBase64]
      rw [bytesToBase64] at hlength
      simp only [List.length_cons, List.length_nil] at hlength
      omega
  · rintro (⟨b0, rfl, rfl, rfl, rfl, rfl⟩ | ⟨b0, b1, rfl, rfl, rfl, rfl, rfl⟩ |
      ⟨b0, b1, b2, rfl, rfl, rfl, rfl, rfl⟩) <;> rfl

/-- The padding of the last group tells how many bytes it has. -/
theorem decodeLast_eq_some {c0 c1 c2 c3 : UInt16} {b : Bytes} :
    decodeLast c0 c1 c2 c3 = some b ↔ bytesToBase64 b = [c0, c1, c2, c3] := by
  have hdigit {v : ℕ} (hv : v < 64) : charAt v ≠ padding := charAt_ne_padding hv
  rw [bytesToBase64_eq_four]
  by_cases h3 : c3 = padding
  · subst h3
    have hthree : ¬∃ b0 b1 b2 : UInt8, b = [b0, b1, b2] ∧ c0 = charAt (b0.toNat / 4) ∧
        c1 = charAt (b0.toNat % 4 * 16 + b1.toNat / 16) ∧
        c2 = charAt (b1.toNat % 16 * 4 + b2.toNat / 64) ∧ padding = charAt (b2.toNat % 64) := by
      rintro ⟨b0, b1, b2, -, -, -, -, h⟩
      exact hdigit (Nat.mod_lt _ (by decide)) h.symm
    rw [or_iff_left hthree]
    by_cases h2 : c2 = padding
    · subst h2
      rw [decodeLast_two]
      constructor
      · rintro ⟨b0, rfl, rfl, rfl⟩
        exact .inl ⟨b0, rfl, rfl, rfl, rfl, rfl⟩
      · rintro (⟨b0, rfl, rfl, rfl, -, -⟩ | ⟨b0, b1, -, -, -, h, -⟩)
        · exact ⟨b0, rfl, rfl, rfl⟩
        · exact absurd h.symm (hdigit (by omega))
    · rw [decodeLast_three h2]
      constructor
      · rintro ⟨b0, b1, rfl, rfl, rfl, rfl⟩
        exact .inr ⟨b0, b1, rfl, rfl, rfl, rfl, rfl⟩
      · rintro (⟨b0, -, -, -, h, -⟩ | ⟨b0, b1, rfl, rfl, rfl, rfl, -⟩)
        · exact absurd h h2
        · exact ⟨b0, b1, rfl, rfl, rfl, rfl⟩
  · rw [decodeLast, if_pos h3, decodeGroup_eq_some]
    constructor
    · exact fun h => .inr (.inr h)
    · rintro (⟨b0, -, -, -, -, h⟩ | ⟨b0, b1, -, -, -, -, h⟩ | h)
      · exact absurd h h3
      · exact absurd h h3
      · exact h

theorem bytesToBase64_length (b : Bytes) : (bytesToBase64 b).length % 4 = 0 := by
  induction b using bytesToBase64.induct with
  | case1 | case2 | case3 => simp [bytesToBase64]
  | case4 b0 b1 b2 rest ih =>
    simp only [bytesToBase64, List.length_cons]
    omega

/-- The strict decoder accepts the encoding of the bytes, and no other text for them. -/
theorem decodeStandard_eq_some {s : JsString} {b : Bytes} :
    decodeStandard s = some b ↔ bytesToBase64 b = s := by
  induction s using decodeStandard.induct generalizing b with
  | case1 =>
    rw [decodeStandard, Option.some.injEq]
    constructor
    · rintro rfl
      rfl
    · intro h
      rcases b with _ | ⟨b0, _ | ⟨b1, _ | ⟨b2, bytes⟩⟩⟩
      · rfl
      all_goals cases h
  | case2 c0 c1 c2 c3 => exact decodeLast_eq_some
  | case3 c0 c1 c2 c3 rest hrest ih =>
    rw [decodeStandard]
    · simp only [Option.bind_eq_bind, Option.bind_eq_some_iff, Option.pure_def, Option.some.injEq]
      constructor
      · rintro ⟨group, hgroup, bytes, hbytes, rfl⟩
        obtain ⟨b0, b1, b2, rfl, rfl, rfl, rfl, rfl⟩ := decodeGroup_eq_some.mp hgroup
        rw [← ih.mp hbytes]
        rfl
      · intro h
        rcases b with _ | ⟨b0, _ | ⟨b1, _ | ⟨b2, bytes⟩⟩⟩
        · cases h
        · simp only [bytesToBase64, List.cons.injEq] at h
          exact absurd h.2.2.2.2.symm hrest
        · simp only [bytesToBase64, List.cons.injEq] at h
          exact absurd h.2.2.2.2.symm hrest
        · simp only [bytesToBase64, List.cons.injEq] at h
          obtain ⟨h0, h1, h2, h3, h⟩ := h
          exact ⟨_, decodeGroup_eq_some.mpr ⟨b0, b1, b2, rfl, h0.symm, h1.symm, h2.symm, h3.symm⟩,
            bytes, ih.mpr h, rfl⟩
    · exact hrest
  | case4 s hnil hlast hmore =>
    have hlength : s.length % 4 ≠ 0 := by
      rcases s with _ | ⟨c0, _ | ⟨c1, _ | ⟨c2, _ | ⟨c3, rest⟩⟩⟩⟩
      · exact absurd rfl hnil
      · simp
      · simp
      · simp
      · exact absurd rfl (hmore c0 c1 c2 c3 rest)
    constructor
    · intro h
      rw [decodeStandard] at h
      · cases h
      · exact hnil
      · exact hlast
      · exact hmore
    · rintro rfl
      exact absurd (bytesToBase64_length b) hlength

end Epistl.Base64
