import Epistl.Text.JsString

/-! # `JSON.stringify` and `JSON.parse`

The texts are strings of UTF-16 code units. A lone surrogate is written as an escape, a
surrogate pair as it stands. Of the numbers only the natural ones are read and written,
which are all that is stored. What was written is read back.
-/
namespace Epistl.Js

inductive Value
  | null
  | bool (b : Bool)
  | number (n : ℕ)
  | string (text : JsString)
  | array (items : List Value)
  | object (members : List (JsString × Value))

/-- A property of what `JSON.parse` returned: of two members with one name it has the last. -/
def Value.get : Value → JsString → Option Value
  | object members, key => (members.reverse.find? fun m => m.1 = key).map Prod.snd
  | _, _ => none

def hexDigit (n : ℕ) : UInt16 := if n < 10 then UInt16.ofNat (0x30 + n) else UInt16.ofNat (0x57 + n)

def hexValue (c : UInt16) : Option ℕ :=
  if 0x30 ≤ c ∧ c ≤ 0x39 then some (c.toNat - 0x30)
  else if 0x61 ≤ c ∧ c ≤ 0x66 then some (c.toNat - 0x57)
  else if 0x41 ≤ c ∧ c ≤ 0x46 then some (c.toNat - 0x37)
  else none

/-- `\uXXXX`. -/
def unicodeEscape (c : UInt16) : JsString :=
  [0x5c, 0x75, hexDigit (c.toNat / 4096), hexDigit (c.toNat / 256 % 16),
    hexDigit (c.toNat / 16 % 16), hexDigit (c.toNat % 16)]

/-- The escapes of one letter, with what they stand for. -/
def shortEscapes : List (UInt16 × UInt16) :=
  [(0x62, 0x08), (0x74, 0x09), (0x6e, 0x0a), (0x66, 0x0c), (0x72, 0x0d), (0x22, 0x22),
    (0x5c, 0x5c)]

/-- One code unit that is not part of a surrogate pair. -/
def quoteUnit (c : UInt16) : JsString :=
  match shortEscapes.find? fun e => e.2 = c with
  | some e => [0x5c, e.1]
  | none =>
    if c < 0x20 || JsString.isHighSurrogate c || JsString.isLowSurrogate c then unicodeEscape c
    else [c]

def quoteUnits : JsString → JsString
  | [] => []
  | [c] => quoteUnit c
  | c :: low :: rest =>
    if JsString.isHighSurrogate c && JsString.isLowSurrogate low then
      c :: low :: quoteUnits rest
    else quoteUnit c ++ quoteUnits (low :: rest)

def quote (s : JsString) : JsString := 0x22 :: quoteUnits s ++ [0x22]

/-- The decimal digits. -/
def decimal (n : ℕ) : JsString :=
  if n < 10 then [UInt16.ofNat (0x30 + n)] else decimal (n / 10) ++ [UInt16.ofNat (0x30 + n % 10)]

mutual

def stringify : Value → JsString
  | .null => JsString.ofString "null"
  | .bool true => JsString.ofString "true"
  | .bool false => JsString.ofString "false"
  | .number n => decimal n
  | .string text => quote text
  | .array items => 0x5b :: stringifyItems items ++ [0x5d]
  | .object members => 0x7b :: stringifyMembers members ++ [0x7d]

def stringifyItems : List Value → JsString
  | [] => []
  | [v] => stringify v
  | v :: w :: vs => stringify v ++ 0x2c :: stringifyItems (w :: vs)

def stringifyMembers : List (JsString × Value) → JsString
  | [] => []
  | [(k, v)] => quote k ++ 0x3a :: stringify v
  | (k, v) :: m :: ms => quote k ++ 0x3a :: stringify v ++ 0x2c :: stringifyMembers (m :: ms)

end

def isSpace (c : UInt16) : Bool := c = 0x20 || c = 0x09 || c = 0x0a || c = 0x0d

def isDigit (c : UInt16) : Bool := 0x30 ≤ c && c ≤ 0x39

/-- Up to the closing quote. -/
def parseUnits : JsString → Option (JsString × JsString)
  | [] => none
  | c :: s =>
    if c = 0x22 then some ([], s)
    else if c = 0x5c then
      match s with
      | 0x75 :: a :: b :: c :: d :: s =>
        (hexValue a).bind fun a => (hexValue b).bind fun b => (hexValue c).bind fun c =>
          (hexValue d).bind fun d => (parseUnits s).map fun p =>
            (UInt16.ofNat (a * 4096 + b * 256 + c * 16 + d) :: p.1, p.2)
      | e :: s =>
        if e = 0x2f then (parseUnits s).map fun p => (e :: p.1, p.2)
        else match shortEscapes.find? fun x => x.1 = e with
          | some x => (parseUnits s).map fun p => (x.2 :: p.1, p.2)
          | none => none
      | [] => none
    else if c < 0x20 then none
    else (parseUnits s).map fun p => (c :: p.1, p.2)

/-- The number that digits write; a zero stands alone. -/
def parseDigits (digits : JsString) : Option ℕ :=
  if digits.head? = some 0x30 ∧ digits.length ≠ 1 then none
  else some (digits.foldl (fun n c => n * 10 + (c.toNat - 0x30)) 0)

mutual

def parseValue : ℕ → JsString → Option (Value × JsString)
  | 0, _ => none
  | n + 1, s =>
    match s.dropWhile isSpace with
    | [] => none
    | c :: s =>
      if c = 0x22 then (parseUnits s).map fun p => (.string p.1, p.2)
      else if c = 0x5b then
        if (s.dropWhile isSpace).head? = some 0x5d then some (.array [], (s.dropWhile isSpace).tail)
        else (parseItems n s).map fun p => (.array p.1, p.2)
      else if c = 0x7b then
        if (s.dropWhile isSpace).head? = some 0x7d then some (.object [], (s.dropWhile isSpace).tail)
        else (parseMembers n s).map fun p => (.object p.1, p.2)
      else if isDigit c then
        (parseDigits (c :: s.takeWhile isDigit)).map fun n => (.number n, s.dropWhile isDigit)
      else if JsString.ofString "null" <+: c :: s then some (.null, (c :: s).drop 4)
      else if JsString.ofString "true" <+: c :: s then some (.bool true, (c :: s).drop 4)
      else if JsString.ofString "false" <+: c :: s then some (.bool false, (c :: s).drop 5)
      else none

def parseItems : ℕ → JsString → Option (List Value × JsString)
  | 0, _ => none
  | n + 1, s =>
    (parseValue n s).bind fun p =>
      match p.2.dropWhile isSpace with
      | [] => none
      | c :: s =>
        if c = 0x2c then (parseItems n s).map fun q => (p.1 :: q.1, q.2)
        else if c = 0x5d then some ([p.1], s)
        else none

def parseMembers : ℕ → JsString → Option (List (JsString × Value) × JsString)
  | 0, _ => none
  | n + 1, s =>
    if (s.dropWhile isSpace).head? = some 0x22 then
      (parseUnits (s.dropWhile isSpace).tail).bind fun k =>
        if (k.2.dropWhile isSpace).head? = some 0x3a then
          (parseValue n (k.2.dropWhile isSpace).tail).bind fun p =>
            match p.2.dropWhile isSpace with
            | [] => none
            | c :: s =>
              if c = 0x2c then (parseMembers n s).map fun q => ((k.1, p.1) :: q.1, q.2)
              else if c = 0x7d then some ([(k.1, p.1)], s)
              else none
        else none
    else none

end

/-- `JSON.parse`; `none` when it throws. -/
def parse (s : JsString) : Option Value :=
  (parseValue (s.length + 1) s).bind fun p =>
    if p.2.dropWhile isSpace = [] then some p.1 else none

theorem hexValue_hexDigit {n : ℕ} (hn : n < 16) : hexValue (hexDigit n) = some n := by
  have h : ∀ n : Fin 16, hexValue (hexDigit n) = some n.val := by decide
  exact h ⟨n, hn⟩

theorem parseUnits_unicodeEscape (c : UInt16) (t : JsString) :
    parseUnits (unicodeEscape c ++ t) = (parseUnits t).map fun p => (c :: p.1, p.2) := by
  have hc := c.toNat_lt
  have hsum : c.toNat / 4096 * 4096 + c.toNat / 256 % 16 * 256 + c.toNat / 16 % 16 * 16 +
      c.toNat % 16 = c.toNat := by omega
  have hquote : ¬(0x5c : UInt16) = 0x22 := by decide
  simp only [unicodeEscape, List.cons_append, List.nil_append, parseUnits, if_neg hquote, if_true,
    hexValue_hexDigit (show c.toNat / 4096 < 16 by omega),
    hexValue_hexDigit (show c.toNat / 256 % 16 < 16 by omega),
    hexValue_hexDigit (show c.toNat / 16 % 16 < 16 by omega),
    hexValue_hexDigit (show c.toNat % 16 < 16 by omega), Option.bind_some, hsum, UInt16.ofNat_toNat]

/-- A code unit that stands for itself in a string. -/
theorem parseUnits_cons {c : UInt16} (hquote : c ≠ 0x22) (hescape : c ≠ 0x5c) (hc : ¬c < 0x20)
    (t : JsString) : parseUnits (c :: t) = (parseUnits t).map fun p => (c :: p.1, p.2) := by
  rw [parseUnits.eq_def]
  simp only [if_neg hquote, if_neg hescape, if_neg hc]

theorem parseUnits_shortEscape {e : UInt16 × UInt16} (he : e ∈ shortEscapes) (t : JsString) :
    parseUnits (0x5c :: e.1 :: t) = (parseUnits t).map fun p => (e.2 :: p.1, p.2) := by
  have hquote : ¬(0x5c : UInt16) = 0x22 := by decide
  simp only [shortEscapes, List.mem_cons, List.not_mem_nil, or_false] at he
  rcases he with rfl | rfl | rfl | rfl | rfl | rfl | rfl <;>
    simp [parseUnits, shortEscapes]

theorem parseUnits_quoteUnit (c : UInt16) (t : JsString) :
    parseUnits (quoteUnit c ++ t) = (parseUnits t).map fun p => (c :: p.1, p.2) := by
  unfold quoteUnit
  split
  · rename_i e he
    have hc : e.2 = c := by simpa using List.find?_some he
    rw [← hc]
    exact parseUnits_shortEscape (List.mem_of_find?_eq_some he) t
  · rename_i hnone
    split
    · exact parseUnits_unicodeEscape c t
    · rename_i hplain
      simp only [Bool.or_eq_true, decide_eq_true_eq, not_or] at hplain
      have hshort := List.find?_eq_none.mp hnone
      apply parseUnits_cons _ _ hplain.1.1
      · rintro rfl
        exact absurd (hshort (0x22, 0x22) (by decide)) (by decide)
      · rintro rfl
        exact absurd (hshort (0x5c, 0x5c) (by decide)) (by decide)

/-- Half of a surrogate pair stands for itself. -/
theorem parseUnits_surrogate {c : UInt16}
    (hc : JsString.isHighSurrogate c = true ∨ JsString.isLowSurrogate c = true) (t : JsString) :
    parseUnits (c :: t) = (parseUnits t).map fun p => (c :: p.1, p.2) := by
  have hge : 0xd800 ≤ c.toNat := by
    simp only [JsString.isHighSurrogate, JsString.isLowSurrogate, Bool.and_eq_true,
      decide_eq_true_eq, UInt16.le_iff_toNat_le] at hc
    have h1 : (0xd800 : UInt16).toNat = 0xd800 := rfl
    have h2 : (0xdc00 : UInt16).toNat = 0xdc00 := rfl
    omega
  apply parseUnits_cons
  · rintro rfl
    exact absurd hge (by decide)
  · rintro rfl
    exact absurd hge (by decide)
  · rw [UInt16.lt_iff_toNat_lt]
    have h : (0x20 : UInt16).toNat = 0x20 := rfl
    omega

theorem parseUnits_close (t : JsString) : parseUnits (0x22 :: t) = some ([], t) := by
  rw [parseUnits.eq_def]
  rfl

theorem parseUnits_quoteUnits (s rest : JsString) :
    parseUnits (quoteUnits s ++ 0x22 :: rest) = some (s, rest) := by
  induction s using quoteUnits.induct with
  | case1 => exact parseUnits_close rest
  | case2 c =>
    rw [quoteUnits, parseUnits_quoteUnit, parseUnits_close]
    rfl
  | case3 c low tail hpair ih =>
    obtain ⟨hhigh, hlow⟩ := Bool.and_eq_true_iff.mp hpair
    rw [quoteUnits, if_pos hpair, List.cons_append, List.cons_append,
      parseUnits_surrogate (Or.inl hhigh), parseUnits_surrogate (Or.inr hlow), ih]
    rfl
  | case4 c low tail hpair ih =>
    rw [quoteUnits, if_neg hpair, List.append_assoc, parseUnits_quoteUnit, ih]
    rfl

/-- A digit, and the value the parser gives it. -/
theorem digit {d : ℕ} (hd : d < 10) : isDigit (UInt16.ofNat (0x30 + d)) = true ∧
    (UInt16.ofNat (0x30 + d)).toNat - 0x30 = d ∧ (UInt16.ofNat (0x30 + d) = 0x30 ↔ d = 0) := by
  have h : ∀ d : Fin 10, isDigit (UInt16.ofNat (0x30 + d)) = true ∧
      (UInt16.ofNat (0x30 + d)).toNat - 0x30 = d.val ∧
      (UInt16.ofNat (0x30 + d) = 0x30 ↔ d.val = 0) := by decide
  exact h ⟨d, hd⟩

theorem isDigit_decimal (n : ℕ) : ∀ c ∈ decimal n, isDigit c = true := by
  induction n using decimal.induct with
  | case1 n hn =>
    rw [decimal, if_pos hn]
    simpa using (digit hn).1
  | case2 n hn ih =>
    rw [decimal, if_neg hn]
    intro c hc
    rcases List.mem_append.mp hc with hc | hc
    · exact ih c hc
    · rw [List.mem_singleton.mp hc]
      exact (digit (by omega)).1

theorem decimal_ne_nil (n : ℕ) : decimal n ≠ [] := by
  rw [decimal]
  split <;> simp

/-- Only the zero starts with a zero. -/
theorem head?_decimal {n : ℕ} (hn : n ≠ 0) : (decimal n).head? ≠ some 0x30 := by
  induction n using decimal.induct with
  | case1 n hlt =>
    rw [decimal, if_pos hlt]
    simpa using (digit hlt).2.2.not.mpr hn
  | case2 n hlt ih =>
    rw [decimal, if_neg hlt, List.head?_append_of_ne_nil _ (decimal_ne_nil _)]
    exact ih (by omega)

theorem foldl_decimal (n : ℕ) :
    (decimal n).foldl (fun n c => n * 10 + (c.toNat - 0x30)) 0 = n := by
  induction n using decimal.induct with
  | case1 n hn =>
    rw [decimal, if_pos hn]
    simpa using (digit hn).2.1
  | case2 n hn ih =>
    rw [decimal, if_neg hn, List.foldl_append, ih]
    simp only [List.foldl_cons, List.foldl_nil, (digit (show n % 10 < 10 by omega)).2.1]
    omega

theorem parseDigits_decimal (n : ℕ) : parseDigits (decimal n) = some n := by
  rw [parseDigits, foldl_decimal, if_neg]
  rintro ⟨hhead, hlength⟩
  by_cases hn : n = 0
  · subst hn
    exact hlength (by rw [decimal]; rfl)
  · exact head?_decimal hn hhead

mutual

/-- How deep the parser goes for a value. -/
def need : Value → ℕ
  | .array items => needItems items + 1
  | .object members => needMembers members + 1
  | _ => 1

def needItems : List Value → ℕ
  | [] => 0
  | v :: vs => max (need v) (needItems vs) + 1

def needMembers : List (JsString × Value) → ℕ
  | [] => 0
  | (_, v) :: ms => max (need v) (needMembers ms) + 1

end

theorem isSpace_of_isDigit {c : UInt16} (hc : isDigit c = true) : isSpace c = false := by
  simp only [isSpace, Bool.or_eq_false_iff, decide_eq_false_iff_not]
  refine ⟨⟨⟨?_, ?_⟩, ?_⟩, ?_⟩ <;> rintro rfl <;> exact absurd hc (by decide)

theorem dropWhile_isSpace {c : UInt16} (hc : isSpace c = false) (t : JsString) :
    (c :: t).dropWhile isSpace = c :: t :=
  List.dropWhile_cons_of_neg (by rw [hc]; exact Bool.false_ne_true)

/-- What a value starts with. -/
theorem stringify_head (v : Value) :
    ∃ c t, stringify v = c :: t ∧ isSpace c = false ∧ c ≠ 0x5d := by
  cases v with
  | null => exact ⟨_, _, rfl, by decide, by decide⟩
  | bool b => cases b <;> exact ⟨_, _, rfl, by decide, by decide⟩
  | number n =>
    obtain ⟨c, t, hdecimal⟩ := List.exists_cons_of_ne_nil (decimal_ne_nil n)
    have hdigit := isDigit_decimal n c (by rw [hdecimal]; exact List.mem_cons_self)
    refine ⟨c, t, hdecimal, isSpace_of_isDigit hdigit, ?_⟩
    rintro rfl
    exact absurd hdigit (by decide)
  | string text => exact ⟨_, _, rfl, by decide, by decide⟩
  | array items => exact ⟨_, _, rfl, by decide, by decide⟩
  | object members => exact ⟨_, _, rfl, by decide, by decide⟩

/-- What follows does not go on with a number. -/
def Ends (rest : JsString) : Prop := ∀ c ∈ rest.head?, isDigit c = false

theorem parseValue_null (n : ℕ) (rest : JsString) :
    parseValue (n + 1) (JsString.ofString "null" ++ rest) = some (.null, rest) := by
  have htext : JsString.ofString "null" = [0x6e, 0x75, 0x6c, 0x6c] := by decide
  simp [parseValue, htext, dropWhile_isSpace (show isSpace 0x6e = false by decide),
    show isDigit 0x6e = false by decide]

theorem parseValue_bool (b : Bool) (n : ℕ) (rest : JsString) :
    parseValue (n + 1) (stringify (.bool b) ++ rest) = some (.bool b, rest) := by
  have hnull : JsString.ofString "null" = [0x6e, 0x75, 0x6c, 0x6c] := by decide
  have htrue : JsString.ofString "true" = [0x74, 0x72, 0x75, 0x65] := by decide
  have hfalse : JsString.ofString "false" = [0x66, 0x61, 0x6c, 0x73, 0x65] := by decide
  cases b
  · simp [parseValue, stringify, hnull, htrue, hfalse,
      dropWhile_isSpace (show isSpace 0x66 = false by decide), show isDigit 0x66 = false by decide]
  · simp [parseValue, stringify, hnull, htrue,
      dropWhile_isSpace (show isSpace 0x74 = false by decide), show isDigit 0x74 = false by decide]

theorem parseValue_number (k n : ℕ) {rest : JsString} (hrest : Ends rest) :
    parseValue (n + 1) (decimal k ++ rest) = some (.number k, rest) := by
  have hdigits := isDigit_decimal k
  have hparse := parseDigits_decimal k
  obtain ⟨c, t, hdecimal⟩ := List.exists_cons_of_ne_nil (decimal_ne_nil k)
  rw [hdecimal] at hdigits hparse ⊢
  have hc := hdigits c List.mem_cons_self
  have hne {d : UInt16} (hd : isDigit d = false) : c ≠ d := by
    rintro rfl
    rw [hc] at hd
    cases hd
  have htake : (t ++ rest).takeWhile isDigit = t := by
    rw [List.takeWhile_append_of_pos fun d hd => hdigits d (List.mem_cons_of_mem c hd)]
    cases rest with
    | nil => simp
    | cons d rest => simp [hrest d rfl]
  have hdrop : (t ++ rest).dropWhile isDigit = rest := by
    rw [List.dropWhile_append_of_pos fun d hd => hdigits d (List.mem_cons_of_mem c hd)]
    cases rest with
    | nil => rfl
    | cons d rest => simp [hrest d rfl]
  rw [parseValue, List.cons_append, dropWhile_isSpace (isSpace_of_isDigit hc)]
  simp only [if_neg (hne (show isDigit 0x22 = false by decide)),
    if_neg (hne (show isDigit 0x5b = false by decide)),
    if_neg (hne (show isDigit 0x7b = false by decide)), if_pos hc, htake, hdrop, hparse,
    Option.map_some]

theorem parseValue_string (text : JsString) (n : ℕ) (rest : JsString) :
    parseValue (n + 1) (quote text ++ rest) = some (.string text, rest) := by
  rw [parseValue, quote, List.cons_append, List.cons_append, List.append_assoc,
    dropWhile_isSpace (by decide)]
  simp only [if_true, List.singleton_append, parseUnits_quoteUnits, Option.map_some]

theorem parseValue_array {vs : List Value} {n : ℕ} {rest : JsString} (hne : vs ≠ [])
    (h : parseItems n (stringifyItems vs ++ 0x5d :: rest) = some (vs, rest)) :
    parseValue (n + 1) (stringify (.array vs) ++ rest) = some (.array vs, rest) := by
  obtain ⟨v, vs, rfl⟩ := List.exists_cons_of_ne_nil hne
  have hhead : ((stringifyItems (v :: vs) ++ 0x5d :: rest).dropWhile isSpace).head? ≠ some 0x5d := by
    obtain ⟨c, t, hv, hspace, hc⟩ := stringify_head v
    have hitems : ∃ u, stringifyItems (v :: vs) = c :: u := by
      cases vs with
      | nil => exact ⟨t, hv⟩
      | cons w vs => exact ⟨_, by rw [stringifyItems, hv]; rfl⟩
    obtain ⟨u, hitems⟩ := hitems
    rw [hitems, List.cons_append, dropWhile_isSpace hspace]
    simpa using hc
  have hbracket : ¬(0x5b : UInt16) = 0x22 := by decide
  rw [parseValue, stringify, List.cons_append, List.cons_append, List.append_assoc,
    dropWhile_isSpace (by decide)]
  simp only [if_neg hbracket, if_true, List.singleton_append, if_neg hhead, h, Option.map_some]

theorem parseValue_object {ms : List (JsString × Value)} {n : ℕ} {rest : JsString} (hne : ms ≠ [])
    (h : parseMembers n (stringifyMembers ms ++ 0x7d :: rest) = some (ms, rest)) :
    parseValue (n + 1) (stringify (.object ms) ++ rest) = some (.object ms, rest) := by
  obtain ⟨⟨k, v⟩, ms, rfl⟩ := List.exists_cons_of_ne_nil hne
  have hhead : ((stringifyMembers ((k, v) :: ms) ++ 0x7d :: rest).dropWhile isSpace).head? ≠
      some 0x7d := by
    have hmembers : ∃ u, stringifyMembers ((k, v) :: ms) = 0x22 :: u := by
      cases ms with
      | nil => exact ⟨_, rfl⟩
      | cons m ms => exact ⟨_, by rw [stringifyMembers, quote]; rfl⟩
    obtain ⟨u, hmembers⟩ := hmembers
    rw [hmembers, List.cons_append, dropWhile_isSpace (by decide), List.head?_cons]
    exact fun h => absurd (Option.some.inj h) (by decide)
  have hbrace : ¬(0x7b : UInt16) = 0x22 := by decide
  have hbracket : ¬(0x7b : UInt16) = 0x5b := by decide
  rw [parseValue, stringify, List.cons_append, List.cons_append, List.append_assoc,
    dropWhile_isSpace (by decide)]
  simp only [if_neg hbrace, if_neg hbracket, if_true, List.singleton_append, if_neg hhead, h,
    Option.map_some]

theorem ends_cons {c : UInt16} (hc : isDigit c = false) (t : JsString) : Ends (c :: t) := by
  rintro d hd
  cases hd
  exact hc

theorem parseItems_last {v : Value} {n : ℕ} {t rest : JsString}
    (h : parseValue n t = some (v, 0x5d :: rest)) : parseItems (n + 1) t = some ([v], rest) := by
  have hcomma : ¬(0x5d : UInt16) = 0x2c := by decide
  rw [parseItems, h, Option.bind_some]
  simp only [dropWhile_isSpace (show isSpace 0x5d = false by decide), if_neg hcomma, if_true]

theorem parseItems_cons {v : Value} {vs : List Value} {n : ℕ} {t u rest : JsString}
    (h : parseValue n t = some (v, 0x2c :: u)) (hvs : parseItems n u = some (vs, rest)) :
    parseItems (n + 1) t = some (v :: vs, rest) := by
  rw [parseItems, h, Option.bind_some]
  simp only [dropWhile_isSpace (show isSpace 0x2c = false by decide), if_true, hvs, Option.map_some]

/-- A member is read up to what follows its value. -/
theorem parseMembers_step (k : JsString) {v : Value} {n : ℕ} {t u : JsString}
    (h : parseValue n t = some (v, u)) :
    parseMembers (n + 1) (quote k ++ 0x3a :: t) =
      match u.dropWhile isSpace with
      | [] => none
      | c :: s =>
        if c = 0x2c then (parseMembers n s).map fun q => ((k, v) :: q.1, q.2)
        else if c = 0x7d then some ([(k, v)], s)
        else none := by
  rw [parseMembers, quote, List.cons_append, List.cons_append, List.append_assoc,
    dropWhile_isSpace (by decide)]
  simp only [List.head?_cons, if_true, List.tail_cons, List.singleton_append, parseUnits_quoteUnits,
    Option.bind_some, dropWhile_isSpace (show isSpace 0x3a = false by decide), h]

theorem parseMembers_last (k : JsString) {v : Value} {n : ℕ} {t rest : JsString}
    (h : parseValue n t = some (v, 0x7d :: rest)) :
    parseMembers (n + 1) (quote k ++ 0x3a :: t) = some ([(k, v)], rest) := by
  have hcomma : ¬(0x7d : UInt16) = 0x2c := by decide
  rw [parseMembers_step k h]
  simp only [dropWhile_isSpace (show isSpace 0x7d = false by decide), if_neg hcomma, if_true]

theorem parseMembers_cons (k : JsString) {v : Value} {ms : List (JsString × Value)} {n : ℕ}
    {t u rest : JsString} (h : parseValue n t = some (v, 0x2c :: u))
    (hms : parseMembers n u = some (ms, rest)) :
    parseMembers (n + 1) (quote k ++ 0x3a :: t) = some ((k, v) :: ms, rest) := by
  rw [parseMembers_step k h]
  simp only [dropWhile_isSpace (show isSpace 0x2c = false by decide), if_true, hms, Option.map_some]

mutual

/-- A value is read back, with what follows it left over. -/
theorem parseValue_stringify : ∀ (v : Value) (n : ℕ) (rest : JsString), need v ≤ n → Ends rest →
    parseValue n (stringify v ++ rest) = some (v, rest)
  | .null, n + 1, rest, _, _ => parseValue_null n rest
  | .bool b, n + 1, rest, _, _ => parseValue_bool b n rest
  | .number k, n + 1, _, _, hrest => parseValue_number k n hrest
  | .string text, n + 1, rest, _, _ => parseValue_string text n rest
  | .array [], n + 1, rest, _, _ => by
    simp [parseValue, stringify, stringifyItems, dropWhile_isSpace (show isSpace 0x5b = false by decide),
      dropWhile_isSpace (show isSpace 0x5d = false by decide)]
  | .array (v :: vs), n + 1, rest, hn, _ => by
    apply parseValue_array (List.cons_ne_nil v vs)
    apply parseItems_stringify _ _ _ (List.cons_ne_nil v vs)
    simpa only [need, Nat.add_le_add_iff_right] using hn
  | .object [], n + 1, rest, _, _ => by
    simp [parseValue, stringify, stringifyMembers,
      dropWhile_isSpace (show isSpace 0x7b = false by decide),
      dropWhile_isSpace (show isSpace 0x7d = false by decide)]
  | .object (m :: ms), n + 1, rest, hn, _ => by
    apply parseValue_object (List.cons_ne_nil m ms)
    apply parseMembers_stringify _ _ _ (List.cons_ne_nil m ms)
    simpa only [need, Nat.add_le_add_iff_right] using hn

theorem parseItems_stringify : ∀ (items : List Value) (n : ℕ) (rest : JsString), items ≠ [] →
    needItems items ≤ n → parseItems n (stringifyItems items ++ 0x5d :: rest) = some (items, rest)
  | [v], n + 1, rest, _, hn => by
    rw [needItems, Nat.add_le_add_iff_right, Nat.max_le] at hn
    apply parseItems_last
    exact parseValue_stringify v n _ hn.1 (ends_cons (by decide) _)
  | v :: w :: vs, n + 1, rest, _, hn => by
    rw [needItems, Nat.add_le_add_iff_right, Nat.max_le] at hn
    rw [stringifyItems, List.append_assoc, List.cons_append]
    apply parseItems_cons (parseValue_stringify v n _ hn.1 (ends_cons (by decide) _))
    exact parseItems_stringify (w :: vs) n rest (List.cons_ne_nil w vs) hn.2

theorem parseMembers_stringify : ∀ (members : List (JsString × Value)) (n : ℕ) (rest : JsString),
    members ≠ [] → needMembers members ≤ n →
    parseMembers n (stringifyMembers members ++ 0x7d :: rest) = some (members, rest)
  | [(k, v)], n + 1, rest, _, hn => by
    rw [needMembers, Nat.add_le_add_iff_right, Nat.max_le] at hn
    rw [stringifyMembers, List.append_assoc, List.cons_append]
    apply parseMembers_last
    exact parseValue_stringify v n _ hn.1 (ends_cons (by decide) _)
  | (k, v) :: m :: ms, n + 1, rest, _, hn => by
    rw [needMembers, Nat.add_le_add_iff_right, Nat.max_le] at hn
    rw [stringifyMembers, List.append_assoc, List.append_assoc, List.cons_append, List.cons_append]
    apply parseMembers_cons k (parseValue_stringify v n _ hn.1 (ends_cons (by decide) _))
    exact parseMembers_stringify (m :: ms) n rest (List.cons_ne_nil m ms) hn.2

end

mutual

theorem need_le : ∀ v : Value, need v ≤ (stringify v).length
  | .null | .bool true | .bool false => by decide
  | .number n => List.length_pos_iff.mpr (decimal_ne_nil n)
  | .string text => by
    simp [need, stringify, quote]
  | .array items => by
    have h := needItems_le items
    simp only [need, stringify, List.length_cons, List.length_append, List.length_nil]
    omega
  | .object members => by
    have h := needMembers_le members
    simp only [need, stringify, List.length_cons, List.length_append, List.length_nil]
    omega

theorem needItems_le : ∀ items : List Value, needItems items ≤ (stringifyItems items).length + 1
  | [] => Nat.zero_le _
  | [v] => by
    have hv := need_le v
    simp only [needItems, stringifyItems]
    omega
  | v :: w :: vs => by
    have hv := need_le v
    have hvs := needItems_le (w :: vs)
    rw [needItems, stringifyItems, List.length_append, List.length_cons]
    omega

theorem needMembers_le : ∀ members : List (JsString × Value),
    needMembers members ≤ (stringifyMembers members).length + 1
  | [] => Nat.zero_le _
  | [(k, v)] => by
    have hv := need_le v
    simp only [needMembers, stringifyMembers, List.length_append, List.length_cons]
    omega
  | (k, v) :: m :: ms => by
    have hv := need_le v
    have hms := needMembers_le (m :: ms)
    rw [needMembers, stringifyMembers, List.length_append, List.length_append, List.length_cons,
      List.length_cons]
    omega

end

/-- `JSON.parse` after `JSON.stringify`. -/
theorem parse_stringify (v : Value) : parse (stringify v) = some v := by
  have h := parseValue_stringify v ((stringify v).length + 1) [] (Nat.le_succ_of_le (need_le v))
    (by simp [Ends])
  rw [List.append_nil] at h
  rw [parse, h]
  rfl

end Epistl.Js
