import Mathlib.Data.List.Basic
import Mathlib.Tactic.Common

/-! # The query syntax of FTS5

A query is cut into tokens, where a string is a bare word or stands in double quotes with
every double quote in it doubled. A phrase is a string or several joined by `+`, and what
else there is are `^`, `*`, `NEAR`, column filters, parentheses and the operators `AND`, `OR`
and `NOT`, of which `AND` may be left out. Strings joined by `AND` have no other reading than
their conjunction. The query is a C string: it ends at U+0000, and a string in quotes that is
open there is an error. The characters are code units of UTF-16.
-/
namespace Epistl.Fts5

inductive Token
  | string (text : List UInt16)
  | and | or | not
  | lp | rp | lcp | rcp
  | colon | comma | plus | star | minus | caret
  deriving Repr, DecidableEq

/-! ### Tokens -/

def isBlank (c : UInt16) : Bool := c = 0x20 || c = 0x09 || c = 0x0a || c = 0x0d

/-- A letter, a digit, `_`, the substitute character or anything that is not ASCII. -/
def isBareword (c : UInt16) : Bool :=
  (0x41 ≤ c && c ≤ 0x5a) || (0x61 ≤ c && c ≤ 0x7a) || (0x30 ≤ c && c ≤ 0x39) || c = 0x5f ||
    c = 0x1a || 0x80 ≤ c

/-- What follows the opening quote: the text and what is left after the closing quote, which
has to come before U+0000. -/
def readString : List UInt16 → Option (List UInt16 × List UInt16)
  | [] => none
  | [c] => if c = 0x22 then some ([], []) else none
  | c :: d :: rest =>
    if c = 0 then none
    else if c ≠ 0x22 then (readString (d :: rest)).map fun r => (c :: r.1, r.2)
    else if d = 0x22 then (readString rest).map fun r => (0x22 :: r.1, r.2)
    else some ([], d :: rest)

def punctuation (c : UInt16) : Option Token :=
  if c = 0x28 then some .lp
  else if c = 0x29 then some .rp
  else if c = 0x7b then some .lcp
  else if c = 0x7d then some .rcp
  else if c = 0x3a then some .colon
  else if c = 0x2c then some .comma
  else if c = 0x2b then some .plus
  else if c = 0x2a then some .star
  else if c = 0x2d then some .minus
  else if c = 0x5e then some .caret
  else none

/-- A bare word, or one of the operators. -/
def bareword (word : List UInt16) : Token :=
  if word = [0x41, 0x4e, 0x44] then .and
  else if word = [0x4f, 0x52] then .or
  else if word = [0x4e, 0x4f, 0x54] then .not
  else .string word

theorem readString_length : ∀ {s text rest : List UInt16}, readString s = some (text, rest) →
    rest.length < s.length
  | [], _, _, h => by cases h
  | [c], _, _, h => by
    rw [readString] at h
    split at h
    · cases h
      exact Nat.zero_lt_one
    · cases h
  | c :: d :: s, text, rest, h => by
    rw [readString] at h
    split at h
    · cases h
    · split at h
      · obtain ⟨r, hr, heq⟩ := Option.map_eq_some_iff.mp h
        cases heq
        exact Nat.lt_succ_of_lt (readString_length hr)
      · split at h
        · obtain ⟨r, hr, heq⟩ := Option.map_eq_some_iff.mp h
          cases heq
          exact Nat.lt_succ_of_lt (Nat.lt_succ_of_lt (readString_length hr))
        · cases h
          exact Nat.lt_succ_self _

/-- The tokens of a query; `none` where a string is not closed or a character has no place. -/
def tokens : List UInt16 → Option (List Token)
  | [] => some []
  | c :: s =>
    if c = 0 then some []
    else if isBlank c then tokens s
    else if c = 0x22 then
      match _h : readString s with
      | none => none
      | some (text, rest) => (tokens rest).map (.string text :: ·)
    else
      match punctuation c with
      | some t => (tokens s).map (t :: ·)
      | none =>
        if isBareword c then
          (tokens (s.dropWhile isBareword)).map (bareword (c :: s.takeWhile isBareword) :: ·)
        else none
termination_by s => s.length
decreasing_by
  · exact Nat.lt_succ_self _
  · exact Nat.lt_succ_of_lt (readString_length _h)
  · exact Nat.lt_succ_self _
  · exact Nat.lt_succ_of_le (List.dropWhile_suffix _).length_le

/-- The text of a string in quotes. -/
def escape (text : List UInt16) : List UInt16 :=
  text.flatMap fun c => if c = 0x22 then [0x22, 0x22] else [c]

def quoted (text : List UInt16) : List UInt16 := 0x22 :: escape text ++ [0x22]

theorem escape_cons_of_ne {c : UInt16} {text : List UInt16} (hc : c ≠ 0x22) :
    escape (c :: text) = c :: escape text := by
  simp [escape, hc]

/-- A string in quotes ends at its closing quote. -/
theorem readString_escape {text : List UInt16} (htext : 0 ∉ text) {rest : List UInt16}
    (hrest : rest.head? ≠ some 0x22) :
    readString (escape text ++ 0x22 :: rest) = some (text, rest) := by
  induction text with
  | nil =>
    cases rest with
    | nil => rfl
    | cons d rest =>
      have hd : d ≠ 0x22 := by simpa using hrest
      simp [escape, readString, hd]
  | cons c text ih =>
    have hzero : c ≠ 0 := by
      rintro rfl
      exact htext List.mem_cons_self
    have ih := ih fun h => htext (List.mem_cons_of_mem c h)
    by_cases hc : c = 0x22
    · subst hc
      show readString (0x22 :: 0x22 :: (escape text ++ 0x22 :: rest)) = _
      rw [readString, if_neg (by decide), if_neg (by simp), if_pos rfl, ih]
      rfl
    · obtain ⟨d, tail, htail⟩ : ∃ d tail, escape text ++ 0x22 :: rest = d :: tail :=
        List.exists_cons_of_ne_nil (by simp)
      rw [escape_cons_of_ne hc, List.cons_append, htail, readString, if_neg hzero,
        if_pos hc, ← htail, ih]
      rfl

/-- A string in quotes with U+0000 in it does not end. -/
theorem readString_escape_none {text : List UInt16} (htext : 0 ∈ text) (rest : List UInt16) :
    readString (escape text ++ 0x22 :: rest) = none := by
  induction text with
  | nil => cases htext
  | cons c text ih =>
    by_cases hc : c = 0x22
    · subst hc
      have ih := ih ((List.mem_cons.mp htext).resolve_left (by decide))
      show readString (0x22 :: 0x22 :: (escape text ++ 0x22 :: rest)) = _
      rw [readString, if_neg (by decide), if_neg (by simp), if_pos rfl, ih]
      rfl
    · obtain ⟨d, tail, htail⟩ : ∃ d tail, escape text ++ 0x22 :: rest = d :: tail :=
        List.exists_cons_of_ne_nil (by simp)
      rw [escape_cons_of_ne hc, List.cons_append, htail, readString]
      split
      · rfl
      · rename_i hzero
        have ih := ih ((List.mem_cons.mp htext).resolve_left (Ne.symm hzero))
        rw [← htail, ih]
        rfl

/-- What a string in quotes contributes to the tokens. -/
theorem tokens_quote (s : List UInt16) : tokens (0x22 :: s) =
    (readString s).bind fun r => (tokens r.2).map (.string r.1 :: ·) := by
  rw [tokens, if_neg (by decide), if_neg (by decide), if_pos rfl]
  split
  · rename_i hnone
    rw [hnone]
    rfl
  · rename_i text rest hsome
    rw [hsome]
    rfl

theorem quoted_append (text rest : List UInt16) :
    quoted text ++ rest = 0x22 :: (escape text ++ 0x22 :: rest) := by
  rw [quoted, List.append_assoc, List.singleton_append, List.cons_append]

theorem tokens_quoted {text : List UInt16} (htext : 0 ∉ text) {rest : List UInt16}
    (hrest : rest.head? ≠ some 0x22) :
    tokens (quoted text ++ rest) = (tokens rest).map (.string text :: ·) := by
  rw [quoted_append, tokens_quote, readString_escape htext hrest]
  rfl

theorem tokens_quoted_none {text : List UInt16} (htext : 0 ∈ text) (rest : List UInt16) :
    tokens (quoted text ++ rest) = none := by
  rw [quoted_append, tokens_quote, readString_escape_none htext]
  rfl

/-- ` AND ` before a string in quotes. -/
theorem tokens_and (rest : List UInt16) :
    tokens ([0x20, 0x41, 0x4e, 0x44, 0x20] ++ rest) = (tokens rest).map (.and :: ·) := by
  have hblank (s : List UInt16) : tokens (0x20 :: s) = tokens s := by
    rw [tokens, if_neg (by decide), if_pos (by decide)]
  simp only [List.cons_append, List.nil_append]
  rw [hblank, tokens, if_neg (by decide), if_neg (by decide), if_neg (by decide)]
  simp [punctuation, isBareword, bareword, hblank]

/-! ### The grammar -/

/-- The strings of a phrase, each with whether a `*` follows it. -/
abbrev Phrase := List (List UInt16 × Bool)

/-- The columns of a filter, with whether a `-` precedes them. -/
abbrev Columns := Bool × List (List UInt16)

inductive Query
  /-- a phrase, with whether a `^` precedes it -/
  | phrase (initial : Bool) (phrase : Phrase)
  | near (phrases : List Phrase) (distance : Option (List UInt16))
  | filter (columns : Columns) (query : Query)
  | and (left right : Query)
  | or (left right : Query)
  | not (left right : Query)

inductive PhraseOf : List Token → Phrase → Prop
  | string (text : List UInt16) : PhraseOf [.string text] [(text, false)]
  | star (text : List UInt16) : PhraseOf [.string text, .star] [(text, true)]
  | plus {l m : List Token} {p q : Phrase} : PhraseOf l p → PhraseOf m q →
      PhraseOf (l ++ .plus :: m) (p ++ q)

inductive PhrasesOf : List Token → List Phrase → Prop
  | one {l : List Token} {p : Phrase} : PhraseOf l p → PhrasesOf l [p]
  | cons {l m : List Token} {p : Phrase} {ps : List Phrase} : PhraseOf l p → PhrasesOf m ps →
      PhrasesOf (l ++ m) (p :: ps)

/-- The name `NEAR`. -/
def nearName : List UInt16 := [0x4e, 0x45, 0x41, 0x52]

/-- A phrase or a group of phrases. -/
inductive MatchOf : List Token → Query → Prop
  | phrase {l : List Token} {p : Phrase} : PhraseOf l p → MatchOf l (.phrase false p)
  | initial {l : List Token} {p : Phrase} : PhraseOf l p → MatchOf (.caret :: l) (.phrase true p)
  | near {l : List Token} {ps : List Phrase} : PhrasesOf l ps →
      MatchOf (.string nearName :: .lp :: (l ++ [.rp])) (.near ps none)
  | distance {l : List Token} {ps : List Phrase} (n : List UInt16) : PhrasesOf l ps →
      MatchOf (.string nearName :: .lp :: (l ++ [.comma, .string n, .rp])) (.near ps (some n))

inductive ColumnsOf : List Token → Columns → Prop
  | name (column : List UInt16) : ColumnsOf [.string column] (false, [column])
  | names (columns : List (List UInt16)) :
      ColumnsOf (.lcp :: (columns.map .string ++ [.rcp])) (false, columns)
  | minus {l : List Token} {columns : List (List UInt16)} : ColumnsOf l (false, columns) →
      ColumnsOf (.minus :: l) (true, columns)

inductive QueryOf : List Token → Query → Prop
  | single {l : List Token} {q : Query} : MatchOf l q → QueryOf l q
  | group {l : List Token} {q : Query} : QueryOf l q → QueryOf (.lp :: (l ++ [.rp])) q
  | filterMatch {l m : List Token} {columns : Columns} {q : Query} : ColumnsOf l columns →
      MatchOf m q → QueryOf (l ++ .colon :: m) (.filter columns q)
  | filterGroup {l m : List Token} {columns : Columns} {q : Query} : ColumnsOf l columns →
      QueryOf m q → QueryOf (l ++ .colon :: .lp :: (m ++ [.rp])) (.filter columns q)
  | and {l m : List Token} {p q : Query} : QueryOf l p → QueryOf m q →
      QueryOf (l ++ .and :: m) (.and p q)
  | or {l m : List Token} {p q : Query} : QueryOf l p → QueryOf m q →
      QueryOf (l ++ .or :: m) (.or p q)
  | not {l m : List Token} {p q : Query} : QueryOf l p → QueryOf m q →
      QueryOf (l ++ .not :: m) (.not p q)
  /-- `AND` is left out -/
  | next {l m : List Token} {p q : Query} : QueryOf l p → QueryOf m q → QueryOf (l ++ m) (.and p q)

/-- The strings whose conjunction a query is. -/
def Query.literals : Query → Option (List (List UInt16))
  | .phrase false [(text, false)] => some [text]
  | .and p q => do return (← p.literals) ++ (← q.literals)
  | _ => none

/-- The text is a query, and under every reading it asks for exactly these strings together. -/
def IsConjunction (text : List UInt16) (strings : List (List UInt16)) : Prop :=
  ∃ ts, tokens text = some ts ∧ (∃ q, QueryOf ts q) ∧
    ∀ q, QueryOf ts q → q.literals = some strings

/-! ### Strings joined by `AND` -/

def conjunction : List (List UInt16) → List Token
  | [] => []
  | [text] => [.string text]
  | text :: texts => .string text :: .and :: conjunction texts

section Conjunction
variable {l m : List Token} {texts : List (List UInt16)} {text : List UInt16}

theorem conjunction_cons (h : texts ≠ []) :
    conjunction (text :: texts) = .string text :: .and :: conjunction texts := by
  cases texts with
  | nil => exact absurd rfl h
  | cons _ _ => rfl

theorem conjunction_eq_nil : conjunction texts = [] ↔ texts = [] := by
  cases texts with
  | nil => simp [conjunction]
  | cons text texts => cases texts <;> simp [conjunction]

theorem mem_conjunction {t : Token} (h : t ∈ conjunction texts) :
    t = .and ∨ ∃ text, t = .string text := by
  induction texts with
  | nil => cases h
  | cons text texts ih =>
    by_cases hnil : texts = []
    · subst hnil
      exact .inr ⟨text, List.mem_singleton.mp h⟩
    · rw [conjunction_cons hnil] at h
      rcases List.mem_cons.mp h with rfl | h
      · exact .inr ⟨text, rfl⟩
      · rcases List.mem_cons.mp h with rfl | h
        · exact .inl rfl
        · exact ih h

/-- Of two tokens side by side one is `AND`. -/
theorem conjunction_split {s t : Token} (h : conjunction texts = l ++ s :: t :: m) :
    s = .and ∨ t = .and := by
  induction texts generalizing l with
  | nil => simp [conjunction] at h
  | cons text texts ih =>
    by_cases hnil : texts = []
    · subst hnil
      have hlength := congrArg List.length h
      rw [conjunction, List.length_singleton, List.length_append, List.length_cons,
        List.length_cons] at hlength
      omega
    · rw [conjunction_cons hnil] at h
      rcases l with _ | ⟨x, _ | ⟨y, l⟩⟩
      · simp only [List.nil_append, List.cons.injEq] at h
        exact .inr h.2.1.symm
      · simp only [List.cons_append, List.nil_append, List.cons.injEq] at h
        exact .inl h.2.1.symm
      · simp only [List.cons_append, List.cons.injEq] at h
        exact ih h.2.2

theorem conjunction_ne_and : conjunction texts ≠ .and :: m := by
  rcases texts with _ | ⟨text, _ | ⟨text', texts⟩⟩ <;> simp [conjunction]

/-- What stands on the two sides of an `AND`. -/
theorem conjunction_and (h : conjunction texts = l ++ .and :: m) (hl : l ≠ []) :
    ∃ left right, texts = left ++ right ∧ l = conjunction left ∧ m = conjunction right := by
  induction texts generalizing l with
  | nil => simp [conjunction] at h
  | cons text texts ih =>
    by_cases hnil : texts = []
    · subst hnil
      obtain ⟨x, l, rfl⟩ := List.exists_cons_of_ne_nil hl
      have hlength := congrArg List.length h
      simp [conjunction] at hlength
    · rw [conjunction_cons hnil] at h
      rcases l with _ | ⟨x, _ | ⟨y, l⟩⟩
      · exact absurd rfl hl
      · simp only [List.cons_append, List.nil_append, List.cons.injEq] at h
        obtain ⟨rfl, -, rfl⟩ := h
        exact ⟨[text], texts, rfl, rfl, rfl⟩
      · simp only [List.cons_append, List.cons.injEq] at h
        obtain ⟨rfl, rfl, h⟩ := h
        have hl' : l ≠ [] := by
          rintro rfl
          exact conjunction_ne_and h
        obtain ⟨left, right, rfl, rfl, rfl⟩ := ih h hl'
        have hleft : left ≠ [] := fun hnil => hl' (conjunction_eq_nil.mpr hnil)
        exact ⟨text :: left, right, rfl, (conjunction_cons hleft).symm, rfl⟩

/-- Only strings and `AND` are left of a phrase: it is one string. -/
theorem PhraseOf.literal {p : Phrase} (h : PhraseOf l p) (hl : l = conjunction texts) :
    ∃ text, texts = [text] ∧ p = [(text, false)] := by
  have hmem {t : Token} (ht : t ∈ l) : t = .and ∨ ∃ text, t = .string text :=
    mem_conjunction (hl ▸ ht)
  cases h with
  | string text =>
    rcases texts with _ | ⟨text', _ | ⟨text'', texts⟩⟩
    · cases hl
    · cases hl
      exact ⟨text, rfl, rfl⟩
    · cases hl
  | star text => simpa using hmem (t := .star) (by simp)
  | plus _ _ => simpa using hmem (t := .plus) (by simp)

theorem MatchOf.literal {q : Query} (h : MatchOf l q) (hl : l = conjunction texts) :
    q.literals = some texts := by
  have hmem {t : Token} (ht : t ∈ l) : t = .and ∨ ∃ text, t = .string text :=
    mem_conjunction (hl ▸ ht)
  cases h with
  | phrase hp =>
    obtain ⟨text, rfl, rfl⟩ := hp.literal hl
    rfl
  | initial _ => simpa using hmem (t := .caret) (by simp)
  | near _ => simpa using hmem (t := .lp) (by simp)
  | distance _ _ => simpa using hmem (t := .lp) (by simp)

/-! ### No query starts or ends with `AND` -/

def Starts (l : List Token) : Prop := ∃ t m, l = t :: m ∧ t ≠ .and

def Ends (l : List Token) : Prop := ∃ m t, l = m ++ [t] ∧ t ≠ .and

theorem Starts.append (h : Starts l) (m : List Token) : Starts (l ++ m) := by
  obtain ⟨t, l, rfl, ht⟩ := h
  exact ⟨t, l ++ m, rfl, ht⟩

theorem Ends.append (h : Ends m) (l : List Token) : Ends (l ++ m) := by
  obtain ⟨m, t, rfl, ht⟩ := h
  exact ⟨l ++ m, t, (List.append_assoc _ _ _).symm, ht⟩

theorem PhraseOf.starts {p : Phrase} (h : PhraseOf l p) : Starts l := by
  induction h with
  | string text => exact ⟨.string text, [], rfl, by simp⟩
  | star text => exact ⟨.string text, [.star], rfl, by simp⟩
  | plus _ _ ihp _ => exact ihp.append _

theorem PhraseOf.ends {p : Phrase} (h : PhraseOf l p) : Ends l := by
  induction h with
  | string text => exact ⟨[], .string text, rfl, by simp⟩
  | star text => exact ⟨[.string text], .star, rfl, by simp⟩
  | plus _ _ _ ihq => exact (ihq.append [.plus]).append _

theorem MatchOf.starts {q : Query} (h : MatchOf l q) : Starts l := by
  cases h with
  | phrase hp => exact hp.starts
  | initial _ => exact ⟨.caret, _, rfl, by simp⟩
  | near _ => exact ⟨.string nearName, _, rfl, by simp⟩
  | distance _ _ => exact ⟨.string nearName, _, rfl, by simp⟩

theorem MatchOf.ends {q : Query} (h : MatchOf l q) : Ends l := by
  cases h with
  | phrase hp => exact hp.ends
  | initial hp => exact hp.ends.append [.caret]
  | near _ => exact ⟨.string nearName :: .lp :: _, .rp, rfl, by simp⟩
  | @distance l _ n _ =>
    exact ⟨.string nearName :: .lp :: (l ++ [.comma, .string n]), .rp, by simp, by simp⟩

theorem ColumnsOf.starts {columns : Columns} (h : ColumnsOf l columns) : Starts l := by
  cases h with
  | name column => exact ⟨.string column, _, rfl, by simp⟩
  | names columns => exact ⟨.lcp, _, rfl, by simp⟩
  | minus _ => exact ⟨.minus, _, rfl, by simp⟩

theorem QueryOf.starts {q : Query} (h : QueryOf l q) : Starts l := by
  induction h with
  | single hq => exact hq.starts
  | group _ _ => exact ⟨.lp, _, rfl, by simp⟩
  | filterMatch hcolumns _ => exact hcolumns.starts.append _
  | filterGroup hcolumns _ _ => exact hcolumns.starts.append _
  | and _ _ ihp _ | or _ _ ihp _ | not _ _ ihp _ | next _ _ ihp _ => exact ihp.append _

theorem QueryOf.ends {q : Query} (h : QueryOf l q) : Ends l := by
  induction h with
  | single hq => exact hq.ends
  | group _ _ => exact ⟨.lp :: _, .rp, rfl, by simp⟩
  | filterMatch _ hq => exact (hq.ends.append [.colon]).append _
  | @filterGroup l m _ _ _ _ _ => exact ⟨l ++ .colon :: .lp :: m, .rp, by simp, by simp⟩
  | and _ _ _ ihq => exact (ihq.append [.and]).append _
  | or _ _ _ ihq => exact (ihq.append [.or]).append _
  | not _ _ _ ihq => exact (ihq.append [.not]).append _
  | next _ _ _ ihq => exact ihq.append _

/-- Every reading of strings joined by `AND` is their conjunction. -/
theorem QueryOf.literal {q : Query} (h : QueryOf l q) (hl : l = conjunction texts) :
    q.literals = some texts := by
  have hmem {t : Token} (ht : t ∈ l) : t = .and ∨ ∃ text, t = .string text :=
    mem_conjunction (hl ▸ ht)
  induction h generalizing texts with
  | single hq => exact hq.literal hl
  | group _ _ => simpa using hmem (t := .lp) (by simp)
  | filterMatch _ _ | filterGroup _ _ _ => simpa using hmem (t := .colon) (by simp)
  | or _ _ _ _ => simpa using hmem (t := .or) (by simp)
  | not _ _ _ _ => simpa using hmem (t := .not) (by simp)
  | and hp _ ihp ihq =>
    obtain ⟨t, l, rfl, -⟩ := hp.starts
    obtain ⟨left, right, rfl, hleft, hright⟩ := conjunction_and hl.symm (List.cons_ne_nil t l)
    have hp' := ihp hleft fun ht => hmem (List.mem_append_left _ ht)
    have hq' := ihq hright fun ht => hmem (List.mem_append_right _ (List.mem_cons_of_mem _ ht))
    simp [Query.literals, hp', hq']
  | next hp hq _ _ =>
    obtain ⟨l, s, rfl, hs⟩ := hp.ends
    obtain ⟨t, m, rfl, ht⟩ := hq.starts
    rw [List.append_assoc] at hl
    rcases conjunction_split hl.symm with h | h
    · exact absurd h hs
    · exact absurd h ht

theorem exists_queryOf (h : texts ≠ []) : ∃ q, QueryOf (conjunction texts) q := by
  induction texts with
  | nil => exact absurd rfl h
  | cons text texts ih =>
    have hone : QueryOf [.string text] (.phrase false [(text, false)]) :=
      .single (.phrase (.string text))
    by_cases hnil : texts = []
    · subst hnil
      exact ⟨_, hone⟩
    · obtain ⟨q, hq⟩ := ih hnil
      rw [conjunction_cons hnil]
      exact ⟨_, .and hone hq⟩

/-- A text of strings in quotes with ` AND ` between them. -/
theorem tokens_join : ∀ texts : List (List UInt16), (∀ text ∈ texts, 0 ∉ text) →
    tokens ([0x20, 0x41, 0x4e, 0x44, 0x20].intercalate (texts.map quoted)) =
      some (conjunction texts)
  | [], _ => by rw [List.map_nil, List.intercalate_nil, tokens, conjunction]
  | [text], htexts => by
    have htext : 0 ∉ text := htexts text List.mem_cons_self
    have h : tokens (quoted text ++ []) = _ := tokens_quoted htext (by simp)
    rw [List.append_nil, tokens] at h
    simpa [conjunction] using h
  | text :: next :: texts, htexts => by
    obtain ⟨htext, htexts⟩ := List.forall_mem_cons.mp htexts
    have ih := tokens_join (next :: texts) htexts
    rw [List.map_cons, List.map_cons, List.intercalate_cons_cons, List.append_assoc,
      tokens_quoted htext (by simp), tokens_and, ← List.map_cons, ih]
    rfl

/-- A string with U+0000 in it spoils the text it is joined into. -/
theorem tokens_join_none : ∀ texts : List (List UInt16), (∃ text ∈ texts, 0 ∈ text) →
    tokens ([0x20, 0x41, 0x4e, 0x44, 0x20].intercalate (texts.map quoted)) = none
  | [], h => by simp at h
  | [text], h => by
    have htext : 0 ∈ text := by simpa using h
    have hnone := tokens_quoted_none htext []
    rw [List.append_nil] at hnone
    simpa using hnone
  | text :: next :: texts, h => by
    rw [List.map_cons, List.map_cons, List.intercalate_cons_cons, List.append_assoc]
    by_cases htext : 0 ∈ text
    · exact tokens_quoted_none htext _
    · have ih := tokens_join_none (next :: texts) (by simpa [htext] using h)
      rw [tokens_quoted htext (by simp), tokens_and, ← List.map_cons, ih]
      rfl

/-- The joined text is the conjunction of its strings exactly if none has U+0000 in it. -/
theorem isConjunction_join (h : texts ≠ []) :
    IsConjunction ([0x20, 0x41, 0x4e, 0x44, 0x20].intercalate (texts.map quoted)) texts ↔
      ∀ text ∈ texts, 0 ∉ text := by
  constructor
  · rintro ⟨ts, hts, -⟩ text htext hzero
    rw [tokens_join_none texts ⟨text, htext, hzero⟩] at hts
    cases hts
  · intro htexts
    exact ⟨conjunction texts, tokens_join texts htexts, exists_queryOf h, fun _ hq => hq.literal rfl⟩

end Conjunction

end Epistl.Fts5
