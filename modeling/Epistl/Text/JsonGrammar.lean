import Mathlib.Data.List.Infix
import Mathlib.Tactic.Common

/-! # The grammar of JSON

The texts of RFC 8259, and what a JSON text that was cut off is not. Brackets outside strings are
counted: inside an object, before its end, one of them is open.
-/
namespace Epistl.Text.JsonGrammar

def isSpace (c : Char) : Bool := c = ' ' || c = '\t' || c = '\n' || c = '\r'

def Spaces (s : List Char) : Prop := ∀ c ∈ s, isSpace c = true

def isHex (c : Char) : Bool := c.isDigit || ('a' ≤ c && c ≤ 'f') || ('A' ≤ c && c ≤ 'F')

/-- What stands between the quotes of a string. -/
inductive Characters : List Char → Prop
  | nil : Characters []
  | plain {c : Char} {s : List Char} :
      0x20 ≤ c.toNat → c ≠ '"' → c ≠ '\\' → Characters s → Characters (c :: s)
  | escape {c : Char} {s : List Char} :
      c ∈ ['"', '\\', '/', 'b', 'f', 'n', 'r', 't'] → Characters s → Characters ('\\' :: c :: s)
  | unicode {a b c d : Char} {s : List Char} : isHex a = true → isHex b = true → isHex c = true →
      isHex d = true → Characters s → Characters ('\\' :: 'u' :: a :: b :: c :: d :: s)

def Digits (s : List Char) : Prop := s ≠ [] ∧ ∀ c ∈ s, c.isDigit = true

def IsNumber (s : List Char) : Prop :=
  ∃ minus int frac exp, s = minus ++ int ++ frac ++ exp ∧ (minus = [] ∨ minus = ['-']) ∧
    (Digits int ∧ (int.head? = some '0' → int = ['0'])) ∧
    (frac = [] ∨ ∃ digits, frac = '.' :: digits ∧ Digits digits) ∧
    (exp = [] ∨ ∃ e sign digits, exp = e :: sign ++ digits ∧ (e = 'e' ∨ e = 'E') ∧
      (sign = [] ∨ sign = ['+'] ∨ sign = ['-']) ∧ Digits digits)

inductive Part where
  | value
  | element
  | elements
  | member
  | members

inductive Derives : Part → List Char → Prop
  | nullLiteral : Derives .value "null".toList
  | trueLiteral : Derives .value "true".toList
  | falseLiteral : Derives .value "false".toList
  | number {s : List Char} : IsNumber s → Derives .value s
  | string {s : List Char} : Characters s → Derives .value ('"' :: s ++ ['"'])
  | emptyArray {s : List Char} : Spaces s → Derives .value ('[' :: s ++ [']'])
  | array {s : List Char} : Derives .elements s → Derives .value ('[' :: s ++ [']'])
  | emptyObject {s : List Char} : Spaces s → Derives .value ('\x7b' :: s ++ ['\x7d'])
  | object {s : List Char} : Derives .members s → Derives .value ('\x7b' :: s ++ ['\x7d'])
  | element {a s b : List Char} : Spaces a → Derives .value s → Spaces b → Derives .element (a ++ s ++ b)
  | lastElement {s : List Char} : Derives .element s → Derives .elements s
  | moreElements {s t : List Char} : Derives .element s → Derives .elements t →
      Derives .elements (s ++ ',' :: t)
  | member {a k b s : List Char} : Spaces a → Characters k → Spaces b → Derives .element s →
      Derives .member (a ++ ('"' :: k ++ ['"']) ++ b ++ ':' :: s)
  | lastMember {s : List Char} : Derives .member s → Derives .members s
  | moreMembers {s t : List Char} : Derives .member s → Derives .members t →
      Derives .members (s ++ ',' :: t)

/-- A text that a parser takes for an object. -/
def IsObject (s : List Char) : Prop :=
  ∃ a t b, Spaces a ∧ Spaces b ∧ s = a ++ '\x7b' :: t ++ b ∧ Derives .value ('\x7b' :: t)

inductive Mode where
  | outside
  | inString
  | escaped
  deriving DecidableEq

/-- How many brackets are open after a text, and whether it ends in a string. -/
structure Scan where
  depth : ℕ
  mode : Mode

namespace Scan

def step (s : Scan) (c : Char) : Scan :=
  match s.mode with
  | .outside =>
    if c = '"' then { s with mode := .inString }
    else if c = '[' ∨ c = '\x7b' then { s with depth := s.depth + 1 }
    else if c = ']' ∨ c = '\x7d' then { s with depth := s.depth - 1 }
    else s
  | .inString =>
    if c = '"' then { s with mode := .outside }
    else if c = '\\' then { s with mode := .escaped }
    else s
  | .escaped => { s with mode := .inString }

def scan (s : Scan) (text : List Char) : Scan := text.foldl step s

/-- The least number of open brackets on the way. -/
def lowest (s : Scan) : List Char → ℕ
  | [] => s.depth
  | c :: text => min s.depth (lowest (s.step c) text)

variable {s : Scan} {a b p : List Char} {d : ℕ}

@[simp] theorem scan_nil : s.scan [] = s := rfl

@[simp] theorem scan_cons {c : Char} : s.scan (c :: a) = (s.step c).scan a := rfl

@[simp] theorem scan_append : s.scan (a ++ b) = (s.scan a).scan b := List.foldl_append

theorem lowest_append : s.lowest (a ++ b) = min (s.lowest a) ((s.scan a).lowest b) := by
  induction a generalizing s with
  | nil =>
    cases b with
    | nil => simp [lowest]
    | cons c b => simp [lowest]
  | cons c a ih => simp only [List.cons_append, lowest, ih, scan_cons, Nat.min_assoc]

theorem lowest_le_depth (h : p <+: a) : s.lowest a ≤ (s.scan p).depth := by
  obtain ⟨q, rfl⟩ := h
  rw [lowest_append]
  refine (Nat.min_le_right _ _).trans ?_
  cases q with
  | nil => exact Nat.le_refl _
  | cons c q => exact Nat.min_le_left _ _

end Scan

open Scan

/-- After the text as many brackets are open as before it, and never fewer in it. -/
def Balanced (text : List Char) : Prop :=
  ∀ d, (⟨d, .outside⟩ : Scan).scan text = ⟨d, .outside⟩ ∧ d ≤ (⟨d, .outside⟩ : Scan).lowest text

variable {s t p : List Char} {c : Char}

theorem balanced_nil : Balanced [] := fun d => ⟨rfl, Nat.le_refl d⟩

theorem Balanced.append (hs : Balanced s) (ht : Balanced t) : Balanced (s ++ t) := by
  intro d
  obtain ⟨hscan, hlow⟩ := hs d
  obtain ⟨hscan', hlow'⟩ := ht d
  rw [scan_append, hscan, lowest_append, hscan]
  exact ⟨hscan', Nat.le_min.mpr ⟨hlow, hlow'⟩⟩

/-- A character that is neither a bracket nor a quote. -/
def isPlain (c : Char) : Bool := c ∉ ['"', '[', ']', '\x7b', '\x7d']

theorem balanced_plain (h : ∀ c ∈ s, isPlain c = true) : Balanced s := by
  intro d
  induction s with
  | nil => exact balanced_nil d
  | cons c s ih =>
    have hstep : (⟨d, .outside⟩ : Scan).step c = ⟨d, .outside⟩ := by
      have hc := h c List.mem_cons_self
      simp only [isPlain, List.mem_cons, List.not_mem_nil, or_false, not_or, decide_eq_true_eq] at hc
      simp [step, hc]
    obtain ⟨hscan, hlow⟩ := ih fun c hc => h c (List.mem_cons_of_mem _ hc)
    rw [scan_cons, hstep, lowest, hstep]
    exact ⟨hscan, Nat.le_min.mpr ⟨Nat.le_refl d, hlow⟩⟩

theorem Balanced.bracket (hs : Balanced s) {left right : Char} (hleft : left = '[' ∨ left = '\x7b')
    (hright : right = ']' ∨ right = '\x7d') : Balanced (left :: s ++ [right]) := by
  intro d
  have hopen : (⟨d, .outside⟩ : Scan).step left = ⟨d + 1, .outside⟩ := by
    rcases hleft with rfl | rfl <;> rfl
  have hclose : (⟨d + 1, .outside⟩ : Scan).step right = ⟨d, .outside⟩ := by
    rcases hright with rfl | rfl <;> rfl
  obtain ⟨hscan, hlow⟩ := hs (d + 1)
  rw [List.cons_append, scan_cons, hopen, scan_append, hscan, lowest, hopen, lowest_append, hscan]
  simp only [scan_cons, hclose, scan_nil, lowest]
  exact ⟨trivial, by omega⟩

/-- The text ends in the string in which it starts. -/
def StaysInString (text : List Char) : Prop := ∀ d, (⟨d, .inString⟩ : Scan).scan text = ⟨d, .inString⟩ ∧
  d ≤ (⟨d, .inString⟩ : Scan).lowest text

theorem StaysInString.cons (hs : StaysInString s) (hquote : c ≠ '"') (hescape : c ≠ '\\') :
    StaysInString (c :: s) := by
  intro d
  have hstep : (⟨d, .inString⟩ : Scan).step c = ⟨d, .inString⟩ := by simp [step, hquote, hescape]
  rw [scan_cons, lowest, hstep]
  exact ⟨(hs d).1, Nat.le_min.mpr ⟨Nat.le_refl d, (hs d).2⟩⟩

theorem StaysInString.escape (hs : StaysInString s) : StaysInString ('\\' :: c :: s) := by
  intro d
  have hstep : ((⟨d, .inString⟩ : Scan).step '\\').step c = ⟨d, .inString⟩ := rfl
  rw [scan_cons, scan_cons, lowest, lowest, hstep]
  refine ⟨(hs d).1, Nat.le_min.mpr ⟨Nat.le_refl d, Nat.le_min.mpr ⟨Nat.le_refl d, (hs d).2⟩⟩⟩

theorem isHex_ne (h : isHex c = true) : c ≠ '"' ∧ c ≠ '\\' := by
  constructor
  · rintro rfl
    exact absurd h (by decide)
  · rintro rfl
    exact absurd h (by decide)

theorem Characters.staysInString (h : Characters s) : StaysInString s := by
  induction h with
  | nil => exact fun d => ⟨rfl, Nat.le_refl d⟩
  | plain _ hquote hescape _ ih => exact ih.cons hquote hescape
  | escape _ _ ih => exact ih.escape
  | unicode ha hb hc hd _ ih =>
    have hcons {t : List Char} {c : Char} (ht : StaysInString t) (hc : isHex c = true) :
        StaysInString (c :: t) := ht.cons (isHex_ne hc).1 (isHex_ne hc).2
    exact (hcons (hcons (hcons (hcons ih hd) hc) hb) ha).escape

theorem Characters.balanced (h : Characters s) : Balanced ('"' :: s ++ ['"']) := by
  intro d
  have hopen : (⟨d, .outside⟩ : Scan).step '"' = ⟨d, .inString⟩ := rfl
  have hclose : (⟨d, .inString⟩ : Scan).step '"' = ⟨d, .outside⟩ := rfl
  obtain ⟨hscan, hlow⟩ := h.staysInString d
  rw [List.cons_append, scan_cons, hopen, scan_append, hscan, lowest, hopen, lowest_append, hscan]
  simp only [scan_cons, hclose, scan_nil, lowest]
  exact ⟨trivial, by omega⟩

theorem Spaces.balanced (h : Spaces s) : Balanced s := by
  refine balanced_plain fun c hc => ?_
  have hspace := h c hc
  simp only [isSpace, Bool.or_eq_true, decide_eq_true_eq] at hspace
  rcases hspace with ((rfl | rfl) | rfl) | rfl <;> decide

/-- The characters of numbers. -/
def isNumeric (c : Char) : Bool := c.isDigit || c ∈ ['-', '+', '.', 'e', 'E']

theorem IsNumber.isNumeric (h : IsNumber s) : ∀ c ∈ s, isNumeric c = true := by
  obtain ⟨minus, int, frac, exp, rfl, hminus, ⟨hint, -⟩, hfrac, hexp⟩ := h
  have hdigits {t : List Char} (ht : Digits t) : ∀ c ∈ t, JsonGrammar.isNumeric c = true :=
    fun c hc => by rw [JsonGrammar.isNumeric, ht.2 c hc, Bool.true_or]
  have hsign {t : List Char} (ht : t = [] ∨ t = ['+'] ∨ t = ['-']) :
      ∀ c ∈ t, JsonGrammar.isNumeric c = true := by
    rcases ht with rfl | rfl | rfl <;> exact List.all_eq_true.mp (by decide)
  intro c hc
  simp only [List.mem_append] at hc
  rcases hc with ((hc | hc) | hc) | hc
  · exact hsign (hminus.imp_right Or.inr) c hc
  · exact hdigits hint c hc
  · rcases hfrac with rfl | ⟨digits, rfl, hfrac⟩
    · cases hc
    · rcases List.mem_cons.mp hc with rfl | hc
      · decide
      · exact hdigits hfrac c hc
  · rcases hexp with rfl | ⟨e, sign, digits, rfl, he, hexpSign, hexp⟩
    · cases hc
    · rw [List.cons_append] at hc
      rcases List.mem_cons.mp hc with rfl | hc
      · rcases he with rfl | rfl <;> decide
      · rcases List.mem_append.mp hc with hc | hc
        · exact hsign hexpSign c hc
        · exact hdigits hexp c hc

theorem IsNumber.ne_nil (h : IsNumber s) : s ≠ [] := by
  obtain ⟨minus, int, frac, exp, rfl, -, ⟨hint, -⟩, -⟩ := h
  simp [hint.1]

theorem isNumeric_cases (h : isNumeric c = true) : isPlain c = true ∧ isSpace c = false ∧ c ≠ '\x7b' := by
  have hall : ∀ d ∈ ['"', '[', ']', '\x7b', '\x7d', ' ', '\t', '\n', '\r'], isNumeric d = false := by
    simp [isNumeric]
  have hne : ∀ d ∈ ['"', '[', ']', '\x7b', '\x7d', ' ', '\t', '\n', '\r'], c ≠ d := by
    rintro d hd rfl
    rw [hall c hd] at h
    cases h
  simp only [List.mem_cons, List.not_mem_nil, or_false, forall_eq_or_imp, forall_eq] at hne
  simp [isPlain, isSpace, hne]

theorem balanced_of_isPlain (h : isPlain c = true) (hs : Balanced s) : Balanced (c :: s) :=
  (balanced_plain (s := [c]) (by simpa using h)).append hs

theorem Derives.balanced {part : Part} (h : Derives part s) : Balanced s := by
  induction h with
  | nullLiteral => exact balanced_plain (List.all_eq_true.mp (by decide))
  | trueLiteral => exact balanced_plain (List.all_eq_true.mp (by decide))
  | falseLiteral => exact balanced_plain (List.all_eq_true.mp (by decide))
  | number h => exact balanced_plain fun c hc => (isNumeric_cases (h.isNumeric c hc)).1
  | string h => exact h.balanced
  | emptyArray h => exact h.balanced.bracket (Or.inl rfl) (Or.inl rfl)
  | array _ ih => exact ih.bracket (Or.inl rfl) (Or.inl rfl)
  | emptyObject h => exact h.balanced.bracket (Or.inr rfl) (Or.inr rfl)
  | object _ ih => exact ih.bracket (Or.inr rfl) (Or.inr rfl)
  | element ha _ hb ih => exact (ha.balanced.append ih).append hb.balanced
  | lastElement _ ih => exact ih
  | moreElements _ _ ih ih' => exact ih.append (balanced_of_isPlain (by decide) ih')
  | member ha hk hb _ ih =>
    exact ((ha.balanced.append hk.balanced).append hb.balanced).append
      (balanced_of_isPlain (by decide) ih)
  | lastMember _ ih => exact ih
  | moreMembers _ _ ih ih' => exact ih.append (balanced_of_isPlain (by decide) ih')

/-- A value has no whitespace around it. -/
theorem Derives.value_ends (h : Derives .value s) :
    s ≠ [] ∧ (∀ c ∈ s.head?, isSpace c = false) ∧ ∀ c ∈ s.getLast?, isSpace c = false := by
  have hquoted {left right : Char} (t : List Char) (hleft : isSpace left = false)
      (hright : isSpace right = false) : left :: t ++ [right] ≠ [] ∧
        (∀ c ∈ (left :: t ++ [right]).head?, isSpace c = false) ∧
        ∀ c ∈ (left :: t ++ [right]).getLast?, isSpace c = false := by
    refine ⟨by simp, by simpa using hleft, ?_⟩
    rw [List.getLast?_concat]
    simpa using hright
  have hsolid {t : List Char} (hne : t ≠ []) (hall : ∀ c ∈ t, isSpace c = false) : t ≠ [] ∧
      (∀ c ∈ t.head?, isSpace c = false) ∧ ∀ c ∈ t.getLast?, isSpace c = false :=
    ⟨hne, fun c hc => hall c (List.mem_of_head? hc), fun c hc => hall c (List.mem_of_getLast? hc)⟩
  cases h with
  | nullLiteral => exact hsolid (by decide) (by simp [isSpace])
  | trueLiteral => exact hsolid (by decide) (by simp [isSpace])
  | falseLiteral => exact hsolid (by decide) (by simp [isSpace])
  | number h => exact hsolid h.ne_nil fun c hc => (isNumeric_cases (h.isNumeric c hc)).2.1
  | string _ => exact hquoted _ (by decide) (by decide)
  | emptyArray _ => exact hquoted _ (by decide) (by decide)
  | array _ => exact hquoted _ (by decide) (by decide)
  | emptyObject _ => exact hquoted _ (by decide) (by decide)
  | object _ => exact hquoted _ (by decide) (by decide)

theorem Derives.object_inner (h : Derives .value ('\x7b' :: t)) :
    ∃ inner, t = inner ++ ['\x7d'] ∧ Balanced inner := by
  generalize hs : '\x7b' :: t = s at h
  cases h with
  | nullLiteral => exact absurd hs (by simp)
  | trueLiteral => exact absurd hs (by simp)
  | falseLiteral => exact absurd hs (by simp)
  | number h =>
    subst hs
    exact absurd rfl (isNumeric_cases (h.isNumeric _ List.mem_cons_self)).2.2
  | string _ => exact absurd hs (by simp)
  | emptyArray _ => exact absurd hs (by simp)
  | array _ => exact absurd hs (by simp)
  | emptyObject h => exact ⟨_, (List.cons.inj hs).2, h.balanced⟩
  | object h => exact ⟨_, (List.cons.inj hs).2, h.balanced⟩

theorem IsObject.balanced (h : IsObject s) : Balanced s := by
  obtain ⟨a, t, b, ha, hb, rfl, ht⟩ := h
  exact (ha.balanced.append ht.balanced).append hb.balanced

/-- A value that was cut off before its end is no object. -/
theorem not_isObject_of_prefix (h : Derives .value t) (hp : p <+: t) (hne : p ≠ t) : ¬IsObject p := by
  intro hobject
  have hbalanced := hobject.balanced
  obtain ⟨a, inner, b, ha, -, rfl, hinner⟩ := hobject
  -- the value begins with the bracket, since it does not begin with whitespace
  have hnil : a = [] := by
    cases a with
    | nil => rfl
    | cons c a =>
      obtain ⟨q, rfl⟩ := hp
      have hc := h.value_ends.2.1 c (by simp)
      rw [ha c List.mem_cons_self] at hc
      cases hc
  subst hnil
  obtain ⟨q, rfl⟩ := hp
  simp only [List.nil_append, List.cons_append] at h hbalanced
  obtain ⟨outer, houter, hbalancedOuter⟩ := h.object_inner
  have hstart : inner ++ b <+: outer := by
    have hconcat : inner ++ b <+: outer ++ ['\x7d'] := ⟨q, by rw [← houter, List.append_assoc]⟩
    rcases List.prefix_concat_iff.mp hconcat with heq | hstart
    · have hq : inner ++ b ++ q = inner ++ b := houter.trans heq.symm
      rw [List.append_right_eq_self.mp hq, List.append_nil] at hne
      exact absurd rfl hne
    · exact hstart
  have hdepth := lowest_le_depth (s := ⟨1, .outside⟩) hstart
  have hopen : (⟨0, .outside⟩ : Scan).scan ('\x7b' :: (inner ++ b)) =
      (⟨1, .outside⟩ : Scan).scan (inner ++ b) := rfl
  have hlow := (hbalancedOuter 1).2
  rw [← hopen, (hbalanced 0).1] at hdepth
  exact absurd (hlow.trans hdepth) (by decide)

end Epistl.Text.JsonGrammar
