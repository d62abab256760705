import Epistl.Text.Search

/-! # Shell words

The words of a simple command of the POSIX shell after its quotes are removed. A text in which
the shell would expand something, or find anything but the words of one command, has none.
-/
namespace Epistl.Text.Shell

inductive Quoting where
  | unquoted
  | single
  | double
  /-- after a backslash outside quotes -/
  | escape
  /-- after a backslash in double quotes -/
  | doubleEscape
  deriving Repr, DecidableEq

structure Reader where
  words : List (List Char)
  /-- the word that is being read, `none` between words -/
  word : Option (List Char)
  quoting : Quoting
  deriving Repr, DecidableEq

/-- Outside quotes these start an operator or an expansion, end the command, or may do so in a
shell with more than POSIX asks for. -/
def specials : List Char := "|&;<>()$\n*?[]~\x7b\x7d!".toList ++ [Char.ofNat 96]

/-- In double quotes a backslash quotes these. -/
def doubleEscaped : List Char := ['$', '"', '\\', Char.ofNat 96]

/-- As the first word these are no command. -/
def reservedWords : List (List Char) :=
  ["case", "do", "done", "elif", "else", "esac", "fi", "for", "function", "if", "in", "select",
    "then", "time", "until", "while"].map String.toList

namespace Reader

def push (r : Reader) (text : List Char) : Reader :=
  { r with word := some (r.word.getD [] ++ text) }

def delimit (r : Reader) : Reader := { r with words := r.words ++ r.word.toList, word := none }

def step (r : Reader) (c : Char) : Option Reader :=
  match r.quoting with
  | .unquoted =>
    if c = '\'' then some { r.push [] with quoting := .single }
    else if c = '"' then some { r.push [] with quoting := .double }
    else if c = '\\' then some { r with quoting := .escape }
    else if c = ' ' ∨ c = '\t' then some r.delimit
    else if c ∈ specials ∨ c = '#' ∧ r.word = none then none
    else some (r.push [c])
  | .single => if c = '\'' then some { r with quoting := .unquoted } else some (r.push [c])
  | .double =>
    if c = '"' then some { r with quoting := .unquoted }
    else if c = '\\' then some { r with quoting := .doubleEscape }
    else if c = '$' ∨ c = Char.ofNat 96 then none
    else some (r.push [c])
  | .escape =>
    let r := { r with quoting := .unquoted }
    -- the line goes on
    if c = '\n' then some r else some (r.push [c])
  | .doubleEscape =>
    let r := { r with quoting := .double }
    if c = '\n' then some r
    else if c ∈ doubleEscaped then some (r.push [c]) else some (r.push ['\\', c])

def read (r : Reader) (text : List Char) : Option Reader := text.foldlM step r

end Reader

def words (text : List Char) : Option (List (List Char)) := do
  let r ← (⟨[], none, .unquoted⟩ : Reader).read text
  if r.quoting = .unquoted then some r.delimit.words else none

/-- The words of one command that is no assignment. -/
def argv (text : List Char) : Option (List (List Char)) :=
  (words text).filter fun ws =>
    match ws with
    | [] => false
    | name :: _ => name ∉ reservedWords && '=' ∉ name

/-- A character that stands for itself at any place of a word. -/
def Literal (c : Char) : Prop :=
  c ∉ ['\'', '"', '\\', ' ', '\t', '#'] ∧ c ∉ specials

instance (c : Char) : Decidable (Literal c) := inferInstanceAs (Decidable (_ ∧ _))

namespace Reader
variable {r s : Reader} {a b : List Char}

theorem read_append : r.read (a ++ b) = (r.read a).bind fun s => s.read b := List.foldlM_append

@[simp] theorem read_nil : r.read [] = some r := rfl

theorem read_cons {c : Char} : r.read (c :: a) = (r.step c).bind fun s => s.read a := rfl

@[simp] theorem push_push : (r.push a).push b = r.push (a ++ b) := by
  simp [push, List.append_assoc]

@[simp] theorem push_quoting : (r.push a).quoting = r.quoting := rfl

theorem read_blank (h : r.quoting = .unquoted) : r.read (' ' :: a) = r.delimit.read a := by
  rw [read_cons, step, h]
  rfl

/-- Literal characters are added to the word. -/
theorem read_literal (h : r.quoting = .unquoted) (ha : ∀ c ∈ a, Literal c) (hne : a ≠ []) :
    r.read a = some (r.push a) := by
  induction a generalizing r with
  | nil => exact absurd rfl hne
  | cons c a ih =>
    obtain ⟨hc, hspecial⟩ := ha c List.mem_cons_self
    simp only [List.mem_cons, List.not_mem_nil, or_false, not_or] at hc
    have hstep : r.step c = some (r.push [c]) := by
      rw [step, h]
      simp [hc, hspecial]
    rw [read_cons, hstep, Option.bind_some]
    cases a with
    | nil => rfl
    | cons d a =>
      rw [ih (by simpa using h) (fun e he => ha e (List.mem_cons_of_mem _ he)) (List.cons_ne_nil _ _)]
      simp

/-- A quotation starts a word, also when it is empty. -/
theorem read_open (h : r.quoting = .unquoted) :
    r.read ('\'' :: a) = ({ r.push [] with quoting := .single } : Reader).read a := by
  rw [read_cons, step, h]
  rfl

theorem read_close (h : r.quoting = .single) :
    r.read ('\'' :: a) = ({ r with quoting := .unquoted } : Reader).read a := by
  rw [read_cons, step, h]
  rfl

theorem read_single {c : Char} (h : r.quoting = .single) (hc : c ≠ '\'') :
    r.read (c :: a) = (r.push [c]).read a := by
  rw [read_cons, step, h]
  simp only [hc, if_false, Option.bind_some]

theorem read_escaped {c : Char} (h : r.quoting = .unquoted) (hc : c ≠ '\n') :
    r.read ('\\' :: c :: a) = (r.push [c]).read a := by
  rw [read_cons, step, h]
  simp only [Char.reduceEq, if_false, if_true, Option.bind_some]
  rw [read_cons, step]
  simp [hc, push, ← h]

end Reader

end Epistl.Text.Shell
