import Epistl.Text.Search

/-! # Lines and white space

What `str::lines` and `char::is_whitespace` do. A string is the list of its characters.
-/
namespace Epistl.Text

abbrev Chars := List Char

/-- `char::is_whitespace`. -/
def isWhitespace (c : Char) : Bool :=
  c.toNat ∈ [0x09, 0x0a, 0x0b, 0x0c, 0x0d, 0x20, 0x85, 0xa0, 0x1680, 0x2028, 0x2029, 0x202f, 0x205f,
    0x3000] || (0x2000 ≤ c.toNat && c.toNat ≤ 0x200a)

/-- A line without the carriage return in front of its newline. -/
def dropReturn (line : Chars) : Chars := if line.getLast? = some '\r' then line.dropLast else line

/-- `str::lines`. What is behind the last newline is a line if it is not empty. -/
def lines (text : Chars) : List Chars :=
  let parts := text.splitOn '\n'
  parts.dropLast.map dropReturn ++ parts.getLast?.toList.filter (· ≠ [])

/-- What does not depend on how lines end is told from the parts between newlines. -/
theorem filterMap_lines {β : Type*} {f : Chars → Option β} (hnil : f [] = none)
    (hreturn : ∀ line, f (line ++ ['\r']) = f line) (text : Chars) :
    (lines text).filterMap f = (text.splitOn '\n').filterMap f := by
  have hdrop (line : Chars) : f (dropReturn line) = f line := by
    unfold dropReturn
    split
    · rename_i hlast
      obtain ⟨line, rfl⟩ := List.getLast?_eq_some_iff.mp hlast
      rw [List.dropLast_concat]
      exact (hreturn line).symm
    · rfl
  obtain ⟨parts, last, hparts⟩ : ∃ parts last, text.splitOn '\n' = parts ++ [last] :=
    ⟨_, _, (List.dropLast_append_getLast (List.splitOn_ne_nil '\n' text)).symm⟩
  have hlast : (([last] : List Chars).filter (· ≠ [])).filterMap f = [last].filterMap f := by
    by_cases hne : last = []
    · subst hne
      simp [hnil]
    · simp [hne]
  have hmap : (parts.map dropReturn).filterMap f = parts.filterMap f := by
    rw [List.filterMap_map]
    exact congrArg (List.filterMap · parts) (funext hdrop)
  simp only [lines, hparts, List.dropLast_concat, List.getLast?_concat, Option.toList_some,
    List.filterMap_append, hmap, hlast]

/-- A start without a newline comes to stand before the first part. -/
theorem splitOn_append_of_notMem {start : Chars} (h : '\n' ∉ start) (text : Chars) :
    (start ++ text).splitOn '\n' = (text.splitOn '\n').modifyHead (start ++ ·) := by
  obtain ⟨first, rest, htext⟩ := List.exists_cons_of_ne_nil (List.splitOn_ne_nil '\n' text)
  induction start with
  | nil =>
    rw [List.nil_append, htext]
    rfl
  | cons c start ih =>
    have hc : ¬(c == '\n') = true := fun hc => h (beq_iff_eq.mp hc ▸ List.mem_cons_self)
    rw [List.cons_append, List.splitOn_cons_eq_if_modifyHead, if_neg hc,
      ih fun hmem => h (List.mem_cons_of_mem c hmem), htext]
    rfl

end Epistl.Text
