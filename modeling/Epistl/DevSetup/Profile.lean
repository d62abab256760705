import Epistl.Text.Lines
import Epistl.Text.Markers

/-! # The block in the shell profile

`packages/dev-setup/src/profile.rs`: the tools keep their exports between two markers in the
profile of the developer's shell. A string is the list of its characters.
-/
namespace Epistl.DevSetup
open Text

/-- `BEGIN` -/
def beginMarker : Chars := '#' :: " >>> epistl dev-setup >>>".toList

/-- `END` -/
def endMarker : Chars := '#' :: " <<< epistl dev-setup <<<".toList

inductive ProfileOutcome where
  | updated
  | alreadyPresent
  deriving Repr, DecidableEq

/-- The lines without whitespace at their ends, as far as they are not empty. -/
def contentLines (text : Chars) : List Chars :=
  ((lines text).map (trimEnd isWhitespace)).filter (· ≠ [])

def extractBlockLines (existing : Chars) : Option (List Chars) := do
  let (_, rest) ← splitFirst beginMarker existing
  let (block, _) ← splitFirst endMarker (beginMarker ++ rest)
  let body := trim (· = '\n') (block.drop beginMarker.length)
  return contentLines body

def mergeLines (existing incoming : List Chars) : List Chars :=
  incoming.foldl (fun out line => if line ∈ out then out else out ++ [line]) existing

/-- Without a newline at its start. -/
def dropNewline (s : Chars) : Chars := (stripPrefix ['\n'] s).getD s

def replaceBlock (existing newBlock : Chars) : Option Chars := do
  let (before, rest) ← splitFirst beginMarker existing
  let (_, after) ← splitFirst endMarker (beginMarker ++ rest)
  return before ++ newBlock ++ dropNewline after

/-- The text between the markers. -/
def blockInner (body : List Chars) : Chars := '\n' :: ['\n'].intercalate body ++ ['\n']

/-- With a newline at the end of its last line. -/
def terminated (s : Chars) : Chars :=
  if s ≠ [] ∧ s.getLast? ≠ some '\n' then s ++ ['\n'] else s

/-- The outcome, and what the profile contains afterwards. There is no profile at first. -/
def ensureProfileBlock (profile : Option Chars) (blockBody : Chars) : ProfileOutcome × Chars :=
  let existing := profile.getD []
  let merged := mergeLines ((extractBlockLines existing).getD []) (contentLines blockBody)
  let newBlock := beginMarker ++ blockInner merged ++ endMarker ++ ['\n']
  match replaceBlock existing newBlock with
  | some updated =>
    if updated = existing then (.alreadyPresent, existing) else (.updated, updated)
  | none => (.updated, terminated existing ++ '\n' :: newBlock)

section
variable {s a b l m : Chars} {c : Char}

theorem contentLines_eq :
    contentLines s = ((s.splitOn '\n').map (trimEnd isWhitespace)).filter (· ≠ []) := by
  have hreturn (line : Chars) :
      trimEnd isWhitespace (line ++ ['\r']) = trimEnd isWhitespace line :=
    List.rdropWhile_concat_pos _ _ _ (by decide)
  rw [contentLines, ← List.filterMap_eq_filter, List.filterMap_map, List.filterMap_map]
  refine filterMap_lines rfl (fun line => ?_) s
  rw [Function.comp_apply, hreturn, Function.comp_apply]

@[simp] theorem contentLines_nil : contentLines [] = [] := by decide

theorem contentLines_append : contentLines (a ++ '\n' :: b) = contentLines a ++ contentLines b := by
  simp only [contentLines_eq]
  rw [List.splitOn_append_cons_self, List.map_append, List.filter_append]

theorem contentLines_trim : contentLines (trim (· = '\n') s) = contentLines s := by
  have hstart : contentLines (s.dropWhile (· = '\n')) = contentLines s := by
    induction s with
    | nil => rfl
    | cons c s ih =>
      rw [List.dropWhile_cons]
      split
      · rename_i hc
        rw [ih, of_decide_eq_true hc]
        exact (contentLines_append (a := [])).symm
      · rfl
  have hend (s : Chars) : contentLines (trimEnd (· = '\n') s) = contentLines s := by
    induction s using List.reverseRecOn with
    | nil => rfl
    | append_singleton s c ih =>
      rw [trimEnd, List.rdropWhile_concat]
      split
      · rename_i hc
        rw [of_decide_eq_true hc, contentLines_append, contentLines_nil, List.append_nil]
        exact ih
      · rfl
  rw [trim, hend, hstart]

/-- The lines of a text that are not empty, as they are. -/
def nonEmptyLines (text : Chars) : List Chars := (text.splitOn '\n').filter (· ≠ [])

/-- No line ends in whitespace. -/
def Tidy (text : Chars) : Prop := ∀ line ∈ text.splitOn '\n', trimEnd isWhitespace line = line

theorem contentLines_of_tidy (h : Tidy s) : contentLines s = nonEmptyLines s := by
  have hmap : (s.splitOn '\n').map (trimEnd isWhitespace) = s.splitOn '\n' := by
    conv_rhs => rw [← List.map_id (s.splitOn '\n')]
    exact List.map_congr_left h
  rw [contentLines_eq, nonEmptyLines, hmap]

/-- A text is tidy as soon as its lines that are not empty are trimmed. -/
theorem tidy_of_nonEmptyLines (h : ∀ line ∈ nonEmptyLines s, trimEnd isWhitespace line = line) :
    Tidy s := by
  intro line hline
  by_cases hnil : line = []
  · subst hnil
    rfl
  · exact h line (List.mem_filter.mpr ⟨hline, decide_eq_true hnil⟩)

theorem nonEmptyLines_append :
    nonEmptyLines (a ++ '\n' :: b) = nonEmptyLines a ++ nonEmptyLines b := by
  simp only [nonEmptyLines]
  rw [List.splitOn_append_cons_self, List.filter_append]

/-- What a line of `contentLines` looks like. -/
structure ContentLine (l : Chars) : Prop where
  ne_nil : l ≠ []
  newline : '\n' ∉ l
  trimmed : trimEnd isWhitespace l = l

theorem exists_part (h : l ∈ contentLines s) :
    l ≠ [] ∧ ∃ part ∈ s.splitOn '\n', trimEnd isWhitespace part = l := by
  rw [contentLines_eq] at h
  obtain ⟨hmem, hne⟩ := List.mem_filter.mp h
  exact ⟨of_decide_eq_true hne, List.mem_map.mp hmem⟩

theorem newline_notMem_part {part : Chars} (h : part ∈ s.splitOn '\n') : '\n' ∉ part := by
  induction s generalizing part with
  | nil =>
    rw [List.mem_singleton.mp h]
    exact List.not_mem_nil
  | cons c s ih =>
    rw [List.splitOn_cons_eq_if_modifyHead] at h
    split at h
    · rcases List.mem_cons.mp h with rfl | h
      · exact List.not_mem_nil
      · exact ih h
    · rename_i hc
      cases hparts : s.splitOn '\n' with
      | nil => exact absurd hparts (List.splitOn_ne_nil _ _)
      | cons first parts =>
        rw [hparts] at h
        rcases List.mem_cons.mp h with rfl | h
        · have hfirst : '\n' ∉ first := ih (hparts ▸ List.mem_cons_self)
          simpa [hfirst] using Ne.symm (by simpa using hc)
        · exact ih (hparts ▸ List.mem_cons_of_mem _ h)

theorem of_mem_nonEmptyLines (h : l ∈ nonEmptyLines s) : l ≠ [] ∧ '\n' ∉ l := by
  obtain ⟨hmem, hne⟩ := List.mem_filter.mp h
  exact ⟨of_decide_eq_true hne, newline_notMem_part hmem⟩

theorem contentLine_of_mem (h : l ∈ contentLines s) : ContentLine l := by
  obtain ⟨hne, part, hpart, rfl⟩ := exists_part h
  exact ⟨hne, fun hmem => newline_notMem_part hpart (trimEnd_isPrefix.subset hmem), trimEnd_trimEnd⟩

/-- The lines of a text without a marker have none. -/
theorem not_infix_of_mem (hs : ¬m <:+: s) (h : l ∈ contentLines s) : ¬m <:+: l := by
  obtain ⟨-, part, hpart, rfl⟩ := exists_part h
  intro hl
  have htext := infix_intercalate_of_mem ['\n'] hpart
  rw [List.intercalate_splitOn] at htext
  exact hs ((hl.trans trimEnd_isPrefix.isInfix).trans htext)

theorem not_infix_of_mem_nonEmptyLines (hs : ¬m <:+: s) (h : l ∈ nonEmptyLines s) : ¬m <:+: l := by
  intro hl
  have htext := infix_intercalate_of_mem ['\n'] (List.mem_of_mem_filter h)
  rw [List.intercalate_splitOn] at htext
  exact hs (hl.trans htext)

/-- A marker that ends with no whitespace is on a line. -/
theorem exists_mem_contentLines (hm : '\n' ∉ m ++ [c]) (hc : isWhitespace c = false)
    (h : m ++ [c] <:+: s) : ∃ l ∈ contentLines s, m ++ [c] <:+: l := by
  have htext := @List.intercalate_splitOn _ s _ _ '\n'
  rw [← htext] at h
  obtain ⟨part, hpart, u, v, rfl⟩ := infix_intercalate (by simp) hm h
  have htrim : trimEnd isWhitespace (u ++ (m ++ [c]) ++ v) =
      u ++ (m ++ [c]) ++ trimEnd isWhitespace v := by
    have hlast : trimEnd isWhitespace ([c] ++ v) = [c] ++ trimEnd isWhitespace v :=
      trimEnd_append (by simpa using hc)
    have hsplit (v : Chars) : u ++ (m ++ [c]) ++ v = (u ++ m) ++ ([c] ++ v) := by simp
    rw [hsplit, trimEnd_append_of_ne (by rw [hlast]; simp), hlast, hsplit]
  refine ⟨_, ?_, u, trimEnd isWhitespace v, rfl⟩
  rw [contentLines_eq, ← htrim]
  refine List.mem_filter.mpr ⟨List.mem_map_of_mem hpart, ?_⟩
  rw [htrim]
  simp

/-- The lines of a block are those it was written with. -/
theorem nonEmptyLines_blockInner {ls : List Chars} (h : ∀ l ∈ ls, l ≠ [] ∧ '\n' ∉ l) :
    nonEmptyLines (blockInner ls) = ls := by
  have hnil : nonEmptyLines [] = [] := rfl
  have hline {l : Chars} (hl : l ≠ [] ∧ '\n' ∉ l) : nonEmptyLines l = [l] := by
    rw [nonEmptyLines, List.splitOn_eq_singleton hl.2]
    simp [hl.1]
  have hjoin : nonEmptyLines (['\n'].intercalate ls) = ls := by
    induction ls with
    | nil => exact hnil
    | cons l ls ih =>
      have hl := hline (h l List.mem_cons_self)
      cases ls with
      | nil => simpa using hl
      | cons l' ls =>
        rw [List.intercalate_cons_cons, List.append_assoc, List.singleton_append,
          nonEmptyLines_append, hl, ih fun l'' h'' => h l'' (List.mem_cons_of_mem _ h'')]
        rfl
  have hstart : blockInner ls = [] ++ '\n' :: (['\n'].intercalate ls ++ '\n' :: []) := rfl
  rw [hstart, nonEmptyLines_append, nonEmptyLines_append, hjoin, hnil, List.append_nil]
  rfl

theorem tidy_blockInner {ls : List Chars} (h : ∀ l ∈ ls, ContentLine l) : Tidy (blockInner ls) := by
  apply tidy_of_nonEmptyLines
  rw [nonEmptyLines_blockInner fun l hl => ⟨(h l hl).ne_nil, (h l hl).newline⟩]
  exact fun l hl => (h l hl).trimmed

theorem contentLines_blockInner {ls : List Chars} (h : ∀ l ∈ ls, ContentLine l) :
    contentLines (blockInner ls) = ls := by
  rw [contentLines_of_tidy (tidy_blockInner h),
    nonEmptyLines_blockInner fun l hl => ⟨(h l hl).ne_nil, (h l hl).newline⟩]

theorem not_infix_blockInner {ls : List Chars} (hne : m ≠ []) (hm : '\n' ∉ m)
    (h : ∀ l ∈ ls, ¬m <:+: l) : ¬m <:+: blockInner ls := by
  intro hinfix
  have hnil : ¬m <:+: [] := fun hinfix => hne (List.infix_nil.mp hinfix)
  rcases infix_append_cons (u := []) hm hinfix with hinfix | hinfix
  · exact hnil hinfix
  · rcases infix_append_cons hm hinfix with hinfix | hinfix
    · obtain ⟨l, hl, hinfix⟩ := infix_intercalate hne hm hinfix
      exact h l hl hinfix
    · exact hnil hinfix

end

end Epistl.DevSetup
