import Epistl.DevSetup.Profile

/-! # Editing the profile is safe

As long as the first begin marker of the profile is the one of its complete block, and no line
of the block or of a body ends in whitespace, a call keeps what is outside the block and only
adds lines to it.
-/
namespace Epistl.DevSetup
open Text

/-- A complete block of the text. -/
structure BlockIn (text before inner after : Chars) : Prop where
  text_eq : text = before ++ beginMarker ++ (inner ++ endMarker ++ after)
  noBegin : ¬beginMarker <:+: inner
  noEnd : ¬endMarker <:+: inner

/-- The lines that are not in the block, each once. -/
def newLines (block body : List Chars) : List Chars := (body.filter (· ∉ block)).eraseDups

/-- The block with these lines. -/
def blockOf (ls : List Chars) : Chars := beginMarker ++ (blockInner ls ++ endMarker ++ ['\n'])

/-- What a call may do to a profile. The newline at the end of the block belongs to it, and what
the program reads back are the lines of a complete block. -/
structure Edited (existing blockBody updated : Chars) : Prop where
  text_eq : (∃ before inner after, BlockIn existing before inner after ∧
      updated = before ++ blockOf (nonEmptyLines inner ++
        newLines (nonEmptyLines inner) (nonEmptyLines blockBody)) ++ dropNewline after) ∨
    (∀ before inner after, ¬BlockIn existing before inner after) ∧
      updated = terminated existing ++ ['\n'] ++ blockOf (newLines [] (nonEmptyLines blockBody))
  read : ∃ before inner after, BlockIn updated before inner after ∧
    extractBlockLines updated = some (nonEmptyLines inner)

/-- A call edits the block, and once more it finds everything there. -/
structure SafeCall (profile : Option Chars) (blockBody : Chars) : Prop where
  edited : Edited (profile.getD []) blockBody (ensureProfileBlock profile blockBody).2
  again : ensureProfileBlock (some (ensureProfileBlock profile blockBody).2) blockBody =
    (.alreadyPresent, (ensureProfileBlock profile blockBody).2)

/-- The profile after calls with these bodies. -/
def profileAfter (profile : Option Chars) (bodies : List Chars) : Option Chars :=
  bodies.foldl (fun profile body => some (ensureProfileBlock profile body).2) profile

/-- Every call is safe, and the block that is read back at last has the lines of all bodies. -/
structure SafeCalls (profile : Option Chars) (bodies : List Chars) : Prop where
  each {earlier : List Chars} {body : Chars} : earlier ++ [body] <+: bodies →
    SafeCall (profileAfter profile earlier) body
  union : ∃ text before inner after, profileAfter profile bodies = some text ∧
    BlockIn text before inner after ∧ extractBlockLines text = some (nonEmptyLines inner) ∧
    ∀ body ∈ bodies, ∀ line ∈ nonEmptyLines body, line ∈ nonEmptyLines inner

/-- There is no begin marker in front of the complete block, and none without one. -/
def FirstBeginComplete (text : Chars) : Prop :=
  ∀ before rest, text = before ++ beginMarker ++ rest → ¬beginMarker <:+: before →
    ∃ inner after, BlockIn text before inner after

/-- The first begin marker is that of a complete block, no line of which ends in whitespace,
and neither does a line of the bodies. -/
structure Fit (text : Chars) (bodies : List Chars) : Prop where
  complete : FirstBeginComplete text
  block : ∀ before inner after, BlockIn text before inner after → Tidy inner
  bodies : ∀ body ∈ bodies, Tidy body

/-- At most one complete block. -/
def OneBlock (text : Chars) : Prop :=
  ∀ before inner after before' inner' after', BlockIn text before inner after →
    BlockIn text before' inner' after' → before = before' ∧ inner = inner' ∧ after = after'

def MarkerFree (s : Chars) : Prop := ¬beginMarker <:+: s ∧ ¬endMarker <:+: s

instance (s : Chars) : Decidable (MarkerFree s) := inferInstanceAs (Decidable (_ ∧ _))

variable {existing before inner after body l : Chars} {ls : List Chars}

theorem mergeLines_eq (block body : List Chars) : mergeLines block body = block ++ newLines block body := by
  induction body generalizing block with
  | nil => simp [mergeLines, newLines]
  | cons line body ih =>
    rw [mergeLines, List.foldl_cons, ← mergeLines]
    by_cases hline : line ∈ block
    · rw [if_pos hline, ih, newLines, newLines, List.filter_cons_of_neg (by simpa using hline)]
    · have hfilter : (fun x => decide (x ∉ block ++ [line])) =
          fun x => !x == line && decide (x ∉ block) := by
        funext x
        by_cases hx : x = line <;> simp [hx]
      rw [if_neg hline, ih, newLines, newLines, List.filter_cons_of_pos (by simpa using hline),
        List.eraseDups_cons, List.filter_filter, hfilter, List.append_assoc, List.singleton_append]

theorem mem_mergeLines {block body : List Chars} {line : Chars} :
    line ∈ mergeLines block body ↔ line ∈ block ∨ line ∈ body := by
  rw [mergeLines_eq, List.mem_append, newLines, List.mem_eraseDups, List.mem_filter]
  by_cases hline : line ∈ block <;> simp [hline]

theorem mergeLines_self {block body : List Chars} (h : ∀ line ∈ body, line ∈ block) :
    mergeLines block body = block := by
  rw [mergeLines_eq, newLines, List.filter_eq_nil_iff.mpr (by simpa using h)]
  exact List.append_nil _

theorem endMarker_notMem_begin (h : ¬endMarker <:+: inner) : ¬endMarker <:+: beginMarker ++ inner := by
  intro hinfix
  rcases infix_append_cases hinfix with hinfix | hinfix | ⟨a, b, ha, hb, hab, hsuffix, -⟩
  · exact absurd hinfix (by decide +kernel)
  · exact h hinfix
  · cases a with
    | nil => exact ha rfl
    | cons c a =>
      obtain ⟨rfl, -⟩ := List.cons.inj hab
      rcases List.suffix_cons_iff.mp hsuffix with heq | hsuffix
      · have hlen := congrArg List.length hab
        have hlen' := congrArg List.length heq
        rw [List.length_append] at hlen
        have hmarkers : endMarker.length = beginMarker.length := by decide
        have hbegin : beginMarker.length = ('#' :: " >>> epistl dev-setup >>>".toList).length := rfl
        exact hb (List.length_eq_zero_iff.mp (by omega))
      · exact absurd (hsuffix.subset List.mem_cons_self) (by decide)

/-- The block that a call finds. -/
theorem splitBlock (hbefore : ¬beginMarker <:+: before) (hinner : ¬endMarker <:+: inner) :
    splitFirst beginMarker (before ++ beginMarker ++ (inner ++ endMarker ++ after)) =
      some (before, inner ++ endMarker ++ after) ∧
    splitFirst endMarker (beginMarker ++ (inner ++ endMarker ++ after)) =
      some (beginMarker ++ inner, after) := by
  refine ⟨splitFirst_append (by decide) hbefore, ?_⟩
  have htext : beginMarker ++ (inner ++ endMarker ++ after) =
      beginMarker ++ inner ++ endMarker ++ after := by simp
  rw [htext]
  exact splitFirst_append (by decide) (endMarker_notMem_begin hinner)

/-- What a call makes of a profile with such a block. -/
theorem ensureProfileBlock_found (htext : existing = before ++ beginMarker ++ (inner ++ endMarker ++ after))
    (hbefore : ¬beginMarker <:+: before) (hinner : ¬endMarker <:+: inner) :
    extractBlockLines existing = some (contentLines inner) ∧
    ∀ profile : Option Chars, profile.getD [] = existing → ∀ body,
      let updated := before ++ beginMarker ++ (blockInner (mergeLines (contentLines inner)
        (contentLines body)) ++ endMarker ++ '\n' :: dropNewline after)
      ensureProfileBlock profile body =
        (if updated = existing then .alreadyPresent else .updated, updated) := by
  obtain ⟨hbegin, hend⟩ := @splitBlock before inner after hbefore hinner
  have hextract : extractBlockLines existing = some (contentLines inner) := by
    rw [extractBlockLines, htext, hbegin]
    simp only [Option.bind_eq_bind, Option.bind_some, hend, List.drop_left, contentLines_trim]
    rfl
  refine ⟨hextract, fun profile hprofile body => ?_⟩
  have hreplace (newBlock : Chars) :
      replaceBlock existing newBlock = some (before ++ newBlock ++ dropNewline after) := by
    rw [replaceBlock, htext, hbegin]
    simp only [Option.bind_eq_bind, Option.bind_some, hend]
    rfl
  have hupdated (merged : List Chars) :
      before ++ (beginMarker ++ blockInner merged ++ endMarker ++ ['\n']) ++ dropNewline after =
        before ++ beginMarker ++ (blockInner merged ++ endMarker ++ '\n' :: dropNewline after) := by
    simp
  simp only [ensureProfileBlock, hprofile, hreplace, hextract, Option.getD_some, hupdated]
  split
  · rename_i heq
    rw [heq]
  · rfl

theorem newline_notMem_beginMarker : '\n' ∉ beginMarker := by decide

theorem newline_notMem_endMarker : '\n' ∉ endMarker := by decide

/-- What is merged consists of content lines without markers. -/
theorem mem_merged {block body : Chars} (hblock : ∀ l ∈ contentLines block, ¬endMarker <:+: l)
    (hbody : MarkerFree body) :
    (∀ l ∈ mergeLines (contentLines block) (contentLines body), ContentLine l) ∧
    ∀ l ∈ mergeLines (contentLines block) (contentLines body), ¬endMarker <:+: l := by
  refine ⟨fun l hl => ?_, fun l hl => ?_⟩
  · rcases mem_mergeLines.mp hl with hl | hl
    · exact contentLine_of_mem hl
    · exact contentLine_of_mem hl
  · rcases mem_mergeLines.mp hl with hl | hl
    · exact hblock l hl
    · exact not_infix_of_mem hbody.2 hl

/-- A block as a call writes it. -/
structure Written (text before : Chars) (ls : List Chars) (rest : Chars) : Prop where
  text_eq : text = before ++ beginMarker ++ (blockInner ls ++ endMarker ++ '\n' :: rest)
  noBegin : ¬beginMarker <:+: before
  content l : l ∈ ls → ContentLine l
  noEnd l : l ∈ ls → ¬endMarker <:+: l

namespace Written
variable {text rest : Chars}

theorem not_end (h : Written text before ls rest) : ¬endMarker <:+: blockInner ls :=
  not_infix_blockInner (by decide) newline_notMem_endMarker h.noEnd

theorem extract (h : Written text before ls rest) : extractBlockLines text = some ls := by
  rw [(ensureProfileBlock_found h.text_eq h.noBegin h.not_end).1, contentLines_blockInner h.content]

/-- The next call finds all lines that are there. -/
theorem again (h : Written text before ls rest) (hbody : ∀ line ∈ contentLines body, line ∈ ls) :
    ensureProfileBlock (some text) body = (.alreadyPresent, text) := by
  have hcall := (ensureProfileBlock_found h.text_eq h.noBegin h.not_end).2 (some text) rfl body
  have hdrop : dropNewline ('\n' :: rest) = rest := rfl
  simp only [contentLines_blockInner h.content, mergeLines_self hbody, hdrop, ← h.text_eq, if_true] at hcall
  exact hcall

theorem blockIn (h : Written text before ls rest) (hbegin : ∀ l ∈ ls, ¬beginMarker <:+: l) :
    BlockIn text before (blockInner ls) ('\n' :: rest) where
  text_eq := h.text_eq
  noBegin := not_infix_blockInner (by decide) newline_notMem_beginMarker hbegin
  noEnd := h.not_end

end Written

/-- The block at the first begin marker is complete and tidy. -/
def FirstBlockTidy (text : Chars) : Prop :=
  ∀ before rest, text = before ++ beginMarker ++ rest → ¬beginMarker <:+: before →
    ∃ inner after, BlockIn text before inner after ∧ Tidy inner

theorem BlockIn.split (h : BlockIn existing before inner after) (hbefore : ¬beginMarker <:+: before) :
    splitFirst beginMarker existing = some (before, inner ++ endMarker ++ after) := by
  rw [h.text_eq]
  exact splitFirst_append (by decide) hbefore

theorem firstBlockTidy_of_blockIn (h : BlockIn existing before inner after)
    (hbefore : ¬beginMarker <:+: before) (htidy : Tidy inner) : FirstBlockTidy existing := by
  intro before' rest hrest hbefore'
  have hsplit' : splitFirst beginMarker existing = some (before', rest) := by
    rw [hrest]
    exact splitFirst_append (by decide) hbefore'
  cases (h.split hbefore).symm.trans hsplit'
  exact ⟨inner, after, h, htidy⟩

theorem extractBlockLines_eq_none {text : Chars} : extractBlockLines text = none ↔
    ∀ newBlock, replaceBlock text newBlock = none := by
  simp only [extractBlockLines, replaceBlock, Option.bind_eq_bind]
  cases splitFirst beginMarker text with
  | none => simp
  | some r =>
    simp only [Option.bind_some]
    cases splitFirst endMarker (beginMarker ++ r.2) <;> simp

/-- A call that finds no block adds one. -/
theorem ensureProfileBlock_added {profile : Option Chars}
    (h : extractBlockLines (profile.getD []) = none) (body : Chars) :
    ensureProfileBlock profile body = (.updated, terminated (profile.getD []) ++ ['\n'] ++ beginMarker ++
      (blockInner (mergeLines [] (contentLines body)) ++ endMarker ++ ['\n'])) := by
  simp only [ensureProfileBlock, extractBlockLines_eq_none.mp h, h, Option.getD_none]
  simp

theorem terminated_eq (s : Chars) : ∃ newline, (newline = [] ∨ newline = ['\n']) ∧ terminated s = s ++ newline := by
  unfold terminated
  split
  · exact ⟨['\n'], Or.inr rfl, rfl⟩
  · exact ⟨[], Or.inl rfl, (List.append_nil s).symm⟩

theorem not_infix_newline {m s : Chars} (hne : m ≠ []) (hm : '\n' ∉ m) (h : ¬m <:+: s) :
    ¬m <:+: s ++ ['\n'] := by
  intro hinfix
  rcases infix_append_cons hm hinfix with hinfix | hinfix
  · exact h hinfix
  · exact hne (List.infix_nil.mp hinfix)

theorem not_infix_terminated {m s newline : Chars} (hne : m ≠ []) (hm : '\n' ∉ m) (h : ¬m <:+: s)
    (hnewline : newline = [] ∨ newline = ['\n']) : ¬m <:+: s ++ newline := by
  rcases hnewline with rfl | rfl
  · rwa [List.append_nil]
  · exact not_infix_newline hne hm h

section
variable {profile : Option Chars}

/-- A call on a profile whose first begin marker is complete. -/
structure Kept (profile : Option Chars) (body : Chars) : Prop where
  call : SafeCall profile body
  complete : FirstBlockTidy (ensureProfileBlock profile body).2
  lines line : line ∈ nonEmptyLines body ∨ line ∈ (extractBlockLines (profile.getD [])).getD [] →
    line ∈ (extractBlockLines (ensureProfileBlock profile body).2).getD []

theorem blockOf_eq (before rest : Chars) (ls : List Chars) : before ++ blockOf ls ++ rest =
    before ++ beginMarker ++ (blockInner ls ++ endMarker ++ '\n' :: rest) := by
  simp [blockOf]

/-- The lines of a written block are read back. -/
theorem Written.read {text rest : Chars} (h : Written text before ls rest)
    (hbegin : ∀ l ∈ ls, ¬beginMarker <:+: l) : ∃ before inner after, BlockIn text before inner after ∧
      extractBlockLines text = some (nonEmptyLines inner) := by
  refine ⟨before, _, _, h.blockIn hbegin, ?_⟩
  rw [h.extract, nonEmptyLines_blockInner fun l hl => ⟨(h.content l hl).ne_nil, (h.content l hl).newline⟩]

theorem Written.firstBlockTidy {text rest : Chars} (h : Written text before ls rest)
    (hbegin : ∀ l ∈ ls, ¬beginMarker <:+: l) : FirstBlockTidy text :=
  firstBlockTidy_of_blockIn (h.blockIn hbegin) h.noBegin (tidy_blockInner h.content)

theorem kept_of_block (h : BlockIn (profile.getD []) before inner after)
    (hbefore : ¬beginMarker <:+: before) (htidy : Tidy inner) (hbody : MarkerFree body)
    (htidybody : Tidy body) : Kept profile body := by
  obtain ⟨hextract, hcall⟩ := ensureProfileBlock_found h.text_eq hbefore h.noEnd
  have hcall := hcall profile rfl body
  obtain ⟨hcontent, hend⟩ := mem_merged (fun l hl => not_infix_of_mem h.noEnd hl) hbody
  have hbegin : ∀ l ∈ mergeLines (contentLines inner) (contentLines body), ¬beginMarker <:+: l := by
    intro l hl
    rcases mem_mergeLines.mp hl with hl | hl
    · exact not_infix_of_mem h.noBegin hl
    · exact not_infix_of_mem hbody.1 hl
  have hwritten : Written (ensureProfileBlock profile body).2 before
      (mergeLines (contentLines inner) (contentLines body)) (dropNewline after) :=
    ⟨by rw [hcall], hbefore, hcontent, hend⟩
  refine ⟨⟨⟨.inl ⟨before, inner, after, h, ?_⟩, hwritten.read hbegin⟩, ?_⟩,
    hwritten.firstBlockTidy hbegin, ?_⟩
  · rw [blockOf_eq, ← mergeLines_eq, ← contentLines_of_tidy htidy, ← contentLines_of_tidy htidybody]
    exact hwritten.text_eq
  · exact hwritten.again fun line hline => mem_mergeLines.mpr (Or.inr hline)
  · intro line hline
    rw [hwritten.extract, Option.getD_some, mem_mergeLines]
    rw [hextract, Option.getD_some, ← contentLines_of_tidy htidybody] at hline
    exact hline.symm

theorem kept_of_none (h : ¬beginMarker <:+: profile.getD []) (hbody : MarkerFree body)
    (htidybody : Tidy body) : Kept profile body := by
  have hextract : extractBlockLines (profile.getD []) = none := by
    rw [extractBlockLines, splitFirst_eq_none.mpr h]
    rfl
  have hcall := ensureProfileBlock_added hextract body
  have hbefore : ¬beginMarker <:+: terminated (profile.getD []) ++ ['\n'] := by
    obtain ⟨newline, hnewline, hterminated⟩ := terminated_eq (profile.getD [])
    rw [hterminated]
    exact not_infix_newline (by decide) newline_notMem_beginMarker
      (not_infix_terminated (by decide) newline_notMem_beginMarker h hnewline)
  have hmem : ∀ l ∈ mergeLines [] (contentLines body), l ∈ contentLines body := fun l hl =>
    (mem_mergeLines.mp hl).resolve_left List.not_mem_nil
  have hwritten : Written (ensureProfileBlock profile body).2 (terminated (profile.getD []) ++ ['\n'])
      (mergeLines [] (contentLines body)) [] :=
    ⟨by rw [hcall], hbefore, fun l hl => contentLine_of_mem (hmem l hl),
      fun l hl => not_infix_of_mem hbody.2 (hmem l hl)⟩
  have hbegin : ∀ l ∈ mergeLines [] (contentLines body), ¬beginMarker <:+: l :=
    fun l hl => not_infix_of_mem hbody.1 (hmem l hl)
  refine ⟨⟨⟨.inr ⟨fun b i a hb => h ⟨b, i ++ endMarker ++ a, hb.text_eq.symm⟩, ?_⟩,
    hwritten.read hbegin⟩, ?_⟩, hwritten.firstBlockTidy hbegin, ?_⟩
  · rw [hcall, mergeLines_eq, contentLines_of_tidy htidybody, List.nil_append, blockOf]
    exact List.append_assoc _ _ _
  · exact hwritten.again fun line hline => mem_mergeLines.mpr (Or.inr hline)
  · intro line hline
    rw [hwritten.extract, Option.getD_some, mem_mergeLines]
    rw [hextract, Option.getD_none, ← contentLines_of_tidy htidybody] at hline
    exact hline.symm

theorem kept_of_tidy (h : FirstBlockTidy (profile.getD [])) (hbody : MarkerFree body)
    (htidybody : Tidy body) : Kept profile body := by
  cases hsplit : splitFirst beginMarker (profile.getD []) with
  | none => exact kept_of_none (splitFirst_eq_none.mp hsplit) hbody htidybody
  | some r =>
    obtain ⟨before, rest⟩ := r
    obtain ⟨htext, hbefore⟩ := splitFirst_eq_some (by decide) hsplit
    obtain ⟨inner, after, hblock, htidy⟩ := h before rest htext hbefore
    exact kept_of_block hblock hbefore htidy hbody htidybody

/-- A begin marker is on a line of its text. -/
theorem exists_line_of_begin {text : Chars} (h : beginMarker <:+: text) :
    ∃ l ∈ contentLines text, beginMarker <:+: l := by
  have hlast : beginMarker = beginMarker.dropLast ++ ['>'] := by decide
  rw [hlast] at h ⊢
  exact exists_mem_contentLines (by decide) (by decide) h

/-- Once a begin marker is between the first one and the end marker, it is read as a line. -/
theorem not_read_of_captured {text : Chars}
    (htext : text = before ++ beginMarker ++ (inner ++ endMarker ++ after))
    (hbefore : ¬beginMarker <:+: before) (hend : ¬endMarker <:+: inner)
    (hbegin : beginMarker <:+: inner) {block : Chars} (hblock : ¬beginMarker <:+: block) :
    extractBlockLines text ≠ some (nonEmptyLines block) := by
  intro hread
  rw [(ensureProfileBlock_found htext hbefore hend).1] at hread
  obtain ⟨l, hl, hinfix⟩ := exists_line_of_begin hbegin
  rw [Option.some.inj hread] at hl
  exact not_infix_of_mem_nonEmptyLines hblock hl hinfix

theorem firstBeginComplete_of_edited (hbody : MarkerFree body)
    (h : Edited (profile.getD []) body (ensureProfileBlock profile body).2) :
    FirstBeginComplete (profile.getD []) := by
  obtain ⟨_, block, _, hblock, hread⟩ := h.read
  intro before rest hrest hbefore
  cases hsplit : splitFirst endMarker rest with
  | some r =>
    obtain ⟨inner, after⟩ := r
    obtain ⟨rfl, hend⟩ := splitFirst_eq_some (by decide) hsplit
    by_cases hbegin : beginMarker <:+: inner
    · -- the call has merged the line of that marker into the block
      have hcall := (ensureProfileBlock_found hrest hbefore hend).2 profile rfl body
      obtain ⟨hcontent, hends⟩ := mem_merged (fun l hl => not_infix_of_mem hend hl) hbody
      have hwritten : Written (ensureProfileBlock profile body).2 before
          (mergeLines (contentLines inner) (contentLines body)) (dropNewline after) :=
        ⟨by rw [hcall], hbefore, hcontent, hends⟩
      obtain ⟨l, hl, hinfix⟩ := exists_line_of_begin hbegin
      have hmerged := Option.some.inj (hwritten.extract.symm.trans hread)
      have hmem : l ∈ nonEmptyLines block := hmerged ▸ mem_mergeLines.mpr (Or.inl hl)
      exact absurd hinfix (not_infix_of_mem_nonEmptyLines hblock.noBegin hmem)
    · exact ⟨inner, after, hrest, hbegin, hend⟩
  | none =>
    -- the block that the call adds ends the first begin marker
    have hend := splitFirst_eq_none.mp hsplit
    have hextract : extractBlockLines (profile.getD []) = none := by
      have hfirst : splitFirst beginMarker (profile.getD []) = some (before, rest) := by
        rw [hrest]
        exact splitFirst_append (by decide) hbefore
      rw [extractBlockLines, hfirst]
      simp only [Option.bind_eq_bind, Option.bind_some]
      rw [splitFirst_eq_none.mpr (endMarker_notMem_begin hend)]
      rfl
    have hcall := ensureProfileBlock_added hextract body
    obtain ⟨newline, hnewline, hterminated⟩ := terminated_eq (profile.getD [])
    let added := blockInner (mergeLines [] (contentLines body))
    have hadded : ¬endMarker <:+: added := by
      refine not_infix_blockInner (by decide) newline_notMem_endMarker fun l hl => ?_
      exact not_infix_of_mem hbody.2 ((mem_mergeLines.mp hl).resolve_left List.not_mem_nil)
    have htext : (ensureProfileBlock profile body).2 = before ++ beginMarker ++
        (rest ++ newline ++ '\n' :: (beginMarker ++ added) ++ endMarker ++ ['\n']) := by
      rw [hcall, hterminated, hrest]
      simp [added]
    have hcaptured : ¬endMarker <:+: rest ++ newline ++ '\n' :: (beginMarker ++ added) := by
      intro hinfix
      rcases infix_append_cons newline_notMem_endMarker hinfix with hinfix | hinfix
      · exact not_infix_terminated (by decide) newline_notMem_endMarker hend hnewline hinfix
      · exact endMarker_notMem_begin hadded hinfix
    have hbegin : beginMarker <:+: rest ++ newline ++ '\n' :: (beginMarker ++ added) :=
      ⟨rest ++ newline ++ ['\n'], added, by simp⟩
    exact absurd hread (not_read_of_captured htext hbefore hcaptured hbegin hblock.noBegin)

/-- Where the lines as they are come out as the lines that were trimmed, they end in no whitespace. -/
theorem tidy_of_blockInner_eq (body : Chars) (hcontent : ∀ l ∈ ls, ContentLine l)
    (h : blockInner (nonEmptyLines inner ++ newLines (nonEmptyLines inner) (nonEmptyLines body)) =
      blockInner ls) : Tidy inner := by
  rw [← mergeLines_eq] at h
  have hmerged : ∀ l ∈ mergeLines (nonEmptyLines inner) (nonEmptyLines body), l ≠ [] ∧ '\n' ∉ l := by
    intro l hl
    rcases mem_mergeLines.mp hl with hl | hl <;> exact of_mem_nonEmptyLines hl
  have heq : mergeLines (nonEmptyLines inner) (nonEmptyLines body) = ls := by
    rw [← nonEmptyLines_blockInner hmerged, h]
    exact nonEmptyLines_blockInner fun l hl => ⟨(hcontent l hl).ne_nil, (hcontent l hl).newline⟩
  apply tidy_of_nonEmptyLines
  exact fun l hl => (hcontent l (heq ▸ mem_mergeLines.mpr (.inl hl))).trimmed

theorem tidy_of_edited (hone : OneBlock (profile.getD [])) (hbody : MarkerFree body)
    (h : Edited (profile.getD []) body (ensureProfileBlock profile body).2)
    (hblock : BlockIn (profile.getD []) before inner after) (hbefore : ¬beginMarker <:+: before) :
    Tidy inner := by
  have hcall := (ensureProfileBlock_found hblock.text_eq hbefore hblock.noEnd).2 profile rfl body
  obtain ⟨hcontent, -⟩ := mem_merged (fun l hl => not_infix_of_mem hblock.noEnd hl) hbody
  rcases h.text_eq with ⟨b, i, a, hblock', htext⟩ | ⟨hnone, -⟩
  · obtain ⟨rfl, rfl, rfl⟩ := hone _ _ _ _ _ _ hblock' hblock
    rw [hcall, blockOf_eq] at htext
    refine tidy_of_blockInner_eq body hcontent ?_
    simpa only [List.append_assoc, List.append_cancel_left_eq, List.append_cancel_right_eq]
      using htext.symm
  · exact absurd hblock (hnone _ _ _)

theorem Fit.firstBlockTidy {text : Chars} {bodies : List Chars} (h : Fit text bodies) :
    FirstBlockTidy text := by
  intro before rest htext hbefore
  obtain ⟨inner, after, hblock⟩ := h.complete before rest htext hbefore
  exact ⟨inner, after, hblock, h.block _ _ _ hblock⟩

theorem profileAfter_concat (bodies : List Chars) (body : Chars) :
    profileAfter profile (bodies ++ [body]) =
      some (ensureProfileBlock (profileAfter profile bodies) body).2 := by
  rw [profileAfter, List.foldl_append]
  rfl

/-- The lines of all bodies are in the block that the last call leaves. -/
theorem profileAfter_kept {bodies : List Chars} (h : FirstBlockTidy (profile.getD []))
    (hbodies : ∀ body ∈ bodies, MarkerFree body) (htidy : ∀ body ∈ bodies, Tidy body) :
    FirstBlockTidy ((profileAfter profile bodies).getD []) ∧
    ∀ body ∈ bodies, ∀ line ∈ nonEmptyLines body,
      line ∈ (extractBlockLines ((profileAfter profile bodies).getD [])).getD [] := by
  induction bodies using List.reverseRecOn with
  | nil => exact ⟨h, fun body hbody => absurd hbody List.not_mem_nil⟩
  | append_singleton bodies last ih =>
    obtain ⟨hcomplete, hlines⟩ := ih (fun body hbody => hbodies body (List.mem_append_left _ hbody))
      fun body hbody => htidy body (List.mem_append_left _ hbody)
    have hkept := kept_of_tidy hcomplete (hbodies last (by simp)) (htidy last (by simp))
    rw [profileAfter_concat, Option.getD_some]
    refine ⟨hkept.complete, fun body hbody line hline => hkept.lines line ?_⟩
    rcases List.mem_append.mp hbody with hbody | hbody
    · exact Or.inr (hlines body hbody line hline)
    · rw [List.mem_singleton.mp hbody] at hline
      exact Or.inl hline

theorem safeCalls_of_fit {bodies : List Chars} (hne : bodies ≠ [])
    (hbodies : ∀ b ∈ bodies, MarkerFree b) (h : Fit (profile.getD []) bodies) :
    SafeCalls profile bodies := by
  have hkept {earlier : List Chars} {b : Chars} (hstart : earlier ++ [b] <+: bodies) :
      Kept (profileAfter profile earlier) b := by
    have hb : b ∈ bodies := hstart.subset (by simp)
    have hearlier : ∀ c ∈ earlier, c ∈ bodies := fun c hc => hstart.subset (List.mem_append_left _ hc)
    exact kept_of_tidy (profileAfter_kept h.firstBlockTidy (fun c hc => hbodies c (hearlier c hc))
      fun c hc => h.bodies c (hearlier c hc)).1 (hbodies b hb) (h.bodies b hb)
  refine ⟨fun hstart => (hkept hstart).call, ?_⟩
  obtain ⟨earlier, last, rfl⟩ : ∃ earlier last, bodies = earlier ++ [last] :=
    ⟨_, _, (List.dropLast_append_getLast hne).symm⟩
  obtain ⟨before, inner, after, hblock, hread⟩ := (hkept List.prefix_rfl).call.edited.read
  have hlines := (profileAfter_kept h.firstBlockTidy hbodies h.bodies).2
  rw [profileAfter_concat, Option.getD_some, hread] at hlines
  exact ⟨_, before, inner, after, profileAfter_concat earlier last, hblock, hread, hlines⟩

theorem contentLine_of_read {text : Chars} (h : extractBlockLines text = some ls) :
    ∀ l ∈ ls, ContentLine l := by
  obtain ⟨r, -, h⟩ := Option.bind_eq_some_iff.mp h
  obtain ⟨r', -, h⟩ := Option.bind_eq_some_iff.mp h
  cases h
  exact fun l hl => contentLine_of_mem hl

/-- In a sequence of safe calls every body is tidy, and so is the block. -/
theorem fit_of_safeCalls {body : Chars} {bodies : List Chars} (hone : OneBlock (profile.getD []))
    (hbodies : ∀ b ∈ body :: bodies, MarkerFree b) (h : SafeCalls profile (body :: bodies)) :
    Fit (profile.getD []) (body :: bodies) := by
  have hcall : SafeCall profile body := @SafeCalls.each _ _ h [] body ⟨bodies, rfl⟩
  have hbody := hbodies body List.mem_cons_self
  have hcomplete := firstBeginComplete_of_edited hbody hcall.edited
  refine ⟨hcomplete, fun before inner after hblock => ?_, fun b hb => ?_⟩
  · cases hsplit : splitFirst beginMarker (profile.getD []) with
    | none =>
      have hbegin : beginMarker <:+: profile.getD [] :=
        ⟨before, inner ++ endMarker ++ after, hblock.text_eq.symm⟩
      exact absurd hbegin (splitFirst_eq_none.mp hsplit)
    | some r =>
      obtain ⟨htext, hbefore⟩ := splitFirst_eq_some (by decide) hsplit
      obtain ⟨inner', after', hblock'⟩ := hcomplete r.1 r.2 htext hbefore
      obtain ⟨rfl, -, -⟩ := hone _ _ _ _ _ _ hblock hblock'
      exact tidy_of_edited hone hbody hcall.edited hblock hbefore
  · obtain ⟨text, _, inner, _, -, -, hread, hlines⟩ := h.union
    exact tidy_of_nonEmptyLines fun l hl => (contentLine_of_read hread l (hlines b hb l hl)).trimmed

/-- Calls with bodies without markers, on a profile with at most one complete block, are safe if
and only if the first begin marker of the profile, if there is one, is that of the block, and no
line of the block or of a body ends in whitespace. -/
theorem safeCalls_iff (profile : Option Chars) (body : Chars) (bodies : List Chars)
    (hone : OneBlock (profile.getD [])) (hbodies : ∀ b ∈ body :: bodies, MarkerFree b) :
    SafeCalls profile (body :: bodies) ↔ Fit (profile.getD []) (body :: bodies) :=
  ⟨fit_of_safeCalls hone hbodies, safeCalls_of_fit (List.cons_ne_nil body bodies) hbodies⟩

end

theorem BlockIn.prefix_drop {text : Chars} (h : BlockIn text before inner after) :
    before.length ≤ text.length ∧ beginMarker <+: text.drop before.length := by
  rw [h.text_eq, List.append_assoc]
  refine ⟨by simp, ?_⟩
  rw [List.drop_left]
  exact List.prefix_append _ _

/-- A text with one begin marker has no two blocks. -/
theorem oneBlock_of_begin {text : Chars} {n : ℕ}
    (h : ∀ k ≤ text.length, beginMarker <+: text.drop k → k = n) : OneBlock text := by
  intro before inner after before' inner' after' hblock hblock'
  have hlength := h _ hblock.prefix_drop.1 hblock.prefix_drop.2
  have hlength' := h _ hblock'.prefix_drop.1 hblock'.prefix_drop.2
  have htext := hblock.text_eq.symm.trans hblock'.text_eq
  rw [List.append_assoc, List.append_assoc before'] at htext
  obtain ⟨rfl, hrest⟩ := List.append_inj htext (hlength.trans hlength'.symm)
  have hsplit : splitFirst endMarker (inner ++ endMarker ++ after) = some (inner, after) :=
    splitFirst_append (by decide) hblock.noEnd
  have hsplit' : splitFirst endMarker (inner' ++ endMarker ++ after') = some (inner', after') :=
    splitFirst_append (by decide) hblock'.noEnd
  rw [List.append_cancel_left hrest, hsplit'] at hsplit
  cases hsplit
  exact ⟨rfl, rfl, rfl⟩

/-- A profile with a stray end marker and a block, which two tools extend. -/
theorem safeCalls_iff_twoTools :
    SafeCalls (some (endMarker ++ "\nalias ll='ls -l'\n".toList ++ beginMarker ++
      "\nexport A=1\n".toList ++ endMarker))
      ["export B=2\nexport A=1".toList, "export C=3\n".toList] ↔
    Fit (endMarker ++ "\nalias ll='ls -l'\n".toList ++ beginMarker ++
      "\nexport A=1\n".toList ++ endMarker) ["export B=2\nexport A=1".toList, "export C=3\n".toList] :=
  safeCalls_iff _ _ _ (oneBlock_of_begin (n := 44) (by decide +kernel)) (by decide +kernel)

/-- Behind a begin marker without an end marker, the second call takes the lines of the user for its
own. -/
theorem not_safeCalls : ¬∀ (profile : Option Chars) (body : Chars) (bodies : List Chars),
    OneBlock (profile.getD []) → (∀ b ∈ body :: bodies, MarkerFree b) →
      SafeCalls profile (body :: bodies) := by
  intro h
  have hone : OneBlock (beginMarker ++ "\nexport EDITOR=vi\n".toList) :=
    oneBlock_of_begin (n := 0) (by decide +kernel)
  have hsafe := h (some (beginMarker ++ "\nexport EDITOR=vi\n".toList)) "export A=1".toList [] hone
    (by decide +kernel)
  have hcall : SafeCall (some (beginMarker ++ "\nexport EDITOR=vi\n".toList)) "export A=1".toList :=
    @SafeCalls.each _ _ hsafe [] _ ⟨[], rfl⟩
  have hagain : (ensureProfileBlock (some (ensureProfileBlock (some (beginMarker ++
      "\nexport EDITOR=vi\n".toList)) "export A=1".toList).2) "export A=1".toList).1 = .updated := by
    decide +kernel
  rw [hcall.again] at hagain
  cases hagain

end Epistl.DevSetup
