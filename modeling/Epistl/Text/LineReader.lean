import Epistl.Text.Search
import Mathlib.Data.List.Infix

/-! # Lines of a byte stream

What a buffered reader hands out line by line does not depend on how the stream was split into
reads. Of a stream of whole lines that was cut somewhere it hands out the lines before the cut and
at most one piece of the next line.
-/
namespace Epistl.Text.LineReader
variable {σ : Type*} {a b : List Char} {x y : List UInt8}

def encodeUtf8 (text : List Char) : List UInt8 := text.flatMap String.utf8EncodeChar

/-- `String::from_utf8`. -/
def decodeUtf8 (bytes : List UInt8) : Option (List Char) :=
  bytes.toByteArray.utf8Decode?.map Array.toList

theorem decodeUtf8_encodeUtf8 : decodeUtf8 (encodeUtf8 a) = some a := by
  have hdecode : (encodeUtf8 a).toByteArray.utf8Decode? = some a.toArray := List.utf8Decode?_utf8Encode
  rw [decodeUtf8, hdecode, Option.map_some]

theorem decodeUtf8_eq_some : decodeUtf8 x = some a ↔ x = encodeUtf8 a := by
  constructor
  · intro h
    obtain ⟨chars, hchars, rfl⟩ := Option.map_eq_some_iff.mp h
    have hencode : chars.toList.utf8Encode = x.toByteArray := by
      simpa [hchars] using @ByteArray.utf8Encode_get_utf8Decode? x.toByteArray (by simp [hchars])
    have hlist := congrArg (fun bytes => bytes.data.toList) hencode
    change (encodeUtf8 chars.toList).toByteArray.data.toList = x.toByteArray.data.toList at hlist
    rw [List.toList_data_toByteArray, List.toList_data_toByteArray] at hlist
    exact hlist.symm
  · rintro rfl
    exact decodeUtf8_encodeUtf8

theorem prefix_of_encodeUtf8 (h : encodeUtf8 a <+: encodeUtf8 b) : a <+: b := by
  obtain ⟨rest, hrest⟩ := h
  refine List.isPrefix_of_utf8Encode_append_eq_utf8Encode rest.toByteArray ?_
  change (encodeUtf8 a).toByteArray ++ rest.toByteArray = (encodeUtf8 b).toByteArray
  rw [← hrest, List.toByteArray_append]

@[simp] theorem encodeUtf8_nil : encodeUtf8 [] = [] := rfl

@[simp] theorem encodeUtf8_append : encodeUtf8 (a ++ b) = encodeUtf8 a ++ encodeUtf8 b :=
  List.flatMap_append

def newline : UInt8 := 10

theorem encodeUtf8_newline : encodeUtf8 ['\n'] = [newline] := by decide

theorem newline_mem_utf8EncodeChar {c : Char} (h : newline ∈ String.utf8EncodeChar c) : c = '\n' := by
  have hhigh {n : ℕ} (hlow : 0x80 ≤ n) (hlt : n < 0x100) : newline ≠ UInt8.ofNat n := by
    intro heq
    have hn := congrArg UInt8.toNat heq
    rw [UInt8.toNat_ofNat_of_lt' hlt] at hn
    exact absurd (hn ▸ hlow) (by decide)
  unfold String.utf8EncodeChar at h
  dsimp only at h
  split at h
  · rename_i hv
    have hnewline := congrArg UInt8.toNat (List.mem_singleton.mp h)
    rw [UInt8.toNat_ofNat_of_lt' (Nat.lt_of_le_of_lt hv (by decide))] at hnewline
    exact Char.ext (UInt32.toNat_inj.mp hnewline.symm)
  · -- every byte of a longer encoding has its high bit
    split at h
    · simp only [List.mem_cons, List.not_mem_nil, or_false] at h
      rcases h with h | h <;> exact absurd h (hhigh (by omega) (by omega))
    · split at h
      · simp only [List.mem_cons, List.not_mem_nil, or_false] at h
        rcases h with h | h | h <;> exact absurd h (hhigh (by omega) (by omega))
      · simp only [List.mem_cons, List.not_mem_nil, or_false] at h
        rcases h with h | h | h | h <;> exact absurd h (hhigh (by omega) (by omega))

theorem newline_notMem_encodeUtf8 (h : '\n' ∉ a) : newline ∉ encodeUtf8 a := by
  intro hmem
  obtain ⟨c, hc, hnewline⟩ := List.mem_flatMap.mp hmem
  rw [newline_mem_utf8EncodeChar hnewline] at hc
  exact h hc

/-- What one read brings. A read of no bytes is the end of the stream. -/
structure Chunk where
  bytes : List UInt8
  nonempty : bytes ≠ []

/-- A `BufReader` over a stream. -/
structure Reader where
  buffer : List UInt8
  incoming : List Chunk
  /-- whether the end of the stream is read after them, and not an error -/
  ended : Bool

namespace Reader

/-- What can still be read. -/
def pending (r : Reader) : List UInt8 := r.buffer ++ r.incoming.flatMap Chunk.bytes

end Reader

/-- `read_until` after the bytes of `line`. -/
def readUntil (ended : Bool) (line buffer : List UInt8) : List Chunk → Option (List UInt8 × Reader)
  | [] =>
    match splitOnce newline buffer with
    | some (before, rest) => some (line ++ before ++ [newline], ⟨rest, [], ended⟩)
    | none => if ended then some (line ++ buffer, ⟨[], [], ended⟩) else none
  | chunk :: incoming =>
    match splitOnce newline buffer with
    | some (before, rest) => some (line ++ before ++ [newline], ⟨rest, chunk :: incoming, ended⟩)
    | none => readUntil ended (line ++ buffer) chunk.bytes incoming

/-- `read_line`: no text after an error, and the empty text at the end of the stream. -/
def readLine (r : Reader) : Option (List Char × Reader) :=
  (readUntil r.ended [] r.buffer r.incoming).bind fun (line, rest) =>
    (decodeUtf8 line).map fun text => (text, rest)

theorem readUntil_of_some (ended : Bool) (line : List UInt8) {buffer : List UInt8}
    {incoming : List Chunk} {before rest : List UInt8}
    (h : splitOnce newline (buffer ++ incoming.flatMap Chunk.bytes) = some (before, rest)) :
    ∃ r, readUntil ended line buffer incoming = some (line ++ before ++ [newline], r) ∧
      r.pending = rest ∧ r.ended = ended := by
  induction incoming generalizing line buffer before with
  | nil =>
    rw [List.flatMap_nil, List.append_nil] at h
    rw [readUntil, h]
    exact ⟨_, rfl, by simp [Reader.pending], rfl⟩
  | cons chunk incoming ih =>
    rw [readUntil]
    cases hsplit : splitOnce newline buffer with
    | some parts =>
      rw [splitOnce_append_of_some hsplit] at h
      cases h
      exact ⟨_, rfl, rfl, rfl⟩
    | none =>
      -- the line goes on after the buffer
      rw [splitOnce_append_of_notMem (splitOnce_eq_none.mp hsplit)] at h
      obtain ⟨⟨more, rest⟩, hmore, heq⟩ := Option.map_eq_some_iff.mp h
      cases heq
      obtain ⟨r, hr, hpending, hended⟩ := ih (line ++ buffer) hmore
      refine ⟨r, ?_, hpending, hended⟩
      rw [hr]
      simp only [List.append_assoc]

theorem readUntil_of_notMem {ended : Bool} {line buffer : List UInt8} {incoming : List Chunk}
    (h : newline ∉ buffer ++ incoming.flatMap Chunk.bytes) :
    readUntil ended line buffer incoming =
      if ended then some (line ++ (buffer ++ incoming.flatMap Chunk.bytes), ⟨[], [], ended⟩)
      else none := by
  have hbuffer : splitOnce newline buffer = none :=
    splitOnce_eq_none.mpr fun hmem => h (List.mem_append_left _ hmem)
  induction incoming generalizing line buffer with
  | nil => rw [readUntil, hbuffer, List.flatMap_nil, List.append_nil]
  | cons chunk incoming ih =>
    rw [List.flatMap_cons] at h
    have hrest : newline ∉ chunk.bytes ++ incoming.flatMap Chunk.bytes :=
      fun hmem => h (List.mem_append_right _ hmem)
    rw [readUntil, hbuffer, ih hrest (splitOnce_eq_none.mpr fun hmem =>
      hrest (List.mem_append_left _ hmem)), List.flatMap_cons, List.append_assoc]

section Loop
variable {r rest : Reader} {handle : σ → List Char → σ × Bool} {s : σ}

theorem readLine_of_some {before after : List UInt8}
    (h : splitOnce newline r.pending = some (before, after)) :
    ∃ rest, readLine r = (decodeUtf8 (before ++ [newline])).map (fun text => (text, rest)) ∧
      rest.pending = after ∧ rest.ended = r.ended := by
  obtain ⟨rest, hrest, hpending, hended⟩ := readUntil_of_some r.ended [] h
  refine ⟨rest, ?_, hpending, hended⟩
  rw [readLine, hrest, Option.bind_some, List.nil_append]

theorem readLine_of_notMem (h : newline ∉ r.pending) : readLine r =
    if r.ended then (decodeUtf8 r.pending).map (fun text => (text, ⟨[], [], r.ended⟩)) else none := by
  rw [readLine, readUntil_of_notMem h]
  cases r.ended with
  | false => rfl
  | true => simp only [if_true, Option.bind_some, List.nil_append, Reader.pending]

theorem readLine_decreases {c : Char} {text : List Char} (h : readLine r = some (c :: text, rest)) :
    rest.pending.length < r.pending.length := by
  cases hsplit : splitOnce newline r.pending with
  | some parts =>
    obtain ⟨hpending, -⟩ := splitOnce_eq_some.mp hsplit
    obtain ⟨rest', hline, hrest, -⟩ := readLine_of_some hsplit
    rw [hline, Option.map_eq_some_iff] at h
    obtain ⟨_, -, heq⟩ := h
    rw [← (Prod.mk.inj heq).2, hrest, hpending, List.length_append, List.length_cons]
    omega
  | none =>
    rw [readLine_of_notMem (splitOnce_eq_none.mp hsplit)] at h
    split at h
    · obtain ⟨_, hdecode, heq⟩ := Option.map_eq_some_iff.mp h
      rw [(Prod.mk.inj heq).1, decodeUtf8_eq_some] at hdecode
      rw [← (Prod.mk.inj heq).2, hdecode, encodeUtf8, List.flatMap_cons, List.length_append,
        String.length_utf8EncodeChar]
      exact Nat.add_pos_left c.utf8Size_pos _
    · cases h

def isLineEnd (c : Char) : Bool := c = '\r' || c = '\n'

/-- A loop over `read_line`. The handler says whether it goes on. -/
def readLoop (handle : σ → List Char → σ × Bool) (s : σ) (r : Reader) : σ :=
  match _ : readLine r with
  | none => s
  | some ([], _) => s
  | some (c :: text, rest) =>
    let next := handle s (trimEnd isLineEnd (c :: text))
    if next.2 then readLoop handle next.1 rest else next.1
termination_by r.pending.length
decreasing_by exact readLine_decreases ‹_›

/-- The texts that are handed to a handler that never stops the loop. -/
def Reader.texts (r : Reader) : List (List Char) :=
  match _ : readLine r with
  | none => []
  | some ([], _) => []
  | some (c :: text, rest) => trimEnd isLineEnd (c :: text) :: rest.texts
termination_by r.pending.length
decreasing_by exact readLine_decreases ‹_›

/-- Hands texts to a handler until it stops. -/
def handed (handle : σ → List Char → σ × Bool) (s : σ) : List (List Char) → σ
  | [] => s
  | text :: texts =>
    let next := handle s text
    if next.2 then handed handle next.1 texts else next.1

theorem readLoop_of_cons {c : Char} {text : List Char} (h : readLine r = some (c :: text, rest)) :
    readLoop handle s r = if (handle s (trimEnd isLineEnd (c :: text))).2 = true then
      readLoop handle (handle s (trimEnd isLineEnd (c :: text))).1 rest
    else (handle s (trimEnd isLineEnd (c :: text))).1 := by
  rw [readLoop]
  split <;> simp_all only [Option.some.injEq, Prod.mk.injEq, List.cons.injEq, reduceCtorEq, false_and]

theorem readLoop_of_end (h : ∀ text rest, readLine r = some (text, rest) → text = []) :
    readLoop handle s r = s := by
  rw [readLoop]
  split
  · rfl
  · rfl
  · rename_i hread
    exact absurd (h _ _ hread) (List.cons_ne_nil _ _)

theorem texts_of_cons {c : Char} {text : List Char} (h : readLine r = some (c :: text, rest)) :
    r.texts = trimEnd isLineEnd (c :: text) :: rest.texts := by
  rw [Reader.texts]
  split <;> simp_all only [Option.some.injEq, Prod.mk.injEq, List.cons.injEq, reduceCtorEq, false_and]

theorem texts_of_end (h : ∀ text rest, readLine r = some (text, rest) → text = []) : r.texts = [] := by
  rw [Reader.texts]
  split
  · rfl
  · rfl
  · rename_i hread
    exact absurd (h _ _ hread) (List.cons_ne_nil _ _)

/-- Either the loop is at its end, or there is one more line. -/
theorem readLine_cases (r : Reader) :
    (∀ text rest, readLine r = some (text, rest) → text = []) ∨
      ∃ c text rest, readLine r = some (c :: text, rest) := by
  rcases hread : readLine r with _ | ⟨_ | ⟨c, text⟩, rest⟩
  · exact Or.inl fun _ _ h => by cases h
  · refine Or.inl fun text rest' h => ?_
    cases h
    rfl
  · exact Or.inr ⟨c, text, rest, rfl⟩

theorem readLoop_eq : readLoop handle s r = handed handle s r.texts := by
  induction hn : r.pending.length using Nat.strong_induction_on generalizing r s with
  | _ n ih =>
    rcases readLine_cases r with hend | ⟨c, text, rest, hread⟩
    · rw [readLoop_of_end hend, texts_of_end hend, handed]
    · rw [readLoop_of_cons hread, texts_of_cons hread, handed,
        ih _ (hn ▸ readLine_decreases hread) rfl]

end Loop

/-- A text that a line carries unchanged. -/
structure Line where
  text : List Char
  newline_notMem : '\n' ∉ text
  trimmed : trimEnd isLineEnd text = text

namespace Line

def bytes (l : Line) : List UInt8 := encodeUtf8 l.text ++ [newline]

theorem trimEnd_newline (l : Line) : trimEnd isLineEnd (l.text ++ ['\n']) = l.text := by
  have hend : trimEnd isLineEnd (l.text ++ ['\n']) = trimEnd isLineEnd l.text :=
    List.rdropWhile_concat_pos _ _ _ rfl
  rw [hend, l.trimmed]

end Line

/-- What a reader hands out of bytes without a newline. -/
def lastText (ended : Bool) (bytes : List UInt8) : Option (List Char) :=
  if ended then
    match decodeUtf8 bytes with
    | some (c :: text) => some (trimEnd isLineEnd (c :: text))
    | _ => none
  else none

section Stream
variable {r : Reader} {lines : List Line} {l : Line} {bytes tail : List UInt8} {text : List Char}
  {ended : Bool}

theorem texts_of_notMem (h : newline ∉ r.pending) :
    r.texts = (lastText r.ended r.pending).toList := by
  have hread := readLine_of_notMem h
  rw [lastText]
  cases hended : r.ended with
  | false =>
    rw [hended] at hread
    exact texts_of_end fun _ _ hline => by rw [hread] at hline; cases hline
  | true =>
    rw [hended, if_pos rfl] at hread
    rcases hdecode : decodeUtf8 r.pending with _ | _ | ⟨c, text⟩
    · rw [hdecode] at hread
      exact texts_of_end fun _ _ hline => by rw [hread] at hline; cases hline
    · rw [hdecode] at hread
      refine texts_of_end fun _ _ hline => ?_
      rw [hread] at hline
      cases hline
      rfl
    · rw [hdecode] at hread
      have hend : (⟨[], [], true⟩ : Reader).texts = [] := texts_of_end fun _ _ hline => by cases hline; rfl
      rw [texts_of_cons hread, hend]
      rfl

theorem texts_line (h : r.pending = l.bytes ++ bytes) :
    ∃ rest : Reader, r.texts = l.text :: rest.texts ∧ rest.pending = bytes ∧ rest.ended = r.ended := by
  rw [Line.bytes, List.append_assoc, List.singleton_append] at h
  obtain ⟨rest, hread, hpending, hended⟩ :=
    readLine_of_some (h ▸ splitOnce_append (newline_notMem_encodeUtf8 l.newline_notMem) bytes)
  rw [← encodeUtf8_newline, ← encodeUtf8_append, decodeUtf8_encodeUtf8, Option.map_some] at hread
  refine ⟨rest, ?_, hpending, hended⟩
  cases htext : l.text ++ ['\n'] with
  | nil => exact absurd htext (by simp)
  | cons c text =>
    rw [htext] at hread
    rw [texts_of_cons hread, ← htext, l.trimEnd_newline]

theorem texts_lines (h : r.pending = lines.flatMap Line.bytes ++ tail) (htail : newline ∉ tail) :
    r.texts = lines.map Line.text ++ (lastText r.ended tail).toList := by
  induction lines generalizing r with
  | nil =>
    rw [List.flatMap_nil, List.nil_append] at h
    subst h
    exact texts_of_notMem htail
  | cons l lines ih =>
    rw [List.flatMap_cons, List.append_assoc] at h
    obtain ⟨rest, htexts, hpending, hended⟩ := texts_line h
    rw [htexts, ih hpending, hended, List.map_cons, List.cons_append]

/-- Bytes at the start of a stream are whole lines and a part of what comes next. -/
theorem lines_of_prefix (h : bytes <+: lines.flatMap Line.bytes ++ tail) :
    ∃ k ≤ lines.length, ∃ part, bytes = (lines.take k).flatMap Line.bytes ++ part ∧
      ((∃ l, lines[k]? = some l ∧ part <+: encodeUtf8 l.text) ∨ k = lines.length ∧ part <+: tail) := by
  induction lines generalizing bytes with
  | nil => exact ⟨0, Nat.le_refl 0, bytes, rfl, Or.inr ⟨rfl, h⟩⟩
  | cons l lines ih =>
    rw [List.flatMap_cons, List.append_assoc] at h
    by_cases hwhole : l.bytes <+: bytes
    · obtain ⟨more, rfl⟩ := hwhole
      rw [List.prefix_append_right_inj] at h
      obtain ⟨k, hk, part, rfl, hpart⟩ := ih h
      refine ⟨k + 1, Nat.succ_le_succ hk, part, by simp, ?_⟩
      exact hpart.imp_right fun ⟨hlast, hpart⟩ => ⟨congrArg (· + 1) hlast, hpart⟩
    · have hstart := (List.prefix_or_prefix_of_prefix h (List.prefix_append _ _)).resolve_right hwhole
      refine ⟨0, Nat.zero_le _, bytes, rfl, Or.inl ⟨l, rfl, ?_⟩⟩
      refine (List.prefix_concat_iff.mp hstart).resolve_left ?_
      rintro rfl
      exact hwhole (List.prefix_refl _)

theorem prefix_of_mem_lastText (h : tail <+: encodeUtf8 text) {y : List Char}
    (hy : y ∈ lastText ended tail) : y <+: text := by
  rw [lastText] at hy
  split at hy
  · split at hy
    · rename_i hdecode
      rw [decodeUtf8_eq_some] at hdecode
      subst hdecode
      rw [← Option.mem_some.mp hy]
      exact trimEnd_isPrefix.trans (prefix_of_encodeUtf8 h)
    · cases hy
  · cases hy

theorem lastText_nil : lastText ended [] = none := by
  cases ended with
  | false => rfl
  | true => rfl

theorem texts_whole (h : r.pending = lines.flatMap Line.bytes) : r.texts = lines.map Line.text := by
  have hlines : r.pending = lines.flatMap Line.bytes ++ [] := by rw [h, List.append_nil]
  rw [texts_lines hlines List.not_mem_nil, lastText_nil, Option.toList_none, List.append_nil]

/-- However a stream of lines is cut and split, a reader hands out the lines before the cut, and
after them what it makes of the part of the next line. -/
theorem texts_of_prefix (h : r.pending <+: lines.flatMap Line.bytes ++ tail) (htail : newline ∉ tail) :
    ∃ k ≤ lines.length, ∃ part, r.pending = (lines.take k).flatMap Line.bytes ++ part ∧
      newline ∉ part ∧ r.texts = (lines.take k).map Line.text ++ (lastText r.ended part).toList ∧
      ((∃ l, lines[k]? = some l ∧ part <+: encodeUtf8 l.text) ∨ k = lines.length ∧ part <+: tail) := by
  obtain ⟨k, hk, part, hbytes, hpart⟩ := lines_of_prefix h
  have hmem : newline ∉ part := by
    rcases hpart with ⟨l, -, hpart⟩ | ⟨-, hpart⟩
    · exact fun hmem => newline_notMem_encodeUtf8 l.newline_notMem (hpart.subset hmem)
    · exact fun hmem => htail (hpart.subset hmem)
  exact ⟨k, hk, part, hbytes, hmem, texts_lines hbytes hmem, hpart⟩

end Stream

end Epistl.Text.LineReader
