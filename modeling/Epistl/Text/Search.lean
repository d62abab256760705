import Mathlib.Data.List.DropRight
import Mathlib.Data.List.TakeWhile
import Mathlib.Tactic.Common

/-! # Prefixes, searches and trimming of lists

What `strip_prefix`, `find` followed by a slice, `trim` and the first part of a `split` do
to the characters of a string.
-/
namespace Epistl.Text
variable {α : Type*} [DecidableEq α] {p : α → Bool} {marker l rest : List α} {c sep : α}

instance lawfulChars : LawfulBEq (List Char) := inferInstance

/-- `strip_prefix`. -/
def stripPrefix : List α → List α → Option (List α)
  | [], l => some l
  | _ :: _, [] => none
  | m :: marker, c :: l => if c = m then stripPrefix marker l else none

/-- What follows the first occurrence. -/
def after (marker : List α) : List α → Option (List α)
  | [] => stripPrefix marker []
  | c :: l =>
    match stripPrefix marker (c :: l) with
    | some rest => some rest
    | none => after marker l

def trimEnd (p : α → Bool) (l : List α) : List α := l.rdropWhile p

def trim (p : α → Bool) (l : List α) : List α := trimEnd p (l.dropWhile p)

/-- `split(sep).next()`. -/
def firstPart (sep : α) (l : List α) : List α := l.takeWhile fun c => c ≠ sep

/-- What stands before and after the first separator. -/
def splitOnce (sep : α) : List α → Option (List α × List α)
  | [] => none
  | c :: l => if c = sep then some ([], l) else (splitOnce sep l).map fun r => (c :: r.1, r.2)

theorem stripPrefix_eq_some : stripPrefix marker l = some rest ↔ l = marker ++ rest := by
  induction marker generalizing l with
  | nil => simp [stripPrefix]
  | cons m marker ih =>
    cases l with
    | nil => simp [stripPrefix]
    | cons c l =>
      simp only [stripPrefix, List.cons_append, List.cons.injEq]
      split
      · rename_i hc
        rw [ih, and_iff_right hc]
      · rename_i hc
        simp [hc]

theorem stripPrefix_eq_none : stripPrefix marker l = none ↔ ¬marker <+: l := by
  rw [← not_iff_not, not_not, ← ne_eq, Option.ne_none_iff_exists']
  simp only [stripPrefix_eq_some]
  exact ⟨fun ⟨rest, h⟩ => ⟨rest, h.symm⟩, fun ⟨rest, h⟩ => ⟨rest, h.symm⟩⟩

theorem stripPrefix_append (marker rest : List α) :
    stripPrefix marker (marker ++ rest) = some rest := stripPrefix_eq_some.mpr rfl

omit [DecidableEq α] in
theorem trimEnd_cons : trimEnd p (c :: l) =
    if trimEnd p l = [] then (if p c = true then [] else [c]) else c :: trimEnd p l := by
  unfold trimEnd
  rw [List.rdropWhile, List.reverse_cons, List.dropWhile_append, List.rdropWhile]
  by_cases hl : l.reverse.dropWhile p = []
  · simp [hl]
    by_cases hc : p c = true <;> simp [hc]
  · simp [hl]

omit [DecidableEq α] in
theorem trimEnd_trimEnd : trimEnd p (trimEnd p l) = trimEnd p l := List.rdropWhile_idempotent p l

omit [DecidableEq α] in
theorem trimEnd_isPrefix : trimEnd p l <+: l := List.rdropWhile_prefix p l

omit [DecidableEq α] in
theorem trim_concat (hc : p c = true) : trim p (l ++ [c]) = trim p l := by
  rw [trim, trim, List.dropWhile_append]
  split
  · rename_i hblank
    rw [List.isEmpty_iff.mp hblank, List.dropWhile_cons_of_pos hc, List.dropWhile_nil]
  · exact List.rdropWhile_concat_pos _ _ _ hc

omit [DecidableEq α] in
/-- Nothing of a marker is trimmed. -/
theorem trimEnd_append (hmarker : ∀ c ∈ marker, p c = false) :
    trimEnd p (marker ++ rest) = marker ++ trimEnd p rest := by
  induction marker with
  | nil => rfl
  | cons m marker ih =>
    rw [List.cons_append, trimEnd_cons, ih fun c hc => hmarker c (List.mem_cons_of_mem m hc)]
    split
    · rename_i hnil
      rw [List.append_eq_nil_iff] at hnil
      simp [hmarker m List.mem_cons_self, hnil.1, hnil.2]
    · rfl

theorem stripPrefix_trimEnd (hmarker : ∀ c ∈ marker, p c = false) :
    stripPrefix marker (trimEnd p l) = (stripPrefix marker l).map (trimEnd p) := by
  cases h : stripPrefix marker l with
  | none =>
    cases h' : stripPrefix marker (trimEnd p l) with
    | none => rfl
    | some rest =>
      obtain ⟨tail, htail⟩ := trimEnd_isPrefix (p := p) (l := l)
      rw [stripPrefix_eq_some] at h'
      rw [← htail, h', List.append_assoc, stripPrefix_append] at h
      cases h
  | some rest =>
    obtain rfl := stripPrefix_eq_some.mp h
    rw [trimEnd_append hmarker, stripPrefix_append]
    rfl

omit [DecidableEq α] in
theorem trimEnd_cons_of_ne (h : trimEnd p (c :: l) ≠ []) : trimEnd p (c :: l) = c :: trimEnd p l := by
  rw [trimEnd_cons] at h ⊢
  split
  · rename_i hnil
    rw [if_pos hnil] at h
    split
    · rename_i hc
      rw [if_pos hc] at h
      exact absurd rfl h
    · rw [hnil]
  · rfl

theorem stripPrefix_of_blank {m : α} (hm : p m = false) (hl : ∀ c ∈ l, p c = true) :
    stripPrefix (m :: marker) l = none := by
  cases l with
  | nil => rfl
  | cons c l =>
    rw [stripPrefix, if_neg]
    rintro rfl
    rw [hl c List.mem_cons_self] at hm
    cases hm

theorem after_of_blank {m : α} (hm : p m = false) (hl : ∀ c ∈ l, p c = true) :
    after (m :: marker) l = none := by
  induction l with
  | nil => rfl
  | cons c l ih =>
    rw [after, stripPrefix_of_blank hm hl]
    exact ih fun c hc => hl c (List.mem_cons_of_mem _ hc)

/-- What is trimmed before the search is trimmed from what follows. -/
theorem after_trimEnd (hmarker : ∀ c ∈ marker, p c = false) (hne : marker ≠ []) :
    after marker (trimEnd p l) = (after marker l).map (trimEnd p) := by
  obtain ⟨m, marker, rfl⟩ := List.exists_cons_of_ne_nil hne
  induction l with
  | nil => rfl
  | cons c l ih =>
    by_cases hblank : trimEnd p (c :: l) = []
    · rw [hblank, after_of_blank (hmarker m List.mem_cons_self) (List.rdropWhile_eq_nil_iff.mp hblank)]
      rfl
    · have hstrip := stripPrefix_trimEnd (l := c :: l) hmarker
      rw [trimEnd_cons_of_ne hblank] at hstrip ⊢
      rw [after, hstrip, after]
      cases stripPrefix (m :: marker) (c :: l) with
      | none => exact ih
      | some rest => rfl

/-- The search passes what is trimmed at the start. -/
theorem after_dropWhile (hmarker : ∀ c ∈ marker, p c = false) (hne : marker ≠ []) :
    after marker (l.dropWhile p) = after marker l := by
  obtain ⟨m, marker, rfl⟩ := List.exists_cons_of_ne_nil hne
  induction l with
  | nil => rfl
  | cons c l ih =>
    rw [List.dropWhile_cons]
    split
    · rename_i hc
      rw [ih, after, stripPrefix, if_neg]
      rintro rfl
      rw [hmarker c List.mem_cons_self] at hc
      cases hc
    · rfl

theorem after_trim (hmarker : ∀ c ∈ marker, p c = false) (hne : marker ≠ []) :
    after marker (trim p l) = (after marker l).map (trimEnd p) := by
  rw [trim, after_trimEnd hmarker hne, after_dropWhile hmarker hne]

omit [DecidableEq α] in
theorem trimEnd_append_of_ne {u : List α} (h : trimEnd p l ≠ []) :
    trimEnd p (u ++ l) = u ++ trimEnd p l := by
  induction u with
  | nil => rfl
  | cons c u ih =>
    rw [List.cons_append, trimEnd_cons, ih, if_neg]
    · rfl
    · simp [h]

theorem firstPart_append {u v : List α} (hu : sep ∉ u) : firstPart sep (u ++ sep :: v) = u := by
  rw [firstPart, List.takeWhile_append_of_pos]
  · simp
  · intro c hc
    rw [decide_eq_true_eq]
    rintro rfl
    exact hu hc

theorem firstPart_of_notMem (h : sep ∉ l) : firstPart sep l = l := by
  rw [firstPart, List.takeWhile_eq_self_iff]
  intro c hc
  rw [decide_eq_true_eq]
  rintro rfl
  exact h hc

omit [DecidableEq α] in
theorem trim_trimEnd : trim p (trimEnd p l) = trim p l := by
  induction l with
  | nil => rfl
  | cons c l ih =>
    by_cases hblank : trimEnd p (c :: l) = []
    · have hall := List.rdropWhile_eq_nil_iff.mp hblank
      rw [hblank, trim, trim, List.dropWhile_eq_nil_iff.mpr hall, List.dropWhile_nil]
    · have hcons := trimEnd_cons_of_ne hblank
      rw [hcons, trim, trim, List.dropWhile_cons, List.dropWhile_cons]
      split
      · exact ih
      · rw [← hcons, trimEnd_trimEnd]

/-- Trimming the whole leaves the first part, trimmed. -/
theorem trim_firstPart_trimEnd (hsep : p sep = false) :
    trim p (firstPart sep (trimEnd p l)) = trim p (firstPart sep l) := by
  by_cases hl : sep ∈ l
  · obtain ⟨u, v, rfl, hu⟩ := List.eq_append_cons_of_mem hl
    have hmarker : ∀ c ∈ [sep], p c = false := by simpa using hsep
    have hv : trimEnd p (sep :: v) = sep :: trimEnd p v := trimEnd_append hmarker
    rw [trimEnd_append_of_ne (by simp [hv]), hv, firstPart_append hu, firstPart_append hu]
  · have htrim : sep ∉ trimEnd p l := fun h => hl (trimEnd_isPrefix.subset h)
    rw [firstPart_of_notMem hl, firstPart_of_notMem htrim, trim_trimEnd]

theorem splitOnce_eq_some {u v : List α} :
    splitOnce sep l = some (u, v) ↔ l = u ++ sep :: v ∧ sep ∉ u := by
  induction l generalizing u with
  | nil => simp [splitOnce]
  | cons c l ih =>
    rw [splitOnce]
    split
    · rename_i hc
      subst hc
      cases u with
      | nil => simp
      | cons d u => simp +contextual
    · rename_i hc
      cases u with
      | nil => simp [hc]
      | cons d u =>
        constructor
        · intro h
          obtain ⟨⟨u', v'⟩, hr, heq⟩ := Option.map_eq_some_iff.mp h
          cases heq
          obtain ⟨rfl, hu⟩ := ih.mp hr
          exact ⟨rfl, by simp [Ne.symm hc, hu]⟩
        · rintro ⟨heq, hu⟩
          obtain ⟨rfl, rfl⟩ := List.cons.inj heq
          rw [ih.mpr ⟨rfl, fun h => hu (List.mem_cons_of_mem _ h)⟩]
          rfl

theorem splitOnce_append {u : List α} (hu : sep ∉ u) (v : List α) :
    splitOnce sep (u ++ sep :: v) = some (u, v) := splitOnce_eq_some.mpr ⟨rfl, hu⟩

theorem splitOnce_eq_none : splitOnce sep l = none ↔ sep ∉ l := by
  induction l with
  | nil => simp [splitOnce]
  | cons c l ih =>
    rw [splitOnce]
    split
    · rename_i hc
      simp [hc]
    · rename_i hc
      simp [ih, Ne.symm hc]

theorem splitOnce_append_of_some {u v : List α} (h : splitOnce sep l = some (u, v)) (w : List α) :
    splitOnce sep (l ++ w) = some (u, v ++ w) := by
  obtain ⟨rfl, hu⟩ := splitOnce_eq_some.mp h
  rw [List.append_assoc, List.cons_append]
  exact splitOnce_append hu (v ++ w)

theorem splitOnce_append_of_notMem (h : sep ∉ l) (w : List α) :
    splitOnce sep (l ++ w) = (splitOnce sep w).map fun r => (l ++ r.1, r.2) := by
  induction l with
  | nil => simp
  | cons c l ih =>
    rw [List.mem_cons, not_or] at h
    rw [List.cons_append, splitOnce, if_neg (Ne.symm h.1), ih h.2, Option.map_map]
    rfl

end Epistl.Text
