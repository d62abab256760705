import Epistl.Text.Search
import Mathlib.Data.List.Infix

/-! # Markers in a text

Where `find` sees a marker first. The markers here begin with a character that does not come
again in them, so two of them never overlap.
-/
namespace Epistl.Text
variable {α : Type*} {marker l u v w : List α} {c : α}

/-- An occurrence in two texts that are joined is in one of them or lies across the joint. -/
theorem infix_append_cases (h : w <:+: u ++ v) : w <:+: u ∨ w <:+: v ∨
    ∃ a b, a ≠ [] ∧ b ≠ [] ∧ w = a ++ b ∧ a <:+ u ∧ b <+: v := by
  obtain ⟨p, q, hpq⟩ := h
  rw [List.append_assoc] at hpq
  rcases List.append_eq_append_iff.mp hpq with ⟨z, hu, hwq⟩ | ⟨z, -, hv⟩
  · rcases List.append_eq_append_iff.mp hwq with ⟨y, hz, -⟩ | ⟨y, hw, hv⟩
    · exact Or.inl ⟨p, y, by rw [hu, hz, List.append_assoc]⟩
    · by_cases hznil : z = []
      · subst hznil
        exact Or.inr (Or.inl ⟨[], q, by rw [hv, hw]; rfl⟩)
      · by_cases hynil : y = []
        · subst hynil
          exact Or.inl ⟨p, [], by rw [hu, hw]; simp⟩
        · exact Or.inr (Or.inr ⟨z, y, hznil, hynil, hw, ⟨p, hu.symm⟩, ⟨q, hv.symm⟩⟩)
  · exact Or.inr (Or.inl ⟨z, q, by rw [hv, List.append_assoc]⟩)

/-- A text without the character lies on one side of it. -/
theorem infix_append_cons (hc : c ∉ w) (h : w <:+: u ++ c :: v) : w <:+: u ∨ w <:+: v := by
  rcases infix_append_cases h with h | h | ⟨a, b, -, hb, rfl, -, hbv⟩
  · exact Or.inl h
  · rcases List.infix_cons_iff.mp h with h | h
    · cases w with
      | nil => exact Or.inr (List.nil_infix)
      | cons d w =>
        obtain ⟨rfl, -⟩ := List.cons_prefix_cons.mp h
        exact absurd List.mem_cons_self hc
    · exact Or.inr h
  · cases b with
    | nil => exact absurd rfl hb
    | cons d b =>
      obtain ⟨rfl, -⟩ := List.cons_prefix_cons.mp hbv
      exact absurd (List.mem_append_right _ List.mem_cons_self) hc

theorem infix_intercalate {ls : List (List α)} (hne : w ≠ []) (hc : c ∉ w)
    (h : w <:+: [c].intercalate ls) : ∃ l ∈ ls, w <:+: l := by
  induction ls with
  | nil => exact absurd (List.infix_nil.mp h) hne
  | cons l ls ih =>
    cases ls with
    | nil => exact ⟨l, List.mem_singleton_self _, by simpa using h⟩
    | cons l' ls =>
      rw [List.intercalate_cons_cons, List.append_assoc, List.singleton_append] at h
      rcases infix_append_cons hc h with h | h
      · exact ⟨l, List.mem_cons_self, h⟩
      · obtain ⟨l'', hmem, hinfix⟩ := ih h
        exact ⟨l'', List.mem_cons_of_mem _ hmem, hinfix⟩

theorem infix_intercalate_of_mem {ls : List (List α)} (sep : List α) (h : l ∈ ls) :
    l <:+: sep.intercalate ls := by
  induction ls with
  | nil => cases h
  | cons l' ls ih =>
    cases ls with
    | nil =>
      rw [List.mem_singleton.mp h, List.intercalate_singleton]
    | cons l'' ls =>
      rw [List.intercalate_cons_cons]
      rcases List.mem_cons.mp h with rfl | h
      · exact ⟨[], sep ++ sep.intercalate (l'' :: ls), by simp⟩
      · exact (ih h).trans (List.suffix_append _ _).isInfix

variable [DecidableEq α]

/-- What stands before and after the first occurrence. -/
def splitFirst (marker : List α) : List α → Option (List α × List α)
  | [] => (stripPrefix marker []).map fun rest => ([], rest)
  | c :: l =>
    match stripPrefix marker (c :: l) with
    | some rest => some ([], rest)
    | none => (splitFirst marker l).map fun r => (c :: r.1, r.2)

theorem splitFirst_eq_none : splitFirst marker l = none ↔ ¬marker <:+: l := by
  induction l with
  | nil =>
    rw [splitFirst, Option.map_eq_none_iff, stripPrefix_eq_none]
    simp
  | cons c l ih =>
    rw [splitFirst, List.infix_cons_iff, not_or, ← ih, ← stripPrefix_eq_none]
    cases stripPrefix marker (c :: l) <;> simp

theorem splitFirst_eq_some (hne : marker ≠ []) (h : splitFirst marker l = some (u, v)) :
    l = u ++ marker ++ v ∧ ¬marker <:+: u := by
  induction l generalizing u with
  | nil =>
    obtain ⟨rest, hrest, -⟩ := Option.map_eq_some_iff.mp h
    exact absurd (List.append_eq_nil_iff.mp (stripPrefix_eq_some.mp hrest).symm).1 hne
  | cons c l ih =>
    rw [splitFirst] at h
    cases hstrip : stripPrefix marker (c :: l) with
    | some rest =>
      rw [hstrip] at h
      cases h
      exact ⟨stripPrefix_eq_some.mp hstrip, by simpa using hne⟩
    | none =>
      rw [hstrip] at h
      obtain ⟨⟨u', v'⟩, hr, heq⟩ := Option.map_eq_some_iff.mp h
      cases heq
      obtain ⟨rfl, hu⟩ := ih hr
      refine ⟨rfl, fun hinfix => ?_⟩
      rcases List.infix_cons_iff.mp hinfix with hstart | hinfix
      · refine stripPrefix_eq_none.mp hstrip (hstart.trans ⟨marker ++ v', ?_⟩)
        simp
      · exact hu hinfix

/-- A marker is found behind a text without it. -/
theorem splitFirst_append (hc : c ∉ w) (hu : ¬c :: w <:+: u) :
    splitFirst (c :: w) (u ++ c :: w ++ v) = some (u, v) := by
  induction u with
  | nil =>
    rw [List.nil_append, List.cons_append, splitFirst]
    rw [stripPrefix_eq_some.mpr (List.cons_append).symm]
  | cons d u ih =>
    rw [List.infix_cons_iff, not_or] at hu
    have hstrip : stripPrefix (c :: w) (d :: (u ++ c :: w ++ v)) = none := by
      rw [stripPrefix_eq_none]
      rintro ⟨rest, hrest⟩
      rw [List.cons_append, List.append_assoc] at hrest
      obtain ⟨rfl, htail⟩ := List.cons.inj hrest
      rcases List.append_eq_append_iff.mp htail with ⟨z, huz, -⟩ | ⟨z, hwz, hz⟩
      · exact hu.1 ⟨z, by rw [huz]; rfl⟩
      · cases z with
        | nil => exact hu.1 ⟨[], by rw [hwz]; simp⟩
        | cons e z =>
          obtain ⟨rfl, -⟩ := List.cons.inj hz
          exact hc (by rw [hwz]; simp)
    rw [List.cons_append, List.cons_append, splitFirst, hstrip]
    simp only [ih hu.2, Option.map_some]

end Epistl.Text
