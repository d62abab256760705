import Mathlib.Data.List.Forall2
import Mathlib.Data.List.Sort

/-! # Lists in order of age

A list that grows at its head keeps the age of every entry it has. A log that is strictly ordered
is a part of any other one that has its entries and is ordered the same way.
-/
namespace Epistl
variable {α β γ : Type*} {a b : α} {xs ys : List α} {es fs : List β}

open Classical in
/-- How many entries are older than this one. -/
noncomputable def age (xs : List α) (a : α) : ℕ := xs.reverse.idxOf a

theorem age_of_suffix (h : xs <:+ ys) (ha : a ∈ xs) : age ys a = age xs a := by
  classical
  obtain ⟨newer, rfl⟩ := h
  rw [age, List.reverse_append]
  exact List.idxOf_append_of_mem (List.mem_reverse.mpr ha)

/-- A new entry is younger than every other one. -/
theorem age_lt_of_mem (ha : a ∈ xs) (hb : b ∉ xs) : age (b :: xs) a < age (b :: xs) b := by
  classical
  have hlt : age xs a < xs.reverse.length := List.idxOf_lt_length_of_mem (List.mem_reverse.mpr ha)
  have hage : age (b :: xs) b = xs.reverse.length + [b].idxOf b := by
    rw [age, List.reverse_cons]
    exact List.idxOf_append_of_notMem fun h => hb (List.mem_reverse.mp h)
  rw [age_of_suffix (List.suffix_cons b xs) ha, hage]
  omega

theorem sublist_of_pairwise {R : α → α → Prop} (hasymm : ∀ a b, R a b → ¬ R b a)
    (hxs : xs.Pairwise R) (hys : ys.Pairwise R) (hsub : xs ⊆ ys) : xs.Sublist ys := by
  have : Std.Antisymm R := ⟨fun a b h h' => absurd h' (hasymm a b h)⟩
  have hnodup : xs.Nodup := by
    refine hxs.imp fun {a b} h => ?_
    rintro rfl
    exact hasymm a a h h
  exact List.sublist_of_subperm_of_pairwise (List.subperm_of_subset hnodup hsub) hxs hys

/-- What matches a part of a list is a part of what matches the list. -/
theorem exists_sublist {R : α → β → Prop} (h : List.Forall₂ R xs es) (hsub : fs.Sublist es) :
    ∃ ys, ys.Sublist xs ∧ List.Forall₂ R ys fs := by
  induction hsub generalizing xs with
  | slnil => exact ⟨[], List.nil_sublist xs, .nil⟩
  | cons e _ ih =>
    obtain ⟨x, xs, -, hxs, rfl⟩ := List.forall₂_cons_right_iff.mp h
    obtain ⟨ys, hys, hmatch⟩ := ih hxs
    exact ⟨ys, hys.cons x, hmatch⟩
  | cons_cons e _ ih =>
    obtain ⟨x, xs, hx, hxs, rfl⟩ := List.forall₂_cons_right_iff.mp h
    obtain ⟨ys, hys, hmatch⟩ := ih hxs
    exact ⟨x :: ys, hys.cons_cons x, .cons hx hmatch⟩

/-- Two lists that match the same entries agree in what an entry fixes. -/
theorem map_eq_of_forall₂ {R : α → β → Prop} {f : α → γ} (h : List.Forall₂ R xs es)
    (h' : List.Forall₂ R ys es) (hf : ∀ x y e, R x e → R y e → f x = f y) :
    xs.map f = ys.map f := by
  induction h generalizing ys with
  | nil =>
    cases h'
    rfl
  | @cons x e xs es hx _ ih =>
    obtain ⟨y, ys, hy, hys, rfl⟩ := List.forall₂_cons_right_iff.mp h'
    rw [List.map_cons, List.map_cons, hf x y e hx hy, ih hys]

end Epistl
