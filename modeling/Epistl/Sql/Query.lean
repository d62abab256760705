import Mathlib.Data.List.Dedup
import Mathlib.Tactic.Common

/-! # Windows, joins and distinct rows

`ROW_NUMBER()` over a partition, `SELECT DISTINCT` and `LEFT JOIN` on lists of rows.
-/
namespace Epistl.Sql
variable {α β γ : Type*}

/-- `ROW_NUMBER() OVER (PARTITION BY part ORDER BY before)`. -/
def rowNumber [DecidableEq β] (part : α → β) (before : α → α → Prop) [DecidableRel before]
    (rows : List α) (a : α) : ℕ :=
  (rows.filter fun b => part b = part a ∧ before b a).length + 1

/-- The first row of a partition is the one with none before it. -/
theorem rowNumber_eq_one [DecidableEq β] {part : α → β} {before : α → α → Prop}
    [DecidableRel before] {rows : List α} {a : α} :
    rowNumber part before rows a = 1 ↔ ∀ b ∈ rows, part b = part a → ¬before b a := by
  rw [rowNumber, Nat.add_eq_right, List.length_eq_zero_iff, List.filter_eq_nil_iff]
  simp

/-- `LEFT JOIN right ON on`. -/
def leftJoin (on : α → γ → Bool) (left : List α) (right : List γ) : List (α × Option γ) :=
  left.flatMap fun a =>
    match right.filter (on a) with
    | [] => [(a, none)]
    | matching => matching.map fun c => (a, some c)

/-- Every row matches one row on the right at most. -/
theorem leftJoin_eq {on : α → γ → Bool} {left : List α} {right : List γ} (hnodup : right.Nodup)
    (hone : ∀ a ∈ left, ∀ c d, on a c = true → on a d = true → c = d) :
    leftJoin on left right = left.map fun a => (a, right.find? (on a)) := by
  rw [leftJoin, List.map_eq_flatMap]
  apply List.flatMap_congr
  intro a ha
  rw [← List.head?_filter]
  cases hm : right.filter (on a) with
  | nil => rfl
  | cons c rest =>
    have hrest : rest = [] := by
      rw [List.eq_nil_iff_forall_not_mem]
      intro d hd
      have hc : c ∈ right.filter (on a) := hm ▸ List.mem_cons_self
      have hd' : d ∈ right.filter (on a) := hm ▸ List.mem_cons_of_mem c hd
      obtain rfl := hone a ha c d (List.mem_filter.mp hc).2 (List.mem_filter.mp hd').2
      have hnodup' := hm ▸ hnodup.filter (on a)
      exact (List.nodup_cons.mp hnodup').1 hd
    rw [hrest]
    rfl

end Epistl.Sql
