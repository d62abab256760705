import Mathlib.Data.List.Sort
import Mathlib.Tactic.Common

/-! # Rows that are selected, ordered and limited

`SELECT ... WHERE p ORDER BY r LIMIT n` lists the first rows with `p`: none of the rows it
leaves out comes before one that it lists, and it leaves none out while there is room.
-/
namespace Epistl.Sql
variable {α : Type*}

def select (p : α → Bool) (r : α → α → Prop) [DecidableRel r] (n : ℕ) (rows : List α) : List α :=
  ((rows.filter p).insertionSort r).take n

/-- `l` is the first `n` of the rows with `p`. -/
structure First (p : α → Prop) (r : α → α → Prop) (n : ℕ) (rows l : List α) : Prop where
  sorted : l.Pairwise r
  nodup : l.Nodup
  short : l.length ≤ n
  mem {a : α} : a ∈ l → a ∈ rows ∧ p a
  left {a : α} : a ∈ rows → p a → a ∉ l → l.length = n ∧ ∀ b ∈ l, r b a

theorem First.congr {p q : α → Prop} {r : α → α → Prop} {n : ℕ} {rows l : List α}
    (h : First p r n rows l) (hpq : ∀ a ∈ rows, p a ↔ q a) : First q r n rows l where
  sorted := h.sorted
  nodup := h.nodup
  short := h.short
  mem ha := ⟨(h.mem ha).1, (hpq _ (h.mem ha).1).mp (h.mem ha).2⟩
  left ha hq hl := h.left ha ((hpq _ ha).mpr hq) hl

variable {p : α → Bool} {r : α → α → Prop} [DecidableRel r] [Std.Total r] [IsTrans α r] {n : ℕ}
  {rows : List α}

theorem select_first (hnodup : rows.Nodup) :
    First (fun a => p a = true) r n rows (select p r n rows) := by
  have hsorted := List.pairwise_insertionSort r (rows.filter p)
  have hmem {a : α} : a ∈ (rows.filter p).insertionSort r ↔ a ∈ rows ∧ p a = true := by
    rw [List.mem_insertionSort, List.mem_filter]
  refine ⟨hsorted.sublist (List.take_sublist _ _), ?_, List.length_take_le _ _,
    fun ha => hmem.mp (List.mem_of_mem_take ha), fun {a} ha hp hleft => ?_⟩
  · apply List.Nodup.sublist (List.take_sublist _ _)
    exact (List.perm_insertionSort r _).nodup_iff.mpr (hnodup.filter _)
  · have hdrop : a ∈ ((rows.filter p).insertionSort r).drop n := by
      have hall := hmem.mpr ⟨ha, hp⟩
      rw [← List.take_append_drop n ((rows.filter p).insertionSort r)] at hall
      exact (List.mem_append.mp hall).resolve_left hleft
    constructor
    · apply List.length_take_of_le
      by_contra hlt
      rw [List.drop_eq_nil_of_le (by omega)] at hdrop
      cases hdrop
    · intro b hb
      rw [← List.take_append_drop n ((rows.filter p).insertionSort r)] at hsorted
      exact (List.pairwise_append.mp hsorted).2.2 b hb a hdrop

end Epistl.Sql
