import Mathlib.Data.List.Basic
import Mathlib.Tactic.Common

/-! # Tasks that pass a milestone in the order they were started

The tasks of a list pass a milestone in order when those that have passed it form a
prefix of the list. A task may then pass only after all tasks before it.
-/
namespace Epistl
variable {α : Type*} {passed : α → Bool} {tasks : List α} {i w : ℕ} {a b : α}

/-- Exactly the first `w` tasks have passed. -/
structure PassedUpTo (passed : α → Bool) (tasks : List α) (w : ℕ) : Prop where
  le : w ≤ tasks.length
  iff : ∀ i a, tasks[i]? = some a → (passed a = true ↔ i < w)

/-- Every task before the `i`th has passed. -/
def AllBefore (passed : α → Bool) (tasks : List α) (i : ℕ) : Prop :=
  ∀ a ∈ tasks.take i, passed a = true

theorem lt_length_of_getElem? (h : tasks[i]? = some a) : i < tasks.length :=
  (List.getElem?_eq_some_iff.mp h).1

theorem getElem?_set_cases {j : ℕ} {c : α} (h : (tasks.set i b)[j]? = some c) :
    j = i ∧ c = b ∨ j ≠ i ∧ tasks[j]? = some c := by
  by_cases hj : j = i
  · subst hj
    have hlt : j < tasks.length := by simpa using lt_length_of_getElem? h
    rw [List.getElem?_set_self hlt] at h
    exact .inl ⟨rfl, (Option.some.inj h).symm⟩
  · rw [List.getElem?_set_ne (Ne.symm hj)] at h
    exact .inr ⟨hj, h⟩

theorem getElem?_concat_cases {j : ℕ} {c : α} (h : (tasks ++ [b])[j]? = some c) :
    j = tasks.length ∧ c = b ∨ tasks[j]? = some c := by
  by_cases hj : j < tasks.length
  · rw [List.getElem?_append_left hj] at h
    exact .inr h
  · have hlt := lt_length_of_getElem? h
    rw [List.length_append, List.length_singleton] at hlt
    obtain rfl : j = tasks.length := by omega
    rw [List.getElem?_concat_length] at h
    exact .inl ⟨rfl, (Option.some.inj h).symm⟩

theorem getElem?_modify_cases {f : α → α} {j : ℕ} {c : α} (h : (tasks.modify i f)[j]? = some c) :
    ∃ a, tasks[j]? = some a ∧ c = if i = j then f a else a := by
  rw [List.getElem?_modify] at h
  obtain ⟨a, ha, rfl⟩ := Option.map_eq_some_iff.mp h
  exact ⟨a, ha, rfl⟩

namespace PassedUpTo

theorem nil : PassedUpTo passed [] 0 := ⟨Nat.le_refl 0, fun i a h => by simp at h⟩

/-- A new task has not passed. -/
theorem push (h : PassedUpTo passed tasks w) (hb : passed b = false) :
    PassedUpTo passed (tasks ++ [b]) w where
  le := by
    rw [List.length_append]
    exact Nat.le_add_right_of_le h.le
  iff i a ha := by
    rcases getElem?_concat_cases ha with ⟨rfl, rfl⟩ | ha
    · simp [hb, h.le]
    · exact h.iff i a ha

/-- A task moves on without passing. -/
theorem keep (h : PassedUpTo passed tasks w) (ha : tasks[i]? = some a) (hb : passed b = passed a) :
    PassedUpTo passed (tasks.set i b) w where
  le := by simpa using h.le
  iff j c hc := by
    rcases getElem?_set_cases hc with ⟨rfl, rfl⟩ | ⟨-, hc⟩
    · rw [hb]
      exact h.iff j a ha
    · exact h.iff j c hc

/-- A task that passes after all before it is the next one. -/
theorem eq_of_next (h : PassedUpTo passed tasks w) (hi : AllBefore passed tasks i)
    (ha : tasks[i]? = some a) (hnot : passed a = false) : i = w := by
  have hle : w ≤ i := by
    by_contra hlt
    have := (h.iff i a ha).mpr (by omega)
    rw [hnot] at this
    cases this
  by_contra hne
  have hw : w < tasks.length := Nat.lt_of_le_of_lt hle (lt_length_of_getElem? ha)
  have hpass := hi tasks[w] (List.mem_take_iff_getElem.mpr ⟨w, by omega, rfl⟩)
  exact Nat.lt_irrefl w ((h.iff w _ (List.getElem?_eq_getElem hw)).mp hpass)

theorem next (h : PassedUpTo passed tasks w) (ha : tasks[w]? = some a) (hb : passed b = true) :
    PassedUpTo passed (tasks.set w b) (w + 1) where
  le := by
    rw [List.length_set]
    exact lt_length_of_getElem? ha
  iff j c hc := by
    rcases getElem?_set_cases hc with ⟨rfl, rfl⟩ | ⟨hj, hc⟩
    · simp [hb]
    · rw [h.iff j c hc]
      omega

/-- When every task has passed, the milestone is at the end. -/
theorem eq_length (h : PassedUpTo passed tasks w) (hall : ∀ a ∈ tasks, passed a = true) :
    w = tasks.length := by
  refine Nat.le_antisymm h.le (Nat.le_of_not_lt fun hlt => ?_)
  have hpass := hall tasks[w] (List.getElem_mem hlt)
  exact Nat.lt_irrefl w ((h.iff w _ (List.getElem?_eq_getElem hlt)).mp hpass)

end PassedUpTo

end Epistl
