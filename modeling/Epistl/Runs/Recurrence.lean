import Mathlib.Data.List.Basic
import Mathlib.Data.List.Nodup
import Mathlib.Tactic.Common

/-! # Logs whose entries recur only after a repeated reset

Some entries of a log are resets. An entry is settled when every earlier occurrence
is followed by a reset that had itself been logged before that occurrence.
-/
namespace Epistl
variable {α : Type*} {reset : α → Prop} {log : List α} {e x : α} {P Q : α → Prop}

theorem concat_eq_append_cons {a b : List α} (h : log ++ [x] = a ++ e :: b) :
    b = [] ∧ a = log ∧ e = x ∨ ∃ b', b = b' ++ [x] ∧ log = a ++ e :: b' := by
  rcases List.eq_nil_or_concat b with rfl | ⟨b', y, rfl⟩
  · obtain ⟨rfl, he⟩ := List.append_inj' h rfl
    exact .inl ⟨rfl, rfl, (List.singleton_inj.mp he).symm⟩
  · rw [List.concat_eq_append, ← List.cons_append, ← List.append_assoc] at h
    obtain ⟨rfl, he⟩ := List.append_inj' h rfl
    rw [List.singleton_inj] at he
    subst he
    exact .inr ⟨b', List.concat_eq_append, rfl⟩

/-- Since each logged entry with `P` that is no reset, a reset was logged again. -/
def Settled (reset : α → Prop) (log : List α) (P : α → Prop) : Prop :=
  ∀ a e b, log = a ++ e :: b → P e → ¬ reset e → ∃ h ∈ b, reset h ∧ h ∈ a

/-- Between two occurrences of an entry that is no reset, a reset was logged again. -/
def OncePerReset (reset : α → Prop) (log : List α) : Prop :=
  ∀ a e b c, log = a ++ e :: (b ++ e :: c) → ¬ reset e → ∃ h ∈ b, reset h ∧ h ∈ a

namespace Settled

theorem mono (h : Settled reset log P) (hPQ : ∀ e, Q e → P e) : Settled reset log Q :=
  fun a e b hl hQ => h a e b hl (hPQ e hQ)

theorem of_forall_not (h : ∀ e ∈ log, ¬ P e) : Settled reset log P := by
  rintro a e b rfl hP
  exact absurd hP (h e (by simp))

/-- A new entry that is a reset or has not `P` changes nothing. -/
theorem concat (h : Settled reset log P) (hx : P x → reset x) : Settled reset (log ++ [x]) P := by
  intro a e b hl hP hr
  rcases concat_eq_append_cons hl with ⟨-, -, rfl⟩ | ⟨b', rfl, hl'⟩
  · exact absurd (hx hP) hr
  · obtain ⟨y, hy, hreset, ha⟩ := h a e b' hl' hP hr
    exact ⟨y, List.mem_append_left _ hy, hreset, ha⟩

/-- A reset that precedes every entry with `P` settles them. -/
theorem of_reset (hx : reset x) (h : ∀ a e b, log = a ++ e :: b → P e → ¬ reset e → x ∈ a) :
    Settled reset (log ++ [x]) P := by
  intro a e b hl hP hr
  rcases concat_eq_append_cons hl with ⟨-, -, rfl⟩ | ⟨b', rfl, hl'⟩
  · exact absurd hx hr
  · exact ⟨x, by simp, hx, h a e b' hl' hP hr⟩

end Settled

namespace OncePerReset

theorem nil : OncePerReset reset ([] : List α) := by
  intro a e b c h
  simp at h

theorem concat (h : OncePerReset reset log)
    (hx : ¬ reset x → Settled reset log fun e => e = x) : OncePerReset reset (log ++ [x]) := by
  intro a e b c hl hr
  rw [← List.cons_append, ← List.append_assoc] at hl
  rcases concat_eq_append_cons hl with ⟨-, hl', rfl⟩ | ⟨c', -, hl'⟩
  · exact hx hr a e b hl'.symm rfl hr
  · exact h a e b c' (by rw [hl']; simp) hr

theorem not_mem_of_nodup_filter [DecidablePred reset] {a b : List α}
    (h : ((a ++ b).filter reset).Nodup) (hr : reset e) (ha : e ∈ a) : e ∉ b := by
  intro hb
  rw [List.filter_append] at h
  exact (List.disjoint_of_nodup_append h) (List.mem_filter.mpr ⟨ha, decide_eq_true hr⟩)
    (List.mem_filter.mpr ⟨hb, decide_eq_true hr⟩)

/-- While no reset recurs, nothing recurs. -/
theorem nodup [DecidablePred reset] (h : OncePerReset reset log)
    (hresets : (log.filter reset).Nodup) : log.Nodup := by
  rw [List.nodup_iff_sublist]
  intro e he
  obtain ⟨l, l', rfl, hl, he'⟩ := List.cons_sublist_iff.mp he
  have hl' : e ∈ l' := List.singleton_sublist.mp he'
  by_cases hr : reset e
  · exact not_mem_of_nodup_filter hresets hr hl hl'
  · obtain ⟨a, b, rfl⟩ := List.append_of_mem hl
    obtain ⟨b', c, rfl⟩ := List.append_of_mem hl'
    obtain ⟨y, hy, hreset, ha⟩ := h a e (b ++ b') c (by simp) hr
    refine not_mem_of_nodup_filter (a := a) (b := e :: (b ++ b' ++ e :: c)) ?_ hreset ha ?_
    · simpa using hresets
    · simp only [List.mem_cons, List.mem_append]
      exact .inr (.inl (List.mem_append.mp hy))

end OncePerReset

end Epistl
