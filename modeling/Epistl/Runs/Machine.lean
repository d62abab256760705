import Mathlib.Data.List.Basic
import Mathlib.Tactic.Common

/-! # Guarded runs of an executable machine

A machine has initial states and a partial step function on labelled actions.
Scheduling, the network and randomness are all in the action, so a step computes.
A guard restricts which action a run may take in which state; the unguarded runs
are those of the guard that allows everything.
-/
namespace Epistl

structure Machine (σ α : Type*) where
  init : σ → Prop
  step : σ → α → Option σ

namespace Machine
variable {σ α : Type*} {M : Machine σ α} {G H : σ → α → Prop}

/-- The guard of the unrestricted runs. -/
def anyStep (_ : σ) (_ : α) : Prop := True

/-- The states of the runs in which every step is allowed by the guard. -/
inductive Reach (M : Machine σ α) (G : σ → α → Prop) : σ → Prop
  | init {s : σ} : M.init s → Reach M G s
  | step {s t : σ} {a : α} : Reach M G s → G s a → M.step s a = some t → Reach M G t

theorem Reach.mono (hGH : ∀ s a, G s a → H s a) {s : σ} (h : M.Reach G s) : M.Reach H s := by
  induction h with
  | init h => exact .init h
  | step _ hg he ih => exact .step ih (hGH _ _ hg) he

/-- A predicate that holds initially and is kept by every allowed step holds in
every reachable state. -/
theorem Reach.invariant {I : σ → Prop} (hinit : ∀ s, M.init s → I s)
    (hstep : ∀ s a t, I s → G s a → M.step s a = some t → I t) {s : σ} (h : M.Reach G s) : I s := by
  induction h with
  | init h => exact hinit _ h
  | step _ hg he ih => exact hstep _ _ _ ih hg he

/-- The invariant rule relative to an invariant that is already proved. -/
theorem Reach.invariant_of {I J : σ → Prop} (hJ : ∀ s, M.Reach G s → J s)
    (hinit : ∀ s, M.init s → I s)
    (hstep : ∀ s a t, J s → I s → G s a → M.step s a = some t → I t) {s : σ}
    (h : M.Reach G s) : I s := by
  induction h with
  | init h => exact hinit _ h
  | step hr hg he ih => exact hstep _ _ _ (hJ _ hr) ih hg he

/-- Executes a list of actions, `none` when one of them is not enabled. -/
def exec (M : Machine σ α) : σ → List α → Option σ
  | s, [] => some s
  | s, a :: as => (M.step s a).bind (fun t => exec M t as)

theorem exec_append (s : σ) (as bs : List α) :
    M.exec s (as ++ bs) = (M.exec s as).bind fun t => M.exec t bs := by
  induction as generalizing s with
  | nil => rfl
  | cons a as ih =>
    simp only [List.cons_append, exec]
    cases M.step s a with
    | none => rfl
    | some t => exact ih t

/-- The run to which one more action was added. -/
theorem exec_concat {as : List α} {a : α} {s u : σ} :
    M.exec s (as ++ [a]) = some u ↔ ∃ t, M.exec s as = some t ∧ M.step t a = some u := by
  rw [exec_append, Option.bind_eq_some_iff]
  simp [exec]

theorem Reach.exec {as : List α} {s t : σ} (h : M.Reach anyStep s)
    (he : M.exec s as = some t) : M.Reach anyStep t := by
  induction as generalizing s with
  | nil =>
    cases he
    exact h
  | cons a as ih =>
    obtain ⟨u, hu, he⟩ := Option.bind_eq_some_iff.mp he
    exact ih (.step h trivial hu) he

instance decidableAnyStep (s : σ) (a : α) : Decidable (anyStep s a) := isTrue trivial

/-- Executes a list of actions as long as the guard allows them. -/
def execIf (M : Machine σ α) (G : σ → α → Prop) [∀ s a, Decidable (G s a)] :
    σ → List α → Option σ
  | s, [] => some s
  | s, a :: as => if G s a then (M.step s a).bind fun t => execIf M G t as else none

theorem Reach.execIf [∀ s a, Decidable (G s a)] {as : List α} {s t : σ} (h : M.Reach G s)
    (he : M.execIf G s as = some t) : M.Reach G t := by
  induction as generalizing s with
  | nil =>
    cases he
    exact h
  | cons a as ih =>
    simp only [Machine.execIf] at he
    split at he
    · rename_i hg
      obtain ⟨u, hu, he⟩ := Option.bind_eq_some_iff.mp he
      exact ih (.step h hg hu) he
    · cases he

/-- A state with a computed property at the end of a guarded run. -/
theorem Reach.of_execIf [∀ s a, Decidable (G s a)] {s : σ} {p : σ → Bool} (as : List α)
    (hs : M.init s) (he : (M.execIf G s as).any p = true) : ∃ t, M.Reach G t ∧ p t = true := by
  obtain ⟨t, ht, hp⟩ := (Option.any_eq_true p _).mp he
  exact ⟨t, (Reach.init hs).execIf ht, hp⟩

/-- Every step of the run is allowed by the guard. -/
def Obeys (M : Machine σ α) (G : σ → α → Prop) : σ → List α → Prop
  | _, [] => True
  | s, a :: as => G s a ∧ ∀ t, M.step s a = some t → Obeys M G t as

/-- A guard that looks at the actions alone. -/
theorem Obeys.of_forall {as : List α} (h : ∀ a ∈ as, ∀ s, G s a) (s : σ) : M.Obeys G s as := by
  induction as generalizing s with
  | nil => trivial
  | cons a as ih =>
    exact ⟨h a List.mem_cons_self s, fun t _ => ih (fun b hb => h b (List.mem_cons_of_mem a hb)) t⟩

theorem Obeys.invariant {I : σ → Prop}
    (hstep : ∀ s a t, I s → G s a → M.step s a = some t → I t) {as : List α} {s t : σ}
    (h : M.Obeys G s as) (hs : I s) (he : M.exec s as = some t) : I t := by
  induction as generalizing s with
  | nil =>
    cases he
    exact hs
  | cons a as ih =>
    obtain ⟨u, hu, he⟩ := Option.bind_eq_some_iff.mp he
    exact ih (h.2 u hu) (hstep s a u hs h.1 hu) he

theorem exec_invariant {I : σ → Prop} (hstep : ∀ s a t, I s → M.step s a = some t → I t)
    {as : List α} {s t : σ} (hs : I s) (he : M.exec s as = some t) : I t := by
  induction as generalizing s with
  | nil =>
    cases he
    exact hs
  | cons a as ih =>
    obtain ⟨u, hu, he⟩ := Option.bind_eq_some_iff.mp he
    exact ih (hstep s a u hs hu) he

/-- The first step of a run that is not allowed, with what follows it. -/
theorem exists_of_not_obeys {as : List α} {s t : σ} (h : ¬M.Obeys G s as)
    (he : M.exec s as = some t) :
    ∃ u a v bs, ¬G u a ∧ M.step u a = some v ∧ M.exec v bs = some t := by
  induction as generalizing s with
  | nil => exact absurd trivial h
  | cons a as ih =>
    obtain ⟨u, hu, he⟩ := Option.bind_eq_some_iff.mp he
    by_cases hg : G s a
    · refine ih (fun hobeys => h ⟨hg, fun v hv => ?_⟩) he
      cases hu.symm.trans hv
      exact hobeys
    · exact ⟨s, a, u, as, hg, hu, he⟩

/-- What an allowed step of `M` amounts to under `f` is nothing, or an allowed step of `N`. -/
structure Simulation {τ β : Type*} (M : Machine σ α) (G : σ → α → Prop) (N : Machine τ β)
    (H : τ → β → Prop) (I : σ → Prop) (f : σ → τ) : Prop where
  init : ∀ s, M.init s → I s ∧ N.init (f s)
  step : ∀ s a t, I s → G s a → M.step s a = some t →
    I t ∧ (f t = f s ∨ ∃ b, H (f s) b ∧ N.step (f s) b = some (f t))

theorem Simulation.reach {τ β : Type*} {N : Machine τ β} {H : τ → β → Prop} {I : σ → Prop}
    {f : σ → τ} (sim : M.Simulation G N H I f) {s : σ} (h : M.Reach G s) : I s ∧ N.Reach H (f s) := by
  induction h with
  | init h => exact ⟨(sim.init _ h).1, .init (sim.init _ h).2⟩
  | step _ hg he ih =>
    obtain ⟨hinv, heq | ⟨b, hb, hstep⟩⟩ := sim.step _ _ _ ih.1 hg he
    · rw [heq]
      exact ⟨hinv, ih.2⟩
    · exact ⟨hinv, .step ih.2 hb hstep⟩

end Machine

end Epistl
