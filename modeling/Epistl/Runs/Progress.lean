import Epistl.Runs.Machine

/-! # What can still be reached

A run that was started can be continued from where it is. A goal can be reached from every
state of an invariant when from each such state a continuation leads to the goal, or to a
state of the invariant with a smaller variant.
-/
namespace Epistl.Machine
variable {σ α : Type*} {M : Machine σ α} {G : σ → α → Prop} {P : σ → Prop} {s t u : σ}

/-- The machine whose runs begin in `s`. -/
def From (M : Machine σ α) (s : σ) : Machine σ α where
  init t := t = s
  step := M.step

/-- A guarded run leads from `s` to `t`. -/
def Leads (M : Machine σ α) (G : σ → α → Prop) (s t : σ) : Prop := (M.From s).Reach G t

theorem Leads.refl (s : σ) : M.Leads G s s := Reach.init rfl

theorem Leads.single {a : α} (hg : G s a) (he : M.step s a = some t) : M.Leads G s t :=
  Reach.step (Leads.refl s) hg he

theorem Leads.trans (hst : M.Leads G s t) (htu : M.Leads G t u) : M.Leads G s u := by
  change (M.From t).Reach G u at htu
  induction htu with
  | init h =>
    cases h
    exact hst
  | step _ hg he ih => exact Reach.step ih hg he

/-- The runs to `s` go on to what it leads to. -/
theorem Reach.leads (hs : M.Reach G s) (hst : M.Leads G s t) : M.Reach G t := by
  change (M.From s).Reach G t at hst
  induction hst with
  | init h =>
    cases h
    exact hs
  | step _ hg he ih => exact .step ih hg he

/-- Some continuation of the run reaches the goal. -/
def Can (M : Machine σ α) (G : σ → α → Prop) (s : σ) (P : σ → Prop) : Prop :=
  ∃ t, M.Leads G s t ∧ P t

theorem Can.of_leads (hst : M.Leads G s t) (ht : M.Can G t P) : M.Can G s P := by
  obtain ⟨u, htu, hu⟩ := ht
  exact ⟨u, hst.trans htu, hu⟩

theorem Can.of_variant {I : σ → Prop} (variant : σ → ℕ)
    (hstep : ∀ s, I s → ∃ t, M.Leads G s t ∧ (P t ∨ I t ∧ variant t < variant s)) (hs : I s) :
    M.Can G s P := by
  induction hn : variant s using Nat.strongRecOn generalizing s with
  | ind n ih =>
    obtain ⟨t, hst, ht | ⟨ht, hlt⟩⟩ := hstep s hs
    · exact ⟨t, hst, ht⟩
    · exact .of_leads hst (ih (variant t) (hn ▸ hlt) ht rfl)

end Epistl.Machine
