import Mathlib.Data.Set.Basic
import Mathlib.Tactic.Common

/-! # What can be deduced from a set of values

A rule leads from a list of values to one more. What an attacker can compute is the
closure of what is given under the rules. A value stays out of it when it lies in a
guarded set: no value of the set is given, and no rule enters it from outside.
-/
namespace Epistl
variable {α : Type*}

inductive Deducible (rule : List α → α → Prop) (given : Set α) : α → Prop
  | given {x : α} : x ∈ given → Deducible rule given x
  | derive {premises : List α} {x : α} :
    rule premises x → (∀ p ∈ premises, Deducible rule given p) → Deducible rule given x

namespace Deducible
variable {rule : List α → α → Prop} {given given' : Set α} {x : α}

theorem mono (hsub : given ⊆ given') (h : Deducible rule given x) : Deducible rule given' x := by
  induction h with
  | given hx => exact .given (hsub hx)
  | derive hr _ ih => exact .derive hr ih

end Deducible

/-- A set that is neither given in part nor entered by a rule. -/
structure Guarded (rule : List α → α → Prop) (given : Set α) (secret : α → Prop) : Prop where
  notGiven : ∀ x ∈ given, ¬secret x
  premise : ∀ {premises x}, rule premises x → secret x → ∃ p ∈ premises, secret p

variable {rule : List α → α → Prop} {given : Set α} {secret : α → Prop} {x : α}

theorem Guarded.not_deducible (h : Guarded rule given secret) (hx : secret x) :
    ¬Deducible rule given x := by
  intro hd
  induction hd with
  | given hmem => exact h.notGiven _ hmem hx
  | derive hr _ ih =>
    obtain ⟨p, hp, hsecret⟩ := h.premise hr hx
    exact ih p hp hsecret

end Epistl
