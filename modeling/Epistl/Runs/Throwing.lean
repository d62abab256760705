import Mathlib.Tactic.Common

/-! # Computations that throw

Pre- and postconditions of a computation with a state and exceptions. What happened to the
state before an exception stays, so there are two postconditions: one for a value and one
for an exception.
-/
namespace Epistl
variable {ε ω α β : Type}

/-- What follows a computation that returns. -/
theorem bind_of_ok {m : EStateM ε ω α} {f : α → EStateM ε ω β} {s t : ω} {a : α}
    (h : m s = .ok a t) : (m >>= f) s = f a t := by
  change (match m s with
    | .ok a t => f a t
    | .error e t => .error e t) = f a t
  rw [h]

theorem bind_of_error {m : EStateM ε ω α} {f : α → EStateM ε ω β} {s t : ω} {e : ε}
    (h : m s = .error e t) : (m >>= f) s = .error e t := by
  change (match m s with
    | .ok a t => f a t
    | .error e t => .error e t) = .error e t
  rw [h]

/-- A computation in a `try` block. -/
theorem tryCatch_apply {m : EStateM ε ω α} {handle : ε → EStateM ε ω α} {s : ω} :
    tryCatch m handle s = match m s with
      | .ok a t => .ok a t
      | .error e t => handle e t := by
  simp only [MonadExcept.tryCatch, tryCatchThe, MonadExceptOf.tryCatch, EStateM.tryCatch]
  cases m s <;> rfl

/-- From a state in `P` the computation returns a value into `Q` or throws into `E`. -/
def Ensures (P : ω → Prop) (m : EStateM ε ω α) (Q : α → ω → Prop) (E : ω → Prop) : Prop :=
  ∀ s, P s → match m s with
    | .ok a t => Q a t
    | .error _ t => E t

namespace Ensures
variable {P P' : ω → Prop} {Q Q' : α → ω → Prop} {R : β → ω → Prop} {E E' : ω → Prop}

theorem pure {a : α} (h : ∀ s, P s → Q a s) : Ensures P (Pure.pure a : EStateM ε ω α) Q E := h

theorem throw {e : ε} (h : ∀ s, P s → E s) : Ensures P (throw e : EStateM ε ω α) Q E := h

theorem bind {m : EStateM ε ω α} {f : α → EStateM ε ω β} (hm : Ensures P m Q E)
    (hf : ∀ a, Ensures (Q a) (f a) R E) : Ensures P (m >>= f) R E := by
  intro s hs
  have h := hm s hs
  change match (match m s with
    | .ok a t => f a t
    | .error e t => .error e t) with
    | .ok b t => R b t
    | .error _ t => E t
  generalize m s = result at h ⊢
  cases result with
  | ok a t => exact hf a t h
  | error e t => exact h

theorem tryCatch {m : EStateM ε ω α} {handle : ε → EStateM ε ω α} (hm : Ensures P m Q E)
    (hh : ∀ e, Ensures E (handle e) Q E') : Ensures P (tryCatch m handle) Q E' := by
  intro s hs
  have h := hm s hs
  rw [tryCatch_apply]
  generalize m s = result at h ⊢
  cases result with
  | ok a t => exact h
  | error e t => exact hh e t h

theorem mono {m : EStateM ε ω α} (h : Ensures P m Q E) (hP : ∀ s, P' s → P s)
    (hQ : ∀ a s, Q a s → Q' a s) (hE : ∀ s, E s → E' s) : Ensures P' m Q' E' := by
  intro s hs
  have hm := h s (hP s hs)
  generalize m s = result at hm ⊢
  cases result with
  | ok a t => exact hQ a t hm
  | error e t => exact hE t hm

/-- A computation that throws into no state returns. -/
theorem returns {m : EStateM ε ω α} (h : Ensures P m Q fun _ => False) {s : ω} (hs : P s) :
    ∃ a t, m s = .ok a t ∧ Q a t := by
  have hm := h s hs
  generalize m s = result at hm ⊢
  cases result with
  | ok a t => exact ⟨a, t, rfl, hm⟩
  | error e t => cases hm

end Ensures
end Epistl
