import Epistl.Ratchet.Agreement

/-! # The receiving chain fails closed

Against a network that reorders, repeats and drops at will: what is accepted of each
chain is a prefix of it, chains are accepted in the order they were created, and a
refused envelope leaves the receiver able to decode the next one in order.
-/
namespace Epistl.TwoParty
variable {S : Suite} {who : Party → Identity S} {s t : TwoParty S}

/-- What a side accepts, and what a refusal leaves it able to accept; `fits` bounds the
number of the next envelope in its chain. -/
structure FailsClosed (who : Party → Identity S) (s : TwoParty S) (p : Party)
    (fits : ℕ → Prop) : Prop where
  chainPrefix : ∀ key, ((s.side p).accepted.filter fun i => (s.side p.other).keys[i]? = some key) <+:
    positions (s.side p.other).keys key
  chainOrder : (s.side p).accepted.Pairwise fun i j =>
    created (s.side p.other).keys i ≤ created (s.side p.other).keys j
  usable : ∀ (k : ℕ) (newDhs : S.X25519Secret) (t : TwoParty S) (state : RatchetState S),
    newDhs ∉ s.used → (s.side p).session = some state →
    step who s (.deliver p k newDhs) = some t →
    (∀ m, (s.side p.other).produced[k]? = some m → ∀ plaintext,
      ¬ Accepts (decode who p (some state) m.envelope newDhs) plaintext) →
    (t.side p).session = some state ∧ ∀ (k' : ℕ) (m : Sent) (newDhs' : S.X25519Secret),
      (t.side p.other).produced[k']? = some m →
      NextInOrder (t.side p.other).keys (t.side p).accepted k' →
      (Accepts (decode who p (some state) m.envelope newDhs') m.plaintext ↔
        fits (rank (t.side p.other).keys k'))

/-- A refused delivery changes neither the session nor what was accepted. -/
theorem deliver_refused {p : Party} {k : ℕ} {newDhs : S.X25519Secret} {state : RatchetState S}
    (hstate : (s.side p).session = some state) (he : step who s (.deliver p k newDhs) = some t)
    (hno : ∀ m, (s.side p.other).produced[k]? = some m → ∀ plaintext,
      ¬ Accepts (decode who p (some state) m.envelope newDhs) plaintext) :
    (t.side p).session = some state ∧ (t.side p).accepted = (s.side p).accepted := by
  obtain ⟨m, hm, rfl⟩ := step_deliver he
  have hno := hno m hm
  rw [← hstate] at hno
  simp only [Function.update_self]
  cases hd : decode who p (s.side p).session m.envelope newDhs with
  | error e => exact ⟨hstate, by simp [Side.accepted, Side.receive, Delivery.accepted]⟩
  | ok r =>
    cases r with
    | failure reason =>
      exact ⟨(Side.receive_failure reason).1.trans hstate, (Side.receive_failure reason).2⟩
    | success plaintext next => exact absurd ⟨next, hd⟩ (hno plaintext)

theorem fails_closed (hS : S.Ideal) (h : (machine who).Reach Fresh s) (p : Party) :
    FailsClosed who s p (· < 2 ^ 32) where
  chainPrefix := fun key => by
    obtain ⟨_, _, hr⟩ := (inv_of_reach hS h).received p
    exact hr.taken.isPrefix key
  chainOrder := by
    obtain ⟨_, _, hr⟩ := (inv_of_reach hS h).received p
    exact hr.taken.created_mono hr.contiguous
  usable := fun k newDhs t state hfresh hstate he hno => by
    have ht : (machine who).Reach Fresh t := .step h (a := .deliver p k newDhs) hfresh he
    have hsession := (deliver_refused hstate he hno).1
    exact ⟨hsession, fun k' m newDhs' hk' hnext =>
      (inv_of_reach hS ht).next_iff hS hsession hk' hnext⟩

theorem fails_closed_first :
    ∃ s, (machine someone).Reach Fresh s ∧ (s.side .bob).deliveries.length = 2 ∧
      FailsClosed someone s .bob (· < 2 ^ 32) := by
  obtain ⟨s, hs, h⟩ := oneSided_reach 1 (by decide)
  have hfresh := hs.mono (H := Fresh) fun _ _ hg => hg.1.1
  exact ⟨s, hfresh, h.deliveries, fails_closed Symbolic.suite_ideal hfresh .bob⟩

/-- Without the bound the last property fails: the next envelope in order is refused,
before and after a refused delivery. -/
theorem fails_closed_overflow :
    ¬ ∀ s, (machine someone).Reach Fresh s → ∀ p, FailsClosed someone s p fun _ => True := by
  intro hall
  obtain ⟨s, m, state, hs, h, hm, hnext, hstate, hno⟩ := oneSided_overflow
  have hfresh := hs.mono (H := Fresh) fun _ _ hg => hg.1
  have hinv := inv_of_reach Symbolic.suite_ideal hfresh
  obtain ⟨t, m', hg, ht, -, halice, hm', -⟩ := h.deliver (Nat.lt_succ_self _) (by decide)
  cases hm.symm.trans hm'
  have hrefused : ∀ m', (s.side (Party.other .bob)).produced[2 ^ 32]? = some m' → ∀ plaintext,
      ¬ Accepts (decode someone .bob (some state) m'.envelope ⟨2 ^ 32 + 3, by decide⟩) plaintext := by
    intro m' hm' plaintext ha
    cases hm.symm.trans hm'
    rw [hinv.plaintext_eq Symbolic.suite_ideal hstate hm ha] at ha
    exact hno _ ha
  have haccepted := (deliver_refused hstate ht hrefused).2
  have husable := ((hall s hfresh .bob).usable _ _ t state hg.1 hstate ht hrefused).2 (2 ^ 32) m
    ⟨2 ^ 32 + 3, by decide⟩ (by rw [Party.other, halice]; exact hm)
    (by rw [Party.other, halice, haccepted]; exact hnext)
  exact hno _ (husable.mpr trivial)

end Epistl.TwoParty
