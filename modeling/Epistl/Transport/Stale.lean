import Epistl.Transport.Live

/-! # Stale events are inert

When the reader of a QUIC connection calls back only after the promise has resolved, an
event of a superseded generation, of an earlier attempt, or of a QUIC connection that is
not the stored one changes nothing that is shown and no timer.
-/
namespace Epistl.Transport
variable {φ : Type} {s t : Store φ} {a k : ℕ} {A : Attempt} {strict : Prop}

namespace Store

/-- The reader of a QUIC connection of this generation calls back after its promise resolved. -/
def Framed (s : Store φ) : Event φ → Prop
  | .quicFrame a _ => ∀ A ∈ s.attempts[a]?, s.closed = false → A.generation = s.generation →
    A.dial = .resolved
  | .connect => True
  | .close => True
  | .token _ _ => True
  | .reconnect _ => True
  | .quicTimeout _ => True
  | .quicEstablished _ => True
  | .quicResolved _ => True
  | .quicRejected _ => True
  | .quicClosed _ _ => True
  | .wsOpen _ => True
  | .wsMessage _ _ => True
  | .wsClose _ _ => True

/-- The callbacks of QUIC come in order. -/
def Ordered (s : Store φ) (e : Event φ) : Prop := s.Orderly e ∧ s.Framed e

/-- The generation was superseded. -/
def Superseded (s : Store φ) (generation : ℕ) : Prop := s.closed = true ∨ generation ≠ s.generation

/-- The event is of a superseded generation, of an earlier attempt, or of a QUIC connection
that is not the stored one. -/
def Stale (s : Store φ) : Event φ → Prop
  | .connect => False
  | .close => False
  | .token f _ => ∀ F ∈ s.fetches[f]?, s.Superseded F.generation
  | .reconnect t => ∀ T ∈ s.timers[t]?, s.Superseded T.generation
  | .quicTimeout a => ∀ A ∈ s.attempts[a]?, s.stale a A.generation = true
  | .quicEstablished a => ∀ A ∈ s.attempts[a]?, s.stale a A.generation = true
  | .quicResolved a => ∀ A ∈ s.attempts[a]?, s.stale a A.generation = true
  | .quicRejected a => ∀ A ∈ s.attempts[a]?, s.stale a A.generation = true
  | .quicFrame a _ => ∀ A ∈ s.attempts[a]?,
    s.stale a A.generation = true ∨ s.quicConnection ≠ some a
  | .quicClosed a _ => ∀ A ∈ s.attempts[a]?,
    s.stale a A.generation = true ∨ s.quicConnection ≠ some a
  | .wsOpen k => ∀ S ∈ s.sockets[k]?, ∀ A ∈ s.attempts[S.attempt]?,
    s.stale S.attempt A.generation = true
  | .wsMessage k _ => ∀ S ∈ s.sockets[k]?, ∀ A ∈ s.attempts[S.attempt]?,
    s.stale S.attempt A.generation = true
  | .wsClose k _ => ∀ S ∈ s.sockets[k]?, ∀ A ∈ s.attempts[S.attempt]?,
    s.stale S.attempt A.generation = true

/-- What is shown, the stored QUIC connection and the reconnect timers are the same. -/
structure SameShown (s t : Store φ) : Prop where
  status : t.status = s.status
  activeTransport : t.activeTransport = s.activeTransport
  lastFrame : t.lastFrame = s.lastFrame
  quicConnection : t.quicConnection = s.quicConnection
  reconnectTimer : t.reconnectTimer = s.reconnectTimer
  timers : t.timers = s.timers

theorem SameShown.refl (s : Store φ) : SameShown s s := ⟨rfl, rfl, rfl, rfl, rfl, rfl⟩

/-- A QUIC connection that is stale or not stored is ignored. -/
theorem Inv.ignoresQuic (hs : s.Inv strict) (hA : s.attempts[a]? = some A)
    (hguard : s.closed = false → A.generation = s.generation → A.dial = .resolved)
    (hstale : s.stale a A.generation = true ∨ s.quicConnection ≠ some a) :
    s.ignoresQuic a A = true := by
  by_contra hheard
  have hup := (hs.heard hA hguard hheard).2.2
  rcases hstale with hstale | hstale
  · rw [hup.current.stale] at hstale
    cases hstale
  · exact hstale hup.quicConnection

theorem Inv.sameShown (hs : s.Inv strict) {e : Event φ} (hguard : s.Ordered e)
    (hstale : s.Stale e) (he : s.step e = some t) : SameShown s t := by
  cases e with
  | connect => exact hstale.elim
  | close => exact hstale.elim
  | token f token =>
    obtain ⟨F, hF, he⟩ := Option.bind_eq_some_iff.mp he
    split at he
    · cases he
      have hsuper : s.closed = true ∨ F.generation ≠ s.generation := hstale F hF
      cases token with
      | rejected => exact ⟨rfl, rfl, rfl, rfl, rfl, rfl⟩
      | missing =>
        simp only [Store.token, if_pos hsuper]
        exact ⟨rfl, rfl, rfl, rfl, rfl, rfl⟩
      | fetched =>
        simp only [Store.token, if_pos hsuper]
        exact ⟨rfl, rfl, rfl, rfl, rfl, rfl⟩
    · cases he
  | reconnect u =>
    obtain ⟨T, hT, he⟩ := Option.bind_eq_some_iff.mp he
    split at he
    · rename_i hp
      obtain ⟨hopen, hgen, -⟩ := hs.timers u T hT hp
      rcases hstale T hT with h | h
      · rw [hopen] at h
        cases h
      · exact absurd hgen h
    · cases he
  | quicTimeout a =>
    obtain ⟨A, hA, -, rfl⟩ := onAttempt_eq_some he
    simp only [Store.quicTimeout, stale_setAttempt, hstale A hA, Bool.true_or, if_true]
    exact ⟨rfl, rfl, rfl, rfl, rfl, rfl⟩
  | quicEstablished a =>
    obtain ⟨A, -, -, rfl⟩ := onAttempt_eq_some he
    exact ⟨rfl, rfl, rfl, rfl, rfl, rfl⟩
  | quicResolved a =>
    obtain ⟨A, hA, -, rfl⟩ := onAttempt_eq_some he
    simp only [Store.quicResolved, hstale A hA, Bool.true_or, if_true]
    exact ⟨rfl, rfl, rfl, rfl, rfl, rfl⟩
  | quicRejected a =>
    obtain ⟨A, hA, -, rfl⟩ := onAttempt_eq_some he
    simp only [Store.quicRejected, stale_setAttempt, hstale A hA, if_true]
    exact ⟨rfl, rfl, rfl, rfl, rfl, rfl⟩
  | quicFrame a frame =>
    obtain ⟨A, hA, -, rfl⟩ := onAttempt_eq_some he
    have hignored := hs.ignoresQuic hA (hguard.2 A hA) (hstale A hA)
    cases frame with
    | none => exact .refl s
    | some frame =>
      simp only [Store.onFrame, hignored, if_true]
      exact .refl s
  | quicClosed a authFailed =>
    obtain ⟨A, hA, -, rfl⟩ := onAttempt_eq_some he
    have hignored := hs.ignoresQuic hA (hguard.1 A hA) (hstale A hA)
    simp only [Store.onClosed, ignoresQuic_report, ignoresQuic_setAttempt, hignored, if_true]
    exact ⟨rfl, rfl, rfl, rfl, rfl, rfl⟩
  | wsOpen k =>
    obtain ⟨S, A, hS, hA, -, rfl⟩ := onSocket_eq_some he
    simp only [Store.onopen, stale_setSocket, hstale S hS A hA, if_true]
    exact ⟨rfl, rfl, rfl, rfl, rfl, rfl⟩
  | wsMessage k frame =>
    obtain ⟨S, A, hS, hA, -, rfl⟩ := onSocket_eq_some he
    cases frame with
    | none => exact .refl s
    | some frame =>
      simp only [Store.onmessage, hstale S hS A hA, Bool.true_or, if_true]
      exact .refl s
  | wsClose k code =>
    obtain ⟨S, A, hS, hA, -, rfl⟩ := onSocket_eq_some he
    simp only [Store.onclose, stale_report, stale_clearSocket, stale_setSocket, hstale S hS A hA,
      Bool.true_or, if_true]
    exact ⟨rfl, rfl, rfl, rfl, rfl, rfl⟩

theorem inv_of_orderly (h : (machine φ).Reach Orderly s) : s.Inv False := by
  refine h.invariant ?_ ?_
  · rintro _ rfl
    exact inv_start
  · intro s e t hs hguard he
    exact hs.step hguard (fun h => h.elim) he

theorem inv_of_reach (h : (machine φ).Reach Ordered s) : s.Inv False :=
  inv_of_orderly (h.mono fun _ _ hguard => hguard.1)

/-- As long as the callbacks of QUIC come in order, stale events are inert. -/
theorem stale_inert (h : (machine φ).Reach Ordered s) {e : Event φ} (hguard : s.Ordered e)
    (hstale : s.Stale e) (he : s.step e = some t) : SameShown s t :=
  (inv_of_reach h).sameShown hguard hstale he

instance (s : Store φ) : (e : Event φ) → Decidable (s.Framed e)
  | .quicFrame a _ => inferInstanceAs (Decidable (∀ A ∈ s.attempts[a]?, _))
  | .connect => isTrue trivial
  | .close => isTrue trivial
  | .token _ _ => isTrue trivial
  | .reconnect _ => isTrue trivial
  | .quicTimeout _ => isTrue trivial
  | .quicEstablished _ => isTrue trivial
  | .quicResolved _ => isTrue trivial
  | .quicRejected _ => isTrue trivial
  | .quicClosed _ _ => isTrue trivial
  | .wsOpen _ => isTrue trivial
  | .wsMessage _ _ => isTrue trivial
  | .wsClose _ _ => isTrue trivial

instance (s : Store φ) (e : Event φ) : Decidable (s.Ordered e) :=
  inferInstanceAs (Decidable (s.Orderly e ∧ s.Framed e))

/-- The WebSocket is up when the reader of the QUIC connection, whose promise is still
pending, shows a frame. -/
theorem stale_frame_shown : ¬ ∀ (s t : Store ℕ) (e : Event ℕ),
    (machine ℕ).Reach Machine.anyStep s → s.Stale e → s.step e = some t → SameShown s t := by
  intro hall
  have hrun : ∃ s : Store ℕ, (machine ℕ).Reach Machine.anyStep s ∧
      (decide (s.quicConnection = none) && decide (s.lastFrame = none) &&
        (s.step (.quicFrame 0 (some 7))).any fun t => decide (t.lastFrame = some 7)) = true :=
    Machine.Reach.of_execIf [.connect, .token 0 .fetched, .quicTimeout 0, .wsOpen 0,
      .quicEstablished 0] rfl (by decide)
  obtain ⟨s, hs, hp⟩ := hrun
  obtain ⟨hp, hstep⟩ := Bool.and_eq_true_iff.mp hp
  obtain ⟨hquic, hlast⟩ := Bool.and_eq_true_iff.mp hp
  obtain ⟨t, ht, hframe⟩ := (Option.any_eq_true _ _).mp hstep
  have hnot : s.quicConnection ≠ some 0 := by
    rw [of_decide_eq_true hquic]
    decide
  have hsame := (hall s t (.quicFrame 0 (some 7)) hs (fun A _ => .inr hnot) ht).lastFrame
  rw [of_decide_eq_true hframe, of_decide_eq_true hlast] at hsame
  cases hsame

/-- The token of the first `connect()` arrives after the second one. -/
theorem stale_inert_first : ∃ s t : Store ℕ, s.step (.token 0 .missing) = some t ∧
    SameShown s t := by
  have hrun : ∃ s : Store ℕ, (machine ℕ).Reach Ordered s ∧
      (decide (s.fetches[0]? = some ⟨1, true⟩) && decide (s.generation = 2)) = true :=
    Machine.Reach.of_execIf [.connect, .connect] rfl (by decide)
  obtain ⟨s, hs, hp⟩ := hrun
  obtain ⟨hfetch, hgen⟩ := Bool.and_eq_true_iff.mp hp
  have hfetch := of_decide_eq_true hfetch
  have hgen := of_decide_eq_true hgen
  have hstep : ∃ t, s.step (.token 0 .missing) = some t := by
    simp only [step, hfetch, Option.bind_some, if_true]
    exact ⟨_, rfl⟩
  obtain ⟨t, ht⟩ := hstep
  refine ⟨s, t, ht, stale_inert (e := .token 0 .missing) hs ⟨trivial, trivial⟩ ?_ ht⟩
  intro F hF
  cases hfetch.symm.trans hF
  right
  rw [hgen]
  decide

end Store

end Epistl.Transport
