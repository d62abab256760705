import Epistl.Transport.Cycle

/-! # The transport store does not get stuck

An open store whose session was not refused has an attempt in progress, a reconnect timer
armed, or a connection that sends, shows frames and reacts to its own end.
-/
namespace Epistl.Transport
variable {φ : Type} {s t : Store φ} {a k : ℕ} {A : Attempt}

/-- A frame arrives on the connection. -/
def Conn.frame (frame : φ) : Conn → Event φ
  | ws k => .wsMessage k (some frame)
  | quic a => .quicFrame a (some frame)

/-- The event reports the end of the connection. -/
def Conn.Ends : Conn → Event φ → Prop
  | ws k, e => ∃ code, e = .wsClose k code
  | quic a, e => ∃ authFailed, e = .quicClosed a authFailed

namespace Store

/-- Tokens are fetched, and the callbacks of QUIC come in order. -/
def Sound (s : Store φ) (e : Event φ) : Prop := s.Orderly e ∧ s.Fetches e

/-- A token is fetched, or the unsettled current attempt dials QUIC or a WebSocket. -/
def InProgress (s : Store φ) : Prop :=
  (∃ f : ℕ, s.fetches[f]? = some ⟨s.generation, true⟩) ∨
    ∃ a A, s.Current a A ∧ A.settled = false ∧ (A.quicPending = true ∨
      ∃ k S, A.ws = some k ∧ s.sockets[k]? = some S ∧ S.opened = false ∧ S.ended = false)

/-- A reconnect timer of this generation is armed. -/
def Armed (s : Store φ) : Prop := ∃ t : ℕ, s.timers[t]? = some ⟨s.generation, true⟩

def IsOpen (s : Store φ) : Conn → Prop
  | .ws k => ∃ S : Socket, s.sockets[k]? = some S ∧ S.opened = true ∧ S.closing = false ∧
    S.ended = false
  | .quic a => ∃ A : Attempt, s.attempts[a]? = some A ∧ A.dial = .resolved ∧ A.dropped = false ∧
    A.ended = false

/-- The connection that set `'connected'` is open and the one `send` uses, its frames are
shown, and its end is not missed. -/
def Connected (s : Store φ) : Prop :=
  s.status = .connected ∧ ∃ c, s.connectedBy = some c ∧ s.sendTarget = some c ∧ s.IsOpen c ∧
    (∀ frame, ∃ t, s.step (c.frame frame) = some t ∧ t.lastFrame = some frame) ∧
    ∀ e, c.Ends e → ∃ t, s.step e = some t ∧ (t.status = .reconnecting ∨ t.status = .disconnected)

theorem Trying.inProgress (h : s.Trying a A) : s.InProgress := by
  refine .inr ⟨a, A, h.current, h.settled, ?_⟩
  cases hws : A.ws with
  | none =>
    left
    have hdial := (h.first hws).2
    unfold Attempt.quicPending
    cases hA : A.dial with
    | dialing => rfl
    | established => rfl
    | resolved => exact absurd hA h.dial
    | rejected => exact absurd hA hdial
  | some k => exact .inr ⟨k, _, rfl, (h.fallback k hws).2.2, rfl, rfl⟩

theorem onSocket_of_get {S : Socket} (hS : s.sockets[k]? = some S)
    (hA : s.attempts[S.attempt]? = some A) {enabled : Socket → Bool} (hen : enabled S = true)
    (f : Socket → Attempt → Store φ) : s.onSocket k enabled f = some (f S A) := by
  unfold onSocket
  rw [hS, Option.bind_some, if_pos hen, hA, Option.map_some]

theorem onAttempt_of_get (hA : s.attempts[a]? = some A) {enabled : Attempt → Bool}
    (hen : enabled A = true) (f : Attempt → Store φ) : s.onAttempt a enabled f = some (f A) := by
  unfold onAttempt
  rw [hA, Option.bind_some, if_pos hen]

theorem status_reconnectFrom (hopen : s.closed = false) {generation : ℕ}
    (hgen : generation = s.generation) : (s.reconnectFrom generation).status = .reconnecting := by
  unfold reconnectFrom scheduleReconnect
  rw [if_neg]
  rintro (h | h)
  · have h : s.closed = true := h
    rw [hopen] at h
    cases h
  · exact h hgen

@[simp] theorem stale_report (r : Bool) (a generation : ℕ) :
    (s.report r).stale a generation = s.stale a generation := rfl

@[simp] theorem stale_clearSocket (k a generation : ℕ) :
    (s.clearSocket k).stale a generation = s.stale a generation := rfl

@[simp] theorem stale_setSocket (k a generation : ℕ) (S : Socket) :
    (s.setSocket k S).stale a generation = s.stale a generation := rfl

@[simp] theorem ignoresQuic_report (r : Bool) (a : ℕ) (A : Attempt) :
    (s.report r).ignoresQuic a A = s.ignoresQuic a A := rfl

@[simp] theorem ignoresQuic_setAttempt (b a : ℕ) (A B : Attempt) :
    (s.setAttempt b B).ignoresQuic a A = s.ignoresQuic a A := rfl

theorem WsUp.connected (h : s.WsUp a A k) : s.Connected := by
  have hA : s.attempts[(⟨a, true, false, false⟩ : Socket).attempt]? = some A := h.current.get
  have hactive : ¬ (s.stale a A.generation || A.wsDiscarded) = true := by
    rw [h.current.stale, h.wsDiscarded]
    decide
  refine ⟨h.status, .ws k, h.connectedBy, ?_, ⟨_, h.get, rfl, rfl, rfl⟩, ?_, ?_⟩
  · simp [sendTarget, h.activeTransport, h.socket]
  · intro frame
    refine ⟨_, onSocket_of_get h.get hA rfl _, ?_⟩
    unfold onmessage
    dsimp only
    rw [if_neg hactive]
  · rintro e ⟨code, rfl⟩
    refine ⟨_, onSocket_of_get h.get hA rfl _, ?_⟩
    unfold onclose
    simp only [stale_report, stale_clearSocket, stale_setSocket]
    rw [if_neg hactive, if_pos h.settled]
    by_cases hcode : code = closeUnauthorized
    · right
      rw [if_pos hcode]
      rfl
    · left
      rw [if_neg hcode]
      refine status_reconnectFrom ?_ ?_
      · exact h.current.isOpen
      · exact h.current.generation

theorem QuicUp.connected (h : s.QuicUp a A) : s.Connected := by
  have hreads : decide (reads A) = true := decide_eq_true ⟨.inr h.dial, h.ended⟩
  have hactive : s.ignoresQuic a A = false :=
    (ignoresQuic_eq_false h.dial).mpr ⟨h.current.isOpen, h.current.generation, h.quicConnection⟩
  refine ⟨h.status, .quic a, h.connectedBy, ?_, ⟨A, h.current.get, h.dial, h.dropped, h.ended⟩, ?_, ?_⟩
  · simp [sendTarget, h.activeTransport, h.quicConnection]
  · intro frame
    refine ⟨_, onAttempt_of_get h.current.get hreads _, ?_⟩
    simp only [onFrame, hactive, Bool.false_eq_true, if_false]
  · rintro e ⟨authFailed, rfl⟩
    refine ⟨_, onAttempt_of_get h.current.get hreads _, ?_⟩
    simp only [onClosed, ignoresQuic_report, ignoresQuic_setAttempt, hactive, Bool.false_eq_true,
      if_false]
    cases authFailed with
    | true => exact .inr rfl
    | false =>
      refine .inl (status_reconnectFrom ?_ ?_)
      · exact h.current.isOpen
      · exact h.current.generation

theorem Phase.live (h : s.Phase True) (hr : s.refused = false) :
    s.InProgress ∨ s.Armed ∨ s.Connected := by
  cases h with
  | fetching _ _ f hf => exact .inl (.inl ⟨f, hf⟩)
  | waiting _ _ t ht => exact .inr (.inl ⟨t, ht⟩)
  | resting _ _ _ hrest =>
    rw [hrest trivial] at hr
    cases hr
  | trying _ _ a A h => exact .inl h.inProgress
  | wsUp _ _ a A k h => exact .inr (.inr h.connected)
  | quicUp _ _ a A h => exact .inr (.inr h.connected)

theorem Inv.connected {strict : Prop} (hs : s.Inv strict) (hstatus : s.status = .connected) :
    s.Connected := by
  have hopen : s.closed = false := by
    cases hclosed : s.closed with
    | false => rfl
    | true => exact absurd hstatus (hs.down hclosed)
  cases hs.phase hopen with
  | fetching hq => exact absurd hstatus hq.status
  | waiting hq => exact absurd hstatus hq.status
  | resting hq => exact absurd hstatus hq.status
  | trying _ _ a A h => exact absurd hstatus h.status
  | wsUp _ _ a A k h => exact h.connected
  | quicUp _ _ a A h => exact h.connected

/-- As long as tokens are fetched and the callbacks of QUIC come in order, the store is
never stuck, and `'connected'` does not survive its connection. -/
theorem never_stuck (h : (machine φ).Reach Sound s) :
    (s.closed = false → s.refused = false → s.InProgress ∨ s.Armed ∨ s.Connected) ∧
      (s.status = .connected → s.Connected) := by
  have hinv : s.Inv True := by
    refine h.invariant ?_ ?_
    · rintro _ rfl
      exact inv_start
    · intro s e t hs hguard he
      exact hs.step hguard.1 (fun _ => hguard.2) he
  exact ⟨fun hopen hr => (hinv.phase hopen).live hr, hinv.connected⟩

instance (s : Store φ) : (e : Event φ) → Decidable (s.Orderly e)
  | .quicRejected a => inferInstanceAs (Decidable (∀ A ∈ s.attempts[a]?, _))
  | .quicClosed a _ => inferInstanceAs (Decidable (∀ A ∈ s.attempts[a]?, _))
  | .quicFrame _ _ => isTrue trivial
  | .connect => isTrue trivial
  | .close => isTrue trivial
  | .token _ _ => isTrue trivial
  | .reconnect _ => isTrue trivial
  | .quicTimeout _ => isTrue trivial
  | .quicEstablished _ => isTrue trivial
  | .quicResolved _ => isTrue trivial
  | .wsOpen _ => isTrue trivial
  | .wsMessage _ _ => isTrue trivial
  | .wsClose _ _ => isTrue trivial

instance (s : Store φ) : (e : Event φ) → Decidable (s.Fetches e)
  | .token f _ => inferInstanceAs (Decidable (∀ F ∈ s.fetches[f]?, _))
  | .connect => isTrue trivial
  | .close => isTrue trivial
  | .reconnect _ => isTrue trivial
  | .quicTimeout _ => isTrue trivial
  | .quicEstablished _ => isTrue trivial
  | .quicResolved _ => isTrue trivial
  | .quicRejected _ => isTrue trivial
  | .quicFrame _ _ => isTrue trivial
  | .quicClosed _ _ => isTrue trivial
  | .wsOpen _ => isTrue trivial
  | .wsMessage _ _ => isTrue trivial
  | .wsClose _ _ => isTrue trivial

instance (s : Store φ) (e : Event φ) : Decidable (s.Sound e) :=
  inferInstanceAs (Decidable (s.Orderly e ∧ s.Fetches e))

/-- The timeout and the late QUIC rejection both dial a WebSocket; the second one discards
both when it opens. -/
theorem stuck_after_fallbacks : ¬ ∀ s : Store ℕ, (machine ℕ).Reach Machine.anyStep s →
    s.closed = false → s.refused = false → s.InProgress ∨ s.Armed ∨ s.Connected := by
  intro hall
  have hrun : ∃ s : Store ℕ, (machine ℕ).Reach Machine.anyStep s ∧
      (!s.closed && !s.refused && s.timers.isEmpty && s.fetches.all (fun F => !F.pending) &&
        s.attempts.all (fun A => A.settled) && decide (s.sendTarget ≠ s.connectedBy)) = true :=
    Machine.Reach.of_execIf [.connect, .token 0 .fetched, .quicTimeout 0, .quicRejected 0,
      .wsOpen 0, .wsOpen 1] rfl (by decide)
  obtain ⟨s, hs, hp⟩ := hrun
  simp only [Bool.and_eq_true, Bool.not_eq_true', List.isEmpty_iff, List.all_eq_true,
    decide_eq_true_eq] at hp
  obtain ⟨⟨⟨⟨⟨hopen, hrefused⟩, htimers⟩, hfetches⟩, hsettled⟩, htarget⟩ := hp
  rcases hall s hs hopen hrefused with h | ⟨t, ht⟩ | ⟨-, c, hby, hto, -⟩
  · rcases h with ⟨f, hf⟩ | ⟨a, A, hcur, hunsettled, -⟩
    · have := hfetches _ (List.mem_of_getElem? hf)
      cases this
    · have := hsettled A (List.mem_of_getElem? hcur.get)
      rw [hunsettled] at this
      cases this
  · rw [htimers] at ht
    cases ht
  · exact htarget (hto.trans hby.symm)

/-- A run in which QUIC times out and the WebSocket opens. -/
theorem never_stuck_first : ∃ s : Store ℕ, s.activeTransport = some .ws ∧ s.Connected := by
  have hrun : ∃ s : Store ℕ, (machine ℕ).Reach Sound s ∧
      (decide (s.status = .connected) && decide (s.activeTransport = some .ws)) = true :=
    Machine.Reach.of_execIf [.connect, .token 0 .fetched, .quicTimeout 0, .wsOpen 0] rfl (by decide)
  obtain ⟨s, hs, hp⟩ := hrun
  obtain ⟨hstatus, hactive⟩ := Bool.and_eq_true_iff.mp hp
  exact ⟨s, of_decide_eq_true hactive, (never_stuck hs).2 (of_decide_eq_true hstatus)⟩

end Store

end Epistl.Transport
