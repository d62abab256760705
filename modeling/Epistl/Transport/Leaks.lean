import Epistl.Transport.Evolves
import Epistl.Transport.Opens

/-! # What `connect()` and `close()` leave behind

A connection that opens is of the current generation, or is closed at once. So a connection
is left behind only by a `connect()` while a connection is open, and by a `close()` while
a connection is open that the store does not hold.
-/
namespace Epistl.Transport
variable {φ : Type} {s t u : Store φ} {a k : ℕ} {A B : Attempt} {S T : Socket} {c : Conn}
  {e : Event φ} {strict : Prop}

namespace Store

/-- Every open connection is of the current generation of a store that is not closed. -/
def Tight (s : Store φ) : Prop :=
  ∀ c, s.IsOpen c → s.closed = false ∧ s.generationOf c = some s.generation

/-- What the screens see is the same. -/
structure SameState (s t : Store φ) : Prop where
  status : t.status = s.status
  activeTransport : t.activeTransport = s.activeTransport
  lastFrame : t.lastFrame = s.lastFrame

/-- A closed store is disconnected until the next `connect()`, and nothing changes that. -/
def Rests (s : Store φ) : Prop :=
  s.closed = true → s.status = .disconnected ∧ ∀ (e : Event φ) (t : Store φ), e ≠ .connect →
    s.step e = some t → t.closed = true ∧ SameState s t

/-- Nothing is left behind. -/
def Clean (s : Store φ) : Prop := s.Tight ∧ s.Rests

/-- `connect()` is called while no connection is open, and `close()` while every open
connection is stored. -/
def Careful (s : Store φ) : Event φ → Prop
  | .connect => ∀ c, ¬ s.IsOpen c
  | .close => ∀ c, s.IsOpen c → s.Stored c
  | .token _ _ => True
  | .reconnect _ => True
  | .quicTimeout _ => True
  | .quicEstablished _ => True
  | .quicResolved _ => True
  | .quicRejected _ => True
  | .quicFrame _ _ => True
  | .quicClosed _ _ => True
  | .wsOpen _ => True
  | .wsMessage _ _ => True
  | .wsClose _ _ => True

/-- `connect()` is not called while the store is connected. -/
def ConnectsDown (s : Store φ) : Event φ → Prop
  | .connect => s.status ≠ .connected
  | .close => True
  | .token _ _ => True
  | .reconnect _ => True
  | .quicTimeout _ => True
  | .quicEstablished _ => True
  | .quicResolved _ => True
  | .quicRejected _ => True
  | .quicFrame _ _ => True
  | .quicClosed _ _ => True
  | .wsOpen _ => True
  | .wsMessage _ _ => True
  | .wsClose _ _ => True

/-- The callbacks of QUIC come in order, and `connect()` is not called while connected. -/
def Tended (s : Store φ) (e : Event φ) : Prop := s.Orderly e ∧ s.ConnectsDown e

theorem SameState.refl (s : Store φ) : SameState s s := ⟨rfl, rfl, rfl⟩

/-- Only `connect()` and `close()` change the generation. -/
theorem step_generation (he : s.step e = some t) (hconnect : e ≠ .connect) (hclose : e ≠ .close) :
    t.closed = s.closed ∧ t.generation = s.generation := by
  have hreconnect (u : Store φ) (generation : ℕ) : (u.reconnectFrom generation).closed = u.closed ∧
      (u.reconnectFrom generation).generation = u.generation := by
    unfold reconnectFrom scheduleReconnect
    split <;> exact ⟨rfl, rfl⟩
  have hdial (u : Store φ) (a : ℕ) (A : Attempt) : (u.startWs a A).closed = u.closed ∧
      (u.startWs a A).generation = u.generation := by
    unfold startWs
    split <;> exact ⟨rfl, rfl⟩
  cases e with
  | connect => exact absurd rfl hconnect
  | close => exact absurd rfl hclose
  | token f token =>
    obtain ⟨F, -, he⟩ := Option.bind_eq_some_iff.mp he
    split at he
    · cases he
      unfold Store.token
      cases token with
      | rejected => exact ⟨rfl, rfl⟩
      | missing =>
        dsimp only
        split <;> exact ⟨rfl, rfl⟩
      | fetched =>
        dsimp only
        split <;> exact ⟨rfl, rfl⟩
    · cases he
  | reconnect n =>
    obtain ⟨T, -, he⟩ := Option.bind_eq_some_iff.mp he
    split at he
    · cases he
      unfold attemptConnect
      split <;> exact ⟨rfl, rfl⟩
    · cases he
  | quicTimeout a =>
    obtain ⟨A, -, -, rfl⟩ := onAttempt_eq_some he
    unfold Store.quicTimeout
    dsimp only
    split
    · exact ⟨rfl, rfl⟩
    · exact hdial _ _ _
  | quicEstablished a =>
    obtain ⟨A, -, -, rfl⟩ := onAttempt_eq_some he
    exact ⟨rfl, rfl⟩
  | quicResolved a =>
    obtain ⟨A, -, -, rfl⟩ := onAttempt_eq_some he
    unfold Store.quicResolved
    dsimp only
    split <;> exact ⟨rfl, rfl⟩
  | quicRejected a =>
    obtain ⟨A, -, -, rfl⟩ := onAttempt_eq_some he
    unfold Store.quicRejected
    dsimp only
    split
    · exact ⟨rfl, rfl⟩
    · split
      · exact ⟨rfl, rfl⟩
      · exact hdial _ _ _
  | quicFrame a frame =>
    obtain ⟨A, -, -, rfl⟩ := onAttempt_eq_some he
    cases frame with
    | none => exact ⟨rfl, rfl⟩
    | some frame =>
      unfold Store.onFrame
      dsimp only
      split <;> exact ⟨rfl, rfl⟩
  | quicClosed a authFailed =>
    obtain ⟨A, -, -, rfl⟩ := onAttempt_eq_some he
    unfold Store.onClosed
    dsimp only
    split
    · exact ⟨rfl, rfl⟩
    · split
      · exact ⟨rfl, rfl⟩
      · exact hreconnect _ _
  | wsOpen k =>
    obtain ⟨S, A, -, -, -, rfl⟩ := onSocket_eq_some he
    unfold Store.onopen
    dsimp only
    split
    · exact ⟨rfl, rfl⟩
    · split <;> exact ⟨rfl, rfl⟩
  | wsMessage k frame =>
    obtain ⟨S, A, -, -, -, rfl⟩ := onSocket_eq_some he
    cases frame with
    | none => exact ⟨rfl, rfl⟩
    | some frame =>
      unfold Store.onmessage
      dsimp only
      split <;> exact ⟨rfl, rfl⟩
  | wsClose k code =>
    obtain ⟨S, A, -, -, -, rfl⟩ := onSocket_eq_some he
    unfold Store.onclose
    dsimp only
    split
    · exact ⟨rfl, rfl⟩
    · split
      · split
        · exact ⟨rfl, rfl⟩
        · exact hreconnect _ _
      · split
        · exact ⟨rfl, rfl⟩
        · exact hreconnect _ _

/-- While the store is closed, everything is stale. -/
theorem sameState_of_closed (hclosed : s.closed = true) (hactive : s.activeTransport = none)
    (hstatus : s.status = .disconnected) (hconnect : e ≠ .connect) (he : s.step e = some t) :
    SameState s t := by
  have hstale (a generation : ℕ) : s.stale a generation = true := by
    simp [stale, hclosed]
  have hignored (a : ℕ) (A : Attempt) : s.ignoresQuic a A = true := by
    simp [ignoresQuic, hclosed]
  cases e with
  | connect => exact absurd rfl hconnect
  | close =>
    cases he
    rw [close_eq]
    exact ⟨hstatus.symm, hactive.symm, rfl⟩
  | token f token =>
    obtain ⟨F, -, he⟩ := Option.bind_eq_some_iff.mp he
    split at he
    · cases he
      unfold Store.token
      cases token with
      | rejected => exact ⟨rfl, rfl, rfl⟩
      | missing =>
        simp only [hclosed, true_or, if_true]
        exact ⟨rfl, rfl, rfl⟩
      | fetched =>
        simp only [hclosed, true_or, if_true]
        exact ⟨rfl, rfl, rfl⟩
    · cases he
  | reconnect n =>
    obtain ⟨T, -, he⟩ := Option.bind_eq_some_iff.mp he
    split at he
    · cases he
      simp only [attemptConnect, hclosed, true_or, if_true]
      exact ⟨rfl, rfl, rfl⟩
    · cases he
  | quicTimeout a =>
    obtain ⟨A, -, -, rfl⟩ := onAttempt_eq_some he
    simp only [Store.quicTimeout, stale_setAttempt, hstale, Bool.true_or, if_true]
    exact ⟨rfl, rfl, rfl⟩
  | quicEstablished a =>
    obtain ⟨A, -, -, rfl⟩ := onAttempt_eq_some he
    exact ⟨rfl, rfl, rfl⟩
  | quicResolved a =>
    obtain ⟨A, -, -, rfl⟩ := onAttempt_eq_some he
    simp only [Store.quicResolved, hstale, Bool.true_or, if_true]
    exact ⟨rfl, rfl, rfl⟩
  | quicRejected a =>
    obtain ⟨A, -, -, rfl⟩ := onAttempt_eq_some he
    simp only [Store.quicRejected, stale_setAttempt, hstale, if_true]
    exact ⟨rfl, rfl, rfl⟩
  | quicFrame a frame =>
    obtain ⟨A, -, -, rfl⟩ := onAttempt_eq_some he
    cases frame with
    | none => exact .refl s
    | some frame =>
      simp only [Store.onFrame, hignored, if_true]
      exact .refl s
  | quicClosed a authFailed =>
    obtain ⟨A, -, -, rfl⟩ := onAttempt_eq_some he
    simp only [Store.onClosed, ignoresQuic_report, ignoresQuic_setAttempt, hignored, if_true]
    exact ⟨rfl, rfl, rfl⟩
  | wsOpen k =>
    obtain ⟨S, A, -, -, -, rfl⟩ := onSocket_eq_some he
    simp only [Store.onopen, stale_setSocket, hstale, if_true]
    exact ⟨rfl, rfl, rfl⟩
  | wsMessage k frame =>
    obtain ⟨S, A, -, -, -, rfl⟩ := onSocket_eq_some he
    cases frame with
    | none => exact .refl s
    | some frame =>
      simp only [Store.onmessage, hstale, Bool.true_or, if_true]
      exact .refl s
  | wsClose k code =>
    obtain ⟨S, A, -, -, -, rfl⟩ := onSocket_eq_some he
    simp only [Store.onclose, stale_report, stale_clearSocket, stale_setSocket, hstale,
      Bool.true_or, if_true]
    exact ⟨rfl, rfl, rfl⟩

/-- The status of a closed store. -/
theorem disconnected_of_reach (h : (machine φ).Reach Machine.anyStep s) :
    s.closed = true → s.status = .disconnected := by
  refine h.invariant_of (I := fun s => s.closed = true → s.status = .disconnected)
    (fun s => shows_of_reach) ?_ ?_
  · rintro _ rfl _
    rfl
  · intro s e t hshows hs _ he hclosed
    by_cases hclose : e = .close
    · subst hclose
      cases he
      rw [close_eq]
    · by_cases hconnect : e = .connect
      · subst hconnect
        cases he
        rw [connect_eq] at hclosed
        cases hclosed
      · have hdown := hs ((step_generation he hconnect hclose).1.symm.trans hclosed)
        have hidle := hshows.idle (by rw [hdown]; exact Status.noConfusion)
        exact (sameState_of_closed ((step_generation he hconnect hclose).1.symm.trans hclosed) hidle
          hdown hconnect he).status.trans hdown

theorem rests_of_reach (h : (machine φ).Reach Machine.anyStep s) : s.Rests := by
  intro hclosed
  have hstatus := disconnected_of_reach h hclosed
  have hidle := (shows_of_reach h).idle (by rw [hstatus]; exact Status.noConfusion)
  refine ⟨hstatus, fun e t hconnect he => ⟨?_, sameState_of_closed hclosed hidle hstatus hconnect he⟩⟩
  by_cases hclose : e = .close
  · subst hclose
    cases he
    rw [close_eq]
  · exact (step_generation he hconnect hclose).1.trans hclosed

/-- A connection keeps its generation. -/
theorem Evolves.generationOf {n : ℕ} (h : Evolves e s t) (hc : s.generationOf c = some n) :
    t.generationOf c = some n := by
  cases c with
  | quic a =>
    obtain ⟨A, hA, rfl⟩ := Option.map_eq_some_iff.mp hc
    obtain ⟨B, hB, hgen⟩ := h.attempts a A hA
    simp only [Store.generationOf, hB, Option.map_some, hgen]
  | ws k =>
    obtain ⟨S, hS, hc⟩ := Option.bind_eq_some_iff.mp hc
    obtain ⟨A, hA, rfl⟩ := Option.map_eq_some_iff.mp hc
    obtain ⟨T, hT, hat⟩ := h.sockets k S hS
    obtain ⟨B, hB, hgen⟩ := h.attempts S.attempt A hA
    simp only [Store.generationOf, hT, Option.bind_some, hat, hB, Option.map_some, hgen]

/-- No connection is of a generation to come. -/
theorem Slots.generationOf_le (hs : s.Slots) {n : ℕ} (hc : s.generationOf c = some n) :
    n ≤ s.generation := by
  cases c with
  | quic a =>
    obtain ⟨A, hA, rfl⟩ := Option.map_eq_some_iff.mp hc
    exact hs.past a A hA
  | ws k =>
    obtain ⟨S, -, hc⟩ := Option.bind_eq_some_iff.mp hc
    obtain ⟨A, hA, rfl⟩ := Option.map_eq_some_iff.mp hc
    exact hs.past _ A hA

/-- A connection that is up is of the current generation of a store that is not closed. -/
theorem Up.current (hup : s.Up c) (h : (machine φ).Reach Machine.anyStep s) :
    s.closed = false ∧ s.generationOf c = some s.generation := by
  obtain ⟨hstatus, hby⟩ := hup
  constructor
  · refine Bool.not_eq_true _ ▸ fun hclosed => ?_
    cases hstatus.symm.trans (disconnected_of_reach h hclosed)
  · obtain ⟨d, hd, -, hheld⟩ := (shows_of_reach h).up hstatus
    cases hby.symm.trans hd
    exact hheld.generationOf

theorem tight_connect (hs : s.Slots) : s.connect.Tight ↔ ∀ c, ¬ s.IsOpen c := by
  constructor
  · intro htight c hc
    have hgen := (htight c (isOpen_connect.mpr hc)).2
    rw [connect_eq] at hgen
    have hle : s.generation + 1 ≤ s.generation := hs.generationOf_le (c := c) (by cases c <;> exact hgen)
    omega
  · intro hnone c hc
    exact absurd (isOpen_connect.mp hc) (hnone c)

theorem tight_close : s.close.Tight ↔ ∀ c, s.IsOpen c → s.Stored c := by
  constructor
  · intro htight c hc
    by_contra hstored
    have hclosed := (htight c (isOpen_close.mpr ⟨hc, hstored⟩)).1
    rw [close_eq] at hclosed
    cases hclosed
  · intro hstored c hc
    obtain ⟨hc, hnot⟩ := isOpen_close.mp hc
    exact absurd (hstored c hc) hnot

theorem careful_of_ne (hconnect : e ≠ .connect) (hclose : e ≠ .close) : s.Careful e := by
  cases e with
  | connect => exact absurd rfl hconnect
  | close => exact absurd rfl hclose
  | _ => trivial

/-- From a state in which nothing is left behind, a step leaves something behind exactly when
it is a careless `connect()` or `close()`. -/
theorem Tight.step_iff (htight : s.Tight) (h : (machine φ).Reach Machine.anyStep s)
    (he : s.step e = some t) : t.Tight ↔ s.Careful e := by
  by_cases hconnect : e = .connect
  · subst hconnect
    cases he
    exact tight_connect (slots_of_reach h)
  by_cases hclose : e = .close
  · subst hclose
    cases he
    exact tight_close
  refine iff_of_true (fun c hc => ?_) (careful_of_ne hconnect hclose)
  obtain ⟨hclosed, hgen⟩ := step_generation he hconnect hclose
  rcases step_opens he hc with hold | hup
  · obtain ⟨hopen, hcur⟩ := htight c hold
    exact ⟨hclosed.trans hopen, hgen ▸ (Evolves.step he).generationOf hcur⟩
  · exact hup.current (.step h trivial he)

/-- The open connection of the store, if any, is the one that is up. -/
def Sole (s : Store φ) : Prop := ∀ c, s.IsOpen c → s.Up c

/-- What a store with a connection that is up is doing. -/
theorem Inv.upPhase (hs : s.Inv strict) (hup : s.Up c) :
    s.NoFetch ∧ ((∃ a A k, s.WsUp a A k ∧ c = .ws k) ∨ ∃ a A, s.QuicUp a A ∧ c = .quic a) := by
  obtain ⟨hstatus, hby⟩ := hup
  have hopen : s.closed = false :=
    Bool.not_eq_true _ ▸ fun hclosed => hs.down hclosed hstatus
  cases hs.phase hopen with
  | fetching hq => exact absurd hstatus hq.status
  | waiting hq => exact absurd hstatus hq.status
  | resting hq => exact absurd hstatus hq.status
  | trying _ _ a A h => exact absurd hstatus h.status
  | wsUp hf _ a A k h => exact ⟨hf, .inl ⟨a, A, k, h, Option.some.inj (hby.symm.trans h.connectedBy)⟩⟩
  | quicUp hf _ a A h => exact ⟨hf, .inr ⟨a, A, h, Option.some.inj (hby.symm.trans h.connectedBy)⟩⟩

theorem Up.startWs (h : s.Up c) : (s.startWs a A).Up c := by
  unfold Store.startWs
  split <;> exact h

theorem attempts_onClosed (a : ℕ) (A : Attempt) (authFailed : Bool) :
    (s.onClosed a A authFailed).attempts = s.attempts.set a { A with ended := true } := by
  unfold onClosed
  dsimp only
  split
  · rfl
  · split
    · rfl
    · unfold reconnectFrom scheduleReconnect
      split <;> rfl

theorem sockets_onclose (k : ℕ) (S : Socket) (A : Attempt) (code : ℕ) :
    (s.onclose k S A code).sockets = s.sockets.set k { S with ended := true } := by
  have hreconnect (u : Store φ) : (u.reconnectFrom A.generation).sockets = u.sockets := by
    unfold reconnectFrom scheduleReconnect
    split <;> rfl
  unfold onclose
  dsimp only
  split
  · rfl
  · split
    · split
      · rfl
      · exact hreconnect _
    · split
      · rfl
      · exact hreconnect _

/-- The connection of an attempt that is up is over when its WebSocket closes. -/
theorem Inv.onclose_over (hs : s.Inv strict) (hS : s.sockets[k]? = some S)
    (hA : s.attempts[S.attempt]? = some A) (hcur : s.Current S.attempt A)
    (hkept : A.wsDiscarded = false) (hup : s.Up c) : c = .ws k := by
  have hws := hs.toTidy.ws_eq hS hA
  rcases (hs.upPhase hup).2 with ⟨a, B, l, h, rfl⟩ | ⟨a, B, h, rfl⟩
  · obtain ⟨rfl, rfl⟩ := hcur.unique h.current
    cases hws.symm.trans h.ws
    rfl
  · obtain ⟨rfl, rfl⟩ := hcur.unique h.current
    have hdiscarded := h.wsDiscarded k hws
    rw [hkept] at hdiscarded
    cases hdiscarded

/-- The connection that is up stays up as long as it is open. -/
theorem Sole.step (hs : s.Sole) (hi : s.Inv strict) (hguard : s.Tended e)
    (he : s.step e = some t) : t.Sole := by
  intro c hc
  refine (step_opens he hc).elim (fun hold => ?_) id
  have hup := hs c hold
  have hnone {b : ℕ} {B : Attempt} (h : s.Trying b B) : False := h.status hup.1
  cases e with
  | connect => exact absurd hup.1 hguard.2
  | close =>
    cases he
    have hlost := (isOpen_close.mp hc).2
    rcases (hi.upPhase hup).2 with ⟨a, A, k, h, rfl⟩ | ⟨a, A, h, rfl⟩
    · exact absurd h.socket hlost
    · exact absurd h.quicConnection hlost
  | token f token =>
    obtain ⟨F, hF, he⟩ := Option.bind_eq_some_iff.mp he
    split at he
    · rename_i hp
      cases he
      have hold : s.closed = true ∨ F.generation ≠ s.generation :=
        .inr ((hi.upPhase hup).1 f F hF hp)
      unfold Store.token
      cases token with
      | rejected => exact hup
      | missing =>
        dsimp only
        rw [if_pos hold]
        exact hup
      | fetched =>
        dsimp only
        rw [if_pos hold]
        exact hup
    · cases he
  | reconnect n =>
    obtain ⟨T, -, he⟩ := Option.bind_eq_some_iff.mp he
    split at he
    · cases he
      unfold attemptConnect
      split <;> exact hup
    · cases he
  | quicTimeout a =>
    obtain ⟨A, -, -, rfl⟩ := onAttempt_eq_some he
    unfold Store.quicTimeout
    dsimp only
    split
    · exact hup
    · exact Up.startWs hup
  | quicEstablished a =>
    obtain ⟨A, -, -, rfl⟩ := onAttempt_eq_some he
    exact hup
  | quicResolved a =>
    obtain ⟨A, hA, -, rfl⟩ := onAttempt_eq_some he
    unfold Store.quicResolved
    dsimp only
    split
    · exact hup
    · rename_i hactive
      simp only [Bool.or_eq_true, not_or, Bool.not_eq_true] at hactive
      exact (hnone (hi.trying ((stale_eq_false hA).mp hactive.1) hactive.2).2.2).elim
  | quicRejected a =>
    obtain ⟨A, -, -, rfl⟩ := onAttempt_eq_some he
    unfold Store.quicRejected
    dsimp only
    split
    · exact hup
    · split
      · exact hup
      · exact Up.startWs hup
  | quicFrame a frame =>
    obtain ⟨A, -, -, rfl⟩ := onAttempt_eq_some he
    cases frame with
    | none => exact hup
    | some frame =>
      unfold Store.onFrame
      dsimp only
      split <;> exact hup
  | quicClosed a authFailed =>
    obtain ⟨A, hA, -, rfl⟩ := onAttempt_eq_some he
    by_cases hignored : s.ignoresQuic a A = true
    · simp only [Store.onClosed, ignoresQuic_report, ignoresQuic_setAttempt, hignored, if_true]
      exact hup
    · have hthis := (hi.heard hA (hguard.1 A hA) hignored).2.2.connectedBy
      cases hup.2.symm.trans hthis
      obtain ⟨B, hB, -, -, hlive⟩ := hc
      rw [attempts_onClosed, List.getElem?_set_self (lt_length_of_getElem? hA)] at hB
      cases hB
      cases hlive
  | wsOpen k =>
    obtain ⟨S, A, hS, hA, -, rfl⟩ := onSocket_eq_some he
    unfold Store.onopen
    dsimp only
    split
    · exact hup
    · rename_i hfresh
      split
      · exact hup
      · rename_i hsettled
        have hcur := (stale_eq_false hA).mp (Bool.not_eq_true _ ▸ hfresh : s.stale _ _ = false)
        exact (hnone (hi.trying hcur (Bool.not_eq_true _ ▸ hsettled)).2.2).elim
  | wsMessage k frame =>
    obtain ⟨S, A, -, -, -, rfl⟩ := onSocket_eq_some he
    cases frame with
    | none => exact hup
    | some frame =>
      unfold Store.onmessage
      dsimp only
      split <;> exact hup
  | wsClose k code =>
    obtain ⟨S, A, hS, hA, -, rfl⟩ := onSocket_eq_some he
    by_cases hignored : (s.stale S.attempt A.generation || A.wsDiscarded) = true
    · simp only [Store.onclose, stale_report, stale_clearSocket, stale_setSocket, hignored, if_true]
      exact hup
    · simp only [Bool.or_eq_true, not_or, Bool.not_eq_true] at hignored
      cases hi.onclose_over hS hA ((stale_eq_false hA).mp hignored.1) hignored.2 hup
      obtain ⟨T, hT, -, -, hlive⟩ := hc
      rw [sockets_onclose, List.getElem?_set_self (lt_length_of_getElem? hS)] at hT
      cases hT
      cases hlive

theorem sole_of_reach (h : (machine φ).Reach Tended s) : s.Sole := by
  refine h.invariant_of (J := fun s => s.Inv False) (fun s hs => ?_) ?_ ?_
  · exact inv_of_orderly (hs.mono fun _ _ hguard => hguard.1)
  · rintro _ rfl c hc
    cases c with
    | ws k =>
      obtain ⟨S, hS, -⟩ := hc
      cases hS
    | quic a =>
      obtain ⟨A, hA, -⟩ := hc
      cases hA
  · intro s e t hi hs hguard he
    exact hs.step hi hguard he

/-- While every open connection is up, a step is careful unless it connects again. -/
theorem Sole.careful (hs : s.Sole) (hi : s.Inv strict) (hguard : s.ConnectsDown e) :
    s.Careful e := by
  by_cases hconnect : e = .connect
  · subst hconnect
    exact fun c hc => hguard (hs c hc).1
  by_cases hclose : e = .close
  · subst hclose
    intro c hc
    rcases (hi.upPhase (hs c hc)).2 with ⟨a, A, k, h, rfl⟩ | ⟨a, A, h, rfl⟩
    · exact h.socket
    · exact h.quicConnection
  exact careful_of_ne hconnect hclose

theorem careful_of_tended (h : (machine φ).Reach Tended s) : (machine φ).Reach Careful s := by
  induction h with
  | init hs => exact .init hs
  | step h hguard he ih =>
    have hi := inv_of_orderly (h.mono fun _ _ hguard => hguard.1)
    exact .step ih ((sole_of_reach h).careful hi hguard.2) he

theorem clean_of_careful (h : (machine φ).Reach Careful s) : s.Clean := by
  induction h with
  | init hs =>
    cases hs
    refine ⟨fun c hc => ?_, rests_of_reach (.init rfl)⟩
    cases c with
    | ws k =>
      obtain ⟨S, hS, -⟩ := hc
      cases hS
    | quic a =>
      obtain ⟨A, hA, -⟩ := hc
      cases hA
  | step h hguard he ih =>
    have hany := h.mono fun _ _ _ => trivial
    exact ⟨(ih.1.step_iff hany he).mpr hguard, rests_of_reach (.step hany trivial he)⟩

/-- Nothing is left behind exactly as long as `connect()` is called while no connection is open
and `close()` while every open connection is stored. When the callbacks of QUIC come in order,
it is enough that `connect()` is not called while the store is connected. -/
theorem leaves_nothing :
    (∀ s : Store φ, (machine φ).Reach Careful s →
      s.Clean ∧ ∀ (e : Event φ) (t : Store φ), s.step e = some t → (t.Clean ↔ s.Careful e)) ∧
    ∀ s : Store φ, (machine φ).Reach Tended s →
      s.Clean ∧ (s.connect.Clean ↔ s.status ≠ .connected) := by
  have hexact (s : Store φ) (h : (machine φ).Reach Careful s) (e : Event φ) (t : Store φ)
      (he : s.step e = some t) : t.Clean ↔ s.Careful e := by
    have hany := h.mono fun _ _ _ => trivial
    rw [← (clean_of_careful h).1.step_iff hany he]
    exact and_iff_left (rests_of_reach (.step hany trivial he))
  refine ⟨fun s h => ⟨clean_of_careful h, hexact s h⟩, fun s h => ?_⟩
  have hcareful := careful_of_tended h
  refine ⟨clean_of_careful hcareful, ?_⟩
  rw [hexact s hcareful .connect s.connect rfl]
  have hi := inv_of_orderly (h.mono fun _ _ hguard => hguard.1)
  refine ⟨fun hnone hstatus => ?_, fun hstatus c hc => hstatus (sole_of_reach h c hc).1⟩
  obtain ⟨-, c, -, -, hopen, -, -⟩ := hi.connected hstatus
  exact hnone c hopen

instance (s : Store φ) : (e : Event φ) → Decidable (s.ConnectsDown e)
  | .connect => inferInstanceAs (Decidable (_ ≠ _))
  | .close => isTrue trivial
  | .token _ _ => isTrue trivial
  | .reconnect _ => isTrue trivial
  | .quicTimeout _ => isTrue trivial
  | .quicEstablished _ => isTrue trivial
  | .quicResolved _ => isTrue trivial
  | .quicRejected _ => isTrue trivial
  | .quicFrame _ _ => isTrue trivial
  | .quicClosed _ _ => isTrue trivial
  | .wsOpen _ => isTrue trivial
  | .wsMessage _ _ => isTrue trivial
  | .wsClose _ _ => isTrue trivial

instance (s : Store φ) (e : Event φ) : Decidable (s.Tended e) :=
  inferInstanceAs (Decidable (s.Orderly e ∧ s.ConnectsDown e))

/-- A second `connect()` while the WebSocket of the first one is open. -/
theorem leaves_socket : ¬ ∀ s : Store ℕ, (machine ℕ).Reach Machine.anyStep s → s.Clean := by
  intro hall
  have hrun : ∃ s : Store ℕ, (machine ℕ).Reach Machine.anyStep s ∧
      (decide (s.sockets[0]? = some ⟨0, true, false, false⟩) &&
        decide (s.generationOf (.ws 0) = some 1) && decide (s.generation = 2)) = true :=
    Machine.Reach.of_execIf [.connect, .token 0 .fetched, .quicTimeout 0, .wsOpen 0, .connect] rfl
      (by decide)
  obtain ⟨s, hs, hp⟩ := hrun
  obtain ⟨hp, hgen⟩ := Bool.and_eq_true_iff.mp hp
  obtain ⟨hsocket, hold⟩ := Bool.and_eq_true_iff.mp hp
  have hopen : s.IsOpen (.ws 0) := ⟨_, of_decide_eq_true hsocket, rfl, rfl, rfl⟩
  have hcur := ((hall s hs).1 (.ws 0) hopen).2
  rw [of_decide_eq_true hold, of_decide_eq_true hgen] at hcur
  cases hcur

/-- The WebSocket is open when the store is closed. -/
theorem leaves_nothing_first : ∃ s : Store ℕ, s.sockets = [⟨0, true, true, false⟩] ∧ s.Clean ∧
    (s.connect.Clean ↔ s.status ≠ .connected) := by
  have hrun : ∃ s : Store ℕ, (machine ℕ).Reach Tended s ∧
      decide (s.sockets = [⟨0, true, true, false⟩]) = true :=
    Machine.Reach.of_execIf [.connect, .token 0 .fetched, .quicTimeout 0, .wsOpen 0, .close] rfl
      (by decide)
  obtain ⟨s, hs, hp⟩ := hrun
  obtain ⟨-, hconnect⟩ := leaves_nothing.2 s hs
  exact ⟨s, of_decide_eq_true hp, (leaves_nothing.1 s (careful_of_tended hs)).1, hconnect⟩

end Store

end Epistl.Transport
