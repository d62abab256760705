import Epistl.Transport.Stale
import Mathlib.Data.List.Nodup

/-! # QUIC first, WebSocket second

When the callbacks of QUIC come in order, an attempt dials at most one WebSocket, after QUIC
has been rejected or has timed out and before it resolves, and the connection that loses
the attempt is closed and shows nothing.
-/
namespace Epistl.Transport
variable {φ : Type} {s t : Store φ} {a k : ℕ} {A B : Attempt} {S : Socket} {strict : Prop}
  {sockets : List Socket}

/-- What became of the two connections of an attempt. -/
structure Attempt.Fair (sockets : List Socket) (A : Attempt) : Prop where
  won : A.winner = some .quic → A.settled = true ∧ A.dial = .resolved ∧ ∀ k, A.ws = some k →
    A.wsDiscarded = true ∧ ∀ S, sockets[k]? = some S → S.closing = true ∨ S.ended = true
  lost : A.dial = .resolved → A.winner = some .quic ∨ A.dropped = true
  late : A.ws ≠ none → A.timedOut = true ∨ A.dial = .rejected

/-- A socket that was closed stays closed. -/
def StayClosed (sockets sockets' : List Socket) : Prop :=
  ∀ (k : ℕ) (T : Socket), sockets'[k]? = some T → ∃ S, sockets[k]? = some S ∧
    (S.closing = true ∨ S.ended = true → T.closing = true ∨ T.ended = true)

theorem stayClosed_set {S' : Socket} (hS : sockets[k]? = some S)
    (hstay : S.closing = true ∨ S.ended = true → S'.closing = true ∨ S'.ended = true) :
    StayClosed sockets (sockets.set k S') := by
  intro l T hl
  rcases getElem?_set_cases hl with ⟨rfl, rfl⟩ | ⟨-, hl⟩
  · exact ⟨S, hS, hstay⟩
  · exact ⟨T, hl, id⟩

theorem stayClosed_closing (ws : Option ℕ) : StayClosed sockets (closing ws sockets) := by
  intro l T hl
  cases ws with
  | none => exact ⟨T, hl, id⟩
  | some k =>
    obtain ⟨S, hS, rfl⟩ := getElem?_modify_cases hl
    refine ⟨S, hS, fun h => ?_⟩
    split
    · exact .inl rfl
    · exact h

theorem Attempt.Fair.of_sockets {sockets' : List Socket} (h : A.Fair sockets)
    (hstay : StayClosed sockets sockets') : A.Fair sockets' where
  won hw := by
    obtain ⟨hsettled, hdial, hws⟩ := h.won hw
    refine ⟨hsettled, hdial, fun k hk => ⟨(hws k hk).1, fun T hT => ?_⟩⟩
    obtain ⟨S, hS, hclosed⟩ := hstay k T hT
    exact hclosed ((hws k hk).2 S hS)
  lost := h.lost
  late := h.late

namespace Store

def Fair (s : Store φ) : Prop := ∀ (a : ℕ) (A : Attempt), s.attempts[a]? = some A → A.Fair s.sockets

theorem Fair.of_eq (hs : s.Fair) (ha : t.attempts = s.attempts) (hk : t.sockets = s.sockets) :
    t.Fair := by
  unfold Store.Fair
  rw [ha, hk]
  exact hs

theorem Fair.setAttempt (hs : s.Fair) (hB : B.Fair s.sockets) : (s.setAttempt a B).Fair := by
  intro b C hb
  rcases getElem?_set_cases hb with ⟨-, rfl⟩ | ⟨-, hb⟩
  · exact hB
  · exact hs b C hb

theorem Fair.of_sockets (hs : s.Fair) (ha : t.attempts = s.attempts)
    (hstay : StayClosed s.sockets t.sockets) : t.Fair := by
  intro b B hb
  rw [ha] at hb
  exact (hs b B hb).of_sockets hstay

theorem Fair.reconnectFrom (hs : s.Fair) (generation : ℕ) : (s.reconnectFrom generation).Fair := by
  unfold Store.reconnectFrom Store.scheduleReconnect
  split <;> exact hs

/-- The fallback is dialed after a timeout or a rejection. -/
theorem Fair.startWs (hs : s.Fair) (ht : s.Tidy) (hB : B.Fair s.sockets)
    (hlate : B.timedOut = true ∨ B.dial = .rejected) :
    ((s.setAttempt a B).startWs a B).Fair := by
  unfold Store.startWs
  rw [setAttempt_setAttempt]
  split
  · exact hs.setAttempt hB
  · rename_i hactive
    simp only [Bool.or_eq_true, not_or, Bool.not_eq_true] at hactive
    intro b C hb
    rcases getElem?_set_cases hb with ⟨-, rfl⟩ | ⟨-, hb⟩
    · refine ⟨fun hw => ?_, hB.lost, fun _ => hlate⟩
      have := (hB.won hw).1
      rw [hactive.2] at this
      cases this
    · have hC := hs b C hb
      refine ⟨fun hw => ?_, hC.lost, hC.late⟩
      obtain ⟨hsettled, hdial, hws⟩ := hC.won hw
      refine ⟨hsettled, hdial, fun k hk => ⟨(hws k hk).1, fun T hT => ?_⟩⟩
      obtain ⟨S, hS, -⟩ := ht.dialed b C k hb hk
      have hT := (List.getElem?_append_left (lt_length_of_getElem? hS)).symm.trans hT
      exact (hws k hk).2 T hT

theorem Fair.quicTimeout (hs : s.Fair) (ht : s.Tidy) (hA : s.attempts[a]? = some A) :
    (s.quicTimeout a A).Fair := by
  have hfair := hs a A hA
  have hB : Attempt.Fair s.sockets { A with quicTimer := false, timedOut := true } :=
    ⟨hfair.won, hfair.lost, fun _ => .inl rfl⟩
  unfold Store.quicTimeout
  dsimp only
  split
  · exact hs.setAttempt hB
  · exact hs.startWs ht hB (.inl rfl)

theorem Fair.quicEstablished (hs : s.Fair) (hA : s.attempts[a]? = some A) (hdial : A.dial = .dialing) :
    (s.setAttempt a { A with dial := .established }).Fair := by
  have hfair := hs a A hA
  refine hs.setAttempt ⟨fun hw => ?_, fun hres => (by cases hres), fun hws => .inl ?_⟩
  · have := (hfair.won hw).2.1
    rw [hdial] at this
    cases this
  · refine (hfair.late hws).resolve_right fun hrej => ?_
    rw [hdial] at hrej
    cases hrej

theorem Fair.quicRejected (hs : s.Fair) (ht : s.Tidy) (hA : s.attempts[a]? = some A)
    (hdial : A.dial = .dialing) : (s.quicRejected a A).Fair := by
  have hfair := hs a A hA
  have hB (timer : Bool) :
      Attempt.Fair s.sockets { A with dial := .rejected, quicTimer := timer } := by
    refine ⟨fun hw => ?_, fun hres => (by cases hres), fun _ => .inr rfl⟩
    have := (hfair.won hw).2.1
    rw [hdial] at this
    cases this
  unfold Store.quicRejected
  dsimp only
  rw [setAttempt_setAttempt]
  split
  · exact hs.setAttempt (hB _)
  · split
    · exact hs.setAttempt (hB _)
    · exact hs.startWs ht (hB _) (.inr rfl)

theorem Fair.quicResolved (hs : s.Fair) (hi : s.Inv strict) (hA : s.attempts[a]? = some A)
    (hdial : A.dial = .established) : (s.quicResolved a A).Fair := by
  have hfair := hs a A hA
  have hlate : A.ws ≠ none → A.timedOut = true ∨ Dial.resolved = .rejected := by
    intro hws
    refine .inl ((hfair.late hws).resolve_right fun hrej => ?_)
    rw [hdial] at hrej
    cases hrej
  unfold Store.quicResolved
  dsimp only
  split
  · refine hs.setAttempt ⟨fun hw => ?_, fun _ => .inr rfl, hlate⟩
    have := (hfair.won hw).2.1
    rw [hdial] at this
    cases this
  · rename_i hactive
    simp only [Bool.or_eq_true, not_or, Bool.not_eq_true] at hactive
    have hcur := (stale_eq_false hA).mp hactive.1
    have hkept := (hi.trying hcur hactive.2).2.2.wsDiscarded
    unfold Store.finishWithQuic
    have hsockets : (if A.wsDiscarded = true then s.sockets else closing A.ws s.sockets) =
        closing A.ws s.sockets := by
      rw [hkept]
      rfl
    intro b C hb
    have hstay : StayClosed s.sockets (closing A.ws s.sockets) := stayClosed_closing A.ws
    rcases getElem?_set_cases hb with ⟨-, rfl⟩ | ⟨-, hb⟩
    · refine ⟨fun _ => ⟨rfl, rfl, fun k hk => ?_⟩, fun _ => .inl rfl, hlate⟩
      have hk : A.ws = some k := hk
      refine ⟨by simp [Attempt.wonByQuic, hk], fun T hT => .inl ?_⟩
      have hT : (if A.wsDiscarded = true then s.sockets else closing A.ws s.sockets)[k]? = some T := hT
      rw [hsockets, hk] at hT
      obtain ⟨S, -, rfl⟩ := getElem?_modify_cases hT
      rw [if_pos rfl]
    · refine (hs b C hb).of_sockets ?_
      have : StayClosed s.sockets
          (if A.wsDiscarded = true then s.sockets else closing A.ws s.sockets) := by
        rw [hsockets]
        exact hstay
      exact this

theorem Fair.onClosed (hs : s.Fair) (hA : s.attempts[a]? = some A) (authFailed : Bool) :
    (s.onClosed a A authFailed).Fair := by
  have hfair := hs a A hA
  have hB : Attempt.Fair s.sockets { A with ended := true } := ⟨hfair.won, hfair.lost, hfair.late⟩
  have hset := hs.setAttempt (a := a) hB
  unfold Store.onClosed
  dsimp only
  split
  · exact hset
  · split
    · exact hset
    · exact Fair.reconnectFrom (s := { (s.setAttempt a { A with ended := true }).report
        (authFailed && decide (A.generation = s.generation)) with quicConnection := none }) hset _

theorem Fair.onopen (hs : s.Fair) (hi : s.Inv strict) (hS : s.sockets[k]? = some S)
    (hA : s.attempts[S.attempt]? = some A) : (s.onopen k S A).Fair := by
  have hopen : StayClosed s.sockets (s.sockets.set k { S with opened := true }) :=
    stayClosed_set hS id
  have hclose : StayClosed s.sockets (s.sockets.set k { S with opened := true, closing := true }) :=
    stayClosed_set hS fun _ => .inl rfl
  unfold Store.onopen
  dsimp only
  split
  · rw [closeSocket_setSocket hS]
    exact hs.of_sockets rfl hclose
  · rename_i hstale
    have hcur := (stale_eq_false hA).mp (Bool.not_eq_true _ ▸ hstale : s.stale _ _ = false)
    split
    · have hfair := hs S.attempt A hA
      have hB : Attempt.Fair s.sockets { A with wsDiscarded := true } :=
        ⟨fun hw => ⟨(hfair.won hw).1, (hfair.won hw).2.1,
          fun k hk => ⟨rfl, ((hfair.won hw).2.2 k hk).2⟩⟩, hfair.lost, hfair.late⟩
      have hset := hs.setAttempt (a := S.attempt) hB
      have heq := closeSocket_setSocket (T := { S with opened := true })
        (s := s.setAttempt S.attempt { A with wsDiscarded := true }) hS
      have hset' := hset.of_sockets
        (t := (s.setAttempt S.attempt { A with wsDiscarded := true }).setSocket k
          { S with opened := true, closing := true }) rfl hclose
      rw [← heq] at hset'
      exact hset'
    · rename_i hsettled
      have hsettled : A.settled = false := Bool.not_eq_true _ ▸ hsettled
      have hfair := hs S.attempt A hA
      have hnotres := (hi.trying hcur hsettled).2.2.dial
      unfold Store.finishWithWs
      intro b C hb
      rcases getElem?_set_cases hb with ⟨-, rfl⟩ | ⟨-, hb⟩
      · exact ⟨fun hw => (by cases hw), fun hres => absurd hres hnotres, hfair.late⟩
      · exact (hs b C hb).of_sockets hopen

theorem Fair.onclose (hs : s.Fair) (hS : s.sockets[k]? = some S)
    (hA : s.attempts[S.attempt]? = some A) (code : ℕ) : (s.onclose k S A code).Fair := by
  have hend : StayClosed s.sockets (s.sockets.set k { S with ended := true }) :=
    stayClosed_set hS fun _ => .inr rfl
  have hdone : Fair (((s.setSocket k { S with ended := true }).clearSocket k).report
      (decide (code = closeUnauthorized ∧ A.generation = s.generation))) := hs.of_sockets rfl hend
  unfold Store.onclose
  dsimp only
  split
  · exact hdone
  · split
    · split
      · exact hdone
      · exact hdone.reconnectFrom _
    · rename_i hsettled
      have hfair := hdone S.attempt A hA
      have hset := hdone.setAttempt (a := S.attempt) (B := { A with settled := true })
        ⟨fun hw => ⟨rfl, (hfair.won hw).2⟩, hfair.lost, hfair.late⟩
      split
      · exact hset
      · exact hset.reconnectFrom _

theorem Fair.connect (hs : s.Fair) : s.connect.Fair := by
  rw [connect_eq]
  exact hs.of_eq rfl rfl

theorem Fair.close (hs : s.Fair) : s.close.Fair := by
  rw [close_eq]
  have hstay : StayClosed s.sockets (closing s.socket s.sockets) := stayClosed_closing s.socket
  intro b B hb
  unfold dropping at hb
  cases hq : s.quicConnection with
  | none =>
    simp only [hq] at hb
    exact (hs b B hb).of_sockets hstay
  | some c =>
    simp only [hq] at hb
    obtain ⟨C, hC, rfl⟩ := getElem?_modify_cases hb
    have hfair := (hs b C hC).of_sockets hstay
    split
    · exact ⟨hfair.won, fun _ => .inr rfl, hfair.late⟩
    · exact hfair

theorem Fair.attemptConnect (hs : s.Fair) (generation : ℕ) : (s.attemptConnect generation).Fair := by
  unfold Store.attemptConnect
  split <;> exact hs

theorem Fair.token (hs : s.Fair) (generation : ℕ) (token : Token) :
    (s.token generation token).Fair := by
  unfold Store.token
  cases token with
  | rejected => exact hs
  | missing =>
    dsimp only
    split <;> exact hs
  | fetched =>
    dsimp only
    split
    · exact hs
    · intro b B hb
      rcases getElem?_concat_cases hb with ⟨-, rfl⟩ | hb
      · exact ⟨fun hw => (by cases hw), fun hres => (by cases hres), fun hws => absurd rfl hws⟩
      · exact hs b B hb

theorem Fair.step (hs : s.Fair) (hi : s.Inv strict) {e : Event φ} (he : s.step e = some t) :
    t.Fair := by
  cases e with
  | connect =>
    cases he
    exact hs.connect
  | close =>
    cases he
    exact hs.close
  | token f token =>
    obtain ⟨F, -, he⟩ := Option.bind_eq_some_iff.mp he
    split at he
    · cases he
      have hset : Fair { s with fetches := s.fetches.set f { F with pending := false } } := hs
      exact hset.token F.generation token
    · cases he
  | reconnect u =>
    obtain ⟨T, -, he⟩ := Option.bind_eq_some_iff.mp he
    split at he
    · cases he
      have hset : Fair { s with
          timers := s.timers.set u { T with pending := false }
          reconnectTimer := none } := hs
      exact hset.attemptConnect T.generation
    · cases he
  | quicTimeout a =>
    obtain ⟨A, hA, -, rfl⟩ := onAttempt_eq_some he
    exact hs.quicTimeout hi.toTidy hA
  | quicEstablished a =>
    obtain ⟨A, hA, hen, rfl⟩ := onAttempt_eq_some he
    exact hs.quicEstablished hA (of_decide_eq_true hen)
  | quicResolved a =>
    obtain ⟨A, hA, hen, rfl⟩ := onAttempt_eq_some he
    exact hs.quicResolved hi hA (of_decide_eq_true hen)
  | quicRejected a =>
    obtain ⟨A, hA, hen, rfl⟩ := onAttempt_eq_some he
    exact hs.quicRejected hi.toTidy hA (of_decide_eq_true hen)
  | quicFrame a frame =>
    obtain ⟨A, -, -, rfl⟩ := onAttempt_eq_some he
    cases frame with
    | none => exact hs
    | some frame =>
      unfold Store.onFrame
      dsimp only
      split <;> exact hs
  | quicClosed a authFailed =>
    obtain ⟨A, hA, -, rfl⟩ := onAttempt_eq_some he
    exact hs.onClosed hA authFailed
  | wsOpen k =>
    obtain ⟨S, A, hS, hA, -, rfl⟩ := onSocket_eq_some he
    exact hs.onopen hi hS hA
  | wsMessage k frame =>
    obtain ⟨S, A, -, -, -, rfl⟩ := onSocket_eq_some he
    cases frame with
    | none => exact hs
    | some frame =>
      unfold Store.onmessage
      dsimp only
      split <;> exact hs
  | wsClose k code =>
    obtain ⟨S, A, hS, hA, -, rfl⟩ := onSocket_eq_some he
    exact hs.onclose hS hA code

/-- Each socket is the only one of its attempt, whose QUIC had timed out or been rejected. -/
structure DialsOnce (s : Store φ) : Prop where
  once : ∀ (k l : ℕ) (S T : Socket), s.sockets[k]? = some S → s.sockets[l]? = some T →
    S.attempt = T.attempt → k = l
  late : ∀ (k : ℕ) (S : Socket), s.sockets[k]? = some S → ∃ A, s.attempts[S.attempt]? = some A ∧
    (A.timedOut = true ∨ A.dial = .rejected)

/-- The connection that lost an attempt is closed. -/
structure LosersClosed (s : Store φ) : Prop where
  ws : ∀ (k : ℕ) (S : Socket) (A : Attempt), s.sockets[k]? = some S →
    s.attempts[S.attempt]? = some A → A.winner = some .quic → S.closing = true ∨ S.ended = true
  quic : ∀ (a : ℕ) (A : Attempt), s.attempts[a]? = some A → A.dial = .resolved →
    A.winner ≠ some .quic → A.dropped = true

/-- A socket that a step dials is of an attempt whose QUIC has not resolved. -/
def DialsBefore (s t : Store φ) : Prop :=
  ∀ (k : ℕ) (S : Socket) (A : Attempt), s.sockets.length ≤ k → t.sockets[k]? = some S →
    t.attempts[S.attempt]? = some A → A.dial ≠ .resolved

/-- The event is of the connection that lost its attempt. -/
def OfLoser (s : Store φ) : Event φ → Prop
  | .connect => False
  | .close => False
  | .token _ _ => False
  | .reconnect _ => False
  | .quicTimeout _ => False
  | .quicEstablished a => ∀ A ∈ s.attempts[a]?, A.settled = true ∧ A.winner ≠ some .quic
  | .quicResolved a => ∀ A ∈ s.attempts[a]?, A.settled = true ∧ A.winner ≠ some .quic
  | .quicRejected a => ∀ A ∈ s.attempts[a]?, A.settled = true ∧ A.winner ≠ some .quic
  | .quicFrame a _ => ∀ A ∈ s.attempts[a]?, A.settled = true ∧ A.winner ≠ some .quic
  | .quicClosed a _ => ∀ A ∈ s.attempts[a]?, A.settled = true ∧ A.winner ≠ some .quic
  | .wsOpen k => ∀ S ∈ s.sockets[k]?, ∀ A ∈ s.attempts[S.attempt]?, A.winner = some .quic
  | .wsMessage k _ => ∀ S ∈ s.sockets[k]?, ∀ A ∈ s.attempts[S.attempt]?, A.winner = some .quic
  | .wsClose k _ => ∀ S ∈ s.sockets[k]?, ∀ A ∈ s.attempts[S.attempt]?, A.winner = some .quic

theorem Fair.dialsOnce (hs : s.Fair) (ht : s.Tidy) : s.DialsOnce where
  once k l S T hS hT heq := by
    obtain ⟨A, hA, hk⟩ := ht.socket k S hS
    obtain ⟨B, hB, hl⟩ := ht.socket l T hT
    rw [← heq] at hB
    cases hA.symm.trans hB
    exact Option.some.inj (hk.symm.trans hl)
  late k S hS := by
    obtain ⟨A, hA, hk⟩ := ht.socket k S hS
    refine ⟨A, hA, (hs S.attempt A hA).late ?_⟩
    rw [hk]
    exact Option.some_ne_none k

theorem Fair.losersClosed (hs : s.Fair) (ht : s.Tidy) : s.LosersClosed where
  ws k S A hS hA hw := by
    have hk := ht.ws_eq hS hA
    exact (((hs S.attempt A hA).won hw).2.2 k hk).2 S hS
  quic a A hA hres hw := ((hs a A hA).lost hres).resolve_left hw

theorem dialsBefore_of_length (h : t.sockets.length ≤ s.sockets.length) : DialsBefore s t := by
  intro k S A hk hS
  have := lt_length_of_getElem? hS
  omega

/-- Only the fallback dials. -/
theorem dialsBefore_startWs (hB : B.dial ≠ .resolved) :
    DialsBefore s ((s.setAttempt a B).startWs a B) := by
  unfold startWs
  split
  · exact dialsBefore_of_length (Nat.le_refl _)
  · intro k S C hk hS hC
    rcases getElem?_concat_cases hS with ⟨-, rfl⟩ | hS
    · rcases getElem?_set_cases hC with ⟨-, rfl⟩ | ⟨hne, -⟩
      · exact hB
      · exact absurd rfl hne
    · have := lt_length_of_getElem? hS
      have : k < s.sockets.length := this
      omega

theorem length_reconnectFrom (generation : ℕ) :
    (s.reconnectFrom generation).sockets.length = s.sockets.length := by
  unfold reconnectFrom scheduleReconnect
  split <;> rfl

theorem length_closing (ws : Option ℕ) : (closing ws sockets).length = sockets.length := by
  cases ws with
  | none => rfl
  | some k => exact List.length_modify _ _ _

theorem length_closeSocket (k : ℕ) : (s.closeSocket k).sockets.length = s.sockets.length :=
  length_closing (some k)

theorem length_onopen (k : ℕ) (S : Socket) (A : Attempt) :
    (s.onopen k S A).sockets.length = s.sockets.length := by
  unfold onopen
  dsimp only
  split
  · exact (length_closeSocket k).trans List.length_set
  · split
    · exact (length_closeSocket k).trans List.length_set
    · exact List.length_set

theorem length_onclose (k : ℕ) (S : Socket) (A : Attempt) (code : ℕ) :
    (s.onclose k S A code).sockets.length = s.sockets.length := by
  unfold onclose
  dsimp only
  split
  · exact List.length_set
  · split
    · split
      · exact List.length_set
      · exact (length_reconnectFrom _).trans List.length_set
    · split
      · exact List.length_set
      · exact (length_reconnectFrom _).trans List.length_set

theorem length_onClosed (a : ℕ) (A : Attempt) (authFailed : Bool) :
    (s.onClosed a A authFailed).sockets.length = s.sockets.length := by
  unfold onClosed
  dsimp only
  split
  · rfl
  · split
    · rfl
    · exact length_reconnectFrom _

theorem length_quicResolved (a : ℕ) (A : Attempt) :
    (s.quicResolved a A).sockets.length = s.sockets.length := by
  unfold quicResolved
  dsimp only
  split
  · rfl
  · unfold finishWithQuic
    dsimp only
    split
    · rfl
    · exact length_closing _

theorem Inv.dialsBefore (hs : s.Inv strict) {e : Event φ} (he : s.step e = some t) :
    DialsBefore s t := by
  cases e with
  | connect =>
    cases he
    rw [connect_eq]
    exact dialsBefore_of_length (Nat.le_refl _)
  | close =>
    cases he
    rw [close_eq]
    exact dialsBefore_of_length (Nat.le_of_eq (length_closing _))
  | token f token =>
    obtain ⟨F, -, he⟩ := Option.bind_eq_some_iff.mp he
    split at he
    · cases he
      apply dialsBefore_of_length
      unfold Store.token
      cases token with
      | rejected => exact Nat.le_refl _
      | missing =>
        dsimp only
        split <;> exact Nat.le_refl _
      | fetched =>
        dsimp only
        split <;> exact Nat.le_refl _
    · cases he
  | reconnect u =>
    obtain ⟨T, -, he⟩ := Option.bind_eq_some_iff.mp he
    split at he
    · cases he
      apply dialsBefore_of_length
      unfold Store.attemptConnect
      split <;> exact Nat.le_refl _
    · cases he
  | quicTimeout a =>
    obtain ⟨A, hA, -, rfl⟩ := onAttempt_eq_some he
    unfold Store.quicTimeout
    dsimp only
    split
    · exact dialsBefore_of_length (Nat.le_refl _)
    · rename_i hactive
      simp only [stale_setAttempt, Bool.or_eq_true, not_or, Bool.not_eq_true] at hactive
      have hcur := (stale_eq_false hA).mp hactive.1
      exact dialsBefore_startWs (hs.trying hcur hactive.2).2.2.dial
  | quicEstablished a =>
    obtain ⟨A, -, -, rfl⟩ := onAttempt_eq_some he
    exact dialsBefore_of_length (Nat.le_refl _)
  | quicResolved a =>
    obtain ⟨A, -, -, rfl⟩ := onAttempt_eq_some he
    exact dialsBefore_of_length (Nat.le_of_eq (length_quicResolved a A))
  | quicRejected a =>
    obtain ⟨A, -, -, rfl⟩ := onAttempt_eq_some he
    unfold Store.quicRejected
    dsimp only
    rw [setAttempt_setAttempt]
    split
    · exact dialsBefore_of_length (Nat.le_refl _)
    · split
      · exact dialsBefore_of_length (Nat.le_refl _)
      · exact dialsBefore_startWs fun hres => by cases hres
  | quicFrame a frame =>
    obtain ⟨A, -, -, rfl⟩ := onAttempt_eq_some he
    apply dialsBefore_of_length
    cases frame with
    | none => exact Nat.le_refl _
    | some frame =>
      unfold Store.onFrame
      dsimp only
      split <;> exact Nat.le_refl _
  | quicClosed a authFailed =>
    obtain ⟨A, -, -, rfl⟩ := onAttempt_eq_some he
    exact dialsBefore_of_length (Nat.le_of_eq (length_onClosed a A authFailed))
  | wsOpen k =>
    obtain ⟨S, A, -, -, -, rfl⟩ := onSocket_eq_some he
    exact dialsBefore_of_length (Nat.le_of_eq (length_onopen k S A))
  | wsMessage k frame =>
    obtain ⟨S, A, -, -, -, rfl⟩ := onSocket_eq_some he
    apply dialsBefore_of_length
    cases frame with
    | none => exact Nat.le_refl _
    | some frame =>
      unfold Store.onmessage
      dsimp only
      split <;> exact Nat.le_refl _
  | wsClose k code =>
    obtain ⟨S, A, -, -, -, rfl⟩ := onSocket_eq_some he
    exact dialsBefore_of_length (Nat.le_of_eq (length_onclose k S A code))

/-- The stored QUIC connection of this generation has won its attempt. -/
theorem Inv.ignores_loser (hs : s.Inv strict) (hA : s.attempts[a]? = some A)
    (hguard : s.closed = false → A.generation = s.generation → A.dial = .resolved)
    (hlost : A.winner ≠ some .quic) : s.ignoresQuic a A = true := by
  by_contra hheard
  exact hlost (hs.heard hA hguard hheard).2.2.winner

/-- The connection that lost an attempt changes nothing that is shown. -/
theorem Fair.sameShown (hs : s.Fair) (hi : s.Inv strict) {e : Event φ} (hguard : s.Ordered e)
    (hlost : s.OfLoser e) (he : s.step e = some t) : SameShown s t := by
  have hdiscarded {k : ℕ} {S : Socket} {A : Attempt} (hS : s.sockets[k]? = some S)
      (hA : s.attempts[S.attempt]? = some A) (hw : A.winner = some .quic) :
      A.settled = true ∧ A.wsDiscarded = true :=
    ⟨((hs S.attempt A hA).won hw).1,
      (((hs S.attempt A hA).won hw).2.2 k (hi.toTidy.ws_eq hS hA)).1⟩
  cases e with
  | connect => exact hlost.elim
  | close => exact hlost.elim
  | token f token => exact hlost.elim
  | reconnect u => exact hlost.elim
  | quicTimeout a => exact hlost.elim
  | quicEstablished a =>
    obtain ⟨A, -, -, rfl⟩ := onAttempt_eq_some he
    exact ⟨rfl, rfl, rfl, rfl, rfl, rfl⟩
  | quicResolved a =>
    obtain ⟨A, hA, -, rfl⟩ := onAttempt_eq_some he
    simp only [Store.quicResolved, (hlost A hA).1, Bool.or_true, if_true]
    exact ⟨rfl, rfl, rfl, rfl, rfl, rfl⟩
  | quicRejected a =>
    obtain ⟨A, hA, -, rfl⟩ := onAttempt_eq_some he
    simp only [Store.quicRejected, (hlost A hA).1, if_true]
    split <;> exact ⟨rfl, rfl, rfl, rfl, rfl, rfl⟩
  | quicFrame a frame =>
    obtain ⟨A, hA, -, rfl⟩ := onAttempt_eq_some he
    have hignored := hi.ignores_loser hA (hguard.2 A hA) (hlost A hA).2
    cases frame with
    | none => exact .refl s
    | some frame =>
      simp only [Store.onFrame, hignored, if_true]
      exact .refl s
  | quicClosed a authFailed =>
    obtain ⟨A, hA, -, rfl⟩ := onAttempt_eq_some he
    have hignored := hi.ignores_loser hA (hguard.1 A hA) (hlost A hA).2
    simp only [Store.onClosed, ignoresQuic_report, ignoresQuic_setAttempt, hignored, if_true]
    exact ⟨rfl, rfl, rfl, rfl, rfl, rfl⟩
  | wsOpen k =>
    obtain ⟨S, A, hS, hA, -, rfl⟩ := onSocket_eq_some he
    simp only [Store.onopen, (hdiscarded hS hA (hlost S hS A hA)).1, if_true]
    split <;> exact ⟨rfl, rfl, rfl, rfl, rfl, rfl⟩
  | wsMessage k frame =>
    obtain ⟨S, A, hS, hA, -, rfl⟩ := onSocket_eq_some he
    cases frame with
    | none => exact .refl s
    | some frame =>
      simp only [Store.onmessage, (hdiscarded hS hA (hlost S hS A hA)).2, Bool.or_true, if_true]
      exact .refl s
  | wsClose k code =>
    obtain ⟨S, A, hS, hA, -, rfl⟩ := onSocket_eq_some he
    simp only [Store.onclose, (hdiscarded hS hA (hlost S hS A hA)).2, Bool.or_true, if_true]
    exact ⟨rfl, rfl, rfl, rfl, rfl, rfl⟩

theorem fair_of_reach (h : (machine φ).Reach Ordered s) : s.Fair := by
  refine h.invariant_of (J := fun s => s.Inv False) (fun s hs => inv_of_reach hs) ?_ ?_
  · rintro _ rfl a A hA
    cases hA
  · intro s e t hi hs _ he
    exact hs.step hi he

/-- As long as the callbacks of QUIC come in order, an attempt dials one WebSocket at most,
after QUIC was rejected or timed out and never after it resolved, and the connection that
loses is closed and shows nothing. -/
theorem sequential (h : (machine φ).Reach Ordered s) :
    s.DialsOnce ∧ s.LosersClosed ∧ ∀ (e : Event φ) (t : Store φ), s.Ordered e → s.step e = some t →
      DialsBefore s t ∧ (s.OfLoser e → SameShown s t) := by
  have hi := inv_of_reach h
  have hs := fair_of_reach h
  refine ⟨hs.dialsOnce hi.toTidy, hs.losersClosed hi.toTidy, fun e t hguard he => ?_⟩
  exact ⟨hi.dialsBefore he, fun hlost => hs.sameShown hi hguard hlost he⟩

/-- The timeout and the rejection that comes after it each dial a WebSocket. -/
theorem dials_twice : ¬ ∀ s : Store ℕ, (machine ℕ).Reach Machine.anyStep s → s.DialsOnce := by
  intro hall
  have hrun : ∃ s : Store ℕ, (machine ℕ).Reach Machine.anyStep s ∧
      decide (s.sockets = [⟨0, false, false, false⟩, ⟨0, false, false, false⟩]) = true :=
    Machine.Reach.of_execIf [.connect, .token 0 .fetched, .quicTimeout 0, .quicRejected 0] rfl
      (by decide)
  obtain ⟨s, hs, hp⟩ := hrun
  have hp := of_decide_eq_true hp
  have heq := (hall s hs).once 0 1 ⟨0, false, false, false⟩ ⟨0, false, false, false⟩
    (by rw [hp]; rfl) (by rw [hp]; rfl) rfl
  cases heq

/-- QUIC times out, the WebSocket is dialed, and QUIC resolves first after all. -/
theorem sequential_first : ∃ s : Store ℕ, s.sockets = [⟨0, false, true, false⟩] ∧
    s.activeTransport = some .quic ∧ s.DialsOnce ∧ s.LosersClosed := by
  have hrun : ∃ s : Store ℕ, (machine ℕ).Reach Ordered s ∧
      (decide (s.sockets = [⟨0, false, true, false⟩]) &&
        decide (s.activeTransport = some .quic)) = true :=
    Machine.Reach.of_execIf [.connect, .token 0 .fetched, .quicTimeout 0, .quicEstablished 0,
      .quicResolved 0] rfl (by decide)
  obtain ⟨s, hs, hp⟩ := hrun
  obtain ⟨hsockets, hactive⟩ := Bool.and_eq_true_iff.mp hp
  obtain ⟨honce, hlosers, -⟩ := sequential hs
  exact ⟨s, of_decide_eq_true hsockets, of_decide_eq_true hactive, honce, hlosers⟩

end Store

end Epistl.Transport
