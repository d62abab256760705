import Epistl.Transport.Slots

/-! # Where outgoing frames go

`send` looks at `activeTransport` and the two stored connections, and never at the status.
While the store is connected, the connection that set `'connected'` is of the current
generation, and `send` reaches it unless it has ended or a WebSocket was dialed after it.
-/
namespace Epistl.Transport
variable {φ ψ : Type} {s t : Store φ} {a b k g : ℕ} {A B : Attempt} {S T : Socket} {c : Conn}

/-- The driver of a connection. -/
def Conn.driver : Conn → Driver
  | ws _ => .ws
  | quic _ => .quic

/-- `readyState` is `CONNECTING`. -/
def Socket.connecting (S : Socket) : Bool := !S.opened && !S.closing && !S.ended

/-- What a connecting WebSocket throws when it is to send. -/
inductive InvalidState
  | connecting
  deriving Repr, DecidableEq

namespace Store

/-- `send(frame)`, with what it hands over to which connection. -/
def send (s : Store φ) (frame : ψ) : Except InvalidState (List (Conn × ψ)) :=
  match s.sendTarget with
  | none => .ok []
  | some (.quic a) => .ok [(.quic a, frame)]
  | some (.ws k) =>
    if s.sockets[k]?.any Socket.connecting = true then .error .connecting
    else .ok [(.ws k, frame)]

def generationOf (s : Store φ) : Conn → Option ℕ
  | .ws k => s.sockets[k]?.bind fun S => s.attempts[S.attempt]?.map Attempt.generation
  | .quic a => s.attempts[a]?.map Attempt.generation

/-- The end of the connection was reported. -/
def Over (s : Store φ) : Conn → Prop
  | .ws k => ∃ S : Socket, s.sockets[k]? = some S ∧ S.ended = true
  | .quic a => ∃ A : Attempt, s.attempts[a]? = some A ∧ A.ended = true

/-- The open connection of the current generation that `activeTransport` names. -/
structure Active (s : Store φ) (c : Conn) : Prop where
  activeTransport : s.activeTransport = some c.driver
  connectedBy : s.connectedBy = some c
  generation : s.generationOf c = some s.generation
  isOpen : s.IsOpen c

/-- The frame goes to the active connection while the store is connected, and nowhere else. -/
def Sends (s : Store φ) (frame : ψ) : Prop :=
  (s.status = .connected → ∃ c, s.Active c ∧ s.send frame = .ok [(c, frame)]) ∧
    (s.status ≠ .connected → s.send frame = .ok [])

/-- The connection that set `'connected'` has not ended, and no WebSocket was dialed after it. -/
def Keeps (s : Store φ) : Prop :=
  ∃ c, s.connectedBy = some c ∧ ¬ s.Over c ∧ ∀ k, c = .ws k → k + 1 = s.sockets.length

/-- The connection set `'connected'` in this generation and was not closed since. -/
def Holds (s : Store φ) : Conn → Prop
  | .ws k => ∃ (S : Socket) (A : Attempt), s.sockets[k]? = some S ∧ S.opened = true ∧
    S.closing = false ∧ s.attempts[S.attempt]? = some A ∧ A.generation = s.generation
  | .quic a => ∃ A : Attempt, s.attempts[a]? = some A ∧ A.dial = .resolved ∧ A.dropped = false ∧
    A.generation = s.generation ∧ s.quicConnection = some a

/-- `activeTransport` names the driver of the connection that set `'connected'`, and nothing
while the store is not connected. -/
structure Shows (s : Store φ) : Prop where
  idle : s.status ≠ .connected → s.activeTransport = none
  up : s.status = .connected → ∃ c, s.connectedBy = some c ∧
    s.activeTransport = some c.driver ∧ s.Holds c

namespace Holds

theorem of_eq (h : s.Holds c) (ha : t.attempts = s.attempts) (hk : t.sockets = s.sockets)
    (hg : t.generation = s.generation) (hq : t.quicConnection = s.quicConnection) : t.Holds c := by
  cases c with
  | ws k =>
    obtain ⟨S, A, hS, hopened, hclosing, hA, hgen⟩ := h
    exact ⟨S, A, hk ▸ hS, hopened, hclosing, ha ▸ hA, hgen.trans hg.symm⟩
  | quic a =>
    obtain ⟨A, hA, hres, hdropped, hgen, hquic⟩ := h
    exact ⟨A, ha ▸ hA, hres, hdropped, hgen.trans hg.symm, hq.trans hquic⟩

theorem setAttempt (h : s.Holds c) (hA : s.attempts[a]? = some A)
    (hgen : B.generation = A.generation)
    (hres : A.dial = .resolved → B.dial = .resolved ∧ B.dropped = A.dropped) :
    (s.setAttempt a B).Holds c := by
  cases c with
  | ws k =>
    obtain ⟨S, C, hS, hopened, hclosing, hC, hcur⟩ := h
    by_cases hb : S.attempt = a
    · subst hb
      cases hA.symm.trans hC
      exact ⟨S, B, hS, hopened, hclosing, List.getElem?_set_self (lt_length_of_getElem? hA),
        hgen.trans hcur⟩
    · exact ⟨S, C, hS, hopened, hclosing, (List.getElem?_set_ne (Ne.symm hb)).trans hC, hcur⟩
  | quic b =>
    obtain ⟨C, hC, hdial, hdropped, hcur, hquic⟩ := h
    by_cases hb : b = a
    · subst hb
      cases hA.symm.trans hC
      obtain ⟨hdial, heq⟩ := hres hdial
      exact ⟨B, List.getElem?_set_self (lt_length_of_getElem? hA), hdial, heq.trans hdropped,
        hgen.trans hcur, hquic⟩
    · exact ⟨C, (List.getElem?_set_ne (Ne.symm hb)).trans hC, hdial, hdropped, hcur, hquic⟩

theorem setSocket (h : s.Holds c) (hS : s.sockets[k]? = some S)
    (hattempt : T.attempt = S.attempt)
    (hstay : S.opened = true → T.opened = true ∧ T.closing = S.closing) :
    (s.setSocket k T).Holds c := by
  cases c with
  | ws l =>
    obtain ⟨U, A, hU, hopened, hclosing, hA, hcur⟩ := h
    by_cases hl : l = k
    · subst hl
      cases hS.symm.trans hU
      obtain ⟨hopened, heq⟩ := hstay hopened
      exact ⟨T, A, List.getElem?_set_self (lt_length_of_getElem? hS), hopened, heq.trans hclosing,
        hattempt ▸ hA, hcur⟩
    · exact ⟨U, A, (List.getElem?_set_ne (Ne.symm hl)).trans hU, hopened, hclosing, hA, hcur⟩
  | quic a => exact h

/-- New sockets and attempts come after those that are there. -/
theorem append (h : s.Holds c) (attempts : List Attempt) (sockets : List Socket)
    (ha : t.attempts = s.attempts ++ attempts) (hk : t.sockets = s.sockets ++ sockets)
    (hg : t.generation = s.generation) (hq : t.quicConnection = s.quicConnection) : t.Holds c := by
  have hattempt {b : ℕ} {B : Attempt} (hB : s.attempts[b]? = some B) : t.attempts[b]? = some B := by
    rw [ha]
    exact (List.getElem?_append_left (lt_length_of_getElem? hB)).trans hB
  cases c with
  | ws k =>
    obtain ⟨S, A, hS, hopened, hclosing, hA, hgen⟩ := h
    refine ⟨S, A, ?_, hopened, hclosing, hattempt hA, hgen.trans hg.symm⟩
    rw [hk]
    exact (List.getElem?_append_left (lt_length_of_getElem? hS)).trans hS
  | quic a =>
    obtain ⟨A, hA, hres, hdropped, hgen, hquic⟩ := h
    exact ⟨A, hattempt hA, hres, hdropped, hgen.trans hg.symm, hq.trans hquic⟩

end Holds

namespace Shows

/-- What is shown stays, and so does the connection. -/
theorem of_eq (hs : s.Shows) (hstatus : t.status = s.status)
    (hactive : t.activeTransport = s.activeTransport) (hby : t.connectedBy = s.connectedBy)
    (hholds : ∀ c, s.Holds c → t.Holds c) : t.Shows where
  idle h := hactive.trans (hs.idle (hstatus ▸ h))
  up h := by
    obtain ⟨c, hc, hdriver, hheld⟩ := hs.up (hstatus ▸ h)
    exact ⟨c, hby.trans hc, hactive.trans hdriver, hholds c hheld⟩

theorem of_down (hstatus : t.status ≠ .connected) (hactive : t.activeTransport = none) :
    t.Shows :=
  ⟨fun _ => hactive, fun h => absurd h hstatus⟩

theorem of_up (hstatus : t.status = .connected) (hby : t.connectedBy = some c)
    (hactive : t.activeTransport = some c.driver) (hheld : t.Holds c) : t.Shows :=
  ⟨fun h => absurd hstatus h, fun _ => ⟨c, hby, hactive, hheld⟩⟩

theorem disconnect : s.disconnect.Shows := of_down Status.noConfusion rfl

theorem reconnectFrom (hopen : s.closed = false) (hgen : g = s.generation) :
    (s.reconnectFrom g).Shows := by
  refine of_down ?_ ?_
  · rw [status_reconnectFrom hopen hgen]
    exact Status.noConfusion
  · unfold Store.reconnectFrom Store.scheduleReconnect
    split <;> rfl

theorem setAttempt (hs : s.Shows) (hA : s.attempts[a]? = some A)
    (hgen : B.generation = A.generation)
    (hres : A.dial = .resolved → B.dial = .resolved ∧ B.dropped = A.dropped) :
    (s.setAttempt a B).Shows :=
  hs.of_eq rfl rfl rfl fun _ h => h.setAttempt hA hgen hres

theorem startWs (hs : s.Shows) (hA : s.attempts[a]? = some A)
    (hgen : B.generation = A.generation)
    (hres : A.dial = .resolved → B.dial = .resolved ∧ B.dropped = A.dropped) :
    ((s.setAttempt a B).startWs a B).Shows := by
  unfold Store.startWs
  rw [setAttempt_setAttempt]
  split
  · exact hs.setAttempt hA hgen hres
  · have hset : (s.setAttempt a { B with ws := some s.sockets.length }).Shows :=
      hs.setAttempt hA hgen hres
    refine hset.of_eq rfl rfl rfl fun c h => ?_
    exact h.append [] [⟨a, false, false, false⟩] (List.append_nil _).symm rfl rfl rfl

theorem quicResolved (hs : s.Shows) (hslots : s.Slots) (hA : s.attempts[a]? = some A)
    (hdial : A.dial = .established) : (s.quicResolved a A).Shows := by
  have hnot : A.dial ≠ .resolved := by
    rw [hdial]
    exact Dial.noConfusion
  unfold Store.quicResolved
  dsimp only
  split
  · exact hs.setAttempt hA rfl fun hres => absurd hres hnot
  · rename_i hactive
    simp only [Bool.or_eq_true, not_or, Bool.not_eq_true] at hactive
    have hcur := (stale_eq_false hA).mp hactive.1
    have hkept : A.dropped = false := Bool.not_eq_true _ ▸ fun h => hnot (hslots.dropped a A hA h)
    apply of_up (c := .quic a)
    · rfl
    · rfl
    · rfl
    · refine ⟨_, List.getElem?_set_self (lt_length_of_getElem? hA), rfl, hkept, ?_, rfl⟩
      exact hcur.generation

theorem onClosed (hs : s.Shows) (hA : s.attempts[a]? = some A) (authFailed : Bool) :
    (s.onClosed a A authFailed).Shows := by
  have hset : (s.setAttempt a { A with ended := true }).Shows :=
    hs.setAttempt hA rfl fun hres => ⟨hres, rfl⟩
  unfold Store.onClosed
  dsimp only
  split
  · exact hset.of_eq rfl rfl rfl fun _ h => h.of_eq rfl rfl rfl rfl
  · rename_i hheard
    simp only [ignoresQuic, Bool.or_eq_true, decide_eq_true_eq, not_or, Bool.not_eq_true,
      not_not] at hheard
    split
    · exact disconnect
    · exact reconnectFrom hheard.1.1 hheard.1.2

theorem onopen (hs : s.Shows) (hslots : s.Slots) (hS : s.sockets[k]? = some S)
    (hnew : S.opened = false) (hA : s.attempts[S.attempt]? = some A) : (s.onopen k S A).Shows := by
  have hnot : ¬ S.opened = true := by
    rw [hnew]
    exact Bool.false_ne_true
  have hclose : (s.setSocket k { S with opened := true, closing := true }).Shows :=
    hs.of_eq rfl rfl rfl fun c h => h.setSocket hS rfl fun hopened => absurd hopened hnot
  unfold Store.onopen
  dsimp only
  split
  · rw [closeSocket_setSocket hS]
    exact hclose
  · rename_i hfresh
    split
    · have heq := closeSocket_setSocket (T := { S with opened := true })
        (s := s.setAttempt S.attempt { A with wsDiscarded := true }) hS
      have hdiscard := hclose.setAttempt (B := { A with wsDiscarded := true }) hA rfl
        fun hres => ⟨hres, rfl⟩
      exact heq ▸ hdiscard
    · rename_i hsettled
      have hcur := (stale_eq_false hA).mp (Bool.not_eq_true _ ▸ hfresh : s.stale _ _ = false)
      have hlive : S.closing = false := by
        refine Bool.not_eq_true _ ▸ fun hclosing => ?_
        obtain ⟨B, hB, hover⟩ := hslots.closing k S hS
        cases hA.symm.trans hB
        rcases hover hnew hclosing with h | h
        · exact hsettled h
        · exact Nat.ne_of_lt h hcur.generation
      apply of_up (c := .ws k)
      · rfl
      · rfl
      · rfl
      · refine ⟨{ S with opened := true }, A.wonByWs, ?_, rfl, hlive, ?_, hcur.generation⟩
        · exact List.getElem?_set_self (lt_length_of_getElem? hS)
        · exact List.getElem?_set_self (lt_length_of_getElem? hA)

theorem onclose (hs : s.Shows) (hS : s.sockets[k]? = some S)
    (hA : s.attempts[S.attempt]? = some A) (code : ℕ) : (s.onclose k S A code).Shows := by
  unfold Store.onclose
  dsimp only
  split
  · refine hs.of_eq rfl rfl rfl fun c h => ?_
    have hend := h.setSocket (T := { S with ended := true }) hS rfl fun hopened => ⟨hopened, rfl⟩
    exact hend.of_eq rfl rfl rfl rfl
  · rename_i hactive
    simp only [stale_report, stale_clearSocket, stale_setSocket, Bool.or_eq_true, not_or,
      Bool.not_eq_true] at hactive
    have hcur := (stale_eq_false hA).mp hactive.1
    split
    · split
      · exact disconnect
      · exact reconnectFrom hcur.isOpen hcur.generation
    · split
      · exact disconnect
      · exact reconnectFrom hcur.isOpen hcur.generation

theorem token (hs : s.Shows) (generation : ℕ) (token : Token) :
    (s.token generation token).Shows := by
  unfold Store.token
  cases token with
  | rejected => exact hs
  | missing =>
    dsimp only
    split
    · exact hs
    · exact of_down Status.noConfusion rfl
  | fetched =>
    dsimp only
    split
    · exact hs
    · refine hs.of_eq rfl rfl rfl fun c h => ?_
      exact h.append [.begin generation] [] rfl (List.append_nil _).symm rfl rfl

theorem step (hs : s.Shows) (hslots : s.Slots) {e : Event φ} (he : s.step e = some t) :
    t.Shows := by
  cases e with
  | connect =>
    cases he
    rw [connect_eq]
    exact of_down Status.noConfusion rfl
  | close =>
    cases he
    rw [close_eq]
    exact of_down Status.noConfusion rfl
  | token f token =>
    obtain ⟨F, -, he⟩ := Option.bind_eq_some_iff.mp he
    split at he
    · cases he
      have hset : Shows { s with fetches := s.fetches.set f { F with pending := false } } :=
        hs.of_eq rfl rfl rfl fun c h => h.of_eq rfl rfl rfl rfl
      exact hset.token F.generation token
    · cases he
  | reconnect u =>
    obtain ⟨T, -, he⟩ := Option.bind_eq_some_iff.mp he
    split at he
    · cases he
      unfold Store.attemptConnect
      split <;> exact hs.of_eq rfl rfl rfl fun c h => h.of_eq rfl rfl rfl rfl
    · cases he
  | quicTimeout a =>
    obtain ⟨A, hA, -, rfl⟩ := onAttempt_eq_some he
    unfold Store.quicTimeout
    dsimp only
    split
    · exact hs.setAttempt hA rfl fun hres => ⟨hres, rfl⟩
    · exact hs.startWs hA rfl fun hres => ⟨hres, rfl⟩
  | quicEstablished a =>
    obtain ⟨A, hA, hen, rfl⟩ := onAttempt_eq_some he
    have hdial := of_decide_eq_true hen
    refine hs.setAttempt hA rfl fun hres => ?_
    cases hdial.symm.trans hres
  | quicResolved a =>
    obtain ⟨A, hA, hen, rfl⟩ := onAttempt_eq_some he
    exact hs.quicResolved hslots hA (of_decide_eq_true hen)
  | quicRejected a =>
    obtain ⟨A, hA, hen, rfl⟩ := onAttempt_eq_some he
    have hdial := of_decide_eq_true hen
    have hres (B : Attempt) (hres : A.dial = .resolved) :
        B.dial = .resolved ∧ B.dropped = A.dropped := by
      cases hdial.symm.trans hres
    unfold Store.quicRejected
    dsimp only
    rw [setAttempt_setAttempt]
    split
    · exact hs.setAttempt hA rfl (hres _)
    · split
      · exact hs.setAttempt hA rfl (hres _)
      · exact hs.startWs hA rfl (hres _)
  | quicFrame a frame =>
    obtain ⟨A, -, -, rfl⟩ := onAttempt_eq_some he
    cases frame with
    | none => exact hs
    | some frame =>
      unfold Store.onFrame
      dsimp only
      split
      · exact hs
      · exact hs.of_eq rfl rfl rfl fun c h => h.of_eq rfl rfl rfl rfl
  | quicClosed a authFailed =>
    obtain ⟨A, hA, -, rfl⟩ := onAttempt_eq_some he
    exact hs.onClosed hA authFailed
  | wsOpen k =>
    obtain ⟨S, A, hS, hA, hen, rfl⟩ := onSocket_eq_some he
    simp only [Bool.and_eq_true, Bool.not_eq_true'] at hen
    exact hs.onopen hslots hS hen.1 hA
  | wsMessage k frame =>
    obtain ⟨S, A, -, -, -, rfl⟩ := onSocket_eq_some he
    cases frame with
    | none => exact hs
    | some frame =>
      unfold Store.onmessage
      dsimp only
      split
      · exact hs
      · exact hs.of_eq rfl rfl rfl fun c h => h.of_eq rfl rfl rfl rfl
  | wsClose k code =>
    obtain ⟨S, A, hS, hA, -, rfl⟩ := onSocket_eq_some he
    exact hs.onclose hS hA code

end Shows

theorem shows_of_reach (h : (machine φ).Reach Machine.anyStep s) : s.Shows := by
  refine h.invariant_of (fun s => slots_of_reach) ?_ ?_
  · rintro _ rfl
    exact .of_down Status.noConfusion rfl
  · intro s e t hslots hs _ he
    exact hs.step hslots he

/-- `send` says which connection the frame goes to, unless it throws. -/
theorem sendTarget_of_send {frame : ψ} (h : s.send frame = .ok [(c, frame)]) :
    s.sendTarget = some c := by
  unfold send at h
  split at h
  · cases h
  · rename_i a hto
    cases h
    exact hto
  · rename_i k hto
    split at h
    · cases h
    · cases h
      exact hto

theorem send_of_isOpen {frame : ψ} (hto : s.sendTarget = some c) (hopen : s.IsOpen c) :
    s.send frame = .ok [(c, frame)] := by
  unfold send
  rw [hto]
  cases c with
  | quic a => rfl
  | ws k =>
    obtain ⟨S, hS, hopened, -, -⟩ := hopen
    have hready : ¬ s.sockets[k]?.any Socket.connecting = true := by
      simp [hS, Socket.connecting, hopened]
    simp only [if_neg hready]

/-- A store that is not connected hands nothing over exactly when no WebSocket is stored. -/
theorem Shows.send_idle (hs : s.Shows) (hstatus : s.status ≠ .connected) (frame : ψ) :
    s.send frame = .ok [] ↔ s.socket = none := by
  have hto : s.sendTarget = s.socket.map .ws := by
    unfold sendTarget
    rw [hs.idle hstatus]
  unfold send
  rw [hto]
  cases s.socket with
  | none => simp
  | some k =>
    simp only [Option.map_some, reduceCtorEq, iff_false]
    split <;> simp

theorem Holds.isOpen (h : s.Holds c) (hover : ¬ s.Over c) : s.IsOpen c := by
  cases c with
  | ws k =>
    obtain ⟨S, A, hS, hopened, hclosing, -, -⟩ := h
    exact ⟨S, hS, hopened, hclosing, Bool.not_eq_true _ ▸ fun hended => hover ⟨S, hS, hended⟩⟩
  | quic a =>
    obtain ⟨A, hA, hres, hdropped, -, -⟩ := h
    exact ⟨A, hA, hres, hdropped, Bool.not_eq_true _ ▸ fun hended => hover ⟨A, hA, hended⟩⟩

theorem Holds.generationOf (h : s.Holds c) : s.generationOf c = some s.generation := by
  cases c with
  | ws k =>
    obtain ⟨S, A, hS, -, -, hA, hgen⟩ := h
    simp [Store.generationOf, hS, hA, hgen]
  | quic a =>
    obtain ⟨A, hA, -, -, hgen, -⟩ := h
    simp [Store.generationOf, hA, hgen]

theorem not_over_of_isOpen (h : s.IsOpen c) : ¬ s.Over c := by
  cases c with
  | ws k =>
    obtain ⟨S, hS, -, -, hlive⟩ := h
    rintro ⟨T, hT, hended⟩
    cases hS.symm.trans hT
    rw [hlive] at hended
    cases hended
  | quic a =>
    obtain ⟨A, hA, -, -, hlive⟩ := h
    rintro ⟨B, hB, hended⟩
    cases hA.symm.trans hB
    rw [hlive] at hended
    cases hended

/-- The connection that `send` uses was dialed last when it is a WebSocket. -/
theorem Slots.keeps (hs : s.Slots) (hby : s.connectedBy = some c) (hto : s.sendTarget = some c)
    (hopen : s.IsOpen c) : s.Keeps := by
  refine ⟨c, hby, not_over_of_isOpen hopen, ?_⟩
  rintro k rfl
  apply hs.last
  unfold sendTarget at hto
  split at hto
  · cases hto
  · obtain ⟨l, hl, heq⟩ := Option.map_eq_some_iff.mp hto
    cases heq
    exact hl

/-- The active connection is the one that `send` uses. -/
theorem Keeps.active (hkeeps : s.Keeps) (hs : s.Shows) (hslots : s.Slots)
    (hstatus : s.status = .connected) : ∃ c, s.Active c ∧ s.sendTarget = some c := by
  obtain ⟨c, hby, hover, hlast⟩ := hkeeps
  obtain ⟨d, hd, hactive, hheld⟩ := hs.up hstatus
  cases hby.symm.trans hd
  have hopen := hheld.isOpen hover
  refine ⟨c, ⟨hactive, hby, hheld.generationOf, hopen⟩, ?_⟩
  unfold sendTarget
  rw [hactive]
  cases c with
  | quic a =>
    obtain ⟨A, -, -, -, -, hquic⟩ := hheld
    rw [hquic]
    rfl
  | ws k =>
    obtain ⟨S, hS, -, hclosing, hended⟩ := hopen
    rw [hslots.stored k S hS hclosing hended (hlast k rfl)]
    rfl

/-- `send` does what it should while the store is connected and the connection that set
`'connected'` is kept, and otherwise while no WebSocket is stored. When the callbacks of QUIC
come in order, a connected store keeps its connection. -/
theorem sends_iff (h : (machine φ).Reach Machine.anyStep s) (frame : ψ) :
    (s.Sends frame ↔
      s.status = .connected ∧ s.Keeps ∨ s.status ≠ .connected ∧ s.socket = none) ∧
    ((machine φ).Reach Orderly s → (s.Sends frame ↔ s.status = .connected ∨ s.socket = none)) := by
  have hslots := slots_of_reach h
  have hs := shows_of_reach h
  have hup (hstatus : s.status = .connected) : s.Sends frame ↔ s.Keeps := by
    constructor
    · rintro ⟨hsends, -⟩
      obtain ⟨c, hactive, hsend⟩ := hsends hstatus
      exact hslots.keeps hactive.connectedBy (sendTarget_of_send hsend) hactive.isOpen
    · intro hkeeps
      obtain ⟨c, hactive, hto⟩ := hkeeps.active hs hslots hstatus
      exact ⟨fun _ => ⟨c, hactive, send_of_isOpen hto hactive.isOpen⟩, fun h => absurd hstatus h⟩
  have hdown (hstatus : s.status ≠ .connected) : s.Sends frame ↔ s.socket = none := by
    rw [← hs.send_idle hstatus frame]
    exact ⟨fun hsends => hsends.2 hstatus, fun hsend => ⟨fun h => absurd h hstatus, fun _ => hsend⟩⟩
  by_cases hstatus : s.status = .connected
  · refine ⟨by simp [hup hstatus, hstatus], fun hord => ?_⟩
    obtain ⟨-, c, hby, hto, hopen, -, -⟩ := (inv_of_orderly hord).connected hstatus
    simp [hup hstatus, hstatus, hslots.keeps hby hto hopen]
  · exact ⟨by simp [hdown hstatus, hstatus], fun _ => by simp [hdown hstatus, hstatus]⟩

/-- QUIC times out and the fallback is dialed: `send` throws before the WebSocket has opened. -/
theorem send_throws : ¬ ∀ s : Store ℕ, (machine ℕ).Reach Machine.anyStep s → s.Sends 0 := by
  intro hall
  have hrun : ∃ s : Store ℕ, (machine ℕ).Reach Machine.anyStep s ∧
      (decide (s.status = .connecting) && decide (s.send 0 = .error .connecting)) = true :=
    Machine.Reach.of_execIf [.connect, .token 0 .fetched, .quicTimeout 0] rfl (by decide)
  obtain ⟨s, hs, hp⟩ := hrun
  obtain ⟨hstatus, hsend⟩ := Bool.and_eq_true_iff.mp hp
  have hidle := (hall s hs).2 (by rw [of_decide_eq_true hstatus]; exact Status.noConfusion)
  cases hidle.symm.trans (of_decide_eq_true hsend)

/-- The WebSocket has opened and takes the frame. -/
theorem sends_first : ∃ s : Store ℕ, s.activeTransport = some .ws ∧ s.Sends 0 := by
  have hrun : ∃ s : Store ℕ, (machine ℕ).Reach Orderly s ∧
      (decide (s.status = .connected) && decide (s.activeTransport = some .ws)) = true :=
    Machine.Reach.of_execIf [.connect, .token 0 .fetched, .quicTimeout 0, .wsOpen 0] rfl (by decide)
  obtain ⟨s, hs, hp⟩ := hrun
  obtain ⟨hstatus, hactive⟩ := Bool.and_eq_true_iff.mp hp
  refine ⟨s, of_decide_eq_true hactive, ?_⟩
  exact ((sends_iff (hs.mono fun _ _ _ => trivial) 0).2 hs).mpr (.inl (of_decide_eq_true hstatus))

end Store

end Epistl.Transport
