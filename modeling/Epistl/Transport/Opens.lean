import Epistl.Transport.Send

/-! # How a connection opens

A connection opens in one step only by winning its attempt, and then it is the one that set
`'connected'`.
-/
namespace Epistl.Transport
variable {φ : Type} {s t u : Store φ} {a k : ℕ} {A B : Attempt} {S T : Socket} {c : Conn}
  {e : Event φ}

namespace Store

/-- The store holds the connection. -/
def Stored (s : Store φ) : Conn → Prop
  | .ws k => s.socket = some k
  | .quic a => s.quicConnection = some a

/-- The connection set `'connected'`. -/
def Up (s : Store φ) (c : Conn) : Prop := s.status = .connected ∧ s.connectedBy = some c

/-- No connection is open in `t` that was not open in `s`. -/
def NoneOpens (s t : Store φ) : Prop := ∀ c, t.IsOpen c → s.IsOpen c

namespace NoneOpens

theorem of_eq (ha : t.attempts = s.attempts) (hk : t.sockets = s.sockets) : NoneOpens s t := by
  intro c hopen
  cases c with
  | ws k =>
    obtain ⟨S, hS, hlive⟩ := hopen
    exact ⟨S, hk ▸ hS, hlive⟩
  | quic a =>
    obtain ⟨A, hA, hlive⟩ := hopen
    exact ⟨A, ha ▸ hA, hlive⟩

theorem trans (h : NoneOpens s t) (h' : NoneOpens t u) : NoneOpens s u :=
  fun c hopen => h c (h' c hopen)

theorem setAttempt (hA : s.attempts[a]? = some A)
    (hlive : B.dial = .resolved → B.dropped = false → B.ended = false →
      A.dial = .resolved ∧ A.dropped = false ∧ A.ended = false) :
    NoneOpens s (s.setAttempt a B) := by
  intro c hopen
  cases c with
  | ws k => exact hopen
  | quic b =>
    obtain ⟨C, hC, hdial, hdropped, hended⟩ := hopen
    rcases getElem?_set_cases hC with ⟨rfl, rfl⟩ | ⟨-, hC⟩
    · exact ⟨A, hA, hlive hdial hdropped hended⟩
    · exact ⟨C, hC, hdial, hdropped, hended⟩

theorem setSocket (hS : s.sockets[k]? = some S)
    (hlive : T.opened = true → T.closing = false → T.ended = false →
      S.opened = true ∧ S.closing = false ∧ S.ended = false) : NoneOpens s (s.setSocket k T) := by
  intro c hopen
  cases c with
  | ws l =>
    obtain ⟨U, hU, hopened, hclosing, hended⟩ := hopen
    rcases getElem?_set_cases hU with ⟨rfl, rfl⟩ | ⟨-, hU⟩
    · exact ⟨S, hS, hlive hopened hclosing hended⟩
    · exact ⟨U, hU, hopened, hclosing, hended⟩
  | quic a => exact hopen

theorem reconnectFrom (generation : ℕ) : NoneOpens s (s.reconnectFrom generation) := by
  unfold Store.reconnectFrom Store.scheduleReconnect
  split <;> exact of_eq rfl rfl

/-- A socket that is dialed is not open yet. -/
theorem startWs (hA : s.attempts[a]? = some A)
    (hlive : B.dial = .resolved → B.dropped = false → B.ended = false →
      A.dial = .resolved ∧ A.dropped = false ∧ A.ended = false) :
    NoneOpens s ((s.setAttempt a B).startWs a B) := by
  unfold Store.startWs
  rw [setAttempt_setAttempt]
  split
  · exact setAttempt hA hlive
  · refine trans (t := s.setAttempt a { B with ws := some s.sockets.length })
      (setAttempt hA hlive) fun c hopen => ?_
    cases c with
    | ws k =>
      obtain ⟨S, hS, hopened, hrest⟩ := hopen
      rcases getElem?_concat_cases hS with ⟨-, rfl⟩ | hS
      · cases hopened
      · exact ⟨S, hS, hopened, hrest⟩
    | quic b => exact hopen

theorem onClosed (hA : s.attempts[a]? = some A) (authFailed : Bool) :
    NoneOpens s (s.onClosed a A authFailed) := by
  have hset : NoneOpens s (s.setAttempt a { A with ended := true }) :=
    setAttempt hA fun _ _ hended => by cases hended
  unfold Store.onClosed
  dsimp only
  split
  · exact hset.trans (of_eq rfl rfl)
  · split
    · exact hset.trans (of_eq rfl rfl)
    · exact (hset.trans (u := { (s.setAttempt a { A with ended := true }).report
        (authFailed && decide (A.generation = s.generation)) with quicConnection := none })
        (of_eq rfl rfl)).trans (reconnectFrom _)

theorem onclose (hS : s.sockets[k]? = some S) (hA : s.attempts[S.attempt]? = some A) (code : ℕ) :
    NoneOpens s (s.onclose k S A code) := by
  have hend : NoneOpens s (((s.setSocket k { S with ended := true }).clearSocket k).report
      (decide (code = closeUnauthorized ∧ A.generation = s.generation))) :=
    trans (t := s.setSocket k { S with ended := true })
      (setSocket hS fun _ _ hended => by cases hended) (of_eq rfl rfl)
  have hsettle : NoneOpens (((s.setSocket k { S with ended := true }).clearSocket k).report
      (decide (code = closeUnauthorized ∧ A.generation = s.generation)))
      ((((s.setSocket k { S with ended := true }).clearSocket k).report
        (decide (code = closeUnauthorized ∧ A.generation = s.generation))).setAttempt S.attempt
          { A with settled := true }) :=
    setAttempt hA fun hdial hdropped hended => ⟨hdial, hdropped, hended⟩
  unfold Store.onclose
  dsimp only
  split
  · exact hend
  · split
    · split
      · exact hend.trans (of_eq rfl rfl)
      · exact hend.trans (reconnectFrom _)
    · split
      · exact (hend.trans hsettle).trans (of_eq rfl rfl)
      · exact (hend.trans hsettle).trans (reconnectFrom _)

theorem token (generation : ℕ) (token : Token) : NoneOpens s (s.token generation token) := by
  unfold Store.token
  cases token with
  | rejected => exact of_eq rfl rfl
  | missing =>
    dsimp only
    split <;> exact of_eq rfl rfl
  | fetched =>
    dsimp only
    split
    · exact of_eq rfl rfl
    · intro c hopen
      cases c with
      | ws k => exact hopen
      | quic a =>
        obtain ⟨A, hA, hdial, hrest⟩ := hopen
        rcases getElem?_concat_cases hA with ⟨-, rfl⟩ | hA
        · cases hdial
        · exact ⟨A, hA, hdial, hrest⟩

end NoneOpens

/-- What `close()` leaves open was not stored. -/
theorem isOpen_close : s.close.IsOpen c ↔ s.IsOpen c ∧ ¬ s.Stored c := by
  rw [close_eq]
  cases c with
  | ws k =>
    constructor
    · rintro ⟨S, hS, hopened, hclosing, hended⟩
      obtain ⟨T, hT, ⟨-, rfl⟩ | ⟨hne, rfl⟩⟩ := closing_cases hS
      · cases hclosing
      · exact ⟨⟨S, hT, hopened, hclosing, hended⟩, hne⟩
    · rintro ⟨⟨S, hS, hlive⟩, hne⟩
      refine ⟨S, ?_, hlive⟩
      cases hsocket : s.socket with
      | none => exact hS
      | some l =>
        have hlk : l ≠ k := fun h => hne (hsocket.trans (congrArg some h))
        simp only [closing, List.getElem?_modify, hS, hlk, if_false]
        rfl
  | quic a =>
    constructor
    · rintro ⟨A, hA, hdial, hdropped, hended⟩
      obtain ⟨B, hB, ⟨-, rfl⟩ | ⟨hne, rfl⟩⟩ := dropping_cases hA
      · cases hdropped
      · exact ⟨⟨A, hB, hdial, hdropped, hended⟩, hne⟩
    · rintro ⟨⟨A, hA, hlive⟩, hne⟩
      refine ⟨A, ?_, hlive⟩
      cases hquic : s.quicConnection with
      | none => exact hA
      | some b =>
        have hba : b ≠ a := fun h => hne (hquic.trans (congrArg some h))
        simp only [dropping, List.getElem?_modify, hA, hba, if_false]
        rfl

theorem isOpen_connect : s.connect.IsOpen c ↔ s.IsOpen c := by
  rw [connect_eq]
  exact ⟨NoneOpens.of_eq rfl rfl c, NoneOpens.of_eq rfl rfl c⟩

/-- QUIC wins, and its connection is the only one that opens. -/
theorem finishWithQuic_opens (hA : s.attempts[a]? = some A)
    (hc : (s.finishWithQuic a B).IsOpen c) : s.IsOpen c ∨ (s.finishWithQuic a B).Up c := by
  cases c with
  | ws k =>
    obtain ⟨S, hS, hopened, hclosing, hended⟩ := hc
    left
    unfold finishWithQuic at hS
    dsimp only at hS
    split at hS
    · exact ⟨S, hS, hopened, hclosing, hended⟩
    · obtain ⟨T, hT, ⟨-, rfl⟩ | ⟨-, rfl⟩⟩ := closing_cases hS
      · cases hclosing
      · exact ⟨S, hT, hopened, hclosing, hended⟩
  | quic b =>
    obtain ⟨C, hC, hlive⟩ := hc
    rcases getElem?_set_cases hC with ⟨rfl, -⟩ | ⟨-, hC⟩
    · exact .inr ⟨rfl, rfl⟩
    · exact .inl ⟨C, hC, hlive⟩

theorem onopen_opens (hS : s.sockets[k]? = some S) (hA : s.attempts[S.attempt]? = some A)
    (hc : (s.onopen k S A).IsOpen c) : s.IsOpen c ∨ (s.onopen k S A).Up c := by
  have hclose : NoneOpens s (s.setSocket k { S with opened := true, closing := true }) :=
    NoneOpens.setSocket hS fun _ hclosing => by cases hclosing
  unfold onopen at hc ⊢
  dsimp only at hc ⊢
  split at hc
  · rename_i hstale
    rw [if_pos hstale]
    rw [closeSocket_setSocket hS] at hc
    exact .inl (hclose c hc)
  · rename_i hfresh
    rw [if_neg hfresh]
    split at hc
    · rename_i hsettled
      rw [if_pos hsettled]
      have heq := closeSocket_setSocket (T := { S with opened := true })
        (s := s.setAttempt S.attempt { A with wsDiscarded := true }) hS
      have hset : NoneOpens s (s.setAttempt S.attempt { A with wsDiscarded := true }) :=
        NoneOpens.setAttempt hA fun hdial hdropped hended => ⟨hdial, hdropped, hended⟩
      have hdiscard := hset.trans (NoneOpens.setSocket (k := k) (S := S)
        (T := { S with opened := true, closing := true }) hS fun _ hclosing => by cases hclosing)
      rw [← heq] at hdiscard
      exact .inl (hdiscard c hc)
    · rename_i hsettled
      rw [if_neg hsettled]
      cases c with
      | ws l =>
        obtain ⟨U, hU, hlive⟩ := hc
        rcases getElem?_set_cases hU with ⟨rfl, -⟩ | ⟨-, hU⟩
        · exact .inr ⟨rfl, rfl⟩
        · exact .inl ⟨U, hU, hlive⟩
      | quic b =>
        have hwon : NoneOpens s (s.setAttempt S.attempt A.wonByWs) :=
          NoneOpens.setAttempt hA fun hdial hdropped hended => ⟨hdial, hdropped, hended⟩
        exact .inl (hwon (.quic b) hc)

/-- A connection opens in one step only by winning its attempt. -/
theorem step_opens (he : s.step e = some t) (hc : t.IsOpen c) : s.IsOpen c ∨ t.Up c := by
  cases e with
  | connect =>
    cases he
    exact .inl (isOpen_connect.mp hc)
  | close =>
    cases he
    exact .inl (isOpen_close.mp hc).1
  | token f token =>
    obtain ⟨F, -, he⟩ := Option.bind_eq_some_iff.mp he
    split at he
    · cases he
      have hset : NoneOpens s { s with fetches := s.fetches.set f { F with pending := false } } :=
        .of_eq rfl rfl
      exact .inl (hset.trans (.token F.generation token) c hc)
    · cases he
  | reconnect n =>
    obtain ⟨T, -, he⟩ := Option.bind_eq_some_iff.mp he
    split at he
    · cases he
      refine .inl (NoneOpens.of_eq ?_ ?_ c hc)
      · unfold attemptConnect
        split <;> rfl
      · unfold attemptConnect
        split <;> rfl
    · cases he
  | quicTimeout a =>
    obtain ⟨A, hA, -, rfl⟩ := onAttempt_eq_some he
    left
    unfold Store.quicTimeout at hc
    dsimp only at hc
    split at hc
    · refine NoneOpens.setAttempt hA ?_ c hc
      exact fun hdial hdropped hended => ⟨hdial, hdropped, hended⟩
    · refine NoneOpens.startWs hA ?_ c hc
      exact fun hdial hdropped hended => ⟨hdial, hdropped, hended⟩
  | quicEstablished a =>
    obtain ⟨A, hA, -, rfl⟩ := onAttempt_eq_some he
    exact .inl (NoneOpens.setAttempt hA (fun hdial => by cases hdial) c hc)
  | quicResolved a =>
    obtain ⟨A, hA, -, rfl⟩ := onAttempt_eq_some he
    unfold Store.quicResolved at hc ⊢
    dsimp only at hc ⊢
    split at hc
    · exact .inl (NoneOpens.setAttempt hA (fun _ hdropped => by cases hdropped) c hc)
    · rename_i hactive
      rw [if_neg hactive]
      exact finishWithQuic_opens hA hc
  | quicRejected a =>
    obtain ⟨A, hA, -, rfl⟩ := onAttempt_eq_some he
    left
    unfold Store.quicRejected at hc
    dsimp only at hc
    rw [setAttempt_setAttempt] at hc
    split at hc
    · exact NoneOpens.setAttempt hA (fun hdial => by cases hdial) c hc
    · split at hc
      · exact NoneOpens.setAttempt hA (fun hdial => by cases hdial) c hc
      · exact NoneOpens.startWs hA (fun hdial => by cases hdial) c hc
  | quicFrame a frame =>
    obtain ⟨A, -, -, rfl⟩ := onAttempt_eq_some he
    left
    cases frame with
    | none => exact hc
    | some frame =>
      unfold Store.onFrame at hc
      dsimp only at hc
      split at hc <;> exact NoneOpens.of_eq rfl rfl c hc
  | quicClosed a authFailed =>
    obtain ⟨A, hA, -, rfl⟩ := onAttempt_eq_some he
    exact .inl (NoneOpens.onClosed hA authFailed c hc)
  | wsOpen k =>
    obtain ⟨S, A, hS, hA, -, rfl⟩ := onSocket_eq_some he
    exact onopen_opens hS hA hc
  | wsMessage k frame =>
    obtain ⟨S, A, -, -, -, rfl⟩ := onSocket_eq_some he
    left
    cases frame with
    | none => exact hc
    | some frame =>
      unfold Store.onmessage at hc
      dsimp only at hc
      split at hc <;> exact NoneOpens.of_eq rfl rfl c hc
  | wsClose k code =>
    obtain ⟨S, A, hS, hA, -, rfl⟩ := onSocket_eq_some he
    exact .inl (NoneOpens.onclose hS hA code c hc)

end Store

end Epistl.Transport
