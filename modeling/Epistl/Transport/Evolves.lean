import Epistl.Transport.Wants

/-! # What stays of attempts and sockets

Attempts and sockets keep their place and their generation. A connection is up only after it
was established or opened.
-/
namespace Epistl.Transport
variable {φ : Type} {s t u : Store φ} {a b k : ℕ} {A B : Attempt} {S T : Socket} {c : Conn}
  {e : Event φ}

/-- The native connection was established. -/
def Attempt.reached (A : Attempt) : Prop := A.dial = .established ∨ A.dial = .resolved

namespace Store

structure Evolves (e : Event φ) (s t : Store φ) : Prop where
  generation : s.generation ≤ t.generation
  attempts : ∀ (a : ℕ) (A : Attempt), s.attempts[a]? = some A → ∃ B, t.attempts[a]? = some B ∧
    B.generation = A.generation
  dials : ∀ (a : ℕ) (B : Attempt), t.attempts[a]? = some B → B.reached →
    e = .quicEstablished a ∨ ∃ A, s.attempts[a]? = some A ∧ A.reached
  sockets : ∀ (k : ℕ) (S : Socket), s.sockets[k]? = some S →
    ∃ T, t.sockets[k]? = some T ∧ T.attempt = S.attempt
  opens : ∀ (k : ℕ) (T : Socket), t.sockets[k]? = some T → T.opened = true →
    e = .wsOpen k ∨ ∃ S, s.sockets[k]? = some S ∧ S.opened = true

namespace Evolves

theorem of_eq (ha : t.attempts = s.attempts) (hk : t.sockets = s.sockets)
    (hg : s.generation ≤ t.generation) : Evolves e s t where
  generation := hg
  attempts _ A hA := ⟨A, ha ▸ hA, rfl⟩
  dials _ B hB hup := .inr ⟨B, ha ▸ hB, hup⟩
  sockets _ S hS := ⟨S, hk ▸ hS, rfl⟩
  opens _ T hT hup := .inr ⟨T, hk ▸ hT, hup⟩

theorem refl (s : Store φ) : Evolves e s s := of_eq rfl rfl (Nat.le_refl _)

theorem trans (h : Evolves e s t) (h' : Evolves e t u) : Evolves e s u where
  generation := Nat.le_trans h.generation h'.generation
  attempts a A hA := by
    obtain ⟨B, hB, hgen⟩ := h.attempts a A hA
    obtain ⟨C, hC, hgen'⟩ := h'.attempts a B hB
    exact ⟨C, hC, hgen'.trans hgen⟩
  dials a C hC hup := by
    rcases h'.dials a C hC hup with he | ⟨B, hB, hup⟩
    · exact .inl he
    · exact h.dials a B hB hup
  sockets k S hS := by
    obtain ⟨T, hT, hTS⟩ := h.sockets k S hS
    obtain ⟨U, hU, hUT⟩ := h'.sockets k T hT
    exact ⟨U, hU, hUT.trans hTS⟩
  opens k U hU hup := by
    rcases h'.opens k U hU hup with he | ⟨T, hT, hup⟩
    · exact .inl he
    · exact h.opens k T hT hup

theorem setAttempt (hA : s.attempts[a]? = some A) (hgen : B.generation = A.generation)
    (hup : B.reached → e = .quicEstablished a ∨ A.reached) :
    Evolves e s (s.setAttempt a B) where
  generation := Nat.le_refl _
  attempts b C hC := by
    by_cases hba : b = a
    · subst hba
      cases hA.symm.trans hC
      exact ⟨B, List.getElem?_set_self (lt_length_of_getElem? hA), hgen⟩
    · exact ⟨C, (List.getElem?_set_ne (Ne.symm hba)).trans hC, rfl⟩
  dials b C hC hreached := by
    rcases getElem?_set_cases hC with ⟨rfl, rfl⟩ | ⟨-, hC⟩
    · exact (hup hreached).imp_right fun h => ⟨A, hA, h⟩
    · exact .inr ⟨C, hC, hreached⟩
  sockets k S hS := ⟨S, hS, rfl⟩
  opens k T hT hopened := .inr ⟨T, hT, hopened⟩

theorem setSocket (hS : s.sockets[k]? = some S) (hattempt : T.attempt = S.attempt)
    (hup : T.opened = true → e = .wsOpen k ∨ S.opened = true) :
    Evolves e s (s.setSocket k T) where
  generation := Nat.le_refl _
  attempts a A hA := ⟨A, hA, rfl⟩
  dials a B hB hreached := .inr ⟨B, hB, hreached⟩
  sockets l U hU := by
    by_cases hlk : l = k
    · subst hlk
      cases hS.symm.trans hU
      exact ⟨T, List.getElem?_set_self (lt_length_of_getElem? hS), hattempt⟩
    · exact ⟨U, (List.getElem?_set_ne (Ne.symm hlk)).trans hU, rfl⟩
  opens l U hU hopened := by
    rcases getElem?_set_cases hU with ⟨rfl, rfl⟩ | ⟨-, hU⟩
    · exact (hup hopened).imp_right fun h => ⟨S, hS, h⟩
    · exact .inr ⟨U, hU, hopened⟩

theorem closing (ws : Option ℕ) (ha : t.attempts = s.attempts)
    (hk : t.sockets = Transport.closing ws s.sockets) (hg : s.generation ≤ t.generation) :
    Evolves e s t where
  generation := hg
  attempts a A hA := ⟨A, ha ▸ hA, rfl⟩
  dials a B hB hreached := .inr ⟨B, ha ▸ hB, hreached⟩
  sockets k S hS := by
    rw [hk]
    exact getElem?_closing ws hS
  opens k T hT hopened := by
    rw [hk] at hT
    right
    cases ws with
    | none => exact ⟨T, hT, hopened⟩
    | some l =>
      obtain ⟨S, hS, rfl⟩ := getElem?_modify_cases hT
      refine ⟨S, hS, ?_⟩
      split at hopened <;> exact hopened

theorem reconnectFrom (generation : ℕ) : Evolves e s (s.reconnectFrom generation) := by
  unfold Store.reconnectFrom Store.scheduleReconnect
  split <;> exact of_eq rfl rfl (Nat.le_refl _)

theorem disconnect : Evolves e s s.disconnect := of_eq rfl rfl (Nat.le_refl _)

theorem startWs (hA : s.attempts[a]? = some A) (hgen : B.generation = A.generation)
    (hup : B.reached → A.reached) :
    Evolves e s ((s.setAttempt a B).startWs a B) := by
  unfold Store.startWs
  rw [setAttempt_setAttempt]
  split
  · exact setAttempt hA hgen fun h => .inr (hup h)
  · refine trans (t := s.setAttempt a { B with ws := some s.sockets.length })
      (setAttempt hA hgen fun h => .inr (hup h)) ?_
    constructor
    · exact Nat.le_refl _
    · exact fun b C hC => ⟨C, hC, rfl⟩
    · exact fun b C hC hreached => .inr ⟨C, hC, hreached⟩
    · intro k S hS
      refine ⟨S, ?_, rfl⟩
      exact (List.getElem?_append_left (lt_length_of_getElem? hS)).trans hS
    · intro k T hT hopened
      rcases getElem?_concat_cases hT with ⟨-, rfl⟩ | hT
      · cases hopened
      · exact .inr ⟨T, hT, hopened⟩

theorem onClosed (hA : s.attempts[a]? = some A) (authFailed : Bool) :
    Evolves e s (s.onClosed a A authFailed) := by
  have hset : Evolves e s (s.setAttempt a { A with ended := true }) :=
    setAttempt hA rfl .inr
  unfold Store.onClosed
  dsimp only
  split
  · exact hset.trans (of_eq rfl rfl (Nat.le_refl _))
  · split
    · exact hset.trans (of_eq rfl rfl (Nat.le_refl _))
    · exact (hset.trans (u := { (s.setAttempt a { A with ended := true }).report
        (authFailed && decide (A.generation = s.generation)) with quicConnection := none })
        (of_eq rfl rfl (Nat.le_refl _))).trans (reconnectFrom _)

theorem onopen (hS : s.sockets[k]? = some S) (hA : s.attempts[S.attempt]? = some A) :
    Evolves (.wsOpen k) s (s.onopen k S A) := by
  have hset : Evolves (.wsOpen k) s (s.setSocket k { S with opened := true }) :=
    setSocket hS rfl fun _ => .inl rfl
  unfold Store.onopen
  dsimp only
  split
  · exact hset.trans (closing (some k) rfl rfl (Nat.le_refl _))
  · split
    · have hdiscard : Evolves (.wsOpen k) (s.setSocket k { S with opened := true })
          ((s.setSocket k { S with opened := true }).setAttempt S.attempt
            { A with wsDiscarded := true }) := setAttempt hA rfl .inr
      exact (hset.trans hdiscard).trans (closing (some k) rfl rfl (Nat.le_refl _))
    · have hwon : Evolves (.wsOpen k) (s.setSocket k { S with opened := true })
          ((s.setSocket k { S with opened := true }).setAttempt S.attempt A.wonByWs) :=
        setAttempt hA rfl .inr
      exact (hset.trans hwon).trans (of_eq rfl rfl (Nat.le_refl _))

theorem onclose (hS : s.sockets[k]? = some S) (hA : s.attempts[S.attempt]? = some A) (code : ℕ) :
    Evolves e s (s.onclose k S A code) := by
  have hend : Evolves e s (((s.setSocket k { S with ended := true }).clearSocket k).report
      (decide (code = closeUnauthorized ∧ A.generation = s.generation))) :=
    trans (t := s.setSocket k { S with ended := true }) (setSocket hS rfl .inr) (of_eq rfl rfl (Nat.le_refl _))
  have hsettle : Evolves e (((s.setSocket k { S with ended := true }).clearSocket k).report
      (decide (code = closeUnauthorized ∧ A.generation = s.generation)))
      ((((s.setSocket k { S with ended := true }).clearSocket k).report
        (decide (code = closeUnauthorized ∧ A.generation = s.generation))).setAttempt S.attempt
          { A with settled := true }) := setAttempt hA rfl .inr
  unfold Store.onclose
  dsimp only
  split
  · exact hend
  · split
    · split
      · exact hend.trans disconnect
      · exact hend.trans (reconnectFrom _)
    · split
      · exact (hend.trans hsettle).trans disconnect
      · exact (hend.trans hsettle).trans (reconnectFrom _)

theorem close : Evolves e s s.close := by
  rw [close_eq]
  refine trans (t := { s with attempts := dropping s.quicConnection s.attempts }) ?_
    (closing s.socket rfl rfl (Nat.le_succ _))
  constructor
  · exact Nat.le_refl _
  · intro a A hA
    cases hq : s.quicConnection with
    | none => exact ⟨A, hA, rfl⟩
    | some b =>
      refine ⟨if b = a then { A with dropped := true } else A, ?_, ?_⟩
      · simp only [dropping]
        rw [List.getElem?_modify, hA]
        rfl
      · split <;> rfl
  · intro a B hB hreached
    right
    cases hq : s.quicConnection with
    | none =>
      simp only [hq] at hB
      exact ⟨B, hB, hreached⟩
    | some b =>
      simp only [hq] at hB
      obtain ⟨A, hA, rfl⟩ := getElem?_modify_cases hB
      refine ⟨A, hA, ?_⟩
      split at hreached <;> exact hreached
  · exact fun k S hS => ⟨S, hS, rfl⟩
  · exact fun k T hT hopened => .inr ⟨T, hT, hopened⟩

theorem connect : Evolves e s s.connect := by
  rw [connect_eq]
  exact of_eq rfl rfl (Nat.le_succ _)

theorem step (he : s.step e = some t) : Evolves e s t := by
  cases e with
  | connect =>
    cases he
    exact connect
  | close =>
    cases he
    exact close
  | token f token =>
    obtain ⟨F, -, he⟩ := Option.bind_eq_some_iff.mp he
    split at he
    · cases he
      unfold Store.token
      cases token with
      | rejected => exact of_eq rfl rfl (Nat.le_refl _)
      | missing =>
        dsimp only
        split <;> exact of_eq rfl rfl (Nat.le_refl _)
      | fetched =>
        dsimp only
        split
        · exact of_eq rfl rfl (Nat.le_refl _)
        · constructor
          · exact Nat.le_refl _
          · intro a A hA
            refine ⟨A, ?_, rfl⟩
            exact (List.getElem?_append_left (lt_length_of_getElem? hA)).trans hA
          · intro a B hB hreached
            rcases getElem?_concat_cases hB with ⟨-, rfl⟩ | hB
            · rcases hreached with h | h <;> cases h
            · exact .inr ⟨B, hB, hreached⟩
          · exact fun k S hS => ⟨S, hS, rfl⟩
          · exact fun k T hT hopened => .inr ⟨T, hT, hopened⟩
    · cases he
  | reconnect u =>
    obtain ⟨U, -, he⟩ := Option.bind_eq_some_iff.mp he
    split at he
    · cases he
      unfold Store.attemptConnect
      split <;> exact of_eq rfl rfl (Nat.le_refl _)
    · cases he
  | quicTimeout a =>
    obtain ⟨A, hA, -, rfl⟩ := onAttempt_eq_some he
    unfold Store.quicTimeout
    dsimp only
    split
    · exact setAttempt hA rfl .inr
    · exact startWs hA rfl id
  | quicEstablished a =>
    obtain ⟨A, hA, -, rfl⟩ := onAttempt_eq_some he
    exact setAttempt hA rfl fun _ => .inl rfl
  | quicResolved a =>
    obtain ⟨A, hA, hen, rfl⟩ := onAttempt_eq_some he
    have hreached : A.reached := .inl (of_decide_eq_true hen)
    unfold Store.quicResolved
    dsimp only
    split
    · exact setAttempt hA rfl fun _ => .inr hreached
    · unfold Store.finishWithQuic
      refine trans (t := s.setAttempt a { A with dial := .resolved, quicTimer := false }.wonByQuic)
        (setAttempt hA rfl fun _ => .inr hreached) ?_
      cases hkept : A.wsDiscarded with
      | true => exact of_eq rfl rfl (Nat.le_refl _)
      | false => exact closing A.ws rfl rfl (Nat.le_refl _)
  | quicRejected a =>
    obtain ⟨A, hA, -, rfl⟩ := onAttempt_eq_some he
    have hrejected (timer : Bool) :
        ¬ Attempt.reached { A with dial := .rejected, quicTimer := timer } := by
      rintro (h | h) <;> cases h
    unfold Store.quicRejected
    dsimp only
    rw [setAttempt_setAttempt]
    split
    · exact setAttempt hA rfl fun h => absurd h (hrejected _)
    · split
      · exact setAttempt hA rfl fun h => absurd h (hrejected _)
      · exact startWs hA rfl fun h => absurd h (hrejected _)
  | quicFrame a frame =>
    obtain ⟨A, -, -, rfl⟩ := onAttempt_eq_some he
    cases frame with
    | none => exact refl s
    | some frame =>
      unfold Store.onFrame
      dsimp only
      split <;> exact of_eq rfl rfl (Nat.le_refl _)
  | quicClosed a authFailed =>
    obtain ⟨A, hA, -, rfl⟩ := onAttempt_eq_some he
    exact onClosed hA authFailed
  | wsOpen k =>
    obtain ⟨S, A, hS, hA, -, rfl⟩ := onSocket_eq_some he
    exact onopen hS hA
  | wsMessage k frame =>
    obtain ⟨S, A, -, -, -, rfl⟩ := onSocket_eq_some he
    cases frame with
    | none => exact refl s
    | some frame =>
      unfold Store.onmessage
      dsimp only
      split <;> exact of_eq rfl rfl (Nat.le_refl _)
  | wsClose k code =>
    obtain ⟨S, A, hS, hA, -, rfl⟩ := onSocket_eq_some he
    exact onclose hS hA code

end Evolves

/-- The attempt of the connection is of an earlier generation. -/
def Past (s : Store φ) : Conn → Prop
  | .quic a => ∃ A : Attempt, s.attempts[a]? = some A ∧ A.generation < s.generation
  | .ws k => ∃ (S : Socket) (A : Attempt), s.sockets[k]? = some S ∧
    s.attempts[S.attempt]? = some A ∧ A.generation < s.generation

theorem Past.not_wants (h : s.Past c) : ¬ s.Wants c := by
  cases c with
  | quic a =>
    obtain ⟨A, hA, hlt⟩ := h
    rintro ⟨B, hcur, -⟩
    cases hA.symm.trans hcur.get
    exact Nat.ne_of_lt hlt hcur.generation
  | ws k =>
    obtain ⟨S, A, hS, hA, hlt⟩ := h
    rintro ⟨a, B, opened, hcur, -, hk, -⟩
    cases hS.symm.trans hk
    cases hA.symm.trans hcur.get
    exact Nat.ne_of_lt hlt hcur.generation

/-- A wanted connection is superseded with its generation. -/
theorem Wants.past (h : s.Wants c) (he : Evolves e s t) (hg : t.generation = s.generation + 1) :
    t.Past c := by
  cases c with
  | quic a =>
    obtain ⟨A, hcur, -⟩ := h
    obtain ⟨B, hB, hgen⟩ := he.attempts a A hcur.get
    have hcurgen := hcur.generation
    exact ⟨B, hB, by omega⟩
  | ws k =>
    obtain ⟨a, A, opened, hcur, -, hk, -⟩ := h
    obtain ⟨T, hT, hTS⟩ := he.sockets k _ hk
    obtain ⟨B, hB, hgen⟩ := he.attempts a A hcur.get
    have hcurgen := hcur.generation
    exact ⟨T, B, hT, hTS ▸ hB, by omega⟩

/-- A generation that is over stays so. -/
theorem Past.evolves (h : s.Past c) (he : Evolves e s t) : t.Past c := by
  have hle := he.generation
  cases c with
  | quic a =>
    obtain ⟨A, hA, hlt⟩ := h
    obtain ⟨B, hB, hgen⟩ := he.attempts a A hA
    exact ⟨B, hB, by omega⟩
  | ws k =>
    obtain ⟨S, A, hS, hA, hlt⟩ := h
    obtain ⟨T, hT, hTS⟩ := he.sockets k S hS
    obtain ⟨B, hB, hgen⟩ := he.attempts S.attempt A hA
    exact ⟨T, B, hT, hTS ▸ hB, by omega⟩

end Store

end Epistl.Transport
