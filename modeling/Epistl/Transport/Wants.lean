import Epistl.Transport.Sequential

/-! # The connections the client wants

A connection is wanted while it may still win the current attempt, or has won it and is up.
Only a few events turn against a wanted connection.
-/
namespace Epistl.Transport
variable {φ : Type} {s t : Store φ} {a b k : ℕ} {A B : Attempt} {S T : Socket} {c : Conn}
  {strict : Prop}

/-- The connection on which a frame arrives, and the frame. -/
def Event.arrival : Event φ → Option (Conn × Option φ)
  | .quicFrame a frame => some (.quic a, frame)
  | .wsMessage k frame => some (.ws k, frame)
  | _ => none

namespace Store

def Wants (s : Store φ) : Conn → Prop
  | .quic a => ∃ A, s.Current a A ∧ A.dropped = false ∧ A.ended = false ∧
    (A.settled = false ∨ A.winner = some .quic ∧ s.quicConnection = some a)
  | .ws k => ∃ a A opened, s.Current a A ∧ A.ws = some k ∧
    s.sockets[k]? = some ⟨a, opened, false, false⟩ ∧
    (A.settled = false ∨ A.winner = some .ws ∧ A.wsDiscarded = false)

/-- The event supersedes the connection, decides its attempt for the other one, or ends one of
the two. -/
def Against (s : Store φ) (c : Conn) : Event φ → Prop
  | .connect => True
  | .close => True
  | .token _ _ => False
  | .reconnect _ => False
  | .quicTimeout _ => False
  | .quicEstablished _ => False
  | .quicResolved a => ∃ (A : Attempt) (k : ℕ), s.attempts[a]? = some A ∧ A.settled = false ∧
    A.ws = some k ∧ c = .ws k
  | .quicRejected a => c = .quic a
  | .quicFrame _ _ => False
  | .quicClosed a _ => c = .quic a
  | .wsOpen k => ∃ (S : Socket) (A : Attempt), s.sockets[k]? = some S ∧
    s.attempts[S.attempt]? = some A ∧ A.settled = false ∧ c = .quic S.attempt
  | .wsMessage _ _ => False
  | .wsClose k _ => c = .ws k ∨ ∃ (S : Socket) (A : Attempt), s.sockets[k]? = some S ∧
    s.attempts[S.attempt]? = some A ∧ A.settled = false ∧ c = .quic S.attempt

/-- The test that the frames of a connection have to pass. -/
def honours (s : Store φ) : Conn → Bool
  | .quic a => s.attempts[a]?.any fun A => !s.ignoresQuic a A
  | .ws k => s.sockets[k]?.any fun S => s.attempts[S.attempt]?.any fun A =>
    !(s.stale S.attempt A.generation || A.wsDiscarded)

theorem Trying.wants_ws (h : s.Trying a A) (hk : A.ws = some k) : s.Wants (.ws k) :=
  ⟨a, A, false, h.current, hk, (h.fallback k hk).2.2, .inl h.settled⟩

theorem WsUp.wants (h : s.WsUp a A k) : s.Wants (.ws k) :=
  ⟨a, A, true, h.current, h.ws, h.get, .inr ⟨h.winner, h.wsDiscarded⟩⟩

theorem QuicUp.wants (h : s.QuicUp a A) : s.Wants (.quic a) :=
  ⟨A, h.current, h.dropped, h.ended, .inr ⟨h.winner, h.quicConnection⟩⟩

/-- What a store with a wanted connection is doing. -/
inductive Wanting (s : Store φ) : Conn → Prop
  | quicDialed {a : ℕ} {A : Attempt} (h : s.Trying a A) : Wanting s (.quic a)
  | wsDialed {a : ℕ} {A : Attempt} {k : ℕ} (h : s.Trying a A) (hk : A.ws = some k) :
    Wanting s (.ws k)
  | wsUp {a : ℕ} {A : Attempt} {k : ℕ} (h : s.WsUp a A k) : Wanting s (.ws k)
  | quicUp {a : ℕ} {A : Attempt} (h : s.QuicUp a A) : Wanting s (.quic a)

/-- The settled current attempt is the one that is up. -/
theorem Inv.up (hs : s.Inv strict) (hcur : s.Current a A) (hsettled : A.settled = true)
    (hlive : ∀ k S, A.ws = some k → s.sockets[k]? = some S → A.winner = some .ws →
      S.ended = false ∧ A.wsDiscarded = false)
    (hwinner : A.winner = some .ws ∧ A.ws ≠ none ∨
      A.winner = some .quic ∧ s.quicConnection = some a) :
    s.NoFetch ∧ s.NoTimer ∧
      (s.QuicUp a A ∧ A.winner = some .quic ∨ ∃ k, s.WsUp a A k ∧ A.winner = some .ws) := by
  have hquiet (hq : s.Quiet) : False := by
    rcases hwinner with ⟨hw, hws⟩ | ⟨-, hq'⟩
    · obtain ⟨k, hk⟩ := Option.ne_none_iff_exists'.mp hws
      obtain ⟨S, hS, -⟩ := hs.dialed a A k hcur.get hk
      obtain ⟨hended, hkept⟩ := hlive k S hk hS hw
      rcases (hq.spent a A hcur).2 k S hk hS with h | h
      · rw [hended] at h
        cases h
      · rw [hkept] at h
        cases h
    · exact hq.noQuic a A hq' hcur.get hcur.generation
  cases hs.phase hcur.isOpen with
  | fetching hq => exact (hquiet hq).elim
  | waiting hq => exact (hquiet hq).elim
  | resting hq => exact (hquiet hq).elim
  | trying _ _ b B h => cases hsettled.symm.trans (h.not_settled hcur)
  | wsUp hf ht b B l h =>
    obtain ⟨rfl, rfl⟩ := hcur.unique h.current
    exact ⟨hf, ht, .inr ⟨l, h, h.winner⟩⟩
  | quicUp hf ht b B h =>
    obtain ⟨rfl, rfl⟩ := hcur.unique h.current
    exact ⟨hf, ht, .inl ⟨h, h.winner⟩⟩

theorem Wants.wanting (h : s.Wants c) (hs : s.Inv strict) :
    s.NoFetch ∧ s.NoTimer ∧ s.Wanting c := by
  cases c with
  | quic a =>
    obtain ⟨A, hcur, -, -, hwon⟩ := h
    cases hsettled : A.settled with
    | false =>
      obtain ⟨hf, ht, htry⟩ := hs.trying hcur hsettled
      exact ⟨hf, ht, .quicDialed htry⟩
    | true =>
      obtain ⟨hw, hq⟩ := hwon.resolve_left fun h => by rw [hsettled] at h; cases h
      obtain ⟨hf, ht, hup⟩ := hs.up hcur hsettled
        (fun k S _ _ h => by rw [hw] at h; cases h) (.inr ⟨hw, hq⟩)
      rcases hup with ⟨hup, -⟩ | ⟨k, -, hw'⟩
      · exact ⟨hf, ht, .quicUp hup⟩
      · rw [hw] at hw'
        cases hw'
  | ws k =>
    obtain ⟨a, A, opened, hcur, hk, hS, hwon⟩ := h
    cases hsettled : A.settled with
    | false =>
      obtain ⟨hf, ht, htry⟩ := hs.trying hcur hsettled
      exact ⟨hf, ht, .wsDialed htry hk⟩
    | true =>
      obtain ⟨hw, hkept⟩ := hwon.resolve_left fun h => by rw [hsettled] at h; cases h
      have hlive (l : ℕ) (T : Socket) (hl : A.ws = some l) (hT : s.sockets[l]? = some T)
          (_ : A.winner = some .ws) : T.ended = false ∧ A.wsDiscarded = false := by
        cases hk.symm.trans hl
        cases hS.symm.trans hT
        exact ⟨rfl, hkept⟩
      obtain ⟨hf, ht, hup⟩ := hs.up hcur hsettled hlive
        (.inl ⟨hw, by rw [hk]; exact Option.some_ne_none k⟩)
      rcases hup with ⟨-, hw'⟩ | ⟨l, hup, -⟩
      · rw [hw] at hw'
        cases hw'
      · cases hk.symm.trans hup.ws
        exact ⟨hf, ht, .wsUp hup⟩

/-- What is wanted depends on these fields only. -/
theorem Wants.of_eq (h : s.Wants c) (ha : t.attempts = s.attempts) (hk : t.sockets = s.sockets)
    (hc : t.closed = s.closed) (hg : t.generation = s.generation)
    (hq : t.quicConnection = s.quicConnection) : t.Wants c := by
  cases c with
  | quic a =>
    obtain ⟨A, hcur, hdropped, hended, hwon⟩ := h
    exact ⟨A, hcur.of_eq ha hc hg, hdropped, hended, hq ▸ hwon⟩
  | ws k =>
    obtain ⟨a, A, opened, hcur, hws, hS, hwon⟩ := h
    exact ⟨a, A, opened, hcur.of_eq ha hc hg, hws, hk ▸ hS, hwon⟩

/-- The current attempt changes. -/
theorem Current.moved (h : s.Current a A) (hgen : B.generation = A.generation)
    (ha : t.attempts = s.attempts.set a B) (hc : t.closed = s.closed)
    (hg : t.generation = s.generation) : t.Current a B :=
  (h.set_self hgen).of_eq ha hc hg

/-- An attempt changes; the current one keeps what the connection needs. -/
theorem Wants.setAttempt (h : s.Wants c) (hA : s.attempts[a]? = some A)
    (hgen : B.generation = A.generation)
    (hkeep : s.stale a A.generation = false → B.settled = A.settled ∧ B.winner = A.winner ∧
      B.ws = A.ws ∧ (c = .quic a ∨ B.wsDiscarded = A.wsDiscarded) ∧
      (c = .quic a → B.dropped = A.dropped ∧ B.ended = A.ended)) : (s.setAttempt a B).Wants c := by
  cases c with
  | quic b =>
    obtain ⟨C, hcur, hdropped, hended, hwon⟩ := h
    by_cases hba : b = a
    · subst hba
      cases hA.symm.trans hcur.get
      obtain ⟨hsettled, hwinner, -, -, hup⟩ := hkeep hcur.stale
      obtain ⟨hd, he⟩ := hup rfl
      refine ⟨B, hcur.set_self hgen, hd.trans hdropped, he.trans hended, ?_⟩
      rw [hsettled, hwinner]
      exact hwon
    · exact ⟨C, hcur.setAttempt hba, hdropped, hended, hwon⟩
  | ws k =>
    obtain ⟨b, C, opened, hcur, hws, hS, hwon⟩ := h
    by_cases hba : b = a
    · subst hba
      cases hA.symm.trans hcur.get
      obtain ⟨hsettled, hwinner, hws', hkept, -⟩ := hkeep hcur.stale
      have hkept := hkept.resolve_left fun h => by cases h
      refine ⟨b, B, opened, hcur.set_self hgen, hws'.trans hws, hS, ?_⟩
      rw [hsettled, hwinner, hkept]
      exact hwon
    · exact ⟨b, C, opened, hcur.setAttempt hba, hws, hS, hwon⟩

/-- Another socket changes, or this one opens. -/
theorem Wants.setSocket (h : s.Wants c) (hS : s.sockets[k]? = some S)
    (hattempt : T.attempt = S.attempt)
    (hkeep : c = .ws k → T.closing = S.closing ∧ T.ended = S.ended) : (s.setSocket k T).Wants c := by
  cases c with
  | quic b =>
    obtain ⟨C, hcur, hdropped, hended, hwon⟩ := h
    exact ⟨C, hcur.of_eq rfl rfl rfl, hdropped, hended, hwon⟩
  | ws l =>
    obtain ⟨b, C, opened, hcur, hws, hl, hwon⟩ := h
    by_cases hlk : l = k
    · subst hlk
      cases hS.symm.trans hl
      obtain ⟨hclosing, hended⟩ := hkeep rfl
      refine ⟨b, C, T.opened, hcur.of_eq rfl rfl rfl, hws, ?_, hwon⟩
      refine (List.getElem?_set_self (lt_length_of_getElem? hS)).trans ?_
      obtain ⟨b', o, c', e'⟩ := T
      obtain rfl : b' = b := hattempt
      obtain rfl : c' = false := hclosing
      obtain rfl : e' = false := hended
      rfl
    · exact ⟨b, C, opened, hcur.of_eq rfl rfl rfl, hws,
        (List.getElem?_set_ne (Ne.symm hlk)).trans hl, hwon⟩

theorem Wants.quicTimeout (h : s.Wants c) (hs : s.Inv strict) (hA : s.attempts[a]? = some A)
    (htimer : A.quicTimer = true) : (s.quicTimeout a A).Wants c := by
  have hset : (s.setAttempt a { A with quicTimer := false, timedOut := true }).Wants c :=
    h.setAttempt hA rfl fun _ => ⟨rfl, rfl, rfl, .inr rfl, fun _ => ⟨rfl, rfl⟩⟩
  unfold Store.quicTimeout
  dsimp only
  split
  · exact hset
  · rename_i hactive
    simp only [stale_setAttempt, Bool.or_eq_true, not_or, Bool.not_eq_true] at hactive
    have hcur := (stale_eq_false hA).mp hactive.1
    have htry := (hs.trying hcur hactive.2).2.2
    have hnone : A.ws = none := by
      cases hws : A.ws with
      | none => rfl
      | some k =>
        have := (htry.fallback k hws).1
        rw [htimer] at this
        cases this
    have hactive' : ¬ (s.stale a A.generation || A.settled) = true := by
      rw [hactive.1, hactive.2]
      decide
    unfold Store.startWs
    rw [setAttempt_setAttempt]
    simp only [stale_setAttempt]
    rw [if_neg hactive']
    cases c with
    | quic b =>
      obtain ⟨C, hC, hdropped, hended, hwon⟩ := h
      obtain ⟨rfl, rfl⟩ := hcur.unique hC
      exact ⟨{ A with quicTimer := false, timedOut := true, ws := some s.sockets.length },
        hcur.moved rfl rfl rfl rfl, hdropped, hended, hwon⟩
    | ws l =>
      obtain ⟨b, C, opened, hC, hws, -⟩ := h
      obtain ⟨rfl, rfl⟩ := hcur.unique hC
      rw [hnone] at hws
      cases hws

theorem Wants.quicResolved (h : s.Wants c) (hs : s.Inv strict) (hA : s.attempts[a]? = some A)
    (hdial : A.dial = .established) (hspared : ¬ s.Against c (.quicResolved a)) :
    (s.quicResolved a A).Wants c := by
  unfold Store.quicResolved
  dsimp only
  split
  · rename_i hidle
    refine h.setAttempt hA rfl fun hfresh => ⟨rfl, rfl, rfl, .inr rfl, ?_⟩
    rintro rfl
    -- a settled attempt whose QUIC is wanted has resolved before
    have hcur := (stale_eq_false hA).mp hfresh
    rw [hfresh, Bool.false_or] at hidle
    have hidle : A.settled = true := hidle
    cases (h.wanting hs).2.2 with
    | quicDialed h' =>
      obtain ⟨-, rfl⟩ := hcur.unique h'.current
      rw [h'.settled] at hidle
      cases hidle
    | quicUp h' =>
      obtain ⟨-, rfl⟩ := hcur.unique h'.current
      rw [h'.dial] at hdial
      cases hdial
  · rename_i hactive
    simp only [Bool.or_eq_true, not_or, Bool.not_eq_true] at hactive
    have hcur := (stale_eq_false hA).mp hactive.1
    cases c with
    | quic b =>
      obtain ⟨C, hC, hdropped, hended, -⟩ := h
      obtain ⟨rfl, rfl⟩ := hcur.unique hC
      exact ⟨{ A with dial := .resolved, quicTimer := false }.wonByQuic, hcur.moved rfl rfl rfl rfl,
        hdropped, hended, .inr ⟨rfl, rfl⟩⟩
    | ws l =>
      obtain ⟨b, C, opened, hC, hws, -⟩ := h
      obtain ⟨rfl, rfl⟩ := hcur.unique hC
      exact absurd ⟨A, l, hA, hactive.2, hws, rfl⟩ hspared

theorem Wants.quicRejected (h : s.Wants c) (hs : s.Inv strict) (hA : s.attempts[a]? = some A)
    (hguard : s.Orderly (.quicRejected a : Event φ))
    (hspared : c ≠ .quic a) : (s.quicRejected a A).Wants c := by
  have hset (timer : Bool) :
      (s.setAttempt a { A with dial := .rejected, quicTimer := timer }).Wants c :=
    h.setAttempt hA rfl fun _ => ⟨rfl, rfl, rfl, .inr rfl, fun hc => absurd hc hspared⟩
  unfold Store.quicRejected
  dsimp only
  rw [setAttempt_setAttempt]
  split
  · exact hset _
  · rename_i hfresh
    simp only [stale_setAttempt, Bool.not_eq_true] at hfresh
    split
    · exact hset _
    · rename_i hsettled
      have hsettled : A.settled = false := Bool.not_eq_true _ ▸ hsettled
      have hcur := (stale_eq_false hA).mp hfresh
      have hnone := hguard A hA hfresh hsettled
      cases (h.wanting hs).2.2 with
      | quicDialed h' =>
        obtain ⟨rfl, -⟩ := hcur.unique h'.current
        exact absurd rfl hspared
      | wsDialed h' hk =>
        obtain ⟨rfl, rfl⟩ := hcur.unique h'.current
        rw [hnone] at hk
        cases hk
      | wsUp h' => cases hsettled.symm.trans (h'.isSettled hcur)
      | quicUp h' => cases hsettled.symm.trans (h'.isSettled hcur)

theorem Wants.onClosed (h : s.Wants c) (hs : s.Inv strict) (hA : s.attempts[a]? = some A)
    (hguard : s.closed = false → A.generation = s.generation → A.dial = .resolved)
    (authFailed : Bool) (hspared : c ≠ .quic a) : (s.onClosed a A authFailed).Wants c := by
  have hset : (s.setAttempt a { A with ended := true }).Wants c :=
    h.setAttempt hA rfl fun _ => ⟨rfl, rfl, rfl, .inr rfl, fun hc => absurd hc hspared⟩
  unfold Store.onClosed
  dsimp only
  rw [ignoresQuic_report, ignoresQuic_setAttempt]
  split
  · exact hset.of_eq rfl rfl rfl rfl rfl
  · rename_i hheard
    have hup := (hs.heard hA hguard hheard).2.2
    -- the connection that ended is up, so no other one is wanted
    cases (h.wanting hs).2.2 with
    | quicDialed h' =>
      obtain ⟨rfl, -⟩ := hup.current.unique h'.current
      exact absurd rfl hspared
    | wsDialed h' hk =>
      cases hup.settled.symm.trans (h'.not_settled hup.current)
    | wsUp h' =>
      obtain ⟨-, rfl⟩ := hup.current.unique h'.current
      have := h'.winner
      rw [hup.winner] at this
      cases this
    | quicUp h' =>
      obtain ⟨rfl, -⟩ := hup.current.unique h'.current
      exact absurd rfl hspared

theorem Wants.onopen (h : s.Wants c) (hs : s.Inv strict) (hS : s.sockets[k]? = some S)
    (hA : s.attempts[S.attempt]? = some A) (hopened : S.opened = false)
    (hspared : ¬ s.Against c (.wsOpen k : Event φ)) : (s.onopen k S A).Wants c := by
  unfold Store.onopen
  dsimp only
  split
  · rename_i hstale
    rw [closeSocket_setSocket hS]
    refine h.setSocket hS rfl ?_
    rintro rfl
    obtain ⟨a, C, opened, hC, -, hk, -⟩ := h
    cases hS.symm.trans hk
    cases hA.symm.trans hC.get
    have hstale : s.stale a A.generation = true := hstale
    rw [hC.stale] at hstale
    cases hstale
  · rename_i hfresh
    have hcur := (stale_eq_false hA).mp (Bool.not_eq_true _ ▸ hfresh : s.stale _ _ = false)
    split
    · rename_i hsettled
      have hset : (s.setAttempt S.attempt { A with wsDiscarded := true }).Wants c := by
        refine h.setAttempt hA rfl fun _ => ⟨rfl, rfl, rfl, ?_, fun _ => ⟨rfl, rfl⟩⟩
        cases (h.wanting hs).2.2 with
        | quicDialed h' =>
          obtain ⟨hb, -⟩ := hcur.unique h'.current
          exact .inl (by rw [hb])
        | wsDialed h' hk =>
          obtain ⟨-, rfl⟩ := hcur.unique h'.current
          rw [h'.settled] at hsettled
          cases hsettled
        | wsUp h' =>
          obtain ⟨-, rfl⟩ := hcur.unique h'.current
          cases (hs.toTidy.ws_eq hS hA).symm.trans h'.ws
          cases hS.symm.trans h'.get
          cases hopened
        | quicUp h' =>
          obtain ⟨hb, -⟩ := hcur.unique h'.current
          exact .inl (by rw [hb])
      have hne : c ≠ .ws k := by
        rintro rfl
        cases (h.wanting hs).2.2 with
        | wsDialed h' hk =>
          obtain ⟨-, rfl⟩ := hcur.unique h'.current
          rw [h'.settled] at hsettled
          cases hsettled
        | wsUp h' =>
          cases hS.symm.trans h'.get
          cases hopened
      have heq := closeSocket_setSocket (T := { S with opened := true })
        (s := s.setAttempt S.attempt { A with wsDiscarded := true }) hS
      have hdone := hset.setSocket (T := { S with opened := true, closing := true }) hS rfl
        fun hc => absurd hc hne
      rw [← heq] at hdone
      exact hdone
    · rename_i hsettled
      have hsettled : A.settled = false := Bool.not_eq_true _ ▸ hsettled
      have hws := hs.toTidy.ws_eq hS hA
      have htry := (hs.trying hcur hsettled).2.2
      unfold Store.finishWithWs
      cases (h.wanting hs).2.2 with
      | quicDialed h' =>
        obtain ⟨hb, -⟩ := hcur.unique h'.current
        exact absurd ⟨S, A, hS, hA, hsettled, by rw [hb]⟩ hspared
      | @wsDialed b B l h' hl =>
        obtain ⟨hb, rfl⟩ := hcur.unique h'.current
        cases hws.symm.trans hl
        have hget := (htry.fallback k hws).2.2
        obtain ⟨b', o, cl, en⟩ := S
        cases hS.symm.trans hget
        obtain rfl : b' = b := hb
        refine ⟨b', A.wonByWs, true, ?_, hws, ?_, .inr ⟨rfl, htry.wsDiscarded⟩⟩
        · exact hcur.moved rfl rfl rfl rfl
        · exact List.getElem?_set_self (lt_length_of_getElem? hS)
      | wsUp h' => cases hsettled.symm.trans (h'.isSettled hcur)
      | quicUp h' => cases hsettled.symm.trans (h'.isSettled hcur)

theorem Wants.onclose (h : s.Wants c) (hs : s.Inv strict) (hS : s.sockets[k]? = some S)
    (hA : s.attempts[S.attempt]? = some A) (code : ℕ)
    (hspared : ¬ s.Against c (.wsClose k code : Event φ)) : (s.onclose k S A code).Wants c := by
  have hne : c ≠ .ws k := fun hc => hspared (.inl hc)
  have hset : ((s.setSocket k { S with ended := true }).clearSocket k).Wants c :=
    (h.setSocket (T := { S with ended := true }) hS rfl fun hc => absurd hc hne).of_eq
      rfl rfl rfl rfl rfl
  unfold Store.onclose
  dsimp only
  split
  · exact hset.of_eq rfl rfl rfl rfl rfl
  · rename_i hactive
    simp only [stale_report, stale_clearSocket, stale_setSocket, Bool.or_eq_true, not_or, Bool.not_eq_true] at hactive
    have hcur := (stale_eq_false hA).mp hactive.1
    have hws := hs.toTidy.ws_eq hS hA
    exfalso
    cases (h.wanting hs).2.2 with
    | quicDialed h' =>
      obtain ⟨hb, rfl⟩ := hcur.unique h'.current
      exact hspared (.inr ⟨S, A, hS, hA, h'.settled, by rw [hb]⟩)
    | wsDialed h' hk =>
      obtain ⟨-, rfl⟩ := hcur.unique h'.current
      cases hws.symm.trans hk
      exact hne rfl
    | wsUp h' =>
      obtain ⟨-, rfl⟩ := hcur.unique h'.current
      cases hws.symm.trans h'.ws
      exact hne rfl
    | quicUp h' =>
      obtain ⟨-, rfl⟩ := hcur.unique h'.current
      have := h'.wsDiscarded k hws
      rw [hactive.2] at this
      cases this

/-- A wanted connection stays wanted until an event turns against it. -/
theorem Wants.step (h : s.Wants c) (hs : s.Inv strict) {e : Event φ} (hguard : s.Orderly e)
    (hspared : ¬ s.Against c e) (he : s.step e = some t) : t.Wants c := by
  obtain ⟨hfetch, htimer, -⟩ := h.wanting hs
  cases e with
  | connect => exact absurd trivial hspared
  | close => exact absurd trivial hspared
  | token f token =>
    obtain ⟨F, hF, he⟩ := Option.bind_eq_some_iff.mp he
    split at he
    · rename_i hp
      cases he
      have hsuper : s.closed = true ∨ F.generation ≠ s.generation := .inr (hfetch f F hF hp)
      cases token with
      | rejected => exact h.of_eq rfl rfl rfl rfl rfl
      | missing =>
        simp only [Store.token, if_pos hsuper]
        exact h.of_eq rfl rfl rfl rfl rfl
      | fetched =>
        simp only [Store.token, if_pos hsuper]
        exact h.of_eq rfl rfl rfl rfl rfl
    · cases he
  | reconnect u =>
    obtain ⟨U, hU, he⟩ := Option.bind_eq_some_iff.mp he
    split at he
    · rename_i hp
      rw [htimer u U hU] at hp
      cases hp
    · cases he
  | quicTimeout a =>
    obtain ⟨A, hA, hen, rfl⟩ := onAttempt_eq_some he
    exact h.quicTimeout hs hA hen
  | quicEstablished a =>
    obtain ⟨A, hA, -, rfl⟩ := onAttempt_eq_some he
    exact h.setAttempt hA rfl fun _ => ⟨rfl, rfl, rfl, .inr rfl, fun _ => ⟨rfl, rfl⟩⟩
  | quicResolved a =>
    obtain ⟨A, hA, hen, rfl⟩ := onAttempt_eq_some he
    exact h.quicResolved hs hA (of_decide_eq_true hen) hspared
  | quicRejected a =>
    obtain ⟨A, hA, -, rfl⟩ := onAttempt_eq_some he
    exact h.quicRejected hs hA hguard hspared
  | quicFrame a frame =>
    obtain ⟨A, -, -, rfl⟩ := onAttempt_eq_some he
    cases frame with
    | none => exact h
    | some frame =>
      unfold Store.onFrame
      dsimp only
      split
      · exact h
      · exact h.of_eq rfl rfl rfl rfl rfl
  | quicClosed a authFailed =>
    obtain ⟨A, hA, -, rfl⟩ := onAttempt_eq_some he
    exact h.onClosed hs hA (hguard A hA) authFailed hspared
  | wsOpen k =>
    obtain ⟨S, A, hS, hA, hen, rfl⟩ := onSocket_eq_some he
    simp only [Bool.and_eq_true, Bool.not_eq_true'] at hen
    exact h.onopen hs hS hA hen.1 hspared
  | wsMessage k frame =>
    obtain ⟨S, A, -, -, -, rfl⟩ := onSocket_eq_some he
    cases frame with
    | none => exact h
    | some frame =>
      unfold Store.onmessage
      dsimp only
      split
      · exact h
      · exact h.of_eq rfl rfl rfl rfl rfl
  | wsClose k code =>
    obtain ⟨S, A, hS, hA, -, rfl⟩ := onSocket_eq_some he
    exact h.onclose hs hS hA code hspared

/-- A frame that is valid JSON is shown if and only if it passes the test. -/
theorem lastFrame_of_arrival {e : Event φ} {frame : φ} (he : s.step e = some t)
    (harrival : e.arrival = some (c, some frame)) :
    t.lastFrame = if s.honours c = true then some frame else s.lastFrame := by
  cases e with
  | quicFrame a f =>
    cases harrival
    obtain ⟨A, hA, -, rfl⟩ := onAttempt_eq_some he
    simp only [honours, hA, Option.any_some, onFrame]
    cases s.ignoresQuic a A <;> rfl
  | wsMessage k f =>
    cases harrival
    obtain ⟨S, A, hS, hA, -, rfl⟩ := onSocket_eq_some he
    simp only [honours, hS, hA, Option.any_some, onmessage]
    cases s.stale S.attempt A.generation || A.wsDiscarded <;> rfl
  | connect | close | token | reconnect | quicTimeout | quicEstablished | quicResolved
  | quicRejected | quicClosed | wsOpen | wsClose => cases harrival

/-- A socket that is wanted passes the test. -/
theorem Wants.honours_ws (h : s.Wants (.ws k)) (hs : s.Inv strict) : s.honours (.ws k) = true := by
  have hwanting := (h.wanting hs).2.2
  obtain ⟨a, A, opened, hcur, hws, hS, -⟩ := h
  have hkept : A.wsDiscarded = false := by
    cases hwanting with
    | wsDialed h' _ =>
      obtain ⟨-, rfl⟩ := hcur.unique h'.current
      exact h'.wsDiscarded
    | wsUp h' =>
      obtain ⟨-, rfl⟩ := hcur.unique h'.current
      exact h'.wsDiscarded
  simp [honours, hS, hcur.get, hcur.stale, hkept]

theorem QuicUp.honours (h : s.QuicUp a A) : s.honours (.quic a) = true := by
  have hopen := h.current.isOpen
  have hgeneration := h.current.generation
  have hconn : s.quicConnection = thisQuicConn a A := by
    rw [h.quicConnection, thisQuicConn, h.dial]
  simp [Store.honours, h.current.get, ignoresQuic, hopen, hgeneration, hconn]

end Store

end Epistl.Transport
