import Epistl.Transport.Sequential

/-! # The stored connections

In every run the stored WebSocket is the one that was dialed last, and it is stored until
it is closed or ends. The stored QUIC connection is one that was resolved.
-/
namespace Epistl.Transport
variable {φ : Type} {s t : Store φ} {a b k g : ℕ} {A B : Attempt} {S T : Socket}

namespace Store

/-- What the stored connections are in every run. -/
structure Slots (s : Store φ) : Prop where
  /-- the stored socket was dialed last -/
  last : ∀ k, s.socket = some k → k + 1 = s.sockets.length
  /-- the socket dialed last is stored until it is closed or ends -/
  stored : ∀ (k : ℕ) (S : Socket), s.sockets[k]? = some S → S.closing = false → S.ended = false →
    k + 1 = s.sockets.length → s.socket = some k
  wsDiscarded : ∀ (a : ℕ) (A : Attempt), s.attempts[a]? = some A → A.wsDiscarded = true →
    A.settled = true
  dropped : ∀ (a : ℕ) (A : Attempt), s.attempts[a]? = some A → A.dropped = true → A.dial = .resolved
  past : ∀ (a : ℕ) (A : Attempt), s.attempts[a]? = some A → A.generation ≤ s.generation
  dialed : ∀ (a : ℕ) (A : Attempt) (k : ℕ), s.attempts[a]? = some A → A.ws = some k →
    ∃ S : Socket, s.sockets[k]? = some S ∧ S.attempt = a
  /-- a socket is closed while it connects only when its attempt is over -/
  closing : ∀ (k : ℕ) (S : Socket), s.sockets[k]? = some S →
    ∃ A : Attempt, s.attempts[S.attempt]? = some A ∧ (S.opened = false → S.closing = true →
      A.settled = true ∨ A.generation < s.generation)
  quic : ∀ b : ℕ, s.quicConnection = some b →
    ∃ B : Attempt, s.attempts[b]? = some B ∧ B.dial = .resolved

/-- A step of one attempt. -/
structure Goes (A B : Attempt) : Prop where
  generation : B.generation = A.generation
  ws : B.ws = A.ws
  settled : A.settled = true → B.settled = true
  wsDiscarded : B.wsDiscarded = true → A.wsDiscarded = true ∨ B.settled = true
  dropped : B.dropped = true → A.dropped = true ∨ B.dial = .resolved
  dial : A.dial = .resolved → B.dial = .resolved

/-- What `close()` on a socket does to each of them. -/
theorem closing_cases {sockets : List Socket} {ws : Option ℕ}
    (hT : (closing ws sockets)[k]? = some T) : ∃ S, sockets[k]? = some S ∧
      (ws = some k ∧ T = { S with closing := true } ∨ ws ≠ some k ∧ T = S) := by
  cases ws with
  | none => exact ⟨T, hT, .inr ⟨(Option.some_ne_none k).symm, rfl⟩⟩
  | some l =>
    obtain ⟨S, hS, rfl⟩ := getElem?_modify_cases hT
    refine ⟨S, hS, ?_⟩
    by_cases hlk : l = k
    · exact .inl ⟨congrArg some hlk, if_pos hlk⟩
    · exact .inr ⟨fun h => hlk (Option.some.inj h), if_neg hlk⟩

/-- What `close()` on a QUIC connection does to each attempt. -/
theorem dropping_cases {attempts : List Attempt} {quic : Option ℕ}
    (hB : (dropping quic attempts)[a]? = some B) : ∃ A, attempts[a]? = some A ∧
      (quic = some a ∧ B = { A with dropped := true } ∨ quic ≠ some a ∧ B = A) := by
  cases quic with
  | none => exact ⟨B, hB, .inr ⟨(Option.some_ne_none a).symm, rfl⟩⟩
  | some b =>
    obtain ⟨A, hA, rfl⟩ := getElem?_modify_cases hB
    refine ⟨A, hA, ?_⟩
    by_cases hba : b = a
    · exact .inl ⟨congrArg some hba, if_pos hba⟩
    · exact .inr ⟨fun h => hba (Option.some.inj h), if_neg hba⟩

namespace Slots

theorem of_eq (hs : s.Slots) (ha : t.attempts = s.attempts) (hk : t.sockets = s.sockets)
    (hw : t.socket = s.socket) (hq : t.quicConnection = s.quicConnection)
    (hg : s.generation ≤ t.generation) : t.Slots where
  last k hsocket := by
    rw [hk]
    exact hs.last k (hw ▸ hsocket)
  stored k S hS hclosing hended hlast := by
    rw [hk] at hS hlast
    rw [hw]
    exact hs.stored k S hS hclosing hended hlast
  wsDiscarded a A hA := hs.wsDiscarded a A (ha ▸ hA)
  dropped a A hA := hs.dropped a A (ha ▸ hA)
  past a A hA := Nat.le_trans (hs.past a A (ha ▸ hA)) hg
  dialed a A k hA hws := by
    rw [hk]
    exact hs.dialed a A k (ha ▸ hA) hws
  closing k S hS := by
    obtain ⟨A, hA, hover⟩ := hs.closing k S (hk ▸ hS)
    refine ⟨A, ha ▸ hA, fun hnew hclosing => (hover hnew hclosing).imp_right fun hlt => ?_⟩
    exact Nat.lt_of_lt_of_le hlt hg
  quic b hb := by
    rw [ha]
    exact hs.quic b (hq ▸ hb)

theorem setAttempt (hs : s.Slots) (hA : s.attempts[a]? = some A) (hgo : Goes A B) :
    (s.setAttempt a B).Slots where
  last := hs.last
  stored := hs.stored
  wsDiscarded b C hC hkept := by
    rcases getElem?_set_cases hC with ⟨rfl, rfl⟩ | ⟨-, hC⟩
    · rcases hgo.wsDiscarded hkept with h | h
      · exact hgo.settled (hs.wsDiscarded b A hA h)
      · exact h
    · exact hs.wsDiscarded b C hC hkept
  dropped b C hC hdrop := by
    rcases getElem?_set_cases hC with ⟨rfl, rfl⟩ | ⟨-, hC⟩
    · rcases hgo.dropped hdrop with h | h
      · exact hgo.dial (hs.dropped b A hA h)
      · exact h
    · exact hs.dropped b C hC hdrop
  past b C hC := by
    rcases getElem?_set_cases hC with ⟨rfl, rfl⟩ | ⟨-, hC⟩
    · rw [hgo.generation]
      exact hs.past b A hA
    · exact hs.past b C hC
  dialed b C k hC hws := by
    rcases getElem?_set_cases hC with ⟨rfl, rfl⟩ | ⟨-, hC⟩
    · exact hs.dialed b A k hA (hgo.ws.symm.trans hws)
    · exact hs.dialed b C k hC hws
  closing k S hS := by
    obtain ⟨C, hC, hover⟩ := hs.closing k S hS
    by_cases hat : S.attempt = a
    · subst hat
      cases hA.symm.trans hC
      refine ⟨B, List.getElem?_set_self (lt_length_of_getElem? hA), fun hnew hclosing => ?_⟩
      refine (hover hnew hclosing).imp hgo.settled fun hlt => ?_
      rw [hgo.generation]
      exact hlt
    · exact ⟨C, (List.getElem?_set_ne (Ne.symm hat)).trans hC, hover⟩
  quic b hb := by
    obtain ⟨C, hC, hres⟩ := hs.quic b hb
    by_cases hba : b = a
    · subst hba
      cases hA.symm.trans hC
      exact ⟨B, List.getElem?_set_self (lt_length_of_getElem? hA), hgo.dial hres⟩
    · exact ⟨C, (List.getElem?_set_ne (Ne.symm hba)).trans hC, hres⟩

theorem setSocket (hs : s.Slots) (hS : s.sockets[k]? = some S) (hattempt : T.attempt = S.attempt)
    (hstay : T.closing = false → T.ended = false → S.closing = false ∧ S.ended = false)
    (hnew : T.opened = false → T.closing = true → S.opened = false ∧ S.closing = true) :
    (s.setSocket k T).Slots where
  last l hl := (hs.last l hl).trans List.length_set.symm
  stored l U hU hclosing hended hlast := by
    have hlen : l + 1 = s.sockets.length := hlast.trans List.length_set
    rcases getElem?_set_cases hU with ⟨rfl, rfl⟩ | ⟨-, hU⟩
    · obtain ⟨hclosing, hended⟩ := hstay hclosing hended
      exact hs.stored l S hS hclosing hended hlen
    · exact hs.stored l U hU hclosing hended hlen
  wsDiscarded := hs.wsDiscarded
  dropped := hs.dropped
  past := hs.past
  dialed a A l hA hws := by
    obtain ⟨U, hU, hat⟩ := hs.dialed a A l hA hws
    by_cases hlk : l = k
    · subst hlk
      cases hS.symm.trans hU
      exact ⟨T, List.getElem?_set_self (lt_length_of_getElem? hS), hattempt.trans hat⟩
    · exact ⟨U, (List.getElem?_set_ne (Ne.symm hlk)).trans hU, hat⟩
  closing l U hU := by
    rcases getElem?_set_cases hU with ⟨rfl, rfl⟩ | ⟨-, hU⟩
    · obtain ⟨A, hA, hover⟩ := hs.closing l S hS
      refine ⟨A, hattempt ▸ hA, fun hopened hclosing => ?_⟩
      obtain ⟨hopened, hclosing⟩ := hnew hopened hclosing
      exact hover hopened hclosing
    · exact hs.closing l U hU
  quic := hs.quic

/-- A socket that ends is no longer stored. -/
theorem endSocket (hs : s.Slots) (hS : s.sockets[k]? = some S) :
    ((s.setSocket k { S with ended := true }).clearSocket k).Slots := by
  have hset : (s.setSocket k { S with ended := true }).Slots :=
    hs.setSocket hS rfl (fun _ hended => by cases hended) fun hnew hclosing => ⟨hnew, hclosing⟩
  refine ⟨fun l hl => ?_, fun l U hU hclosing hended hlast => ?_, hset.wsDiscarded, hset.dropped,
    hset.past, hset.dialed, hset.closing, hset.quic⟩
  · unfold Store.clearSocket at hl
    dsimp only at hl
    split at hl
    · cases hl
    · exact hset.last l hl
  · have hstored := hset.stored l U hU hclosing hended hlast
    unfold Store.clearSocket
    dsimp only
    rw [if_neg]
    · exact hstored
    · intro hk
      cases hstored.symm.trans hk
      cases (List.getElem?_set_self (lt_length_of_getElem? hS)).symm.trans hU
      cases hended

theorem reconnectFrom (hs : s.Slots) (generation : ℕ) : (s.reconnectFrom generation).Slots := by
  unfold Store.reconnectFrom Store.scheduleReconnect
  split <;> exact hs.of_eq rfl rfl rfl rfl (Nat.le_refl _)

theorem startWs (hs : s.Slots) (hA : s.attempts[a]? = some A) (hgo : Goes A B) :
    ((s.setAttempt a B).startWs a B).Slots := by
  unfold Store.startWs
  rw [setAttempt_setAttempt]
  split
  · exact hs.setAttempt hA hgo
  · have hset := hs.setAttempt hA hgo
    have hself : (s.setAttempt a B).attempts[a]? = some B :=
      List.getElem?_set_self (lt_length_of_getElem? hA)
    constructor
    · intro k hk
      cases hk
      simp [Store.setAttempt]
    · intro k S hS hclosing hended hlast
      rcases getElem?_concat_cases hS with ⟨rfl, -⟩ | hS
      · rfl
      · have hlt : k < s.sockets.length := lt_length_of_getElem? hS
        have hlast : k + 1 = (s.sockets ++ [Socket.mk a false false false]).length := hlast
        rw [List.length_append, List.length_singleton] at hlast
        omega
    · intro b C hC hkept
      rcases getElem?_set_cases hC with ⟨rfl, rfl⟩ | ⟨-, hC⟩
      · exact hset.wsDiscarded b B hself hkept
      · exact hs.wsDiscarded b C hC hkept
    · intro b C hC hdropped
      rcases getElem?_set_cases hC with ⟨rfl, rfl⟩ | ⟨-, hC⟩
      · exact hset.dropped b B hself hdropped
      · exact hs.dropped b C hC hdropped
    · intro b C hC
      rcases getElem?_set_cases hC with ⟨rfl, rfl⟩ | ⟨-, hC⟩
      · exact hset.past b B hself
      · exact hs.past b C hC
    · intro b C k hC hws
      rcases getElem?_set_cases hC with ⟨rfl, rfl⟩ | ⟨-, hC⟩
      · cases hws
        exact ⟨⟨b, false, false, false⟩, List.getElem?_concat_length, rfl⟩
      · obtain ⟨S, hS, hat⟩ := hs.dialed b C k hC hws
        exact ⟨S, (List.getElem?_append_left (lt_length_of_getElem? hS)).trans hS, hat⟩
    · intro k S hS
      rcases getElem?_concat_cases hS with ⟨-, rfl⟩ | hS
      · refine ⟨_, List.getElem?_set_self (lt_length_of_getElem? hA), fun _ hclosing => ?_⟩
        cases hclosing
      · obtain ⟨C, hC, hover⟩ := hset.closing k S hS
        by_cases hat : S.attempt = a
        · subst hat
          cases hself.symm.trans hC
          exact ⟨_, List.getElem?_set_self (lt_length_of_getElem? hA), hover⟩
        · rcases getElem?_set_cases hC with ⟨heq, -⟩ | ⟨-, hC⟩
          · exact absurd heq hat
          · exact ⟨C, (List.getElem?_set_ne (Ne.symm hat)).trans hC, hover⟩
    · intro b hb
      obtain ⟨C, hC, hres⟩ := hset.quic b hb
      rcases getElem?_set_cases hC with ⟨rfl, rfl⟩ | ⟨hne, hC⟩
      · exact ⟨_, List.getElem?_set_self (lt_length_of_getElem? hA), hres⟩
      · exact ⟨C, (List.getElem?_set_ne (Ne.symm hne)).trans hC, hres⟩

/-- QUIC wins: the socket of the attempt is closed and forgotten. -/
theorem finishWithQuic (hs : s.Slots) (hA : s.attempts[a]? = some A) (hgo : Goes A B)
    (hres : B.dial = .resolved) (hkept : B.wsDiscarded = false) : (s.finishWithQuic a B).Slots := by
  have hwon : Goes A B.wonByQuic :=
    ⟨hgo.generation, hgo.ws, fun _ => rfl, fun _ => .inr rfl, hgo.dropped, hgo.dial⟩
  have hset := hs.setAttempt hA hwon
  unfold Store.finishWithQuic
  rw [hkept, if_neg Bool.false_ne_true]
  constructor
  · intro k hk
    dsimp only at hk
    split at hk
    · cases hk
    · exact (hs.last k hk).trans (length_closing _).symm
  · intro k S hS hclosing hended hlast
    have hlast : k + 1 = s.sockets.length := hlast.trans (length_closing _)
    obtain ⟨T, hT, ⟨-, rfl⟩ | ⟨hne, rfl⟩⟩ := closing_cases hS
    · cases hclosing
    · have hstored := hs.stored k S hT hclosing hended hlast
      dsimp only
      rw [if_neg]
      · exact hstored
      · rintro ⟨-, heq⟩
        exact hne (heq.symm.trans hstored)
  · exact hset.wsDiscarded
  · exact hset.dropped
  · exact hset.past
  · intro b C k hC hws
    obtain ⟨S, hS, hat⟩ := hset.dialed b C k hC hws
    obtain ⟨T, hT, hTS⟩ := getElem?_closing B.ws hS
    exact ⟨T, hT, hTS.trans hat⟩
  · intro k S hS
    obtain ⟨T, hT, ⟨hws, rfl⟩ | ⟨-, rfl⟩⟩ := closing_cases hS
    · obtain ⟨U, hU, rfl⟩ := hs.dialed a A k hA (hgo.ws.symm.trans hws)
      cases hT.symm.trans hU
      exact ⟨B.wonByQuic, List.getElem?_set_self (lt_length_of_getElem? hA), fun _ _ => .inl rfl⟩
    · exact hset.closing k S hT
  · intro b hb
    cases hb
    exact ⟨B.wonByQuic, List.getElem?_set_self (lt_length_of_getElem? hA), hres⟩

theorem onClosed (hs : s.Slots) (hA : s.attempts[a]? = some A) (authFailed : Bool) :
    (s.onClosed a A authFailed).Slots := by
  have hset : (s.setAttempt a { A with ended := true }).Slots :=
    hs.setAttempt hA ⟨rfl, rfl, id, .inl, .inl, id⟩
  have hreport := hset.of_eq (t := (s.setAttempt a { A with ended := true }).report
    (authFailed && decide (A.generation = s.generation))) rfl rfl rfl rfl (Nat.le_refl _)
  unfold Store.onClosed
  dsimp only
  split
  · exact hreport
  · have hnone : Slots { (s.setAttempt a { A with ended := true }).report
        (authFailed && decide (A.generation = s.generation)) with quicConnection := none } :=
      { hreport with quic := fun b hb => by cases hb }
    split
    · exact hnone.of_eq rfl rfl rfl rfl (Nat.le_refl _)
    · exact hnone.reconnectFrom _

theorem onopen (hs : s.Slots) (hS : s.sockets[k]? = some S)
    (hA : s.attempts[S.attempt]? = some A) : (s.onopen k S A).Slots := by
  have hset : (s.setSocket k { S with opened := true }).Slots :=
    hs.setSocket hS rfl (fun hclosing hended => ⟨hclosing, hended⟩) fun hnew => by cases hnew
  have hclose : (s.setSocket k { S with opened := true, closing := true }).Slots :=
    hs.setSocket hS rfl (fun hclosing => by cases hclosing) fun hnew => by cases hnew
  unfold Store.onopen
  dsimp only
  split
  · rw [closeSocket_setSocket hS]
    exact hclose
  · split
    · rename_i hsettled
      have heq := closeSocket_setSocket (T := { S with opened := true })
        (s := s.setAttempt S.attempt { A with wsDiscarded := true }) hS
      have hdiscard := hclose.setAttempt (B := { A with wsDiscarded := true }) hA
        ⟨rfl, rfl, id, fun _ => .inr hsettled, .inl, id⟩
      exact heq ▸ hdiscard
    · have hwon := hset.setAttempt (B := A.wonByWs) hA ⟨rfl, rfl, fun _ => rfl, .inl, .inl, id⟩
      exact hwon.of_eq rfl rfl rfl rfl (Nat.le_refl _)

theorem onclose (hs : s.Slots) (hS : s.sockets[k]? = some S)
    (hA : s.attempts[S.attempt]? = some A) (code : ℕ) : (s.onclose k S A code).Slots := by
  have hend : (((s.setSocket k { S with ended := true }).clearSocket k).report
      (decide (code = closeUnauthorized ∧ A.generation = s.generation))).Slots :=
    (hs.endSocket hS).of_eq rfl rfl rfl rfl (Nat.le_refl _)
  have hsettle := hend.setAttempt (B := { A with settled := true }) hA
    ⟨rfl, rfl, fun _ => rfl, .inl, .inl, id⟩
  unfold Store.onclose
  dsimp only
  split
  · exact hend
  · split
    · split
      · exact hend.of_eq rfl rfl rfl rfl (Nat.le_refl _)
      · exact hend.reconnectFrom _
    · split
      · exact hsettle.of_eq rfl rfl rfl rfl (Nat.le_refl _)
      · exact hsettle.reconnectFrom _

theorem close (hs : s.Slots) : s.close.Slots := by
  rw [close_eq]
  constructor
  · intro k hk
    cases hk
  · intro k S hS hclosing hended hlast
    have hlast : k + 1 = s.sockets.length := hlast.trans (length_closing _)
    obtain ⟨T, hT, ⟨-, rfl⟩ | ⟨hne, rfl⟩⟩ := closing_cases hS
    · cases hclosing
    · exact absurd (hs.stored k S hT hclosing hended hlast) hne
  · intro a A hA hkept
    obtain ⟨B, hB, ⟨-, rfl⟩ | ⟨-, rfl⟩⟩ := dropping_cases hA
    · exact hs.wsDiscarded a B hB hkept
    · exact hs.wsDiscarded a A hB hkept
  · intro a A hA hdropped
    obtain ⟨B, hB, ⟨hq, rfl⟩ | ⟨-, rfl⟩⟩ := dropping_cases hA
    · obtain ⟨C, hC, hres⟩ := hs.quic a hq
      cases hB.symm.trans hC
      exact hres
    · exact hs.dropped a A hB hdropped
  · intro a A hA
    obtain ⟨B, hB, hgen, -⟩ := getElem?_dropping_cases hA
    rw [hgen]
    exact Nat.le_succ_of_le (hs.past a B hB)
  · intro a A k hA hws
    obtain ⟨B, hB, -, heq⟩ := getElem?_dropping_cases hA
    obtain ⟨S, hS, hat⟩ := hs.dialed a B k hB (heq.symm.trans hws)
    obtain ⟨T, hT, hTS⟩ := getElem?_closing s.socket hS
    exact ⟨T, hT, hTS.trans hat⟩
  · intro k S hS
    obtain ⟨T, hT, hat⟩ := getElem?_closing_cases hS
    obtain ⟨A, hA, -⟩ := hs.closing k T hT
    obtain ⟨B, hB, -⟩ := getElem?_dropping s.quicConnection hA
    obtain ⟨C, hC, hgen, -⟩ := getElem?_dropping_cases hB
    refine ⟨B, hat ▸ hB, fun _ _ => .inr ?_⟩
    rw [hgen]
    exact Nat.lt_succ_of_le (hs.past _ C hC)
  · intro b hb
    cases hb

theorem token (hs : s.Slots) (generation : ℕ) (token : Token) :
    (s.token generation token).Slots := by
  unfold Store.token
  cases token with
  | rejected => exact hs
  | missing =>
    dsimp only
    split <;> exact hs.of_eq rfl rfl rfl rfl (Nat.le_refl _)
  | fetched =>
    dsimp only
    split
    · exact hs
    · rename_i hnow
      constructor
      · exact hs.last
      · exact hs.stored
      · intro a A hA hkept
        rcases getElem?_concat_cases hA with ⟨-, rfl⟩ | hA
        · cases hkept
        · exact hs.wsDiscarded a A hA hkept
      · intro a A hA hdropped
        rcases getElem?_concat_cases hA with ⟨-, rfl⟩ | hA
        · cases hdropped
        · exact hs.dropped a A hA hdropped
      · intro a A hA
        rcases getElem?_concat_cases hA with ⟨-, rfl⟩ | hA
        · exact Nat.le_of_eq (Decidable.of_not_not fun hne => hnow (.inr hne))
        · exact hs.past a A hA
      · intro a A k hA hws
        rcases getElem?_concat_cases hA with ⟨-, rfl⟩ | hA
        · cases hws
        · exact hs.dialed a A k hA hws
      · intro k S hS
        obtain ⟨A, hA, hover⟩ := hs.closing k S hS
        exact ⟨A, (List.getElem?_append_left (lt_length_of_getElem? hA)).trans hA, hover⟩
      · intro b hb
        obtain ⟨B, hB, hres⟩ := hs.quic b hb
        exact ⟨B, (List.getElem?_append_left (lt_length_of_getElem? hB)).trans hB, hres⟩

theorem step (hs : s.Slots) {e : Event φ} (he : s.step e = some t) : t.Slots := by
  cases e with
  | connect =>
    cases he
    rw [connect_eq]
    exact hs.of_eq rfl rfl rfl rfl (Nat.le_succ _)
  | close =>
    cases he
    exact hs.close
  | token f token =>
    obtain ⟨F, -, he⟩ := Option.bind_eq_some_iff.mp he
    split at he
    · cases he
      have hset : Slots { s with fetches := s.fetches.set f { F with pending := false } } :=
        hs.of_eq rfl rfl rfl rfl (Nat.le_refl _)
      exact hset.token F.generation token
    · cases he
  | reconnect u =>
    obtain ⟨T, -, he⟩ := Option.bind_eq_some_iff.mp he
    split at he
    · cases he
      unfold Store.attemptConnect
      split <;> exact hs.of_eq rfl rfl rfl rfl (Nat.le_refl _)
    · cases he
  | quicTimeout a =>
    obtain ⟨A, hA, -, rfl⟩ := onAttempt_eq_some he
    have hgo : Goes A { A with quicTimer := false, timedOut := true } :=
      ⟨rfl, rfl, id, .inl, .inl, id⟩
    unfold Store.quicTimeout
    dsimp only
    split
    · exact hs.setAttempt hA hgo
    · exact hs.startWs hA hgo
  | quicEstablished a =>
    obtain ⟨A, hA, hen, rfl⟩ := onAttempt_eq_some he
    have hdial := of_decide_eq_true hen
    refine hs.setAttempt hA ⟨rfl, rfl, id, .inl, .inl, fun hres => ?_⟩
    cases hdial.symm.trans hres
  | quicResolved a =>
    obtain ⟨A, hA, -, rfl⟩ := onAttempt_eq_some he
    unfold Store.quicResolved
    dsimp only
    split
    · exact hs.setAttempt hA ⟨rfl, rfl, id, .inl, fun _ => .inr rfl, fun _ => rfl⟩
    · rename_i hactive
      simp only [Bool.or_eq_true, not_or, Bool.not_eq_true] at hactive
      refine hs.finishWithQuic hA ⟨rfl, rfl, id, .inl, .inl, fun _ => rfl⟩ rfl ?_
      refine Bool.not_eq_true _ ▸ fun hkept => ?_
      have hsettled := hs.wsDiscarded a A hA hkept
      rw [hactive.2] at hsettled
      cases hsettled
  | quicRejected a =>
    obtain ⟨A, hA, hen, rfl⟩ := onAttempt_eq_some he
    have hdial := of_decide_eq_true hen
    have hgo (timer : Bool) : Goes A { A with dial := .rejected, quicTimer := timer } := by
      refine ⟨rfl, rfl, id, .inl, .inl, fun hres => ?_⟩
      cases hdial.symm.trans hres
    unfold Store.quicRejected
    dsimp only
    rw [setAttempt_setAttempt]
    split
    · exact hs.setAttempt hA (hgo _)
    · split
      · exact hs.setAttempt hA (hgo _)
      · exact hs.startWs hA (hgo _)
  | quicFrame a frame =>
    obtain ⟨A, -, -, rfl⟩ := onAttempt_eq_some he
    cases frame with
    | none => exact hs
    | some frame =>
      unfold Store.onFrame
      dsimp only
      split <;> exact hs.of_eq rfl rfl rfl rfl (Nat.le_refl _)
  | quicClosed a authFailed =>
    obtain ⟨A, hA, -, rfl⟩ := onAttempt_eq_some he
    exact hs.onClosed hA authFailed
  | wsOpen k =>
    obtain ⟨S, A, hS, hA, -, rfl⟩ := onSocket_eq_some he
    exact hs.onopen hS hA
  | wsMessage k frame =>
    obtain ⟨S, A, -, -, -, rfl⟩ := onSocket_eq_some he
    cases frame with
    | none => exact hs
    | some frame =>
      unfold Store.onmessage
      dsimp only
      split <;> exact hs.of_eq rfl rfl rfl rfl (Nat.le_refl _)
  | wsClose k code =>
    obtain ⟨S, A, hS, hA, -, rfl⟩ := onSocket_eq_some he
    exact hs.onclose hS hA code

theorem start : (Store.start : Store φ).Slots where
  last k hk := by cases hk
  stored k S hS := by cases hS
  wsDiscarded a A hA := by cases hA
  dropped a A hA := by cases hA
  past a A hA := by cases hA
  dialed a A k hA := by cases hA
  closing k S hS := by cases hS
  quic b hb := by cases hb

end Slots

theorem slots_of_reach (h : (machine φ).Reach Machine.anyStep s) : s.Slots := by
  refine h.invariant ?_ ?_
  · rintro _ rfl
    exact .start
  · intro s e t hs _ he
    exact hs.step he

end Store

end Epistl.Transport
