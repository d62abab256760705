import Epistl.Transport.Phase

/-! # The two dials of an attempt

QUIC is dialed first and the WebSocket when it fails or takes too long. The one that is up
first wins, and the callbacks of the other one find the attempt settled.
-/
namespace Epistl.Transport
variable {φ : Type} {s t : Store φ} {a k : ℕ} {A B : Attempt} {S : Socket} {strict : Prop}

namespace Store

/-- The fallback of the current attempt is dialed for the first time. -/
theorem Inv.startWs (hs : s.Inv strict) (hcur : s.Current a A) (hsettled : A.settled = false)
    (hws : A.ws = none) (hgen : B.generation = A.generation) (hB : B.settled = false)
    (hdiscarded : B.wsDiscarded = A.wsDiscarded) (hdial : B.dial ≠ .resolved)
    (hended : B.ended = A.ended) (hdropped : B.dropped = A.dropped) (htimer : B.quicTimer = false) :
    ((s.setAttempt a B).startWs a B).Inv strict := by
  obtain ⟨hf, ht, h⟩ := hs.trying hcur hsettled
  have hnot : ¬ ((s.setAttempt a B).stale a B.generation || B.settled) = true := by
    rw [stale_setAttempt, hgen, hcur.stale, hB]
    decide
  unfold Store.startWs
  rw [if_neg hnot, setAttempt_setAttempt]
  have hnoQuic : ∀ C : Attempt, C.generation = A.generation → (s.setAttempt a C).NoQuic :=
    fun C hC => h.noQuic.setAttempt hcur.get hC
  have hlt := lt_length_of_getElem? hcur.get
  constructor
  · constructor
    · intro b C hb
      rcases getElem?_set_cases hb with ⟨rfl, rfl⟩ | ⟨-, hb⟩
      · rw [hgen]
        exact hs.attempts b A hcur.get
      · exact hs.attempts b C hb
    · exact hs.fetches
    · exact hs.timers
    · intro l T hl
      rcases getElem?_concat_cases hl with ⟨rfl, rfl⟩ | hl
      · exact ⟨_, List.getElem?_set_self hlt, rfl⟩
      · obtain ⟨C, hC, hCl⟩ := hs.socket l T hl
        have hne : a ≠ T.attempt := by
          rintro rfl
          cases hC.symm.trans hcur.get
          rw [hws] at hCl
          cases hCl
        exact ⟨C, (List.getElem?_set_ne hne).trans hC, hCl⟩
    · intro b C l hb hl
      rcases getElem?_set_cases hb with ⟨rfl, rfl⟩ | ⟨-, hb⟩
      · cases hl
        exact ⟨_, List.getElem?_concat_length, rfl⟩
      · obtain ⟨T, hT, hTb⟩ := hs.dialed b C l hb hl
        exact ⟨T, (List.getElem?_append_left (lt_length_of_getElem? hT)).trans hT, hTb⟩
    · intro b hb
      obtain ⟨C, hC, hres⟩ := hs.quic b hb
      have hne : a ≠ b := by
        rintro rfl
        exact h.noQuic a A hb hcur.get hcur.generation
      exact ⟨C, (List.getElem?_set_ne hne).trans hC, hres⟩
    · exact hs.down
  · intro _
    refine .trying hf ht a { B with ws := some s.sockets.length } ?_
    have hset : (s.setAttempt a { B with ws := some s.sockets.length }).Current a
        { B with ws := some s.sockets.length } := hcur.set_self hgen
    exact {
      current := hset.of_eq rfl rfl rfl
      settled := hB
      wsDiscarded := hdiscarded.trans h.wsDiscarded
      dial := hdial
      ended := hended.trans h.ended
      dropped := hdropped.trans h.dropped
      first := fun hnone => by cases hnone
      fallback := fun l hl => by
        cases hl
        exact ⟨htimer, rfl, List.getElem?_concat_length⟩
      noQuic := hnoQuic { B with ws := some s.sockets.length } hgen
      status := h.status }

theorem Inv.quicTimeout (hs : s.Inv strict) (hA : s.attempts[a]? = some A)
    (htimer : A.quicTimer = true) : (s.quicTimeout a A).Inv strict := by
  unfold Store.quicTimeout
  dsimp only
  rw [stale_setAttempt]
  split
  · rename_i hidle
    have hsettled : s.stale a A.generation = false → A.settled = true := by
      intro hstale
      simpa [hstale] using hidle
    exact hs.setAttempt hA (.of_dial id hsettled false true)
  · rename_i hactive
    simp only [Bool.or_eq_true, not_or, Bool.not_eq_true] at hactive
    have hcur := (stale_eq_false hA).mp hactive.1
    obtain ⟨-, -, h⟩ := hs.trying hcur hactive.2
    have hws : A.ws = none := by
      cases hws : A.ws with
      | none => rfl
      | some l =>
        have := (h.fallback l hws).1
        rw [htimer] at this
        cases this
    exact hs.startWs hcur hactive.2 hws rfl hactive.2 rfl h.dial rfl rfl rfl

/-- The native connection of an attempt is up, which JS does not see yet. -/
theorem Inv.quicEstablished (hs : s.Inv strict) (hA : s.attempts[a]? = some A)
    (hdial : A.dial = .dialing) : (s.setAttempt a { A with dial := .established }).Inv strict := by
  by_cases hcur : s.Current a A ∧ A.settled = false
  · obtain ⟨hcur, hsettled⟩ := hcur
    obtain ⟨hf, ht, h⟩ := hs.trying hcur hsettled
    refine ⟨hs.toTidy.setAttempt hcur.get rfl rfl fun hres => absurd hres h.dial, fun _ => ?_⟩
    refine .trying hf ht a { A with dial := .established } ?_
    exact { h with
      current := hcur.set_self rfl
      dial := fun hres => by cases hres
      first := fun hws => ⟨(h.first hws).1, fun hres => by cases hres⟩
      noQuic := h.noQuic.setAttempt hcur.get rfl }
  · have hsettled : s.stale a A.generation = false → A.settled = true := by
      intro hstale
      by_contra hsettled
      exact hcur ⟨(stale_eq_false hA).mp hstale, Bool.not_eq_true _ ▸ hsettled⟩
    exact hs.setAttempt hA (.of_dial (fun hres => by rw [hdial] at hres; cases hres) hsettled _ _)

theorem Inv.quicRejected (hs : s.Inv strict) (hA : s.attempts[a]? = some A)
    (hdial : A.dial = .dialing)
    (hguard : s.stale a A.generation = false → A.settled = false → A.ws = none) :
    (s.quicRejected a A).Inv strict := by
  have hidle (timer : Bool) (hsettled : s.stale a A.generation = false → A.settled = true) :
      s.Idle a A { A with dial := .rejected, quicTimer := timer } :=
    .of_dial (fun hres => by rw [hdial] at hres; cases hres) hsettled timer _
  unfold Store.quicRejected
  dsimp only
  rw [stale_setAttempt, setAttempt_setAttempt]
  split
  · rename_i hstale
    exact hs.setAttempt hA (hidle _ fun h => by rw [hstale] at h; cases h)
  · rename_i hstale
    have hcur := (stale_eq_false hA).mp (Bool.not_eq_true _ ▸ hstale)
    split
    · rename_i hsettled
      exact hs.setAttempt hA (hidle _ fun _ => hsettled)
    · rename_i hsettled
      have hsettled : A.settled = false := Bool.not_eq_true _ ▸ hsettled
      exact hs.startWs hcur hsettled (hguard hcur.stale hsettled) rfl hsettled rfl
        (fun h => by cases h) rfl rfl rfl

/-- Closing a socket keeps the sockets where they are. -/
theorem getElem?_closing_cases {sockets : List Socket} {ws : Option ℕ} {l : ℕ} {T : Socket}
    (hl : (closing ws sockets)[l]? = some T) :
    ∃ S, sockets[l]? = some S ∧ T.attempt = S.attempt := by
  cases ws with
  | none => exact ⟨T, hl, rfl⟩
  | some k =>
    obtain ⟨S, hS, rfl⟩ := getElem?_modify_cases hl
    refine ⟨S, hS, ?_⟩
    split <;> rfl

theorem getElem?_closing {sockets : List Socket} (ws : Option ℕ) {l : ℕ} {S : Socket}
    (hl : sockets[l]? = some S) : ∃ T, (closing ws sockets)[l]? = some T ∧ T.attempt = S.attempt := by
  cases ws with
  | none => exact ⟨S, hl, rfl⟩
  | some k =>
    refine ⟨if k = l then { S with closing := true } else S, ?_, by split <;> rfl⟩
    unfold closing
    rw [List.getElem?_modify, hl]
    rfl

/-- Dropping a QUIC connection keeps the attempts where they are. -/
theorem getElem?_dropping_cases {attempts : List Attempt} {quic : Option ℕ} {b : ℕ}
    (hb : (dropping quic attempts)[b]? = some B) :
    ∃ C, attempts[b]? = some C ∧ B.generation = C.generation ∧ B.ws = C.ws := by
  cases quic with
  | none => exact ⟨B, hb, rfl, rfl⟩
  | some a =>
    obtain ⟨C, hC, rfl⟩ := getElem?_modify_cases hb
    exact ⟨C, hC, by split <;> rfl, by split <;> rfl⟩

theorem getElem?_dropping {attempts : List Attempt} (quic : Option ℕ) {b : ℕ}
    (hb : attempts[b]? = some A) : ∃ B, (dropping quic attempts)[b]? = some B ∧ B.ws = A.ws := by
  cases quic with
  | none => exact ⟨A, hb, rfl⟩
  | some a =>
    refine ⟨if a = b then { A with dropped := true } else A, ?_, by split <;> rfl⟩
    unfold dropping
    rw [List.getElem?_modify, hb]
    rfl

/-- QUIC wins the current attempt. -/
theorem Inv.finishWithQuic (hs : s.Inv strict) (hcur : s.Current a A) (hsettled : A.settled = false)
    (hgen : B.generation = A.generation) (hws : B.ws = A.ws)
    (hdiscarded : B.wsDiscarded = A.wsDiscarded) (hdial : B.dial = .resolved)
    (hended : B.ended = A.ended) (hdropped : B.dropped = A.dropped) :
    (s.finishWithQuic a B).Inv strict := by
  obtain ⟨hf, ht, h⟩ := hs.trying hcur hsettled
  have hset : (s.setAttempt a B.wonByQuic).Tidy := hs.toTidy.setAttempt hcur.get hgen hws fun _ => hdial
  have hcur' : (s.setAttempt a B.wonByQuic).Current a B.wonByQuic := hcur.set_self hgen
  unfold Store.finishWithQuic
  have hsockets : (if B.wsDiscarded = true then s.sockets else closing B.ws s.sockets) =
      closing B.ws s.sockets := by
    rw [hdiscarded, h.wsDiscarded]
    rfl
  rw [hsockets]
  constructor
  · constructor
    · exact hset.attempts
    · exact hs.fetches
    · exact hs.timers
    · intro l T hl
      obtain ⟨S, hS, hTS⟩ := getElem?_closing_cases hl
      rw [hTS]
      exact hset.socket l S hS
    · intro b C l hb hl
      obtain ⟨S, hS, hSb⟩ := hset.dialed b C l hb hl
      obtain ⟨T, hT, hTS⟩ := getElem?_closing B.ws hS
      exact ⟨T, hT, hTS.trans hSb⟩
    · intro b hb
      cases hb
      exact ⟨_, hcur'.get, hdial⟩
    · intro hclosed
      have hclosed : s.closed = true := hclosed
      rw [hcur.isOpen] at hclosed
      cases hclosed
  · intro _
    refine .quicUp hf ht a B.wonByQuic ?_
    exact {
      current := hcur'.of_eq rfl rfl rfl
      settled := rfl
      winner := rfl
      dial := hdial
      ended := hended.trans h.ended
      dropped := hdropped.trans h.dropped
      wsDiscarded := fun k hk => by
        have hk : B.ws = some k := hk
        simp [Attempt.wonByQuic, hk]
      quicConnection := rfl
      status := rfl
      activeTransport := rfl
      connectedBy := rfl }

theorem Inv.quicResolved (hs : s.Inv strict) (hA : s.attempts[a]? = some A)
    (hdial : A.dial = .established) : (s.quicResolved a A).Inv strict := by
  unfold Store.quicResolved
  dsimp only
  split
  · rename_i hidle
    refine hs.setAttempt hA ?_
    exact {
      generation := rfl
      ws := rfl
      wsDiscarded := id
      dial := fun _ => rfl
      settled := fun hstale => by simpa [hstale] using hidle
      winner := fun _ => rfl
      kept := fun _ _ _ _ _ _ => rfl
      quic := fun _ hq => by
        obtain ⟨B, hB, hres⟩ := hs.quic a hq
        cases hA.symm.trans hB
        rw [hdial] at hres
        cases hres }
  · rename_i hactive
    simp only [Bool.or_eq_true, not_or, Bool.not_eq_true] at hactive
    have hcur := (stale_eq_false hA).mp hactive.1
    exact hs.finishWithQuic hcur hactive.2 rfl rfl rfl rfl rfl rfl

/-- The stored QUIC connection of this generation is the one that is up. -/
theorem Inv.quicUp (hs : s.Inv strict) (hopen : s.closed = false) (hA : s.attempts[a]? = some A)
    (hgen : A.generation = s.generation) (hq : s.quicConnection = some a) :
    s.NoFetch ∧ s.NoTimer ∧ s.QuicUp a A := by
  cases hs.phase hopen with
  | fetching hquiet => exact absurd hgen (hquiet.noQuic a A hq hA)
  | waiting hquiet => exact absurd hgen (hquiet.noQuic a A hq hA)
  | resting hquiet => exact absurd hgen (hquiet.noQuic a A hq hA)
  | trying _ _ b B h => exact absurd hgen (h.noQuic a A hq hA)
  | wsUp _ _ b B k h => exact absurd hgen (h.noQuic a A hq hA)
  | quicUp hf ht b B h =>
    cases hq.symm.trans h.quicConnection
    cases hA.symm.trans h.current.get
    exact ⟨hf, ht, h⟩

theorem ignoresQuic_eq_false (hdial : A.dial = .resolved) : s.ignoresQuic a A = false ↔
    s.closed = false ∧ A.generation = s.generation ∧ s.quicConnection = some a := by
  simp [ignoresQuic, thisQuicConn, hdial, and_assoc]

/-- A callback of QUIC that is heard is of the connection that is stored. -/
theorem heard (hguard : s.closed = false → A.generation = s.generation → A.dial = .resolved)
    (hheard : ¬ s.ignoresQuic a A = true) :
    s.closed = false ∧ A.generation = s.generation ∧ s.quicConnection = some a := by
  have hheard : s.ignoresQuic a A = false := Bool.not_eq_true _ ▸ hheard
  have hopen : s.closed = false ∧ A.generation = s.generation := by
    simp only [ignoresQuic, Bool.or_eq_false_iff, decide_eq_false_iff_not, not_not] at hheard
    exact hheard.1
  exact (ignoresQuic_eq_false (hguard hopen.1 hopen.2)).mp hheard

/-- So it is of the connection that is up. -/
theorem Inv.heard (hs : s.Inv strict) (hA : s.attempts[a]? = some A)
    (hguard : s.closed = false → A.generation = s.generation → A.dial = .resolved)
    (hheard : ¬ s.ignoresQuic a A = true) : s.NoFetch ∧ s.NoTimer ∧ s.QuicUp a A := by
  obtain ⟨hopen, hgen, hq⟩ := Store.heard hguard hheard
  exact hs.quicUp hopen hA hgen hq

theorem Inv.onClosed (hs : s.Inv strict) (hA : s.attempts[a]? = some A) (authFailed : Bool)
    (hguard : s.closed = false → A.generation = s.generation → A.dial = .resolved) :
    (s.onClosed a A authFailed).Inv strict := by
  unfold Store.onClosed
  dsimp only
  split
  · rename_i hignored
    have hidle : s.Idle a A { A with ended := true } := {
      generation := rfl
      ws := rfl
      wsDiscarded := id
      dial := id
      settled := fun hstale => by
        have hcur := (stale_eq_false hA).mp hstale
        cases hsettled : A.settled with
        | true => exact ⟨rfl, rfl⟩
        | false =>
          have := (hs.trying hcur hsettled).2.2.dial
          exact absurd (hguard hcur.isOpen hcur.generation) this
      winner := fun _ => rfl
      kept := fun _ _ _ _ _ _ => rfl
      quic := fun hstale hq => by
        have hcur := (stale_eq_false hA).mp hstale
        have hdial := hguard hcur.isOpen hcur.generation
        have := (ignoresQuic_eq_false hdial).mpr ⟨hcur.isOpen, hcur.generation, hq⟩
        rw [show s.ignoresQuic a A = true from hignored] at this
        cases this }
    exact (hs.setAttempt hA hidle).report _
  · rename_i hheard
    obtain ⟨hopen, hgen, -⟩ := Store.heard hguard hheard
    obtain ⟨hf, ht, h⟩ := hs.heard hA hguard hheard
    have hset : (s.setAttempt a { A with ended := true }).Tidy :=
      hs.toTidy.setAttempt hA rfl rfl id
    have hended : Ended { (s.setAttempt a { A with ended := true }).report
        (authFailed && decide (A.generation = s.generation)) with quicConnection := none } := {
      attempts := hset.attempts
      fetches := hset.fetches
      timers := hset.timers
      socket := hset.socket
      dialed := hset.dialed
      quic := fun _ h => by cases h
      down := hset.down
      isOpen := hopen
      spent := fun b B hb => by
        have hb' : (s.setAttempt a { A with ended := true }).Current b B := hb.of_eq rfl rfl rfl
        rcases hb'.setAttempt_cases hA rfl with ⟨rfl, rfl, -⟩ | ⟨hne, hcur⟩
        · exact ⟨h.settled, fun k _ hk _ => .inr (h.wsDiscarded k hk)⟩
        · exact absurd (hcur.unique h.current).1 hne
      noQuic := fun _ _ h => by cases h
      noFetch := hf
      noTimer := ht }
    split
    · rename_i hauth
      refine hended.disconnect fun _ => ?_
      simp [Store.report, hauth, hgen]
    · exact hended.reconnect hgen

end Store

end Epistl.Transport
