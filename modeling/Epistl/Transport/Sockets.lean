import Epistl.Transport.Dials

/-! # The callbacks of a WebSocket

A callback of a socket that is stale or discarded changes nothing but the socket. The socket
of the current attempt is its only one, so that its end leaves nothing in progress.
-/
namespace Epistl.Transport
variable {φ : Type} {s t : Store φ} {a k : ℕ} {A B : Attempt} {S : Socket} {strict : Prop}

namespace Store

/-- A socket of the current attempt is its only one. -/
theorem Tidy.ws_eq (hs : s.Tidy) (hS : s.sockets[k]? = some S) (hA : s.attempts[S.attempt]? = some A) :
    A.ws = some k := by
  obtain ⟨B, hB, hk⟩ := hs.socket k S hS
  cases hA.symm.trans hB
  exact hk

theorem Inv.onopen (hs : s.Inv strict) (hS : s.sockets[k]? = some S)
    (hA : s.attempts[S.attempt]? = some A) (hopened : S.opened = false) (hended : S.ended = false) :
    (s.onopen k S A).Inv strict := by
  have hws := hs.ws_eq hS hA
  unfold Store.onopen
  dsimp only
  split
  · rename_i hstale
    rw [closeSocket_setSocket hS]
    refine hs.setSocket hS rfl id fun B hB => ?_
    have hstale : s.stale S.attempt A.generation = true := hstale
    cases hA.symm.trans hB.get
    rw [hB.stale] at hstale
    cases hstale
  · rename_i hstale
    have hcur := (stale_eq_false hA).mp (Bool.not_eq_true _ ▸ hstale : s.stale _ _ = false)
    split
    · rename_i hsettled
      have hidle : s.Idle S.attempt A { A with wsDiscarded := true } := {
        generation := rfl
        ws := rfl
        wsDiscarded := fun _ => rfl
        dial := id
        settled := fun _ => ⟨hsettled, hsettled⟩
        winner := fun _ => rfl
        kept := fun _ l T hl hT hopen => by
          cases hws.symm.trans hl
          cases hS.symm.trans hT
          rw [hopened] at hopen
          cases hopen
        quic := fun _ _ => ⟨rfl, rfl⟩ }
      have hset := hs.setAttempt hA hidle
      have hS' : (s.setAttempt S.attempt { A with wsDiscarded := true }).sockets[k]? = some S := hS
      have heq : ((s.setSocket k { S with opened := true }).setAttempt S.attempt
          { A with wsDiscarded := true }).closeSocket k =
            (s.setAttempt S.attempt { A with wsDiscarded := true }).setSocket k
              { S with opened := true, closing := true } :=
        closeSocket_setSocket (s := s.setAttempt S.attempt { A with wsDiscarded := true }) hS'
      rw [heq]
      refine hset.setSocket hS' rfl id fun B hB => ?_
      rcases hB.setAttempt_cases hA rfl with ⟨-, rfl, -⟩ | ⟨hne, -⟩
      · rfl
      · exact absurd rfl hne
    · rename_i hsettled
      have hsettled : A.settled = false := Bool.not_eq_true _ ▸ hsettled
      obtain ⟨hf, ht, h⟩ := hs.trying hcur hsettled
      obtain ⟨-, hsocket, hget⟩ := h.fallback k hws
      obtain ⟨b, opened, closing, ended⟩ := S
      cases hS.symm.trans hget
      have hopen : (s.setSocket k ⟨b, true, false, false⟩).Tidy := hs.toTidy.setSocket hS rfl
      have hset : ((s.setSocket k ⟨b, true, false, false⟩).setAttempt b A.wonByWs).Tidy :=
        hopen.setAttempt hA rfl rfl id
      have hcur' : (s.setAttempt b A.wonByWs).Current b A.wonByWs := hcur.set_self rfl
      unfold Store.finishWithWs
      constructor
      · refine ⟨hset.attempts, hset.fetches, hset.timers, hset.socket, hset.dialed, hset.quic, ?_⟩
        intro hclosed
        have hclosed : s.closed = true := hclosed
        rw [hcur.isOpen] at hclosed
        cases hclosed
      · intro _
        refine .wsUp hf ht b A.wonByWs k ?_
        exact {
          current := hcur'.of_eq rfl rfl rfl
          settled := rfl
          winner := rfl
          wsDiscarded := h.wsDiscarded
          ws := hws
          get := List.getElem?_set_self (lt_length_of_getElem? hS)
          socket := hsocket
          status := rfl
          activeTransport := rfl
          connectedBy := rfl
          noQuic := h.noQuic.setAttempt hA rfl }

theorem Inv.onmessage (hs : s.Inv strict) (S : Socket) (A : Attempt) (frame : Option φ) :
    (s.onmessage S A frame).Inv strict := by
  unfold Store.onmessage
  split
  · exact hs
  · split
    · exact hs
    · exact hs.of_eq _ s.backoffMs s.refused id

theorem Inv.onFrame (hs : s.Inv strict) (a : ℕ) (A : Attempt) (frame : Option φ) :
    (s.onFrame a A frame).Inv strict := by
  unfold Store.onFrame
  split
  · exact hs
  · split
    · exact hs
    · exact hs.of_eq _ s.backoffMs s.refused id

/-- The socket of the current attempt ends, with nothing else in progress. -/
theorem Inv.ended (hs : s.Inv strict) (hf : s.NoFetch) (ht : s.NoTimer) (hn : s.NoQuic)
    (hcur : s.Current S.attempt A) (hS : s.sockets[k]? = some S) (r : Bool) (hws : B.ws = A.ws)
    (hgen : B.generation = A.generation) (hdial : B.dial = A.dial) (hB : B.settled = true) :
    ((((s.setSocket k { S with ended := true }).clearSocket k).report r).setAttempt S.attempt B).Ended := by
  have hends : (s.setSocket k { S with ended := true }).Tidy := hs.toTidy.setSocket hS rfl
  have hset : ((s.setSocket k { S with ended := true }).setAttempt S.attempt B).Tidy :=
    hends.setAttempt hcur.get hgen hws fun h => hdial.trans h
  have hAws := hs.ws_eq hS hcur.get
  exact {
    attempts := hset.attempts
    fetches := hset.fetches
    timers := hset.timers
    socket := hset.socket
    dialed := hset.dialed
    quic := hset.quic
    down := hset.down
    isOpen := hcur.isOpen
    spent := fun b C hb => by
      have hb' : (s.setAttempt S.attempt B).Current b C := hb.of_eq rfl rfl rfl
      rcases hb'.setAttempt_cases hcur.get hgen with ⟨rfl, rfl, -⟩ | ⟨hne, hcur'⟩
      · refine ⟨hB, fun l T hl hT => .inl ?_⟩
        cases hAws.symm.trans (hws.symm.trans hl)
        cases (List.getElem?_set_self (lt_length_of_getElem? hS)).symm.trans hT
        rfl
      · exact absurd (hcur'.unique hcur).1 hne
    noQuic := hn.setAttempt hcur.get hgen
    noFetch := hf
    noTimer := ht }

theorem Inv.onclose (hs : s.Inv strict) (hS : s.sockets[k]? = some S)
    (hA : s.attempts[S.attempt]? = some A) (hended : S.ended = false) (code : ℕ) :
    (s.onclose k S A code).Inv strict := by
  unfold Store.onclose
  dsimp only
  split
  · rename_i hinert
    have hspent (B : Attempt) (hB : s.Current S.attempt B) : B.wsDiscarded = true := by
      cases hA.symm.trans hB.get
      have hinert : (s.stale S.attempt A.generation || A.wsDiscarded) = true := hinert
      rw [hB.stale, Bool.false_or] at hinert
      exact hinert
    have hset : (s.setSocket k { S with ended := true }).Inv strict :=
      hs.setSocket hS rfl (fun _ => rfl) hspent
    have hclear := hset.clearSocket (List.getElem?_set_self (lt_length_of_getElem? hS))
      fun B hB => hspent B (hB.of_eq rfl rfl rfl)
    exact hclear.report _
  · rename_i hheard
    simp only [Bool.or_eq_true, not_or, Bool.not_eq_true] at hheard
    have hcur : s.Current S.attempt A := (stale_eq_false hA).mp hheard.1
    have hws := hs.ws_eq hS hA
    have hself (u : Store φ) (hu : u.attempts = s.attempts) : u.setAttempt S.attempt A = u := by
      unfold Store.setAttempt
      rw [hu]
      have hset : s.attempts.set S.attempt A = s.attempts := by
        obtain ⟨hlt, rfl⟩ := List.getElem?_eq_some_iff.mp hA
        exact List.set_getElem_self hlt
      rw [hset, ← hu]
    split
    · rename_i hsettled
      have hspent : ¬ s.Spent := by
        intro hspent
        rcases (hspent S.attempt A hcur).2 k S hws hS with h | h
        · rw [hended] at h
          cases h
        · rw [hheard.2] at h
          cases h
      have hup : s.NoFetch ∧ s.NoTimer ∧ s.NoQuic := by
        cases hs.phase hcur.isOpen with
        | fetching hq => exact absurd hq.spent hspent
        | waiting hq => exact absurd hq.spent hspent
        | resting hq => exact absurd hq.spent hspent
        | trying _ _ b B h => cases hsettled.symm.trans (h.not_settled hcur)
        | wsUp hf ht b B l h => exact ⟨hf, ht, h.noQuic⟩
        | quicUp _ _ b B h =>
          obtain ⟨rfl, rfl⟩ := hcur.unique h.current
          have := h.wsDiscarded k hws
          rw [hheard.2] at this
          cases this
      have hdone := hs.ended hup.1 hup.2.1 hup.2.2 hcur hS
        (decide (code = closeUnauthorized ∧ A.generation = s.generation)) rfl rfl rfl hsettled
      rw [hself _ (by rfl)] at hdone
      split
      · rename_i hcode
        refine hdone.disconnect fun _ => ?_
        simp [Store.report, hcode, hcur.generation]
      · exact hdone.reconnect hcur.generation
    · rename_i hsettled
      have hsettled : A.settled = false := Bool.not_eq_true _ ▸ hsettled
      obtain ⟨hf, ht, h⟩ := hs.trying hcur hsettled
      have hdone : ((((s.setSocket k { S with ended := true }).clearSocket k).report
          (decide (code = closeUnauthorized ∧ A.generation = s.generation))).setAttempt S.attempt
            { A with settled := true }).Ended :=
        hs.ended hf ht h.noQuic hcur hS _ rfl rfl rfl rfl
      split
      · rename_i hcode
        refine hdone.disconnect fun _ => ?_
        simp [Store.report, Store.setAttempt, hcode, hcur.generation]
      · exact hdone.reconnect hcur.generation

end Store

end Epistl.Transport
