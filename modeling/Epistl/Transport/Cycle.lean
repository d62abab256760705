import Epistl.Transport.Sockets

/-! # From one attempt to the next

`connect()` and `close()` start a new generation, which makes everything before it stale. A
timer fetches a token and a token starts an attempt. So the store does one thing at a time as
long as the callbacks of QUIC come in order.
-/
namespace Epistl.Transport
variable {φ : Type} {s t : Store φ} {a k : ℕ} {A B : Attempt} {S : Socket} {strict : Prop}

namespace Store

theorem connect_eq (s : Store φ) : s.connect = { s with
    status := .connecting
    activeTransport := none
    reconnectTimer := none
    backoffMs := initialBackoffMs
    closed := false
    generation := s.generation + 1
    timers := s.clearReconnect.timers
    fetches := s.fetches ++ [⟨s.generation + 1, true⟩]
    refused := false } := by
  unfold connect clearReconnect
  cases s.reconnectTimer <;> simp [attemptConnect]

theorem close_eq (s : Store φ) : s.close = { s with
    status := .disconnected
    activeTransport := none
    reconnectTimer := none
    closed := true
    generation := s.generation + 1
    timers := s.clearReconnect.timers
    sockets := closing s.socket s.sockets
    socket := none
    attempts := dropping s.quicConnection s.attempts
    quicConnection := none } := by
  unfold close clearReconnect disconnect
  cases s.reconnectTimer <;> simp

/-- `clearReconnect` disarms every timer. -/
theorem Tidy.noTimer (hs : s.Tidy) {t : ℕ} {T : Pending}
    (ht : s.clearReconnect.timers[t]? = some T) : T.pending = false := by
  unfold clearReconnect at ht
  cases hr : s.reconnectTimer with
  | none =>
    rw [hr] at ht
    cases hp : T.pending with
    | false => rfl
    | true =>
      have := (hs.timers t T ht hp).2.2
      rw [hr] at this
      cases this
  | some u =>
    rw [hr] at ht
    obtain ⟨T', hT', rfl⟩ := getElem?_modify_cases ht
    split
    · rfl
    · rename_i hut
      cases hp : T'.pending with
      | false => rfl
      | true =>
        have := (hs.timers t T' hT' hp).2.2
        rw [hr] at this
        exact absurd (Option.some.inj this) hut

theorem Tidy.connect (hs : s.Tidy) : s.connect.Inv strict := by
  rw [connect_eq]
  have hold {b : ℕ} {B : Attempt} (hb : s.attempts[b]? = some B) : B.generation ≠ s.generation + 1 := by
    have := hs.attempts b B hb
    omega
  constructor
  · constructor
    · intro b B hb
      exact Nat.le_succ_of_le (hs.attempts b B hb)
    · intro f F hf
      rcases getElem?_concat_cases hf with ⟨-, rfl⟩ | hf
      · exact Nat.le_refl _
      · exact Nat.le_succ_of_le (hs.fetches f F hf)
    · intro t T ht hp
      rw [hs.noTimer ht] at hp
      cases hp
    · exact hs.socket
    · exact hs.dialed
    · exact hs.quic
    · intro h
      cases h
  · intro _
    refine .fetching ⟨?_, ?_, fun h => by cases h⟩ (fun t T ht => hs.noTimer ht) s.fetches.length
      List.getElem?_concat_length ?_
    · intro b B hb
      exact absurd hb.generation (hold hb.get)
    · intro b B _ hb
      exact hold hb
    · intro f F hf _ hg
      rcases getElem?_concat_cases hf with ⟨hf, -⟩ | hf
      · exact hf
      · have := hs.fetches f F hf
        have hg : F.generation = s.generation + 1 := hg
        omega

theorem Tidy.close (hs : s.Tidy) : s.close.Inv strict := by
  rw [close_eq]
  constructor
  · constructor
    · intro b B hb
      obtain ⟨C, hC, hgen, -⟩ := getElem?_dropping_cases hb
      rw [hgen]
      exact Nat.le_succ_of_le (hs.attempts b C hC)
    · intro f F hf
      exact Nat.le_succ_of_le (hs.fetches f F hf)
    · intro t T ht hp
      rw [hs.noTimer ht] at hp
      cases hp
    · intro l T hl
      obtain ⟨S, hS, hTS⟩ := getElem?_closing_cases hl
      obtain ⟨C, hC, hCl⟩ := hs.socket l S hS
      obtain ⟨B, hB, hws⟩ := getElem?_dropping s.quicConnection hC
      rw [hTS]
      exact ⟨B, hB, hws.trans hCl⟩
    · intro b B l hb hl
      obtain ⟨C, hC, -, hws⟩ := getElem?_dropping_cases hb
      obtain ⟨S, hS, hSb⟩ := hs.dialed b C l hC (hws.symm.trans hl)
      obtain ⟨T, hT, hTS⟩ := getElem?_closing s.socket hS
      exact ⟨T, hT, hTS.trans hSb⟩
    · intro b h
      cases h
    · intro _ h
      cases h
  · intro h
    cases h

theorem Inv.attemptConnect (hs : s.Inv strict) {t : ℕ} {T : Pending} (ht : s.timers[t]? = some T)
    (hp : T.pending = true) :
    (({ s with timers := s.timers.set t { T with pending := false }, reconnectTimer := none } :
      Store φ).attemptConnect T.generation).Inv strict := by
  obtain ⟨hopen, hgen, hstored⟩ := hs.timers t T ht hp
  have hphase : s.Quiet ∧ s.NoFetch := by
    have habsurd (hn : s.NoTimer) : False := by
      have := hn t T ht
      rw [hp] at this
      cases this
    cases hs.phase hopen with
    | fetching _ hn => exact (habsurd hn).elim
    | waiting hq hf => exact ⟨hq, hf⟩
    | resting _ _ hn => exact (habsurd hn).elim
    | trying _ hn => exact (habsurd hn).elim
    | wsUp _ hn => exact (habsurd hn).elim
    | quicUp _ hn => exact (habsurd hn).elim
  obtain ⟨hq, hf⟩ := hphase
  have hnone (u : ℕ) (U : Pending) (hu : (s.timers.set t { T with pending := false })[u]? = some U) :
      U.pending = false := by
    rcases getElem?_set_cases hu with ⟨rfl, rfl⟩ | ⟨hne, hu⟩
    · rfl
    · cases hU : U.pending with
      | false => rfl
      | true => exact absurd (Option.some.inj ((hs.timers u U hu hU).2.2.symm.trans hstored)) hne
  unfold Store.attemptConnect
  rw [if_neg]
  · constructor
    · refine ⟨hs.attempts, ?_, ?_, hs.socket, hs.dialed, hs.quic, hs.down⟩
      · intro f F hf'
        rcases getElem?_concat_cases hf' with ⟨-, rfl⟩ | hf'
        · exact Nat.le_of_eq hgen
        · exact hs.fetches f F hf'
      · intro u U hu hU
        rw [hnone u U hu] at hU
        cases hU
    · intro _
      have hget : (s.fetches ++ [⟨T.generation, true⟩])[s.fetches.length]? =
          some ⟨s.generation, true⟩ := by
        rw [← hgen]
        exact List.getElem?_concat_length
      refine .fetching ⟨fun b B hb => hq.spent b B (hb.of_eq rfl rfl rfl), hq.noQuic, hq.status⟩
        hnone s.fetches.length hget ?_
      intro f F hf' hF hFgen
      rcases getElem?_concat_cases hf' with ⟨hf', -⟩ | hf'
      · exact hf'
      · exact absurd hFgen (hf f F hf' hF)
  · rintro (h | h)
    · have h : s.closed = true := h
      rw [hopen] at h
      cases h
    · exact h hgen

/-- The `getToken()` call `f` is no longer pending. -/
def returned (s : Store φ) (f : ℕ) (F : Pending) : Store φ :=
  { s with fetches := s.fetches.set f { F with pending := false } }

section returned
variable {f : ℕ} {F : Pending}

theorem returned_fetches {g : ℕ} {G : Pending} (hg : (s.returned f F).fetches[g]? = some G) :
    G.generation = F.generation ∧ G.pending = false ∨ s.fetches[g]? = some G ∧ g ≠ f := by
  rcases getElem?_set_cases hg with ⟨-, rfl⟩ | ⟨hne, hg⟩
  · exact .inl ⟨rfl, rfl⟩
  · exact .inr ⟨hg, hne⟩

theorem returned_pending {g : ℕ} {G : Pending} (hg : (s.returned f F).fetches[g]? = some G)
    (hG : G.pending = true) : s.fetches[g]? = some G ∧ g ≠ f := by
  rcases returned_fetches hg with ⟨-, hG'⟩ | hg
  · rw [hG] at hG'
    cases hG'
  · exact hg

theorem Tidy.returned (hs : s.Tidy) (hF : s.fetches[f]? = some F) : (s.returned f F).Tidy where
  attempts := hs.attempts
  fetches g G hg := by
    rcases returned_fetches hg with ⟨hgen, -⟩ | ⟨hg, -⟩
    · rw [hgen]
      exact hs.fetches f F hF
    · exact hs.fetches g G hg
  timers := hs.timers
  socket := hs.socket
  dialed := hs.dialed
  quic := hs.quic
  down := hs.down

theorem NoFetch.returned (hf : s.NoFetch) : (s.returned f F).NoFetch :=
  fun g G hg hG => hf g G (returned_pending hg hG).1 hG

theorem Quiet.returned (hq : s.Quiet) : (s.returned f F).Quiet where
  spent b B hb := hq.spent b B (hb.of_eq rfl rfl rfl)
  noQuic := hq.noQuic
  status := hq.status

/-- A call of an earlier generation ends without effect. -/
theorem Inv.superseded (hs : s.Inv strict) (hF : s.fetches[f]? = some F)
    (hcur : s.closed = true ∨ F.generation ≠ s.generation) : (s.returned f F).Inv strict := by
  refine ⟨hs.toTidy.returned hF, ?_⟩
  intro hopen
  have hopen : s.closed = false := hopen
  have hgen : F.generation ≠ s.generation := by
    rcases hcur with h | h
    · rw [hopen] at h
      cases h
    · exact h
  cases hs.phase hopen with
  | fetching hq ht g hg honly =>
    have hne : f ≠ g := by
      rintro rfl
      cases hF.symm.trans hg
      exact hgen rfl
    refine .fetching hq.returned ht g ((List.getElem?_set_ne hne).trans hg) ?_
    intro g' G hg' hG hGgen
    exact honly g' G (returned_pending hg' hG).1 hG hGgen
  | waiting hq hf t ht => exact .waiting hq.returned hf.returned t ht
  | resting hq hf ht hr => exact .resting hq.returned hf.returned ht hr
  | trying hf ht b B h =>
    exact .trying hf.returned ht b B { h with current := h.current.of_eq rfl rfl rfl }
  | wsUp hf ht b B k h =>
    exact .wsUp hf.returned ht b B k { h with current := h.current.of_eq rfl rfl rfl }
  | quicUp hf ht b B h =>
    exact .quicUp hf.returned ht b B { h with current := h.current.of_eq rfl rfl rfl }

/-- A pending call of this generation is all the store does. -/
theorem Inv.only_fetch (hs : s.Inv strict) (hF : s.fetches[f]? = some F) (hp : F.pending = true)
    (hopen : s.closed = false) (hgen : F.generation = s.generation) :
    s.Quiet ∧ (s.returned f F).Ended := by
  have habsurd (hf : s.NoFetch) : False := hf f F hF hp hgen
  cases hs.phase hopen with
  | fetching hq ht g hg honly =>
    have hfetch : (s.returned f F).NoFetch := by
      intro g' G hg' hG hGgen
      obtain ⟨hg', hne⟩ := returned_pending hg' hG
      exact hne ((honly g' G hg' hG hGgen).trans (honly f F hF hp hgen).symm)
    exact ⟨hq, hs.toTidy.returned hF, hopen, hq.returned.spent, hq.noQuic, hfetch, ht⟩
  | waiting _ hf => exact (habsurd hf).elim
  | resting _ hf => exact (habsurd hf).elim
  | trying hf => exact (habsurd hf).elim
  | wsUp hf => exact (habsurd hf).elim
  | quicUp hf => exact (habsurd hf).elim

end returned

/-- A new attempt dials QUIC first. -/
theorem Tidy.begin (hs : s.Tidy) (generation : ℕ) (hgen : generation = s.generation) :
    ({ s with attempts := s.attempts ++ [.begin generation] } : Store φ).Tidy where
  attempts b B hb := by
    rcases getElem?_concat_cases hb with ⟨-, rfl⟩ | hb
    · exact Nat.le_of_eq hgen
    · exact hs.attempts b B hb
  fetches := hs.fetches
  timers := hs.timers
  socket k S hk := by
    obtain ⟨B, hB, hBk⟩ := hs.socket k S hk
    exact ⟨B, by rw [List.getElem?_append_left (lt_length_of_getElem? hB), hB], hBk⟩
  dialed b B k hb hk := by
    rcases getElem?_concat_cases hb with ⟨-, rfl⟩ | hb
    · cases hk
    · exact hs.dialed b B k hb hk
  quic b hb := by
    obtain ⟨B, hB, hres⟩ := hs.quic b hb
    exact ⟨B, by rw [List.getElem?_append_left (lt_length_of_getElem? hB), hB], hres⟩
  down := hs.down

theorem Ended.begin (hs : s.Ended) (hstatus : s.status ≠ .connected) (generation : ℕ)
    (hgen : generation = s.generation) :
    ({ s with attempts := s.attempts ++ [.begin generation] } : Store φ).Inv strict := by
  refine ⟨hs.toTidy.begin generation hgen, ?_⟩
  intro _
  refine .trying hs.noFetch hs.noTimer s.attempts.length (.begin generation) ?_
  exact {
    current := ⟨List.getElem?_concat_length, hs.isOpen, hgen, by simp⟩
    settled := rfl
    wsDiscarded := rfl
    dial := fun h => by cases h
    ended := rfl
    dropped := rfl
    first := fun _ => ⟨rfl, fun h => by cases h⟩
    fallback := fun k hk => by cases hk
    noQuic := fun b B hb hB => by
      obtain ⟨C, hC, -⟩ := hs.quic b hb
      rw [List.getElem?_append_left (lt_length_of_getElem? hC)] at hB
      exact hs.noQuic b B hb hB
    status := hstatus }

/-- A `getToken()` call comes to an end. -/
theorem Inv.token (hs : s.Inv strict) {f : ℕ} {F : Pending} (hF : s.fetches[f]? = some F)
    (hp : F.pending = true) (token : Token)
    (hguard : strict → s.closed = false → F.generation = s.generation → token ≠ .rejected) :
    ((s.returned f F).token F.generation token).Inv strict := by
  by_cases hcur : (s.returned f F).closed = true ∨ F.generation ≠ (s.returned f F).generation
  · have hstays : (s.returned f F).Inv strict := hs.superseded hF hcur
    unfold Store.token
    cases token with
    | rejected => exact hstays
    | missing =>
      dsimp only
      rw [if_pos hcur]
      exact hstays
    | fetched =>
      dsimp only
      rw [if_pos hcur]
      exact hstays
  · have hboth := not_or.mp hcur
    have hopen : s.closed = false := Bool.eq_false_iff.mpr hboth.1
    have hgen : F.generation = s.generation := not_not.mp hboth.2
    obtain ⟨hq, hended⟩ := hs.only_fetch hF hp hopen hgen
    unfold Store.token
    cases token with
    | rejected =>
      refine ⟨hended.toTidy, ?_⟩
      intro _
      exact .resting hq.returned hended.noFetch hended.noTimer fun hstrict =>
        absurd rfl (hguard hstrict hopen hgen)
    | missing =>
      dsimp only
      rw [if_neg hcur]
      have hrest : Inv False _ := hended.disconnect fun h => h.elim
      refine ⟨⟨hrest.attempts, hrest.fetches, hrest.timers, hrest.socket, hrest.dialed, hrest.quic,
        hrest.down⟩, ?_⟩
      intro _
      refine .resting ⟨?_, hq.noQuic, fun h => by cases h⟩ hended.noFetch hended.noTimer fun _ => rfl
      exact fun b B hb => hq.spent b B (hb.of_eq rfl rfl rfl)
    | fetched =>
      dsimp only
      rw [if_neg hcur]
      exact hended.begin hq.status F.generation hgen

/-- Tokens of this generation are not rejected. -/
def Fetches (s : Store φ) : Event φ → Prop
  | .token f token => ∀ F ∈ s.fetches[f]?, s.closed = false → F.generation = s.generation →
    token ≠ .rejected
  | .connect => True
  | .close => True
  | .reconnect _ => True
  | .quicTimeout _ => True
  | .quicEstablished _ => True
  | .quicResolved _ => True
  | .quicRejected _ => True
  | .quicFrame _ _ => True
  | .quicClosed _ _ => True
  | .wsOpen _ => True
  | .wsMessage _ _ => True
  | .wsClose _ _ => True

theorem onAttempt_eq_some {enabled : Attempt → Bool} {f : Attempt → Store φ}
    (he : s.onAttempt a enabled f = some t) :
    ∃ A, s.attempts[a]? = some A ∧ enabled A = true ∧ t = f A := by
  obtain ⟨A, hA, he⟩ := Option.bind_eq_some_iff.mp he
  split at he
  · rename_i hen
    cases he
    exact ⟨A, hA, hen, rfl⟩
  · cases he

theorem onSocket_eq_some {enabled : Socket → Bool} {f : Socket → Attempt → Store φ}
    (he : s.onSocket k enabled f = some t) : ∃ S A, s.sockets[k]? = some S ∧
      s.attempts[S.attempt]? = some A ∧ enabled S = true ∧ t = f S A := by
  obtain ⟨S, hS, he⟩ := Option.bind_eq_some_iff.mp he
  split at he
  · rename_i hen
    obtain ⟨A, hA, rfl⟩ := Option.map_eq_some_iff.mp he
    exact ⟨S, A, hS, hA, hen, rfl⟩
  · cases he

theorem Inv.step (hs : s.Inv strict) {e : Event φ} (hguard : s.Orderly e)
    (hfetches : strict → s.Fetches e) (he : s.step e = some t) : t.Inv strict := by
  cases e with
  | connect =>
    cases he
    exact hs.toTidy.connect
  | close =>
    cases he
    exact hs.toTidy.close
  | token f token =>
    obtain ⟨F, hF, he⟩ := Option.bind_eq_some_iff.mp he
    split at he
    · rename_i hp
      cases he
      exact hs.token hF hp token fun hstrict => hfetches hstrict F hF
    · cases he
  | reconnect u =>
    obtain ⟨T, hT, he⟩ := Option.bind_eq_some_iff.mp he
    split at he
    · rename_i hp
      cases he
      exact hs.attemptConnect hT hp
    · cases he
  | quicTimeout a =>
    obtain ⟨A, hA, hen, rfl⟩ := onAttempt_eq_some he
    exact hs.quicTimeout hA hen
  | quicEstablished a =>
    obtain ⟨A, hA, hen, rfl⟩ := onAttempt_eq_some he
    exact hs.quicEstablished hA (of_decide_eq_true hen)
  | quicResolved a =>
    obtain ⟨A, hA, hen, rfl⟩ := onAttempt_eq_some he
    exact hs.quicResolved hA (of_decide_eq_true hen)
  | quicRejected a =>
    obtain ⟨A, hA, hen, rfl⟩ := onAttempt_eq_some he
    exact hs.quicRejected hA (of_decide_eq_true hen) (hguard A hA)
  | quicFrame a frame =>
    obtain ⟨A, -, -, rfl⟩ := onAttempt_eq_some he
    exact hs.onFrame a A frame
  | quicClosed a authFailed =>
    obtain ⟨A, hA, -, rfl⟩ := onAttempt_eq_some he
    exact hs.onClosed hA authFailed (hguard A hA)
  | wsOpen k =>
    obtain ⟨S, A, hS, hA, hen, rfl⟩ := onSocket_eq_some he
    simp only [Bool.and_eq_true, Bool.not_eq_true'] at hen
    exact hs.onopen hS hA hen.1 hen.2
  | wsMessage k frame =>
    obtain ⟨S, A, -, -, -, rfl⟩ := onSocket_eq_some he
    exact hs.onmessage S A frame
  | wsClose k code =>
    obtain ⟨S, A, hS, hA, hen, rfl⟩ := onSocket_eq_some he
    exact hs.onclose hS hA (by simpa using hen) code

theorem inv_start : (start : Store φ).Inv strict where
  attempts _ _ h := by cases h
  fetches _ _ h := by cases h
  timers _ _ h := by cases h
  socket _ _ h := by cases h
  dialed _ _ _ h := by cases h
  quic _ h := by cases h
  down _ h := by cases h
  phase h := by cases h

end Store

end Epistl.Transport
