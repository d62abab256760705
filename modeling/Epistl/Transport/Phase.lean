import Epistl.Transport.Store
import Epistl.Runs.Milestone

/-! # What the transport store is doing

While it is not closed, the store fetches a token, waits for a reconnect timer, tries one
attempt, or is up over one connection, and never two of these at once. This holds in
every run in which the QUIC rejection of an attempt does not come after its WebSocket
was dialed and the reader of a QUIC connection calls back only after the promise has resolved.
-/
namespace Epistl.Transport
variable {φ : Type} {s t : Store φ} {a k : ℕ} {A B : Attempt} {S : Socket} {strict : Prop}

namespace Store

/-- The QUIC rejection of the current attempt comes before its WebSocket is dialed, and
a QUIC connection of this generation reports its end after its promise resolved. -/
def Orderly (s : Store φ) : Event φ → Prop
  | .quicRejected a => ∀ A ∈ s.attempts[a]?, s.stale a A.generation = false → A.settled = false → A.ws = none
  | .quicFrame _ _ => True
  | .quicClosed a _ => ∀ A ∈ s.attempts[a]?, s.closed = false → A.generation = s.generation →
    A.dial = .resolved
  | .connect => True
  | .close => True
  | .token _ _ => True
  | .reconnect _ => True
  | .quicTimeout _ => True
  | .quicEstablished _ => True
  | .quicResolved _ => True
  | .wsOpen _ => True
  | .wsMessage _ _ => True
  | .wsClose _ _ => True

/-- Attempt `a` is not stale. -/
structure Current (s : Store φ) (a : ℕ) (A : Attempt) : Prop where
  get : s.attempts[a]? = some A
  isOpen : s.closed = false
  generation : A.generation = s.generation
  last : a + 1 = s.attempts.length

theorem stale_eq_false (hA : s.attempts[a]? = some A) : s.stale a A.generation = false ↔ s.Current a A := by
  simp only [stale, Bool.or_eq_false_iff, decide_eq_false_iff_not, not_not]
  exact ⟨fun ⟨⟨h1, h2⟩, h3⟩ => ⟨hA, h1, h2, h3⟩, fun h => ⟨⟨h.isOpen, h.generation⟩, h.last⟩⟩

theorem Current.stale (h : s.Current a A) : s.stale a A.generation = false := (stale_eq_false h.get).mpr h

/-- No `getToken()` call of this generation is pending. -/
def NoFetch (s : Store φ) : Prop :=
  ∀ (f : ℕ) (F : Pending), s.fetches[f]? = some F → F.pending = true →
    F.generation ≠ s.generation

/-- No reconnect timer is armed. -/
def NoTimer (s : Store φ) : Prop :=
  ∀ (t : ℕ) (T : Pending), s.timers[t]? = some T → T.pending = false

/-- The stored QUIC connection is of an earlier generation. -/
def NoQuic (s : Store φ) : Prop :=
  ∀ (b : ℕ) (B : Attempt), s.quicConnection = some b → s.attempts[b]? = some B →
    B.generation ≠ s.generation

/-- The current attempt, if any, is settled, and its socket has ended or is discarded. -/
def Spent (s : Store φ) : Prop :=
  ∀ (a : ℕ) (A : Attempt), s.Current a A → A.settled = true ∧ ∀ (k : ℕ) (S : Socket),
    A.ws = some k → s.sockets[k]? = some S → S.ended = true ∨ A.wsDiscarded = true

structure Quiet (s : Store φ) : Prop where
  spent : s.Spent
  noQuic : s.NoQuic
  status : s.status ≠ .connected

/-- An attempt dials QUIC, or a WebSocket, or both. -/
structure Trying (s : Store φ) (a : ℕ) (A : Attempt) : Prop where
  current : s.Current a A
  settled : A.settled = false
  wsDiscarded : A.wsDiscarded = false
  dial : A.dial ≠ .resolved
  ended : A.ended = false
  dropped : A.dropped = false
  first : A.ws = none → A.quicTimer = true ∧ A.dial ≠ .rejected
  fallback : ∀ k, A.ws = some k → A.quicTimer = false ∧ s.socket = some k ∧
    s.sockets[k]? = some ⟨a, false, false, false⟩
  noQuic : s.NoQuic
  status : s.status ≠ .connected

structure WsUp (s : Store φ) (a : ℕ) (A : Attempt) (k : ℕ) : Prop where
  current : s.Current a A
  settled : A.settled = true
  winner : A.winner = some .ws
  wsDiscarded : A.wsDiscarded = false
  ws : A.ws = some k
  get : s.sockets[k]? = some ⟨a, true, false, false⟩
  socket : s.socket = some k
  status : s.status = .connected
  activeTransport : s.activeTransport = some .ws
  connectedBy : s.connectedBy = some (.ws k)
  noQuic : s.NoQuic

structure QuicUp (s : Store φ) (a : ℕ) (A : Attempt) : Prop where
  current : s.Current a A
  settled : A.settled = true
  winner : A.winner = some .quic
  dial : A.dial = .resolved
  ended : A.ended = false
  dropped : A.dropped = false
  wsDiscarded : ∀ k, A.ws = some k → A.wsDiscarded = true
  quicConnection : s.quicConnection = some a
  status : s.status = .connected
  activeTransport : s.activeTransport = some .quic
  connectedBy : s.connectedBy = some (.quic a)

/-- What an open store is doing. It rests after a terminal end; when tokens may be rejected,
also after that. -/
inductive Phase (strict : Prop) (s : Store φ) : Prop
  | fetching (hq : s.Quiet) (ht : s.NoTimer) (f : ℕ)
      (hf : s.fetches[f]? = some ⟨s.generation, true⟩)
      (honly : ∀ (f' : ℕ) (F : Pending), s.fetches[f']? = some F → F.pending = true → F.generation = s.generation →
        f' = f)
  | waiting (hq : s.Quiet) (hf : s.NoFetch) (t : ℕ) (ht : s.timers[t]? = some ⟨s.generation, true⟩)
  | resting (hq : s.Quiet) (hf : s.NoFetch) (ht : s.NoTimer) (hr : strict → s.refused = true)
  | trying (hf : s.NoFetch) (ht : s.NoTimer) (a : ℕ) (A : Attempt) (h : s.Trying a A)
  | wsUp (hf : s.NoFetch) (ht : s.NoTimer) (a : ℕ) (A : Attempt) (k : ℕ) (h : s.WsUp a A k)
  | quicUp (hf : s.NoFetch) (ht : s.NoTimer) (a : ℕ) (A : Attempt) (h : s.QuicUp a A)

/-- What holds of the numbers in the store. -/
structure Tidy (s : Store φ) : Prop where
  attempts : ∀ (a : ℕ) (A : Attempt), s.attempts[a]? = some A → A.generation ≤ s.generation
  fetches : ∀ (f : ℕ) (F : Pending), s.fetches[f]? = some F → F.generation ≤ s.generation
  /-- at most one timer is armed, and it is the stored one -/
  timers : ∀ (t : ℕ) (T : Pending), s.timers[t]? = some T → T.pending = true →
    s.closed = false ∧ T.generation = s.generation ∧ s.reconnectTimer = some t
  /-- every socket is the one socket of its attempt -/
  socket : ∀ (k : ℕ) (S : Socket), s.sockets[k]? = some S →
    ∃ A, s.attempts[S.attempt]? = some A ∧ A.ws = some k
  dialed : ∀ (a : ℕ) (A : Attempt) (k : ℕ), s.attempts[a]? = some A → A.ws = some k →
    ∃ S, s.sockets[k]? = some S ∧ S.attempt = a
  quic : ∀ b : ℕ, s.quicConnection = some b → ∃ B, s.attempts[b]? = some B ∧ B.dial = .resolved
  down : s.closed = true → s.status ≠ .connected

structure Inv (strict : Prop) (s : Store φ) : Prop extends Tidy s where
  phase : s.closed = false → s.Phase strict

theorem Current.setAttempt_cases {b : ℕ} {A' : Attempt} (h : (s.setAttempt a A').Current b B)
    (hA : s.attempts[a]? = some A) (hgen : A'.generation = A.generation) :
    b = a ∧ B = A' ∧ s.Current a A ∨ b ≠ a ∧ s.Current b B := by
  obtain ⟨hB, hopen, hg, hlast⟩ := h
  have hlast' : b + 1 = s.attempts.length := by simpa [setAttempt] using hlast
  rcases getElem?_set_cases hB with ⟨rfl, rfl⟩ | ⟨hne, hB⟩
  · exact .inl ⟨rfl, rfl, hA, hopen, hgen.symm.trans hg, hlast'⟩
  · exact .inr ⟨hne, hB, hopen, hg, hlast'⟩

theorem Current.setAttempt {b : ℕ} {A' : Attempt} (h : s.Current b B) (hne : b ≠ a) :
    (s.setAttempt a A').Current b B where
  get := (List.getElem?_set_ne hne.symm).trans h.get
  isOpen := h.isOpen
  generation := h.generation
  last := by simpa [Store.setAttempt] using h.last

theorem Current.set_self {A' : Attempt} (h : s.Current a A) (hgen : A'.generation = A.generation) :
    (s.setAttempt a A').Current a A' where
  get := List.getElem?_set_self (lt_length_of_getElem? h.get)
  isOpen := h.isOpen
  generation := hgen.trans h.generation
  last := by simpa [Store.setAttempt] using h.last

theorem Current.unique {b : ℕ} (h : s.Current a A) (h' : s.Current b B) : a = b ∧ A = B := by
  have hab : a = b := by
    have := h.last
    have := h'.last
    omega
  subst hab
  exact ⟨rfl, Option.some.inj (h.get.symm.trans h'.get)⟩

theorem Trying.not_settled {b : ℕ} (h : s.Trying b B) (hcur : s.Current a A) :
    A.settled = false := by
  obtain ⟨-, rfl⟩ := hcur.unique h.current
  exact h.settled

theorem WsUp.isSettled {b : ℕ} (h : s.WsUp b B k) (hcur : s.Current a A) : A.settled = true := by
  obtain ⟨-, rfl⟩ := hcur.unique h.current
  exact h.settled

theorem QuicUp.isSettled {b : ℕ} (h : s.QuicUp b B) (hcur : s.Current a A) :
    A.settled = true := by
  obtain ⟨-, rfl⟩ := hcur.unique h.current
  exact h.settled

/-- Current attempts depend on these fields only. -/
theorem Current.of_eq (h : s.Current a A) (ha : t.attempts = s.attempts)
    (hc : t.closed = s.closed) (hg : t.generation = s.generation) : t.Current a A where
  get := ha ▸ h.get
  isOpen := hc.trans h.isOpen
  generation := h.generation.trans hg.symm
  last := ha ▸ h.last

/-- A change of an attempt that is stale or settled. -/
structure Idle (s : Store φ) (a : ℕ) (A B : Attempt) : Prop where
  generation : B.generation = A.generation
  ws : B.ws = A.ws
  wsDiscarded : A.wsDiscarded = true → B.wsDiscarded = true
  dial : A.dial = .resolved → B.dial = .resolved
  settled : s.stale a A.generation = false → A.settled = true ∧ B.settled = true
  winner : s.stale a A.generation = false → B.winner = A.winner
  kept : s.stale a A.generation = false → ∀ (k : ℕ) (S : Socket), A.ws = some k → s.sockets[k]? = some S →
    S.opened = true → B.wsDiscarded = A.wsDiscarded
  quic : s.stale a A.generation = false → s.quicConnection = some a → B.ended = A.ended ∧ B.dropped = A.dropped

/-- The dial or the timer of an attempt that is stale or settled changes. -/
theorem Idle.of_dial {dial : Dial} (hdial : A.dial = .resolved → dial = .resolved)
    (hsettled : s.stale a A.generation = false → A.settled = true) (timer timedOut : Bool) :
    s.Idle a A { A with dial := dial, quicTimer := timer, timedOut := timedOut } where
  generation := rfl
  ws := rfl
  wsDiscarded := id
  dial := hdial
  settled := fun hstale => ⟨hsettled hstale, hsettled hstale⟩
  winner := fun _ => rfl
  kept := fun _ _ _ _ _ _ => rfl
  quic := fun _ _ => ⟨rfl, rfl⟩

theorem Tidy.setAttempt (hs : s.Tidy) (hA : s.attempts[a]? = some A)
    (hgen : B.generation = A.generation) (hws : B.ws = A.ws)
    (hdial : A.dial = .resolved → B.dial = .resolved) : (s.setAttempt a B).Tidy where
  attempts b B' hb := by
    rcases getElem?_set_cases hb with ⟨rfl, rfl⟩ | ⟨-, hb⟩
    · rw [hgen]
      exact hs.attempts b A hA
    · exact hs.attempts b B' hb
  fetches := hs.fetches
  timers := hs.timers
  socket k S hk := by
    obtain ⟨A', hA', hk'⟩ := hs.socket k S hk
    by_cases hSa : S.attempt = a
    · subst hSa
      cases hA.symm.trans hA'
      exact ⟨B, List.getElem?_set_self (lt_length_of_getElem? hA), hws.trans hk'⟩
    · exact ⟨A', (List.getElem?_set_ne (Ne.symm hSa)).trans hA', hk'⟩
  dialed b B' k hb hk := by
    rcases getElem?_set_cases hb with ⟨rfl, rfl⟩ | ⟨-, hb⟩
    · exact hs.dialed b A k hA (hws.symm.trans hk)
    · exact hs.dialed b B' k hb hk
  quic b hb := by
    obtain ⟨B', hB', hres⟩ := hs.quic b hb
    by_cases hba : b = a
    · subst hba
      cases hA.symm.trans hB'
      exact ⟨B, List.getElem?_set_self (lt_length_of_getElem? hA), hdial hres⟩
    · exact ⟨B', (List.getElem?_set_ne (Ne.symm hba)).trans hB', hres⟩
  down := hs.down

theorem NoQuic.setAttempt (hn : s.NoQuic) (hA : s.attempts[a]? = some A)
    (hgen : B.generation = A.generation) : (s.setAttempt a B).NoQuic := by
  intro b B' hq hb
  rcases getElem?_set_cases hb with ⟨rfl, rfl⟩ | ⟨-, hb⟩
  · rw [hgen]
    exact hn b A hq hA
  · exact hn b B' hq hb

theorem Quiet.setAttempt (hq : s.Quiet) (hA : s.attempts[a]? = some A) (hi : s.Idle a A B) :
    (s.setAttempt a B).Quiet where
  spent b B' hb := by
    rcases hb.setAttempt_cases hA hi.generation with ⟨rfl, rfl, hcur⟩ | ⟨-, hcur⟩
    · refine ⟨(hi.settled hcur.stale).2, fun k S hk hS => ?_⟩
      exact ((hq.spent b A hcur).2 k S (hi.ws.symm.trans hk) hS).imp_right hi.wsDiscarded
    · exact hq.spent b B' hcur
  noQuic := hq.noQuic.setAttempt hA hi.generation
  status := hq.status

theorem Inv.setAttempt (hs : s.Inv strict) (hA : s.attempts[a]? = some A) (hi : s.Idle a A B) :
    (s.setAttempt a B).Inv strict where
  toTidy := hs.toTidy.setAttempt hA hi.generation hi.ws hi.dial
  phase hopen := by
    cases hs.phase hopen with
    | fetching hq ht f hf honly => exact .fetching (hq.setAttempt hA hi) ht f hf honly
    | waiting hq hf t ht => exact .waiting (hq.setAttempt hA hi) hf t ht
    | resting hq hf ht hr => exact .resting (hq.setAttempt hA hi) hf ht hr
    | trying hf ht b A' h =>
      have hba : b ≠ a := by
        rintro rfl
        cases hA.symm.trans h.current.get
        have := (hi.settled h.current.stale).1
        rw [h.settled] at this
        cases this
      exact .trying hf ht b A' { h with
        current := h.current.setAttempt hba
        noQuic := h.noQuic.setAttempt hA hi.generation }
    | wsUp hf ht b A' k h =>
      by_cases hba : b = a
      · subst hba
        cases hA.symm.trans h.current.get
        have hstale := h.current.stale
        exact .wsUp hf ht b B k { h with
          current := h.current.set_self hi.generation
          settled := (hi.settled hstale).2
          winner := (hi.winner hstale).trans h.winner
          wsDiscarded := (hi.kept hstale k _ h.ws h.get rfl).trans h.wsDiscarded
          ws := hi.ws.trans h.ws
          noQuic := h.noQuic.setAttempt hA hi.generation }
      · exact .wsUp hf ht b A' k { h with
          current := h.current.setAttempt hba
          noQuic := h.noQuic.setAttempt hA hi.generation }
    | quicUp hf ht b A' h =>
      by_cases hba : b = a
      · subst hba
        cases hA.symm.trans h.current.get
        have hstale := h.current.stale
        obtain ⟨hended, hdropped⟩ := hi.quic hstale h.quicConnection
        exact .quicUp hf ht b B { h with
          current := h.current.set_self hi.generation
          settled := (hi.settled hstale).2
          winner := (hi.winner hstale).trans h.winner
          dial := hi.dial h.dial
          ended := hended.trans h.ended
          dropped := hdropped.trans h.dropped
          wsDiscarded := fun k hk => hi.wsDiscarded (h.wsDiscarded k (hi.ws.symm.trans hk)) }
      · exact .quicUp hf ht b A' { h with current := h.current.setAttempt hba }

/-- Socket `k` changes, and `socket` may lose it. -/
theorem Tidy.setSocket (hs : s.Tidy) {S S' : Socket} (hS : s.sockets[k]? = some S)
    (hattempt : S'.attempt = S.attempt) : (s.setSocket k S').Tidy where
  attempts := hs.attempts
  fetches := hs.fetches
  timers := hs.timers
  socket l T hl := by
    rcases getElem?_set_cases hl with ⟨rfl, rfl⟩ | ⟨-, hl⟩
    · rw [hattempt]
      exact hs.socket l S hS
    · exact hs.socket l T hl
  dialed b B l hb hl := by
    obtain ⟨T, hT, hTb⟩ := hs.dialed b B l hb hl
    by_cases hlk : l = k
    · subst hlk
      cases hS.symm.trans hT
      exact ⟨S', List.getElem?_set_self (lt_length_of_getElem? hS), hattempt.trans hTb⟩
    · exact ⟨T, (List.getElem?_set_ne (Ne.symm hlk)).trans hT, hTb⟩
  quic := hs.quic
  down := hs.down

theorem Quiet.setSocket (hq : s.Quiet) {S S' : Socket} (hS : s.sockets[k]? = some S)
    (hended : S.ended = true → S'.ended = true) : (s.setSocket k S').Quiet where
  spent b B hb := by
    obtain ⟨hsettled, hspent⟩ := hq.spent b B (hb.of_eq rfl rfl rfl)
    refine ⟨hsettled, fun l T hl hT => ?_⟩
    rcases getElem?_set_cases hT with ⟨rfl, rfl⟩ | ⟨-, hT⟩
    · exact (hspent l S hl hS).imp_left hended
    · exact hspent l T hl hT
  noQuic := hq.noQuic
  status := hq.status

/-- A socket that is stale or discarded changes. -/
theorem Inv.setSocket (hs : s.Inv strict) {S S' : Socket} (hS : s.sockets[k]? = some S)
    (hattempt : S'.attempt = S.attempt) (hended : S.ended = true → S'.ended = true)
    (hcur : ∀ A, s.Current S.attempt A → A.wsDiscarded = true) : (s.setSocket k S').Inv strict where
  toTidy := hs.toTidy.setSocket hS hattempt
  phase hopen := by
    have hne {b l : ℕ} {B : Attempt} {o c e : Bool} (hB : s.Current b B)
        (hkept : B.wsDiscarded = false) (hl : s.sockets[l]? = some ⟨b, o, c, e⟩) : k ≠ l := by
      rintro rfl
      cases hS.symm.trans hl
      have := hcur B hB
      rw [hkept] at this
      cases this
    cases hs.phase hopen with
    | fetching hq ht f hf honly => exact .fetching (hq.setSocket hS hended) ht f hf honly
    | waiting hq hf t ht => exact .waiting (hq.setSocket hS hended) hf t ht
    | resting hq hf ht hr => exact .resting (hq.setSocket hS hended) hf ht hr
    | trying hf ht b B h =>
      refine .trying hf ht b B { h with
        current := h.current.of_eq rfl rfl rfl
        fallback := ?_ }
      intro l hl
      obtain ⟨htimer, hsocket, hget⟩ := h.fallback l hl
      exact ⟨htimer, hsocket,
        (List.getElem?_set_ne (hne h.current h.wsDiscarded hget)).trans hget⟩
    | wsUp hf ht b B l h =>
      exact .wsUp hf ht b B l { h with
        current := h.current.of_eq rfl rfl rfl
        get := (List.getElem?_set_ne (hne h.current h.wsDiscarded h.get)).trans h.get }
    | quicUp hf ht b B h =>
      exact .quicUp hf ht b B { h with current := h.current.of_eq rfl rfl rfl }

/-- `socket` loses a socket that is stale or discarded. -/
theorem Inv.clearSocket (hs : s.Inv strict) {S : Socket} (hS : s.sockets[k]? = some S)
    (hcur : ∀ A, s.Current S.attempt A → A.wsDiscarded = true) :
    (s.clearSocket k).Inv strict where
  toTidy := ⟨hs.attempts, hs.fetches, hs.timers, hs.socket, hs.dialed, hs.quic, hs.down⟩
  phase hopen := by
    have hne {b l : ℕ} {B : Attempt} {o c e : Bool} (hB : s.Current b B)
        (hkept : B.wsDiscarded = false) (hl : s.sockets[l]? = some ⟨b, o, c, e⟩)
        (hsocket : s.socket = some l) :
        (if s.socket = some k then none else s.socket) = some l := by
      rw [if_neg]
      · exact hsocket
      · intro hk
        cases hsocket.symm.trans hk
        cases hS.symm.trans hl
        have := hcur B hB
        rw [hkept] at this
        cases this
    have hquiet (hq : s.Quiet) : (s.clearSocket k).Quiet :=
      ⟨fun b B hb => hq.spent b B (hb.of_eq rfl rfl rfl), hq.noQuic, hq.status⟩
    cases hs.phase hopen with
    | fetching hq ht f hf honly => exact .fetching (hquiet hq) ht f hf honly
    | waiting hq hf t ht => exact .waiting (hquiet hq) hf t ht
    | resting hq hf ht hr => exact .resting (hquiet hq) hf ht hr
    | trying hf ht b B h =>
      refine .trying hf ht b B { h with
        current := h.current.of_eq rfl rfl rfl
        fallback := ?_ }
      intro l hl
      obtain ⟨htimer, hsocket, hget⟩ := h.fallback l hl
      exact ⟨htimer, hne h.current h.wsDiscarded hget hsocket, hget⟩
    | wsUp hf ht b B l h =>
      exact .wsUp hf ht b B l { h with
        current := h.current.of_eq rfl rfl rfl
        socket := hne h.current h.wsDiscarded h.get h.socket }
    | quicUp hf ht b B h =>
      exact .quicUp hf ht b B { h with current := h.current.of_eq rfl rfl rfl }

/-- The frame shown, the backoff and the report of a refusal do not matter. -/
theorem Inv.of_eq (hs : s.Inv strict) (frame : Option φ) (ms : ℕ) (r : Bool)
    (hr : s.refused = true → r = true) :
    ({ s with lastFrame := frame, backoffMs := ms, refused := r } : Store φ).Inv strict where
  toTidy := ⟨hs.attempts, hs.fetches, hs.timers, hs.socket, hs.dialed, hs.quic, hs.down⟩
  phase hopen := by
    have hquiet (hq : s.Quiet) :
        Quiet { s with lastFrame := frame, backoffMs := ms, refused := r } :=
      ⟨fun b B hb => hq.spent b B (hb.of_eq rfl rfl rfl), hq.noQuic, hq.status⟩
    cases hs.phase hopen with
    | fetching hq ht f hf honly => exact .fetching (hquiet hq) ht f hf honly
    | waiting hq hf t ht => exact .waiting (hquiet hq) hf t ht
    | resting hq hf ht hrefused => exact .resting (hquiet hq) hf ht (hr ∘ hrefused)
    | trying hf ht b B h =>
      exact .trying hf ht b B { h with current := h.current.of_eq rfl rfl rfl }
    | wsUp hf ht b B l h =>
      exact .wsUp hf ht b B l { h with current := h.current.of_eq rfl rfl rfl }
    | quicUp hf ht b B h =>
      exact .quicUp hf ht b B { h with current := h.current.of_eq rfl rfl rfl }

theorem Inv.report (hs : s.Inv strict) (r : Bool) : (s.report r).Inv strict :=
  hs.of_eq s.lastFrame s.backoffMs _ fun h => by rw [h, Bool.true_or]

/-- A store that has nothing left but is open. -/
structure Ended (s : Store φ) : Prop extends Tidy s where
  isOpen : s.closed = false
  spent : s.Spent
  noQuic : s.NoQuic
  noFetch : s.NoFetch
  noTimer : s.NoTimer

theorem Ended.disconnect (hs : s.Ended) (hr : strict → s.refused = true) :
    s.disconnect.Inv strict where
  toTidy := ⟨hs.attempts, hs.fetches, hs.timers, hs.socket, hs.dialed, hs.quic, fun _ h => by cases h⟩
  phase _ := by
    refine .resting ⟨?_, hs.noQuic, fun h => by cases h⟩ hs.noFetch hs.noTimer hr
    exact fun b B hb => hs.spent b B (hb.of_eq rfl rfl rfl)

theorem Ended.reconnect (hs : s.Ended) {generation : ℕ} (hgen : generation = s.generation) :
    (s.reconnectFrom generation).Inv strict := by
  subst hgen
  have hopen : ¬ (s.closed = true ∨ s.generation ≠ s.generation) := by
    rintro (h | h)
    · rw [hs.isOpen] at h
      cases h
    · exact h rfl
  unfold reconnectFrom scheduleReconnect
  rw [if_neg hopen]
  constructor
  · constructor
    · exact hs.attempts
    · exact hs.fetches
    · intro t T ht hT
      rcases getElem?_concat_cases ht with ⟨rfl, rfl⟩ | ht
      · exact ⟨hs.isOpen, rfl, rfl⟩
      · have := hs.noTimer t T ht
        rw [hT] at this
        cases this
    · exact hs.socket
    · exact hs.dialed
    · exact hs.quic
    · intro _ h
      cases h
  · intro _
    refine .waiting ⟨?_, hs.noQuic, fun h => by cases h⟩ hs.noFetch s.timers.length
      List.getElem?_concat_length
    exact fun b B hb => hs.spent b B (hb.of_eq rfl rfl rfl)

theorem stale_setAttempt (a b generation : ℕ) (B : Attempt) :
    (s.setAttempt b B).stale a generation = s.stale a generation := by
  unfold stale setAttempt
  rw [List.length_set]

theorem setAttempt_setAttempt (a : ℕ) (A B : Attempt) :
    (s.setAttempt a A).setAttempt a B = s.setAttempt a B := by
  simp [setAttempt]

theorem closeSocket_setSocket {T : Socket} (hS : s.sockets[k]? = some S) :
    (s.setSocket k T).closeSocket k = s.setSocket k { T with closing := true } := by
  have hlt := lt_length_of_getElem? hS
  simp [closeSocket, setSocket, closing, List.modify_eq_set_getElem?, List.getElem?_set_self hlt]

/-- The attempt of a store that is trying is not stale and not settled. -/
theorem Inv.trying (hs : s.Inv strict) (hcur : s.Current a A) (hsettled : A.settled = false) :
    s.NoFetch ∧ s.NoTimer ∧ s.Trying a A := by
  have hquiet (hq : s.Quiet) : False := by
    have := (hq.spent a A hcur).1
    rw [hsettled] at this
    cases this
  cases hs.phase hcur.isOpen with
  | fetching hq => exact (hquiet hq).elim
  | waiting hq => exact (hquiet hq).elim
  | resting hq => exact (hquiet hq).elim
  | trying hf ht b B h =>
    obtain ⟨rfl, rfl⟩ := hcur.unique h.current
    exact ⟨hf, ht, h⟩
  | wsUp _ _ b B l h => cases hsettled.symm.trans (h.isSettled hcur)
  | quicUp _ _ b B h => cases hsettled.symm.trans (h.isSettled hcur)

end Store

end Epistl.Transport
