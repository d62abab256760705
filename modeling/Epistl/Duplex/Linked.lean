import Epistl.Duplex.System

/-! # The connections that are kept apart

As long as the relay registers only connections that the client still wants, one at a time,
a connection that is registered and wanted stays so until `connect()` or `close()`.
-/
namespace Epistl.Duplex
open Transport Relay
variable {υ : Type} {s t : System υ} {user : υ} {c : Conn} {l : Link} {i j k : ℕ} {m : Message υ}

namespace System

/-- The message was acked out of the queue of the user, or it was pushed and is about to be. -/
def Taken (user : υ) (s : System υ) (m : Message υ) : Prop :=
  m ∈ s.acked ∨ (∃ h ∈ s.server.handlers, h.user = user ∧ h.stage.unacked = some m) ∨
    ∃ task ∈ s.server.tasks, task.message.recipient = user ∧ task.unacked = some m

/-- The message is taken off the queue, and the client has honoured no frame with it. -/
def Missing (user : υ) (s : System υ) (m : Message υ) : Prop := s.Taken user m ∧ m ∉ s.honoured

/-- What the relay put on connection `i` and the client has not received. -/
def transit (s : System υ) (c : Conn) (i : ℕ) : List (Relay.Frame υ) :=
  (s.server.channels[i]?.elim [] Channel.content).drop (s.received c)

/-- A missing message is in transit on the connection. -/
def Laden (user : υ) (s : System υ) (l : Link) : Prop :=
  ∃ i ∈ l.server, ∃ frame ∈ s.transit l.conn i, ∃ m ∈ frame.message?, s.Missing user m

/-- The relay has not yet come to read from the connection. -/
def Draining (s : System υ) (l : Link) : Prop :=
  ∃ i ∈ l.server, ∃ h ∈ s.server.handlers[i]?, h.stage.drains = true

/-- The client gives up the connection while it is laden or being drained into, or decides
against it. -/
def GivesUp (user : υ) (s : System υ) (l : Link) : Event (Relayed υ) → Prop
  | .connect => s.Draining l ∨ s.Laden user l
  | .close => s.Draining l ∨ s.Laden user l
  | .quicResolved a => s.client.Against l.conn (.quicResolved a)
  | .wsOpen k => s.client.Against l.conn (.wsOpen k)
  | _ => False

/-- The client does not ignore a missing message that arrives on a QUIC connection it wants. -/
def Heeds (user : υ) (s : System υ) : Event (Relayed υ) → Prop
  | .quicFrame a (some (.message m)) => s.Missing user m → s.client.Wants (.quic a) →
    s.client.honours (.quic a) = true
  | _ => True

/-- `redeliver_if_now_connected` pushes only into a connection that the client wants. -/
def Aims (user : υ) (s : System υ) : Relay.Task υ → Prop
  | .relaying m i => m.recipient = user → s.server.accepts i = true →
    ∀ l ∈ s.linkTo i, s.client.Wants l.conn
  | _ => True

/-- The relay registers a connection, and redelivers into it, only while the client wants it,
and it registers no second one that is wanted. The client gives up no registered one with
messages to come, and ignores none of them. -/
def Apart (user : υ) (s : System υ) : Action υ → Prop
  | .client e => s.client.Orderly e ∧ s.Heeds user e ∧
    ∀ l ∈ s.links, l.server ≠ none → s.client.Wants l.conn → ¬ s.GivesUp user l e
  | .arrive _ => True
  | .accept j authorized => authorized = true ∧ ∀ l ∈ s.links[j]?, s.client.Wants l.conn ∧
    ∀ l' ∈ s.links, l'.server ≠ none → ¬ s.client.Wants l'.conn
  | .server (.redeliver j _) => ∀ task ∈ s.server.tasks[j]?, s.Aims user task
  | .server _ => True
  | .send _ => True

/-- A registered connection that the client wants. -/
structure Kept (user : υ) (s : System υ) (c : Conn) (i : ℕ) : Prop where
  wants : s.client.Wants c
  alive : s.server.Alive user i
  registered : s.server.registry user = some i

/-- A connection that the client has given up. -/
structure Over (user : υ) (s : System υ) (c : Conn) (i : ℕ) : Prop where
  past : s.client.Past c
  handler : ∃ h, s.server.handlers[i]? = some h ∧ h.user = user ∧ h.stage.drains = false

structure Inv (user : υ) (s : System υ) : Prop where
  client : s.client.Inv False
  roster : RosterInv s.server.roster
  counted : s.server.Counted
  ledger : Ledger s.server
  conns : ∀ (j k : ℕ) (l l' : Link), s.links[j]? = some l → s.links[k]? = some l' →
    l.conn = l'.conn → j = k
  servers : ∀ (j k : ℕ) (l l' : Link) (i : ℕ), s.links[j]? = some l → s.links[k]? = some l' →
    l.server = some i → l'.server = some i → j = k
  accepted : ∀ l ∈ s.links, l.refused = false
  registered : ∀ l ∈ s.links, ∀ i, l.server = some i → s.Kept user l.conn i ∨ s.Over user l.conn i
  linked : ∀ (i : ℕ) (h : Handler υ), s.server.handlers[i]? = some h → h.user = user →
    ∃ l ∈ s.links, l.server = some i
  reached : ∀ (a : ℕ) (A : Attempt), s.client.attempts[a]? = some A → A.reached →
    ∃ l ∈ s.links, l.conn = .quic a
  opened : ∀ (k : ℕ) (S : Socket), s.client.sockets[k]? = some S → S.opened = true →
    ∃ l ∈ s.links, l.conn = .ws k
  received : ∀ c, s.received c = 0 ∨ ∃ l ∈ s.links, l.conn = c ∧ ∃ i, l.server = some i ∧
    s.received c ≤ (s.server.writtenTo i).length

theorem mem_linkOf (hl : l ∈ s.linkOf c) : l ∈ s.links ∧ l.conn = c := by
  have hconn := List.find?_some hl
  exact ⟨List.mem_of_find?_eq_some hl, of_decide_eq_true hconn⟩

theorem exists_of_linkOf (hc : (s.linkOf c).isSome = true) : ∃ l ∈ s.links, l.conn = c := by
  obtain ⟨l, hl⟩ := Option.isSome_iff_exists.mp hc
  obtain ⟨hmem, hconn⟩ := mem_linkOf hl
  exact ⟨l, hmem, hconn⟩

/-- Where an element is the only one with a property, `find?` finds it. -/
theorem find?_eq_some_of_unique {α : Type*} {p : α → Bool} {as : List α} {a : α} (ha : a ∈ as)
    (hp : p a = true) (honly : ∀ b ∈ as, p b = true → b = a) : as.find? p = some a := by
  have hsome : (as.find? p).isSome = true := List.find?_isSome.mpr ⟨a, ha, hp⟩
  obtain ⟨b, hb⟩ := Option.isSome_iff_exists.mp hsome
  rw [hb, honly b (List.mem_of_find?_eq_some hb) (List.find?_some hb)]

namespace Inv

theorem linkOf (hs : s.Inv user) (hl : l ∈ s.links) : s.linkOf l.conn = some l := by
  refine find?_eq_some_of_unique hl (decide_eq_true rfl) fun l' hl' hconn => ?_
  obtain ⟨j, hj⟩ := List.mem_iff_getElem?.mp hl
  obtain ⟨k, hk⟩ := List.mem_iff_getElem?.mp hl'
  obtain rfl := hs.conns k j l' l hk hj (of_decide_eq_true hconn)
  exact Option.some.inj (hk.symm.trans hj)

theorem linkTo (hs : s.Inv user) (hl : l ∈ s.links) (hi : l.server = some i) :
    s.linkTo i = some l := by
  refine find?_eq_some_of_unique hl (decide_eq_true hi) fun l' hl' hserver => ?_
  obtain ⟨j, hj⟩ := List.mem_iff_getElem?.mp hl
  obtain ⟨k, hk⟩ := List.mem_iff_getElem?.mp hl'
  obtain rfl := hs.servers k j l' l i hk hj (of_decide_eq_true hserver) hi
  exact Option.some.inj (hk.symm.trans hj)

/-- The client has not closed a connection that it wants. -/
theorem closedByClient (hc : s.client.Wants c) : s.closedByClient c = false := by
  cases c with
  | quic a =>
    obtain ⟨A, hcur, hdropped, hended, -⟩ := hc
    simp [System.closedByClient, hcur.get, hdropped, hended]
  | ws k =>
    obtain ⟨a, A, opened, -, -, hS, -⟩ := hc
    simp [System.closedByClient, hS]

/-- The relay has not closed a connection that is kept. -/
theorem closedByServer (hs : s.Inv user) (hk : s.Kept user c i) : s.closedByServer i = false := by
  obtain ⟨h, hh, -, hstays⟩ := hk.alive.handler
  obtain ⟨ch, hch, -⟩ := hk.alive.channel
  have hgone : h.stage.isGone = false := by
    cases hstage : h.stage <;> first | rfl | (rw [hstage] at hstays; cases hstays)
  have hclose := Server.closes_eq_zero hs.roster hs.counted hk.registered hch
  unfold System.closedByServer
  rw [hh, hch, Option.any_some, Option.any_some, hgone, Bool.false_or]
  refine List.any_eq_false.mpr fun f hf => ?_
  rw [hclose f (List.mem_append_right _ hf)]
  decide

/-- The end of a registered connection that the client wants does not reach it. -/
theorem hungUp (hs : s.Inv user) (hl : l ∈ s.links) (hwants : s.client.Wants l.conn) :
    s.hungUp l.conn = false := by
  unfold System.hungUp
  rw [hs.linkOf hl, Option.any_some, hs.accepted l hl, Bool.false_or]
  cases hi : l.server with
  | none => rfl
  | some i =>
    rw [Option.any_some]
    rcases hs.registered l hl i hi with hk | ho
    · exact hs.closedByServer hk
    · exact absurd hwants ho.past.not_wants

/-- Apart from `connect()` and `close()`, the client's events do not turn against a registered
connection that it wants. -/
theorem spared (hs : s.Inv user) (hl : l ∈ s.links) (hserver : l.server ≠ none)
    (hwants : s.client.Wants l.conn) {e : Event (Relayed υ)} (hguard : s.Apart user (.client e))
    (hallow : s.Allows e) (hconnect : e ≠ .connect) (hclose : e ≠ .close) :
    ¬ s.client.Against l.conn e := by
  have hnot := hguard.2.2 l hl hserver hwants
  have hup := hs.hungUp hl hwants
  cases e with
  | connect => exact absurd rfl hconnect
  | close => exact absurd rfl hclose
  | token f token => exact id
  | reconnect u => exact id
  | quicTimeout a => exact id
  | quicEstablished a => exact id
  | quicResolved a => exact hnot
  | quicRejected a =>
    intro hc
    have hc : l.conn = .quic a := hc
    have hallow : (s.linkOf (.quic a)).isSome = true → s.hungUp (.quic a) = true := hallow
    rw [← hc, hs.linkOf hl, hup] at hallow
    cases hallow rfl
  | quicFrame a frame => exact id
  | quicClosed a authFailed =>
    intro hc
    have hc : l.conn = .quic a := hc
    have hhung : s.hungUp (.quic a) = true := hallow.2.1
    rw [← hc, hup] at hhung
    cases hhung
  | wsOpen k => exact hnot
  | wsMessage k frame => exact id
  | wsClose k code =>
    rintro (hc | ⟨S, A, hS, hA, hsettled, hc⟩)
    · have hend := hallow.1
      rw [← hc, closedByClient hwants, hup] at hend
      rcases hend with h | h <;> cases h
    · -- the other connection of the attempt is closed by neither side
      rw [hc] at hwants
      obtain ⟨B, hcur, -⟩ := hwants
      cases hA.symm.trans hcur.get
      have htry := (hs.client.trying hcur hsettled).2.2
      have hwants' := htry.wants_ws (hs.client.toTidy.ws_eq hS hA)
      rcases hallow.1 with hend | hend
      · rw [closedByClient hwants'] at hend
        cases hend
      · obtain ⟨l', hl', hhung⟩ := (Option.any_eq_true _ _).mp hend
        obtain ⟨hmem, hconn⟩ := mem_linkOf hl'
        have hup' := hs.hungUp hmem (hconn ▸ hwants')
        rw [hconn, hend] at hup'
        cases hup'

/-- What happens to a registered connection that the client wants. -/
theorem kept_client (hs : s.Inv user) (hl : l ∈ s.links) (hi : l.server = some i)
    (hk : s.Kept user l.conn i) {e : Event (Relayed υ)} (hguard : s.Apart user (.client e))
    (hallow : s.Allows e) {client : Store (Relayed υ)} (he : s.client.step e = some client) :
    client.Wants l.conn ∨ (e = .connect ∨ e = .close) ∧ client.Past l.conn ∧
      ¬ s.Draining l ∧ ¬ s.Laden user l := by
  have hserver : l.server ≠ none := by
    rw [hi]
    exact Option.some_ne_none i
  have hgives := hguard.2.2 l hl hserver hk.wants
  have hevolves := Store.Evolves.step he
  by_cases hconnect : e = .connect
  · subst hconnect
    cases he
    refine .inr ⟨.inl rfl, hk.wants.past hevolves ?_, not_or.mp hgives⟩
    rw [Store.connect_eq]
  · by_cases hclose : e = .close
    · subst hclose
      cases he
      refine .inr ⟨.inr rfl, hk.wants.past hevolves ?_, not_or.mp hgives⟩
      rw [Store.close_eq]
    · have hspared := hs.spared hl hserver hk.wants hguard hallow hconnect hclose
      exact .inl (hk.wants.step hs.client hguard.1 hspared he)

theorem exists_of_arriving {frame : Relay.Frame υ} (h : s.arriving c = some frame) :
    ∃ l ∈ s.linkOf c, ∃ i, l.server = some i ∧
      (s.server.writtenTo i)[s.received c]? = some frame := by
  obtain ⟨l, hl, h⟩ := Option.bind_eq_some_iff.mp h
  obtain ⟨i, hi, h⟩ := Option.bind_eq_some_iff.mp h
  obtain ⟨ch, hch, h⟩ := Option.bind_eq_some_iff.mp h
  refine ⟨l, hl, i, hi, ?_⟩
  rw [Server.writtenTo, hch]
  exact h

/-- A frame that arrives was written by the relay. -/
theorem brings_of_arrival {e : Event (Relayed υ)} {frame : Option (Relayed υ)}
    (hallow : s.Allows e) (h : e.arrival = some (c, frame)) : s.Brings c frame := by
  cases e with
  | quicFrame a f =>
    cases h
    exact hallow.2
  | wsMessage k f =>
    cases h
    exact hallow
  | connect | close | token | reconnect | quicTimeout | quicEstablished | quicResolved
  | quicRejected | quicClosed | wsOpen | wsClose => cases h

theorem received_client (hs : s.Inv user) {e : Event (Relayed υ)} (hallow : s.Allows e) (c : Conn) :
    s.receivedAfter e c = 0 ∨ ∃ l ∈ s.links, l.conn = c ∧ ∃ i, l.server = some i ∧
      s.receivedAfter e c ≤ (s.server.writtenTo i).length := by
  cases harrival : e.arrival with
  | none =>
    simp only [receivedAfter, harrival]
    exact hs.received c
  | some p =>
    obtain ⟨c', frame⟩ := p
    simp only [receivedAfter, harrival]
    by_cases hc : c = c'
    · subst hc
      have hbrings := brings_of_arrival hallow harrival
      cases frame with
      | none => exact hbrings.elim
      | some body =>
        obtain ⟨l, hl, i, hi, hframe⟩ := exists_of_arriving hbrings
        obtain ⟨hmem, hconn⟩ := mem_linkOf hl
        rw [Function.update_self]
        exact .inr ⟨l, hmem, hconn, i, hi, lt_length_of_getElem? hframe⟩
    · rw [Function.update_of_ne hc]
      exact hs.received c

theorem client_step (hs : s.Inv user) {e : Event (Relayed υ)} (hguard : s.Apart user (.client e))
    (hallow : s.Allows e) {client : Store (Relayed υ)} (he : s.client.step e = some client)
    (honoured : List (Message υ)) : Inv user { s with
      client := client, received := s.receivedAfter e, honoured := honoured } := by
  have hevolves := Store.Evolves.step he
  refine ⟨hs.client.step hguard.1 (fun h => h.elim) he, hs.roster, hs.counted, hs.ledger, hs.conns,
    hs.servers, hs.accepted, ?_, hs.linked, ?_, ?_, hs.received_client hallow⟩
  · intro l hl i hi
    rcases hs.registered l hl i hi with hk | ho
    · rcases hs.kept_client hl hi hk hguard hallow he with hwants | ⟨-, hpast, hdrained, -⟩
      · exact .inl ⟨hwants, hk.alive, hk.registered⟩
      · obtain ⟨h, hh, hu, -⟩ := hk.alive.handler
        have hdrains : h.stage.drains = false :=
          Bool.eq_false_iff.mpr fun hd => hdrained ⟨i, hi, h, hh, hd⟩
        exact .inr ⟨hpast, h, hh, hu, hdrains⟩
    · exact .inr ⟨ho.past.evolves hevolves, ho.handler⟩
  · intro a B hB hreached
    rcases hevolves.dials a B hB hreached with rfl | ⟨A, hA, hreached⟩
    · exact exists_of_linkOf hallow
    · exact hs.reached a A hA hreached
  · intro k T hT hopened
    rcases hevolves.opens k T hT hopened with rfl | ⟨S, hS, hopened⟩
    · exact exists_of_linkOf hallow
    · exact hs.opened k S hS hopened

theorem arrive (hs : s.Inv user) (hnone : s.linkOf c = none) :
    Inv user { s with links := s.links ++ [⟨c, none, false⟩] } := by
  have hnew (l : Link) (hl : l ∈ s.links) : l.conn ≠ c := by
    intro hc
    have := List.find?_eq_none.mp hnone l hl
    exact this (decide_eq_true hc)
  have hmem {l : Link} (hl : l ∈ s.links ++ [⟨c, none, false⟩]) :
      l ∈ s.links ∨ l = ⟨c, none, false⟩ := by
    rcases List.mem_append.mp hl with hl | hl
    · exact .inl hl
    · exact .inr (List.mem_singleton.mp hl)
  have hold {l : Link} (hl : l ∈ s.links) : l ∈ s.links ++ [⟨c, none, false⟩] :=
    List.mem_append_left _ hl
  refine ⟨hs.client, hs.roster, hs.counted, hs.ledger, ?_, ?_, ?_, ?_, ?_, ?_, ?_, ?_⟩
  · intro j k l l' hj hk hc
    rcases getElem?_concat_cases hj with ⟨hlast, rfl⟩ | hj
    · rcases getElem?_concat_cases hk with ⟨hlast', -⟩ | hk
      · exact hlast.trans hlast'.symm
      · exact absurd hc.symm (hnew l' (List.mem_of_getElem? hk))
    · rcases getElem?_concat_cases hk with ⟨-, rfl⟩ | hk
      · exact absurd hc (hnew l (List.mem_of_getElem? hj))
      · exact hs.conns j k l l' hj hk hc
  · intro j k l l' i hj hk hi hi'
    rcases getElem?_concat_cases hj with ⟨-, rfl⟩ | hj
    · cases hi
    · rcases getElem?_concat_cases hk with ⟨-, rfl⟩ | hk
      · cases hi'
      · exact hs.servers j k l l' i hj hk hi hi'
  · intro l hl
    rcases hmem hl with hl | rfl
    · exact hs.accepted l hl
    · rfl
  · intro l hl i hi
    rcases hmem hl with hl | rfl
    · exact (hs.registered l hl i hi).imp (fun h => ⟨h.wants, h.alive, h.registered⟩)
        fun h => ⟨h.past, h.handler⟩
    · cases hi
  · intro i h hh hu
    obtain ⟨l, hl, hi⟩ := hs.linked i h hh hu
    exact ⟨l, hold hl, hi⟩
  · intro a A hA hreached
    obtain ⟨l, hl, hc⟩ := hs.reached a A hA hreached
    exact ⟨l, hold hl, hc⟩
  · intro k S hS hopened
    obtain ⟨l, hl, hc⟩ := hs.opened k S hS hopened
    exact ⟨l, hold hl, hc⟩
  · intro c
    rcases hs.received c with hm' | ⟨l, hl, h⟩
    · exact .inl hm'
    · exact .inr ⟨l, hold hl, h⟩

/-- A registered connection is one of the relay's. -/
theorem registered_lt (hs : s.Inv user) (hl : l ∈ s.links) (hi : l.server = some i) :
    i < s.server.handlers.length := by
  rcases hs.registered l hl i hi with hk | ho
  · obtain ⟨h, hh, -⟩ := hk.alive.handler
    exact lt_length_of_getElem? hh
  · obtain ⟨h, hh, -⟩ := ho.handler
    exact lt_length_of_getElem? hh

section accepted
variable {l' : Link} {n : ℕ}

/-- The link that gets its connection of the relay. -/
theorem mem_accepted (hl : s.links[j]? = some l) :
    { l with server := some n } ∈ s.links.set j { l with server := some n } :=
  List.mem_of_getElem? (List.getElem?_set_self (lt_length_of_getElem? hl))

theorem mem_accepted_of_registered (hl : s.links[j]? = some l) (hnone : l.server = none)
    (hmem : l' ∈ s.links) (hi : l'.server = some i) :
    l' ∈ s.links.set j { l with server := some n } := by
  obtain ⟨k, hk⟩ := List.mem_iff_getElem?.mp hmem
  refine List.mem_of_getElem? (i := k) ((List.getElem?_set_ne ?_).trans hk)
  rintro rfl
  cases hl.symm.trans hk
  rw [hnone] at hi
  cases hi

theorem exists_accepted (hl : s.links[j]? = some l) (hmem : l' ∈ s.links) :
    ∃ l'' ∈ s.links.set j { l with server := some n }, l''.conn = l'.conn := by
  obtain ⟨k, hk⟩ := List.mem_iff_getElem?.mp hmem
  by_cases hkj : k = j
  · subst hkj
    cases hl.symm.trans hk
    exact ⟨_, mem_accepted hl, rfl⟩
  · exact ⟨l', List.mem_of_getElem? ((List.getElem?_set_ne (Ne.symm hkj)).trans hk), rfl⟩

theorem conns_accepted (hs : s.Inv user) (hl : s.links[j]? = some l) {p q : ℕ} {l₁ l₂ : Link}
    (hp : (s.links.set j { l with server := some n })[p]? = some l₁)
    (hq : (s.links.set j { l with server := some n })[q]? = some l₂) (hc : l₁.conn = l₂.conn) :
    p = q := by
  rcases getElem?_set_cases hp with ⟨rfl, rfl⟩ | ⟨-, hp'⟩
  · rcases getElem?_set_cases hq with ⟨rfl, -⟩ | ⟨-, hq'⟩
    · rfl
    · exact hs.conns p q l l₂ hl hq' hc
  · rcases getElem?_set_cases hq with ⟨rfl, rfl⟩ | ⟨-, hq'⟩
    · exact hs.conns p q l₁ l hp' hl hc
    · exact hs.conns p q l₁ l₂ hp' hq' hc

/-- The new connection is not one of an earlier link. -/
theorem servers_accepted (hs : s.Inv user) {p q : ℕ} {l₁ l₂ : Link}
    (hp : (s.links.set j { l with server := some s.server.handlers.length })[p]? = some l₁)
    (hq : (s.links.set j { l with server := some s.server.handlers.length })[q]? = some l₂)
    (hi : l₁.server = some i) (hi' : l₂.server = some i) : p = q := by
  rcases getElem?_set_cases hp with ⟨rfl, rfl⟩ | ⟨-, hp'⟩
  · rcases getElem?_set_cases hq with ⟨rfl, -⟩ | ⟨-, hq'⟩
    · rfl
    · have := hs.registered_lt (List.mem_of_getElem? hq') hi'
      cases hi
      exact absurd this (Nat.lt_irrefl _)
  · rcases getElem?_set_cases hq with ⟨rfl, rfl⟩ | ⟨-, hq'⟩
    · have := hs.registered_lt (List.mem_of_getElem? hp') hi
      cases hi'
      exact absurd this (Nat.lt_irrefl _)
    · exact hs.servers p q l₁ l₂ i hp' hq' hi hi'

end accepted

section
variable [DecidableEq υ]

theorem accept (hs : s.Inv user) (hl : s.links[j]? = some l) (hnone : l.server = none)
    (hguard : s.Apart user (.accept j true)) {server : Server υ}
    (he : s.server.step (.connect user) = some server) : Inv user { s with
      server := server
      links := s.links.set j { l with server := some s.server.handlers.length } } := by
  obtain ⟨hwants, hother⟩ := hguard.2 l hl
  have hroster := hs.roster.step (Server.step_roster he)
  have hcounted := hs.counted.step he
  have hledger := hs.ledger.step he
  obtain ⟨push, hmoves, -⟩ := Server.step_moves hs.ledger he
  cases he
  have hhandler {i : ℕ} {h : Handler υ} (hh : s.server.handlers[i]? = some h) :
      (s.server.handlers ++ [⟨user, .inserted (s.server.registry user)⟩])[i]? = some h :=
    (List.getElem?_append_left (lt_length_of_getElem? hh)).trans hh
  refine ⟨hs.client, hroster, hcounted, hledger, fun _ _ _ _ => hs.conns_accepted hl,
    fun _ _ _ _ _ => hs.servers_accepted, ?_, ?_, ?_, ?_, ?_, ?_⟩
  · intro l' hl'
    obtain ⟨k, hk⟩ := List.mem_iff_getElem?.mp hl'
    rcases getElem?_set_cases hk with ⟨-, rfl⟩ | ⟨-, hk⟩
    · exact hs.accepted l (List.mem_of_getElem? hl)
    · exact hs.accepted l' (List.mem_of_getElem? hk)
  · intro l' hl' i hi
    obtain ⟨k, hk⟩ := List.mem_iff_getElem?.mp hl'
    rcases getElem?_set_cases hk with ⟨-, rfl⟩ | ⟨-, hk⟩
    · cases hi
      refine .inl ⟨hwants, ⟨⟨_, List.getElem?_concat_length, rfl, rfl⟩, ?_⟩, ?_⟩
      · have hlength := hs.ledger.length
        refine ⟨⟨[], .waiting, []⟩, ?_, .inl rfl⟩
        rw [← hlength]
        exact List.getElem?_concat_length
      · exact Function.update_self _ _ _
    · have hmem := List.mem_of_getElem? hk
      have hserver : l'.server ≠ none := by
        rw [hi]
        exact Option.some_ne_none i
      rcases hs.registered l' hmem i hi with hkept | ho
      · exact absurd hkept.wants (hother l' hmem hserver)
      · obtain ⟨h, hh, hu⟩ := ho.handler
        exact .inr ⟨ho.past, h, hhandler hh, hu⟩
  · intro i h hh hu
    rcases getElem?_concat_cases hh with ⟨rfl, rfl⟩ | hh
    · exact ⟨_, mem_accepted hl, rfl⟩
    · obtain ⟨l', hl', hi⟩ := hs.linked i h hh hu
      exact ⟨l', mem_accepted_of_registered hl hnone hl' hi, hi⟩
  · intro a A hA hreached
    obtain ⟨l', hl', hc⟩ := hs.reached a A hA hreached
    obtain ⟨l'', hl'', hc'⟩ := exists_accepted hl hl'
    exact ⟨l'', hl'', hc'.trans hc⟩
  · intro k S hS hopened
    obtain ⟨l', hl', hc⟩ := hs.opened k S hS hopened
    obtain ⟨l'', hl'', hc'⟩ := exists_accepted hl hl'
    exact ⟨l'', hl'', hc'.trans hc⟩
  · intro c
    rcases hs.received c with hm' | ⟨l', hl', hc, i, hi, hle⟩
    · exact .inl hm'
    · exact .inr ⟨l', mem_accepted_of_registered hl hnone hl' hi, hc, i, hi,
        hle.trans (hmoves.written i).length_le⟩

/-- A registered connection that the client wants stays so, with what was put into it. -/
theorem kept_server (hs : s.Inv user) (hl : l ∈ s.links) (hi : l.server = some i)
    (hk : s.Kept user l.conn i) {a : Relay.Action υ} (hpermits : s.Permits user a)
    {server : Server υ} (he : s.server.step a = some server) :
    server.Alive user i ∧ server.registry user = some i ∧ Server.KeepsLive s.server server i := by
  have hto := hs.linkTo hl hi
  have hclient := closedByClient hk.wants
  have hother : a ≠ .connect user := by
    rintro rfl
    exact hpermits rfl
  have hread (input : Input υ) (h : Handler υ) (ha : a = .run i input)
      (hh : s.server.handlers[i]? = some h) (hstage : h.stage = .reading) : input.event ≠ none := by
    subst ha
    intro hevent
    have hmay := hpermits h hh hstage l hto
    rw [hevent] at hmay
    have hended : s.ended i l = true := hmay.2
    rw [ended, hclient, hs.closedByServer hk, Bool.and_false] at hended
    cases hended
  have hwritten (w : Bool) (ha : a = .forward i w) : w = true := by
    subst ha
    cases w with
    | true => rfl
    | false =>
      have := hpermits l hto rfl
      rw [hclient] at this
      cases this
  exact hk.alive.step hs.roster hs.counted hk.registered he hother hread hwritten

theorem server_step (hs : s.Inv user) {a : Relay.Action υ} (hpermits : s.Permits user a)
    {server : Server υ} (he : s.server.step a = some server)
    (sent : Conn → List (ClientFrame υ)) (acked : List (Message υ)) : Inv user { s with
      server := server, sent := sent, acked := acked } := by
  obtain ⟨push, hmoves, -⟩ := Server.step_moves hs.ledger he
  refine ⟨hs.client, hs.roster.step (Server.step_roster he), hs.counted.step he,
    hs.ledger.step he, hs.conns, hs.servers, hs.accepted, ?_, ?_, hs.reached, hs.opened, ?_⟩
  · intro l hl i hi
    rcases hs.registered l hl i hi with hk | ho
    · obtain ⟨halive, hregistered, -⟩ := hs.kept_server hl hi hk hpermits he
      exact .inl ⟨hk.wants, halive, hregistered⟩
    · obtain ⟨h, hh, hu, hdrains⟩ := ho.handler
      obtain ⟨stage, ht, hstage, -⟩ := Server.handler_step he hh
      exact .inr ⟨ho.past, _, ht, hu, hstage hdrains⟩
  · intro i h hh hu
    rcases Server.handler_step_cases he hh with ⟨-, rfl⟩ | ⟨g, hg, hgu⟩
    · exact absurd hu hpermits
    · exact hs.linked i g hg (hgu.trans hu)
  · intro c
    rcases hs.received c with hm' | ⟨l, hl, hc, i, hi, hle⟩
    · exact .inl hm'
    · exact .inr ⟨l, hl, hc, i, hi, hle.trans (hmoves.written i).length_le⟩

theorem step (hs : s.Inv user) {a : Action υ} (hguard : s.Apart user a)
    (he : System.step user s a = some t) : t.Inv user := by
  cases a with
  | client e =>
    simp only [System.step] at he
    split at he
    · rename_i hallow
      obtain ⟨client, hclient, rfl⟩ := Option.map_eq_some_iff.mp he
      exact hs.client_step hguard hallow hclient _
    · cases he
  | arrive c =>
    simp only [System.step] at he
    split at he
    · rename_i harrive
      cases he
      exact hs.arrive harrive.1
    · cases he
  | accept j authorized =>
    obtain rfl : authorized = true := hguard.1
    obtain ⟨l, hl, he⟩ := Option.bind_eq_some_iff.mp he
    split at he
    · rename_i hnone
      rw [if_pos rfl] at he
      obtain ⟨server, hserver, rfl⟩ := Option.map_eq_some_iff.mp he
      exact hs.accept hl hnone.1 hguard hserver
    · cases he
  | server a =>
    simp only [System.step] at he
    split at he
    · rename_i hpermits
      obtain ⟨server, hserver, rfl⟩ := Option.map_eq_some_iff.mp he
      exact hs.server_step hpermits hserver _ _
    · cases he
  | send frame =>
    obtain ⟨c, -, rfl⟩ := Option.map_eq_some_iff.mp he
    exact ⟨hs.client, hs.roster, hs.counted, hs.ledger, hs.conns, hs.servers, hs.accepted,
      fun l hl i hi => (hs.registered l hl i hi).imp (fun h => ⟨h.wants, h.alive, h.registered⟩)
        fun h => ⟨h.past, h.handler⟩, hs.linked, hs.reached, hs.opened, hs.received⟩

end

theorem start : Inv user (System.start : System υ) where
  client := Store.inv_start
  roster := rosterInv_start
  counted _ _ h := by cases h
  ledger := ledger_start
  conns _ _ _ _ h := by cases h
  servers _ _ _ _ _ h := by cases h
  accepted _ h := by cases h
  registered _ h := by cases h
  linked _ _ h := by cases h
  reached _ _ h := by cases h
  opened _ _ h := by cases h
  received _ := .inl rfl

end Inv

end System

end Epistl.Duplex
