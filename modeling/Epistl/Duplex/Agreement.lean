import Epistl.Duplex.Honoured

/-! # Client and relay agree on the live connection

As long as the relay registers only connections that the client still wants, one at a time, and
the client gives up no connection with messages to come, the two agree.
-/
namespace Epistl.Duplex
open Transport Relay
variable {υ : Type} {s : System υ} {user : υ}

namespace System

/-- The client's connection `c` is connection `i` of the relay. -/
def Carries (s : System υ) (c : Conn) (i : ℕ) : Prop :=
  ∃ l ∈ s.links, l.conn = c ∧ l.server = some i

/-- `'connected'`, with no attempt in progress. -/
def Settled (s : System υ) : Prop := s.client.status = .connected ∧ ¬ s.client.InProgress

/-- No step of the relay is pending for the user. -/
structure Resting (user : υ) (s : System υ) : Prop where
  accepted : ∀ l ∈ s.links, l.server ≠ none ∨ l.refused = true
  handlers : ∀ (i : ℕ) (h : Handler υ), s.server.handlers[i]? = some h → h.user = user →
    h.stage = .gone ∨ h.stage = .reading ∧
      ∀ l ∈ s.links, l.server = some i → s.sent l.conn = [] ∧ s.ended i l = false
  channels : ∀ l ∈ s.links, ∀ i, l.server = some i → ∀ ch : Channel υ,
    s.server.channels[i]? = some ch → ch.forward ≠ .stopped ∧ (ch.forward = .running → ch.frames = [])
  tasks : ∀ task ∈ s.server.tasks, task.message.recipient = user → ∃ m, task = .done m

/-- In a settled state the registered connection is the one that the client uses, and each
message acked out of the queue was honoured by the client, or is in transit on that
connection, whose frames it honours. -/
def Agrees (user : υ) (s : System υ) : Prop :=
  s.Settled → s.Resting user →
    ∃ c i, s.client.connectedBy = some c ∧ s.client.sendTarget = some c ∧
      s.client.honours c = true ∧ s.Carries c i ∧ s.server.registry user = some i ∧
        ∀ m ∈ s.acked, m ∈ s.honoured ∨ .text (.message m) ∈ s.transit c i

/-- The relay drains the queue only into a connection that the client wants. -/
def DrainsWanted (user : υ) (s : System υ) : Prop :=
  ∀ (i : ℕ) (h : Handler υ), s.server.handlers[i]? = some h → h.user = user →
    h.stage.drains = true → ∃ c, s.Carries c i ∧ s.client.Wants c

namespace Inv

/-- The connection that a connected client uses. -/
theorem used (hs : s.Inv user) (hstatus : s.client.status = .connected) :
    ∃ c, s.client.connectedBy = some c ∧ s.client.sendTarget = some c ∧
      s.client.honours c = true ∧ s.client.Wants c ∧ ∃ l ∈ s.links, l.conn = c := by
  have hopen : s.client.closed = false :=
    Bool.eq_false_iff.mpr fun hclosed => hs.client.down hclosed hstatus
  cases hs.client.phase hopen with
  | fetching hq => exact absurd hstatus hq.status
  | waiting hq => exact absurd hstatus hq.status
  | resting hq => exact absurd hstatus hq.status
  | trying _ _ a A h => exact absurd hstatus h.status
  | wsUp _ _ a A k h =>
    refine ⟨.ws k, h.connectedBy, ?_, h.wants.honours_ws hs.client, h.wants,
      hs.opened k _ h.get rfl⟩
    simp [Store.sendTarget, h.activeTransport, h.socket]
  | quicUp _ _ a A h =>
    refine ⟨.quic a, h.connectedBy, ?_, h.honours, h.wants, hs.reached a A h.current.get (.inr h.dial)⟩
    simp [Store.sendTarget, h.activeTransport, h.quicConnection]

theorem agrees (hs : s.Inv user) (hd : s.Held user) : s.Agrees user := by
  intro hsettled hresting
  obtain ⟨c, hby, htarget, hhonours, hwants, l, hl, rfl⟩ := hs.used hsettled.1
  have hserver : l.server ≠ none := by
    refine (hresting.accepted l hl).resolve_right fun h => ?_
    rw [hs.accepted l hl] at h
    cases h
  obtain ⟨i, hi⟩ := Option.ne_none_iff_exists'.mp hserver
  have hregistered : s.server.registry user = some i := by
    rcases hs.registered l hl i hi with hk | ho
    · exact hk.registered
    · exact absurd hwants ho.past.not_wants
  refine ⟨l.conn, i, hby, htarget, hhonours, ⟨l, hl, rfl, hi⟩, hregistered, fun m hm => ?_⟩
  rcases hd m (.inl hm) with hm' | ⟨l', hl', i', hi', hk, htransit⟩
  · exact .inl hm'
  · -- only one connection of the user is registered
    obtain rfl : i = i' := Option.some.inj (hregistered.symm.trans hk.registered)
    cases (hs.linkTo hl hi).symm.trans (hs.linkTo hl' hi')
    exact .inr htransit

theorem drainsWanted (hs : s.Inv user) : s.DrainsWanted user := by
  intro i h hh hu hdrains
  obtain ⟨l, hl, hi⟩ := hs.linked i h hh hu
  refine ⟨l.conn, ⟨l, hl, rfl, hi⟩, ?_⟩
  rcases hs.registered l hl i hi with hk | ho
  · exact hk.wants
  · obtain ⟨g, hg, -, hdone⟩ := ho.handler
    cases hh.symm.trans hg
    rw [hdrains] at hdone
    cases hdone

end Inv

variable [DecidableEq υ]

/-- As long as registered connections are kept apart, a settled client and the relay agree,
and the queue is drained only into connections that the client wants. -/
theorem agreement (h : (machine user).Reach (Apart user) s) : s.Agrees user ∧ s.DrainsWanted user := by
  have hs : s.Inv user ∧ s.Held user := by
    refine h.invariant (I := fun s => s.Inv user ∧ s.Held user) ?_ ?_
    · rintro _ rfl
      exact ⟨.start, held_start⟩
    · rintro s a t ⟨hs, hd⟩ hguard he
      exact ⟨hs.step hguard he, hd.step hs hguard he⟩
  exact ⟨hs.1.agrees hs.2, hs.1.drainsWanted⟩

section concrete

instance (s : Store (Relayed υ)) : (c : Conn) → Decidable (s.Wants c)
  | .quic a => decidable_of_iff (∃ A ∈ s.attempts[a]?, s.stale a A.generation = false ∧
      A.dropped = false ∧ A.ended = false ∧
      (A.settled = false ∨ A.winner = some .quic ∧ s.quicConnection = some a)) <| by
    constructor
    · rintro ⟨A, hA, hfresh, h⟩
      exact ⟨A, (Store.stale_eq_false hA).mp hfresh, h⟩
    · rintro ⟨A, hcur, h⟩
      exact ⟨A, hcur.get, hcur.stale, h⟩
  | .ws k => decidable_of_iff (∃ S ∈ s.sockets[k]?, S.closing = false ∧ S.ended = false ∧
      ∃ A ∈ s.attempts[S.attempt]?, s.stale S.attempt A.generation = false ∧ A.ws = some k ∧
        (A.settled = false ∨ A.winner = some .ws ∧ A.wsDiscarded = false)) <| by
    constructor
    · rintro ⟨⟨a, opened, _, _⟩, hS, rfl, rfl, A, hA, hfresh, hws, h⟩
      exact ⟨a, A, opened, (Store.stale_eq_false hA).mp hfresh, hws, hS, h⟩
    · rintro ⟨a, A, opened, hcur, hws, hS, h⟩
      exact ⟨_, hS, rfl, rfl, A, hcur.get, hcur.stale, hws, h⟩

instance (s : System υ) (l : Link) : Decidable (s.Draining l) :=
  inferInstanceAs (Decidable (∃ i ∈ l.server, ∃ h ∈ s.server.handlers[i]?, h.stage.drains = true))

instance (user : υ) (s : System υ) (m : Message υ) : Decidable (s.Missing user m) :=
  inferInstanceAs (Decidable ((m ∈ s.acked ∨ (∃ h ∈ s.server.handlers, _) ∨
    ∃ task ∈ s.server.tasks, _) ∧ _))

instance (user : υ) (s : System υ) (l : Link) : Decidable (s.Laden user l) :=
  inferInstanceAs (Decidable (∃ i ∈ l.server, ∃ frame ∈ s.transit l.conn i,
    ∃ m ∈ frame.message?, s.Missing user m))

instance (user : υ) (s : System υ) (l : Link) :
    (e : Event (Relayed υ)) → Decidable (s.GivesUp user l e)
  | .connect => inferInstanceAs (Decidable (_ ∨ _))
  | .close => inferInstanceAs (Decidable (_ ∨ _))
  | .quicResolved a => decidable_of_iff (∃ A ∈ s.client.attempts[a]?, A.settled = false ∧
      ∃ k ∈ A.ws, l.conn = .ws k) <| by
    constructor
    · rintro ⟨A, hA, hsettled, k, hk, hc⟩
      exact ⟨A, k, hA, hsettled, hk, hc⟩
    · rintro ⟨A, k, hA, hsettled, hk, hc⟩
      exact ⟨A, hA, hsettled, k, hk, hc⟩
  | .wsOpen k => decidable_of_iff (∃ S ∈ s.client.sockets[k]?, ∃ A ∈ s.client.attempts[S.attempt]?,
      A.settled = false ∧ l.conn = .quic S.attempt) <| by
    constructor
    · rintro ⟨S, hS, A, hA, h⟩
      exact ⟨S, A, hS, hA, h⟩
    · rintro ⟨S, A, hS, hA, h⟩
      exact ⟨S, hS, A, hA, h⟩
  | .token _ _ => isFalse id
  | .reconnect _ => isFalse id
  | .quicTimeout _ => isFalse id
  | .quicEstablished _ => isFalse id
  | .quicRejected _ => isFalse id
  | .quicFrame _ _ => isFalse id
  | .quicClosed _ _ => isFalse id
  | .wsMessage _ _ => isFalse id
  | .wsClose _ _ => isFalse id

instance (user : υ) (s : System υ) : (e : Event (Relayed υ)) → Decidable (s.Heeds user e)
  | .quicFrame _ (some (.message _)) => inferInstanceAs (Decidable (_ → _ → _ = true))
  | .quicFrame _ (some (.ack _)) => isTrue trivial
  | .quicFrame _ (some (.error _)) => isTrue trivial
  | .quicFrame _ none => isTrue trivial
  | .connect => isTrue trivial
  | .close => isTrue trivial
  | .token _ _ => isTrue trivial
  | .reconnect _ => isTrue trivial
  | .quicTimeout _ => isTrue trivial
  | .quicEstablished _ => isTrue trivial
  | .quicResolved _ => isTrue trivial
  | .quicRejected _ => isTrue trivial
  | .quicClosed _ _ => isTrue trivial
  | .wsOpen _ => isTrue trivial
  | .wsMessage _ _ => isTrue trivial
  | .wsClose _ _ => isTrue trivial

instance (user : υ) (s : System υ) : (task : Relay.Task υ) → Decidable (s.Aims user task)
  | .relaying _ i => inferInstanceAs (Decidable (_ = user → _ = true → ∀ l ∈ s.linkTo i, _))
  | .looking _ => isTrue trivial
  | .deleting _ => isTrue trivial
  | .done _ => isTrue trivial

instance (user : υ) (s : System υ) : (a : Action υ) → Decidable (s.Apart user a)
  | .client _ => inferInstanceAs (Decidable (_ ∧ _ ∧ ∀ l ∈ s.links, l.server ≠ none → _ → ¬ _))
  | .arrive _ => isTrue trivial
  | .accept j _ => inferInstanceAs (Decidable (_ = true ∧ ∀ l ∈ s.links[j]?, _ ∧
      ∀ l' ∈ s.links, l'.server ≠ none → ¬ _))
  | .server (.redeliver j _) => inferInstanceAs (Decidable (∀ task ∈ s.server.tasks[j]?, _))
  | .server (.connect _) => isTrue trivial
  | .server (.run _ _) => isTrue trivial
  | .server (.forward _ _) => isTrue trivial
  | .server (.release _) => isTrue trivial
  | .server (.expire _) => isTrue trivial
  | .send _ => isTrue trivial

/-- A message for the user is queued, sent by the connection `0` of another user. -/
def queueing : List (Action Bool) :=
  (.connect false :: (Relay.Action.opens 0 ++ Relay.Action.sends 0 true ++
    [.redeliver 0 false])).map .server

/-- Both connections of an attempt reach the relay and are registered, QUIC after the WebSocket
and before its promise resolves. -/
def dialing : List (Action Bool) :=
  [.client .connect, .client (.token 0 .fetched), .client (.quicTimeout 0), .arrive (.ws 0),
    .accept 0 true, .client (.wsOpen 0), .arrive (.quic 0), .accept 1 true]

/-- Connection `2` drains the queue, the client closes it, and the relay goes on until nothing is
left to do. -/
def displacing : List (Action Bool) :=
  let drain : Input Bool := { Input.quiet with available := 1 }
  [.server (.run 2 drain), .server (.run 2 drain), .server (.run 2 drain), .server (.run 2 drain),
    .server (.run 2 drain), .server (.forward 2 true), .client (.quicEstablished 0),
    .client (.quicResolved 0), .server (.run 2 .quiet), .server (.run 2 .quiet),
    .server (.run 2 .quiet), .server (.release 2), .server (.run 1 .quiet), .server (.run 1 .quiet),
    .server (.run 1 .quiet), .server (.forward 1 true), .server (.release 1)]

/-- The client is settled on its WebSocket, and the relay has nothing left to do and no
connection registered. -/
def displaced (s : System Bool) : Bool :=
  decide (s.client.status = .connected) && s.client.fetches.all (fun F => !F.pending) &&
    s.client.attempts.all (fun A => A.settled) &&
    decide (s.links = [⟨.ws 0, some 1, false⟩, ⟨.quic 0, some 2, false⟩]) &&
    decide (s.server.handlers = [⟨false, .reading⟩, ⟨true, .reading⟩, ⟨true, .gone⟩]) &&
    (s.server.channels.tail.all fun ch => decide (ch.forward = .closed)) &&
    (s.server.tasks.all fun task => decide (task = .done task.message)) &&
    decide (s.sent (.ws 0) = []) && !s.ended 1 ⟨.ws 0, some 1, false⟩ &&
    decide (s.server.registry true = none)

/-- The client discards the late QUIC connection, which had taken the place of its WebSocket and
had drained the queue. -/
theorem late_quic_displaces : ¬ ∀ s : System Bool, (machine true).Reach Machine.anyStep s →
    s.Agrees true := by
  intro hall
  have hrun : ∃ s : System Bool, (machine true).Reach Machine.anyStep s ∧ s.displaced = true :=
    Machine.Reach.of_execIf (queueing ++ dialing ++ displacing) rfl (by decide)
  obtain ⟨s, hs, hp⟩ := hrun
  simp only [displaced, Bool.and_eq_true, Bool.not_eq_true', List.all_eq_true,
    decide_eq_true_eq] at hp
  obtain ⟨⟨⟨⟨⟨⟨⟨⟨⟨hstatus, hfetches⟩, hsettled⟩, hlinks⟩, hhandlers⟩, hchannels⟩, htasks⟩, hsent⟩,
    hended⟩, hregistry⟩ := hp
  have hidle : ¬ s.client.InProgress := by
    rintro (⟨f, hf⟩ | ⟨a, A, hcur, hunsettled, -⟩)
    · cases hfetches _ (List.mem_of_getElem? hf)
    · have := hsettled A (List.mem_of_getElem? hcur.get)
      rw [hunsettled] at this
      cases this
  have hresting : s.Resting true := by
    constructor
    · intro l hl
      rw [hlinks] at hl
      rcases List.mem_pair.mp hl with rfl | rfl <;> exact .inl (Option.some_ne_none _)
    · intro i h hh hu
      rw [hhandlers] at hh
      rcases i with _ | _ | _ | i
      · cases hh
        cases hu
      · cases hh
        refine .inr ⟨rfl, fun l hl hi => ?_⟩
        rw [hlinks] at hl
        rcases List.mem_pair.mp hl with rfl | rfl
        · exact ⟨hsent, hended⟩
        · cases hi
      · cases hh
        exact .inl rfl
      · cases hh
    · intro l hl i hi ch hch
      have hclosed : ch.forward = .closed := by
        refine hchannels ch ?_
        have htail (n : ℕ) (hn : s.server.channels[n + 1]? = some ch) :
            ch ∈ s.server.channels.tail := by
          rw [← List.getElem?_tail] at hn
          exact List.mem_of_getElem? hn
        rw [hlinks] at hl
        rcases List.mem_pair.mp hl with rfl | rfl <;> cases hi
        · exact htail 0 hch
        · exact htail 1 hch
      rw [hclosed]
      exact ⟨fun h => (by cases h), fun h => (by cases h)⟩
    · intro task htask _
      exact ⟨task.message, htasks task htask⟩
  obtain ⟨c, i, -, -, -, -, hi, -⟩ := hall s hs ⟨hstatus, hidle⟩ hresting
  rw [hregistry] at hi
  cases hi

/-- The queue is drained into a QUIC connection, whose frame the client honours before it
connects anew. -/
theorem agreement_first : ∃ s : System Bool, s.client.status = .connected ∧
    s.acked = [⟨0, false, true, "", ""⟩] ∧ s.honoured = s.acked ∧
      s.Agrees true ∧ s.DrainsWanted true := by
  let drain : Input Bool := { Input.quiet with available := 1 }
  have hrun : ∃ s : System Bool, (machine true).Reach (Apart true) s ∧
      (decide (s.client.status = .connected) && decide (s.acked = [⟨0, false, true, "", ""⟩]) &&
        decide (s.honoured = s.acked)) = true :=
    Machine.Reach.of_execIf (queueing ++ [.client .connect, .client (.token 0 .fetched),
      .arrive (.quic 0), .accept 0 true, .server (.run 1 drain), .server (.run 1 drain),
      .server (.run 1 drain), .server (.run 1 drain), .server (.run 1 drain),
      .client (.quicEstablished 0), .server (.forward 1 true),
      .client (.quicFrame 0 (some (.message ⟨0, false, true, "", ""⟩))), .client (.quicResolved 0),
      .client .connect, .client (.token 1 .fetched), .arrive (.quic 1), .accept 1 true,
      .client (.quicEstablished 1), .client (.quicResolved 1)]) rfl (by decide)
  obtain ⟨s, hs, hp⟩ := hrun
  simp only [Bool.and_eq_true, decide_eq_true_eq] at hp
  obtain ⟨hagrees, hdrains⟩ := agreement hs
  exact ⟨s, hp.1.1, hp.1.2, hp.2, hagrees, hdrains⟩

end concrete

end System

end Epistl.Duplex
