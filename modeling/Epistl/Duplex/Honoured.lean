import Epistl.Duplex.Linked

/-! # What is taken off the queue is honoured

A message that the relay takes off the queue is in transit on a registered connection that the
client wants until the client has honoured its frame.
-/
namespace Epistl.Duplex
open Transport Relay
variable {υ : Type} {s t : System υ} {user : υ} {c : Conn} {l : Link} {i j k : ℕ} {m : Message υ}

namespace System

/-- Each message that is taken off the queue was honoured, or it will be. -/
def Held (user : υ) (s : System υ) : Prop :=
  ∀ m, s.Taken user m → m ∈ s.honoured ∨ ∃ l ∈ s.links, ∃ i, l.server = some i ∧
    s.Kept user l.conn i ∧ .text (.message m) ∈ s.transit l.conn i

theorem mem_honouredAfter {e : Event (Relayed υ)} (hm : m ∈ s.honoured) : m ∈ s.honouredAfter e := by
  unfold honouredAfter
  split
  · split
    · exact List.mem_append_left _ hm
    · exact hm
  · exact hm

/-- The frame that arrives is the next one in transit. -/
theorem Inv.transit_eq (hs : s.Inv user) (hl : l ∈ s.links) (hi : l.server = some i)
    {frame : Relay.Frame υ} (h : s.arriving l.conn = some frame) :
    s.transit l.conn i =
      frame :: (s.server.channels[i]?.elim [] Channel.content).drop (s.received l.conn + 1) := by
  obtain ⟨l', hl', i', hi', hframe⟩ := exists_of_arriving h
  cases (hs.linkOf hl).symm.trans hl'
  cases hi.symm.trans hi'
  rw [Server.writtenTo] at hframe
  rw [transit]
  cases hch : s.server.channels[i]? with
  | none =>
    rw [hch] at hframe
    cases hframe
  | some ch =>
    rw [hch] at hframe
    have hwritten : ch.written[s.received l.conn]? = some frame := hframe
    have hlt := lt_length_of_getElem? hwritten
    have hget : ch.content[s.received l.conn]? = some frame :=
      (List.getElem?_append_left hlt).trans hwritten
    rw [Option.elim_some, List.drop_eq_getElem?_toList_append, hget]
    rfl

/-- A missing message in transit is honoured when it arrives. -/
theorem Inv.transit_client (hs : s.Inv user) (hl : l ∈ s.links) (hi : l.server = some i)
    (hwants : s.client.Wants l.conn) {e : Event (Relayed υ)} (hguard : s.Apart user (.client e))
    (hallow : s.Allows e) (hm : s.Missing user m)
    (htransit : .text (.message m) ∈ s.transit l.conn i) :
    m ∈ s.honouredAfter e ∨ .text (.message m) ∈
      (s.server.channels[i]?.elim [] Channel.content).drop (s.receivedAfter e l.conn) := by
  cases harrival : e.arrival with
  | none =>
    simp only [receivedAfter, harrival]
    exact .inr htransit
  | some p =>
    obtain ⟨c, frame⟩ := p
    by_cases hc : l.conn = c
    · subst hc
      have hbrings := brings_of_arrival hallow harrival
      cases frame with
      | none => exact hbrings.elim
      | some body =>
        rw [hs.transit_eq hl hi hbrings] at htransit
        rcases List.mem_cons.mp htransit with heq | htail
        · cases heq
          have hhonours : s.client.honours l.conn = true := by
            cases hconn : l.conn with
            | quic a =>
              rw [hconn] at hwants harrival
              cases e with
              | quicFrame b f =>
                cases harrival
                exact hguard.2.1 hm hwants
              | connect | close | token | reconnect | quicTimeout | quicEstablished
              | quicResolved | quicRejected | quicClosed | wsOpen | wsMessage | wsClose =>
                cases harrival
            | ws k => exact (hconn ▸ hwants : s.client.Wants (.ws k)).honours_ws hs.client
          left
          simp only [honouredAfter, harrival, hhonours, if_true]
          exact List.mem_append_right _ (List.mem_singleton_self m)
        · right
          simp only [receivedAfter, harrival, Function.update_self]
          exact htail
    · simp only [receivedAfter, harrival, Function.update_of_ne hc]
      exact .inr htransit

namespace Held

theorem client_step (hd : s.Held user) (hs : s.Inv user) {e : Event (Relayed υ)}
    (hguard : s.Apart user (.client e)) (hallow : s.Allows e) {client : Store (Relayed υ)}
    (he : s.client.step e = some client) : Held user { s with
      client := client, received := s.receivedAfter e, honoured := s.honouredAfter e } := by
  intro m hm
  have hm : s.Taken user m := hm
  by_cases hhonoured : m ∈ s.honoured
  · exact .inl (mem_honouredAfter hhonoured)
  · obtain ⟨l, hl, i, hi, hk, htransit⟩ := (hd m hm).resolve_left hhonoured
    rcases hs.kept_client hl hi hk hguard hallow he with hwants | ⟨-, -, -, hladen⟩
    · refine (hs.transit_client hl hi hk.wants hguard hallow ⟨hm, hhonoured⟩ htransit).imp_right
        fun h => ?_
      exact ⟨l, hl, i, hi, ⟨hwants, hk.alive, hk.registered⟩, h⟩
    · exact absurd ⟨i, hi, _, htransit, m, rfl, hm, hhonoured⟩ hladen

theorem arrive (hd : s.Held user) (c : Conn) :
    Held user { s with links := s.links ++ [⟨c, none, false⟩] } := by
  intro m hm
  rcases hd m hm with hm' | ⟨l, hl, i, hi, hk, htransit⟩
  · exact .inl hm'
  · exact .inr ⟨l, List.mem_append_left _ hl, i, hi, ⟨hk.wants, hk.alive, hk.registered⟩, htransit⟩

variable [DecidableEq υ]

/-- Nothing is in transit when a connection is registered. -/
theorem accept (hd : s.Held user) (hl : s.links[j]? = some l)
    (hguard : s.Apart user (.accept j true)) {server : Server υ}
    (he : s.server.step (.connect user) = some server) (links : List Link) :
    Held user { s with server := server, links := links } := by
  intro m hm
  left
  have hbefore : s.Taken user m := by
    cases he
    rcases hm with hm | ⟨h, hh, hu, hm⟩ | hm
    · exact .inl hm
    · rcases List.mem_append.mp hh with hh | hh
      · exact .inr (.inl ⟨h, hh, hu, hm⟩)
      · rw [List.mem_singleton.mp hh] at hm
        cases hm
    · exact .inr (.inr hm)
  refine (hd m hbefore).resolve_right ?_
  rintro ⟨l', hl', i, hi, hk, -⟩
  have hserver : l'.server ≠ none := by
    rw [hi]
    exact Option.some_ne_none i
  exact (hguard.2 l hl).2 l' hl' hserver hk.wants

omit [DecidableEq υ] in
theorem mem_ackedWhen {removed : Bool} {unacked : Option (Message υ)}
    (hm : m ∈ s.ackedWhen removed unacked) : m ∈ s.acked ∨ unacked = some m := by
  unfold ackedWhen at hm
  split at hm
  · exact (List.mem_append.mp hm).imp_right Option.mem_toList.mp
  · exact .inl hm

/-- What is acked was pushed before. -/
theorem taken_of_ackedAfter {a : Relay.Action υ} (hm : m ∈ s.ackedAfter user a) :
    s.Taken user m := by
  cases a with
  | run i input =>
    cases hh : s.server.handlers[i]? with
    | none =>
      simp only [ackedAfter, hh, Option.elim_none] at hm
      exact .inl hm
    | some h =>
      simp only [ackedAfter, hh, Option.elim_some] at hm
      split at hm
      · rename_i hu
        rcases mem_ackedWhen hm with hm | hm
        · exact .inl hm
        · exact .inr (.inl ⟨h, List.mem_of_getElem? hh, hu, hm⟩)
      · exact .inl hm
  | redeliver j deleted =>
    cases ht : s.server.tasks[j]? with
    | none =>
      simp only [ackedAfter, ht, Option.elim_none] at hm
      exact .inl hm
    | some task =>
      simp only [ackedAfter, ht, Option.elim_some] at hm
      split at hm
      · rename_i hu
        rcases mem_ackedWhen hm with hm | hm
        · exact .inl hm
        · exact .inr (.inr ⟨task, List.mem_of_getElem? ht, hu, hm⟩)
      · exact .inl hm
  | connect | forward | release | expire => exact .inl hm

/-- A message that a step takes off the queue goes into a registered connection that the client
wants. -/
theorem pushed_of_taken (hs : s.Inv user) {a : Relay.Action υ} (hguard : s.Apart user (.server a))
    {server : Server υ} (he : s.server.step a = some server) (sent : Conn → List (ClientFrame υ))
    (hm : Taken user { s with server := server, sent := sent, acked := s.ackedAfter user a } m) :
    s.Taken user m ∨ ∃ l ∈ s.links, ∃ i, l.server = some i ∧ s.Kept user l.conn i ∧
      server.channels = (s.server.push i (.text (.message m))).channels := by
  rcases hm with hm | ⟨h, hh, hu, hm⟩ | ⟨task, htask, hu, hm⟩
  · exact .inl (taken_of_ackedAfter hm)
  · obtain ⟨i, hh⟩ := List.mem_iff_getElem?.mp hh
    rcases Server.handler_unacked he hh hm with ⟨g, hg, hgu, hm⟩ | ⟨⟨g, hg, hgu, hdrains⟩, hpush⟩
    · exact .inl (.inr (.inl ⟨g, List.mem_of_getElem? hg, hgu.trans hu, hm⟩))
    · obtain ⟨l, hl, hi⟩ := hs.linked i g hg (hgu.trans hu)
      rcases hs.registered l hl i hi with hk | ho
      · exact .inr ⟨l, hl, i, hi, hk, hpush⟩
      · obtain ⟨g', hg', -, hdone⟩ := ho.handler
        cases hg.symm.trans hg'
        rw [hdrains] at hdone
        cases hdone
  · rcases Server.task_unacked he htask hm with htask | ⟨j, deleted, i, rfl, ht, haccepts, hpush⟩
    · exact .inl (.inr (.inr ⟨task, htask, hu, hm⟩))
    · cases Task.eq_deleting hm
      have hu : m.recipient = user := hu
      obtain ⟨g, hg, hgu⟩ := hs.ledger.redelivering m i (List.mem_of_getElem? ht)
      obtain ⟨l, hl, hi⟩ := hs.linked i g hg (hgu.trans hu)
      have hwants := hguard _ ht hu haccepts l (hs.linkTo hl hi)
      rcases hs.registered l hl i hi with hk | ho
      · exact .inr ⟨l, hl, i, hi, hk, hpush⟩
      · exact absurd hwants ho.past.not_wants

omit [DecidableEq υ] in
/-- What is pushed into a live channel is in transit. -/
theorem mem_transit_of_push (hs : s.Inv user) (hl : l ∈ s.links) (hi : l.server = some i)
    (hk : s.Kept user l.conn i) {server : Server υ} {frame : Relay.Frame υ}
    (hpush : server.channels = (s.server.push i frame).channels) :
    frame ∈ (server.channels[i]?.elim [] Channel.content).drop (s.received l.conn) := by
  obtain ⟨ch, hch, hlive⟩ := hk.alive.channel
  have hopen : ch.forward ≠ .closed := by
    rcases hlive with h | h <;> rw [h] <;> decide
  have hreceived : s.received l.conn ≤ ch.content.length := by
    rcases hs.received l.conn with hzero | ⟨l', hl', hconn, i', hi', hle⟩
    · exact hzero ▸ Nat.zero_le _
    · cases (hs.linkOf hl).symm.trans (hconn ▸ hs.linkOf hl')
      cases hi.symm.trans hi'
      rw [Server.writtenTo, hch] at hle
      exact hle.trans (List.prefix_append ch.written ch.frames).length_le
  have hcontent : server.channels[i]?.elim [] Channel.content = ch.content ++ [frame] := by
    rw [hpush, Server.push, List.getElem?_modify_eq, hch]
    simp [hopen, Channel.content]
  rw [hcontent, List.drop_append_of_le_length hreceived]
  exact List.mem_append_right _ (List.mem_singleton_self frame)

theorem server_step (hd : s.Held user) (hs : s.Inv user) {a : Relay.Action υ}
    (hguard : s.Apart user (.server a)) (hpermits : s.Permits user a) {server : Server υ}
    (he : s.server.step a = some server) (sent : Conn → List (ClientFrame υ)) : Held user { s with
      server := server, sent := sent, acked := s.ackedAfter user a } := by
  intro m hm
  rcases pushed_of_taken hs hguard he sent hm with hm | ⟨l, hl, i, hi, hk, hpush⟩
  · rcases hd m hm with hm' | ⟨l, hl, i, hi, hk, htransit⟩
    · exact .inl hm'
    · obtain ⟨halive, hregistered, hkeeps⟩ := hs.kept_server hl hi hk hpermits he
      refine .inr ⟨l, hl, i, hi, ⟨hk.wants, halive, hregistered⟩, ?_⟩
      obtain ⟨ch, hch, hlive⟩ := hk.alive.channel
      obtain ⟨d, hd, -, hprefix⟩ := hkeeps ch hch hlive
      rw [transit, hch] at htransit
      rw [transit, hd]
      obtain ⟨more, hmore⟩ := hprefix
      rw [Option.elim_some, ← hmore, List.drop_append]
      exact List.mem_append_left _ htransit
  · obtain ⟨halive, hregistered, -⟩ := hs.kept_server hl hi hk hpermits he
    exact .inr ⟨l, hl, i, hi, ⟨hk.wants, halive, hregistered⟩, mem_transit_of_push hs hl hi hk hpush⟩

theorem step (hd : s.Held user) (hs : s.Inv user) {a : Action υ} (hguard : s.Apart user a)
    (he : System.step user s a = some t) : t.Held user := by
  cases a with
  | client e =>
    simp only [System.step] at he
    split at he
    · rename_i hallow
      obtain ⟨client, hclient, rfl⟩ := Option.map_eq_some_iff.mp he
      exact hd.client_step hs hguard hallow hclient
    · cases he
  | arrive c =>
    simp only [System.step] at he
    split at he
    · cases he
      exact hd.arrive c
    · cases he
  | accept j authorized =>
    obtain rfl : authorized = true := hguard.1
    obtain ⟨l, hl, he⟩ := Option.bind_eq_some_iff.mp he
    split at he
    · rw [if_pos rfl] at he
      obtain ⟨server, hserver, rfl⟩ := Option.map_eq_some_iff.mp he
      exact hd.accept hl hguard hserver _
    · cases he
  | server a =>
    simp only [System.step] at he
    split at he
    · rename_i hpermits
      obtain ⟨server, hserver, rfl⟩ := Option.map_eq_some_iff.mp he
      exact hd.server_step hs hguard hpermits hserver _
    · cases he
  | send frame =>
    obtain ⟨c, -, rfl⟩ := Option.map_eq_some_iff.mp he
    intro m hm
    rcases hd m hm with hm' | ⟨l, hl, i, hi, hk, htransit⟩
    · exact .inl hm'
    · exact .inr ⟨l, hl, i, hi, ⟨hk.wants, hk.alive, hk.registered⟩, htransit⟩

end Held

theorem held_start : Held user (System.start : System υ) := by
  rintro m (hm | ⟨h, hh, -⟩ | ⟨task, htask, -⟩)
  · cases hm
  · cases hh
  · cases htask

end System

end Epistl.Duplex
