import Epistl.Relay.Alive
import Epistl.Relay.Placed
import Epistl.Relay.Unacked
import Epistl.Transport.Evolves

/-! # One client and the relay

A connection of the client is linked to the relay when its upgrade request or its auth frame has
arrived. Its user is registered some time after that. Bytes arrive in order and after any
delay, and a connection ends only when one side closes it.
-/
namespace Epistl

def Transport.Conn.isQuic : Transport.Conn → Bool
  | .ws _ => false
  | .quic _ => true

namespace Relay
variable {υ : Type}

def Stage.isGone : Stage υ → Bool
  | .gone => true
  | _ => false

end Relay

namespace Duplex
open Transport Relay

structure Link where
  conn : Conn
  /-- the connection of the relay, once it is registered -/
  server : Option ℕ
  /-- the relay closed it with `CLOSE_UNAUTHORIZED` -/
  refused : Bool
  deriving Repr, DecidableEq

structure System (υ : Type) where
  client : Store (Relayed υ)
  server : Server υ
  links : List Link
  /-- what the client sent and the relay has not read -/
  sent : Conn → List (ClientFrame υ)
  /-- how many of the frames that the relay wrote have arrived -/
  received : Conn → ℕ
  /-- the messages of the frames that the client honoured -/
  honoured : List (Message υ)
  /-- the messages for the user that were acked out of the queue -/
  acked : List (Message υ)

inductive Action (υ : Type)
  | client (e : Event (Relayed υ))
  /-- the upgrade request or the auth frame arrives -/
  | arrive (c : Conn)
  /-- the relay authenticates the connection, and registers it or closes it -/
  | accept (l : ℕ) (authorized : Bool)
  | server (a : Relay.Action υ)
  | send (frame : ClientFrame υ)

namespace System
variable {υ : Type}

def start : System υ where
  client := .start
  server := .start
  links := []
  sent := fun _ => []
  received := fun _ => 0
  honoured := []
  acked := []

def linkOf (s : System υ) (c : Conn) : Option Link := s.links.find? fun l => decide (l.conn = c)

/-- The link of connection `i` of the relay. -/
def linkTo (s : System υ) (i : ℕ) : Option Link :=
  s.links.find? fun l => decide (l.server = some i)

/-- The client has closed the connection. -/
def closedByClient (s : System υ) : Conn → Bool
  | .ws k => s.client.sockets[k]?.any fun S => S.closing || S.ended
  | .quic a => s.client.attempts[a]?.any fun A => A.dropped || A.ended

/-- The relay has closed connection `i`. -/
def closedByServer (s : System υ) (i : ℕ) : Bool :=
  (s.server.handlers[i]?.any fun h => h.stage.isGone) ||
    s.server.channels[i]?.any fun ch => ch.written.any Relay.Frame.isClose

/-- The end of a connection that the relay closed may reach the client. -/
def hungUp (s : System υ) (c : Conn) : Bool :=
  (s.linkOf c).any fun l => l.refused || l.server.any s.closedByServer

def isRefused (s : System υ) (c : Conn) : Bool := (s.linkOf c).any fun l => l.refused

/-- The next frame that the relay wrote to the connection. -/
def arriving (s : System υ) (c : Conn) : Option (Relay.Frame υ) :=
  (s.linkOf c).bind fun l => l.server.bind fun i => s.server.channels[i]?.bind fun ch =>
    ch.written[s.received c]?

/-- The frame is the next one of the connection. -/
def Brings (s : System υ) (c : Conn) : Option (Relayed υ) → Prop
  | none => False
  | some body => s.arriving c = some (.text body)

/-- What of the client's callbacks the network allows. -/
def Allows (s : System υ) : Event (Relayed υ) → Prop
  | .connect => True
  | .close => True
  | .token _ _ => True
  | .reconnect _ => True
  | .quicTimeout _ => True
  -- the auth frame was written and the grace period has elapsed
  | .quicEstablished a => (s.linkOf (.quic a)).isSome = true
  | .quicResolved _ => True
  | .quicRejected a => (s.linkOf (.quic a)).isSome = true → s.hungUp (.quic a) = true
  | .quicFrame a frame => s.closedByClient (.quic a) = false ∧ s.Brings (.quic a) frame
  | .quicClosed a authFailed => s.closedByClient (.quic a) = false ∧ s.hungUp (.quic a) = true ∧
    authFailed = s.isRefused (.quic a)
  | .wsOpen k => (s.linkOf (.ws k)).isSome = true
  | .wsMessage k frame => s.Brings (.ws k) frame
  | .wsClose k code => (s.closedByClient (.ws k) = true ∨ s.hungUp (.ws k) = true) ∧
    (code = closeUnauthorized → s.isRefused (.ws k) = true)

/-- The stream of connection `i` has ended: its client hung up, or the relay itself has closed
the QUIC connection. -/
def ended (s : System υ) (i : ℕ) (l : Link) : Bool :=
  s.closedByClient l.conn || l.conn.isQuic && s.closedByServer i

/-- What the task of connection `i` may read. -/
def MayRead (s : System υ) (i : ℕ) (l : Link) : Option (ClientFrame υ) → Prop
  | some frame => (s.sent l.conn).head? = some frame
  | none => s.sent l.conn = [] ∧ s.ended i l = true

/-- What of the relay's steps the network and the client allow. -/
def Permits (user : υ) (s : System υ) : Relay.Action υ → Prop
  | .connect v => v ≠ user
  | .run i input => ∀ h ∈ s.server.handlers[i]?, h.stage = .reading →
    ∀ l ∈ s.linkTo i, s.MayRead i l input.event
  | .forward i written => ∀ l ∈ s.linkTo i, written = false → s.closedByClient l.conn = true
  | .release _ => True
  | .redeliver _ _ => True
  | .expire _ => True

/-- A connection that the client dials reaches the relay. -/
def Dialed (s : System υ) : Conn → Prop
  | .ws k => ∃ S ∈ s.client.sockets[k]?, S.ended = false
  | .quic a => ∃ A ∈ s.client.attempts[a]?, A.dial = .dialing

section
variable [DecidableEq υ]

instance (s : System υ) (c : Conn) : (frame : Option (Relayed υ)) → Decidable (s.Brings c frame)
  | none => isFalse id
  | some body => inferInstanceAs (Decidable (s.arriving c = some (.text body)))

instance (s : System υ) : (e : Event (Relayed υ)) → Decidable (s.Allows e)
  | .connect => isTrue trivial
  | .close => isTrue trivial
  | .token _ _ => isTrue trivial
  | .reconnect _ => isTrue trivial
  | .quicTimeout _ => isTrue trivial
  | .quicEstablished a => inferInstanceAs (Decidable ((s.linkOf (.quic a)).isSome = true))
  | .quicResolved _ => isTrue trivial
  | .quicRejected _ => inferInstanceAs (Decidable (_ = true → _ = true))
  | .quicFrame _ _ => inferInstanceAs (Decidable (_ = false ∧ _))
  | .quicClosed _ _ => inferInstanceAs (Decidable (_ = false ∧ _ = true ∧ _ = _))
  | .wsOpen k => inferInstanceAs (Decidable ((s.linkOf (.ws k)).isSome = true))
  | .wsMessage k frame => inferInstanceAs (Decidable (s.Brings (.ws k) frame))
  | .wsClose _ _ => inferInstanceAs (Decidable ((_ = true ∨ _ = true) ∧ (_ = _ → _ = true)))

instance (s : System υ) (i : ℕ) (l : Link) :
    (event : Option (ClientFrame υ)) → Decidable (s.MayRead i l event)
  | some frame => inferInstanceAs (Decidable (_ = some frame))
  | none => inferInstanceAs (Decidable (_ = [] ∧ _ = true))

instance (user : υ) (s : System υ) : (a : Relay.Action υ) → Decidable (s.Permits user a)
  | .connect v => inferInstanceAs (Decidable (v ≠ user))
  | .run i _ => inferInstanceAs (Decidable (∀ h ∈ s.server.handlers[i]?, _ → ∀ l ∈ s.linkTo i, _))
  | .forward i _ => inferInstanceAs (Decidable (∀ l ∈ s.linkTo i, _ → _))
  | .release _ => isTrue trivial
  | .redeliver _ _ => isTrue trivial
  | .expire _ => isTrue trivial

instance (s : System υ) : (c : Conn) → Decidable (s.Dialed c)
  | .ws k => inferInstanceAs (Decidable (∃ S ∈ s.client.sockets[k]?, _))
  | .quic a => inferInstanceAs (Decidable (∃ A ∈ s.client.attempts[a]?, _))

/-- A frame that arrives is taken off the connection. -/
def receivedAfter (s : System υ) (e : Event (Relayed υ)) : Conn → ℕ :=
  match e.arrival with
  | some (c, _) => Function.update s.received c (s.received c + 1)
  | none => s.received

/-- The client takes the message, if it does not ignore the frame. -/
def honouredAfter (s : System υ) (e : Event (Relayed υ)) : List (Message υ) :=
  match e.arrival with
  | some (c, some (.message m)) =>
    if s.client.honours c = true then s.honoured ++ [m] else s.honoured
  | _ => s.honoured

/-- A task that reads takes a frame off its stream. -/
def readFrom (s : System υ) (i : ℕ) : Stage υ → Conn → List (ClientFrame υ)
  | .reading => (s.linkTo i).elim s.sent fun l =>
    Function.update s.sent l.conn (s.sent l.conn).tail
  | _ => s.sent

def sentAfter (s : System υ) : Relay.Action υ → Conn → List (ClientFrame υ)
  | .run i _ => s.server.handlers[i]?.elim s.sent fun h => s.readFrom i h.stage
  | _ => s.sent

/-- An ack takes effect, or is lost. -/
def ackedWhen (s : System υ) (removed : Bool) (unacked : Option (Message υ)) : List (Message υ) :=
  if removed then s.acked ++ unacked.toList else s.acked

/-- What is acked out of the queue of the user, by a drain or by `redeliver_if_now_connected`. -/
def ackedAfter (user : υ) (s : System υ) : Relay.Action υ → List (Message υ)
  | .run i input => s.server.handlers[i]?.elim s.acked fun h =>
    if h.user = user then s.ackedWhen input.removed h.stage.unacked else s.acked
  | .redeliver j deleted => s.server.tasks[j]?.elim s.acked fun task =>
    if task.message.recipient = user then s.ackedWhen deleted task.unacked else s.acked
  | _ => s.acked

def step (user : υ) (s : System υ) : Action υ → Option (System υ)
  | .client e =>
    if s.Allows e then
      (s.client.step e).map fun client => { s with
        client := client
        received := s.receivedAfter e
        honoured := s.honouredAfter e }
    else none
  | .arrive c =>
    if s.linkOf c = none ∧ s.Dialed c then some { s with links := s.links ++ [⟨c, none, false⟩] }
    else none
  | .accept j authorized => s.links[j]?.bind fun l =>
    if l.server = none ∧ l.refused = false then
      if authorized then
        (s.server.step (.connect user)).map fun server => { s with
          server := server
          links := s.links.set j { l with server := some s.server.handlers.length } }
      else some { s with links := s.links.set j { l with refused := true } }
    else none
  | .server a =>
    if s.Permits user a then
      (s.server.step a).map fun server => { s with
        server := server
        sent := s.sentAfter a
        acked := s.ackedAfter user a }
    else none
  | .send frame => s.client.sendTarget.map fun c =>
    { s with sent := Function.update s.sent c (s.sent c ++ [frame]) }

def machine (user : υ) : Machine (System υ) (Action υ) where
  init s := s = start
  step := step user

end

end System

end Duplex

end Epistl
