import Epistl.Inbox.Genuine
import Epistl.Relay.Origin
import Epistl.Relay.Placed
import Epistl.Text.Rfc3629

/-! # The relay and the devices at its connections

A device hands each body it has produced to the relay at most once, on a connection of its user.
What the relay writes to a connection is processed by the device of its user, in that order. All
tasks of the relay and all devices take their steps in any order; a call of `handleSend` or
`processMessageFrame` is one step, it ends before its device starts the next one.
-/
namespace Epistl
variable {S : Suite} {ι : Type}

/-- The relay and the devices. -/
structure Deployment (S : Suite) (ι : Type) where
  relay : Relay.Server ι
  network : Network S ι
  /-- the sends with the numbers of the bodies behind them, by the number of the send -/
  submitted : List (Relay.Message ι × ℕ)
  /-- how much of what was written to a connection has been processed -/
  read : ℕ → ℕ
  /-- the messages that a device has processed -/
  shown : ι → List (Relay.Message ι)

/-- The body of a message as the client reads it. -/
def Relay.Message.body (m : Relay.Message ι) : JsString := JsString.ofString m.bodyB64

/-- The frame that a message arrives in. -/
def Directory.frame (dir : Directory S ι) (m : Relay.Message ι) : Frame :=
  ⟨(dir.who m.sender).userId, m.body⟩

namespace Deployment
variable [DecidableEq ι] (dir : Directory S ι)

inductive Action (S : Suite) (ι : Type)
  /-- a device writes to a contact -/
  | write (p : ι) (contactUserId : JsString) (connected : Bool) (draft createdAt : JsString)
      (random : SendRandom S)
  /-- the relay takes a step; a send that begins with it is body number `k` of its sender -/
  | relay (a : Relay.Action ι) (k : ℕ)
  /-- a device processes the next frame of connection `i` -/
  | process (i : ℕ) (createdAt : JsString) (newDhs : S.X25519Secret)

/-- The bodies that were handed over, by their senders and numbers. -/
def handed (s : Deployment S ι) : List (ι × ℕ) := s.submitted.map fun x => (x.1.sender, x.2)

def start : Deployment S ι where
  relay := .start
  network := Network.start dir
  submitted := []
  read := fun _ => 0
  shown := fun _ => []

def step (s : Deployment S ι) : Action S ι → Option (Deployment S ι)
  | .write p contactUserId connected draft createdAt random =>
    (Network.step dir s.network (.send p contactUserId connected draft createdAt random)).map
      fun network => { s with network := network }
  | .relay a k => (s.relay.step a).bind fun relay =>
    match s.relay.begun a with
    | none => some { s with relay := relay }
    | some m =>
      if (m.sender, k) ∉ s.handed ∧ (s.network.produced m.sender)[k]? = some m.body then
        some { s with
          relay := relay
          submitted := s.submitted ++ [(m, k)] }
      else none
  | .process i createdAt newDhs => s.relay.handlers[i]?.bind fun h =>
    (s.relay.writtenTo i)[s.read i]?.bind fun frame =>
      match frame.message? with
      | none => some { s with read := Function.update s.read i (s.read i + 1) }
      | some m =>
        (Network.step dir s.network (.present h.user (dir.frame m) createdAt newDhs)).map
          fun network => { s with
            network := network
            read := Function.update s.read i (s.read i + 1)
            shown := Function.update s.shown h.user (s.shown h.user ++ [m]) }

def machine : Machine (Deployment S ι) (Action S ι) where
  init s := s = start dir
  step := step dir

/-- Key generation is fresh. -/
def Fresh (s : Deployment S ι) : Action S ι → Prop
  | .write _ _ _ _ _ random => ∀ q, random.ea ∉ s.network.used q
  | .relay _ _ => True
  | .process _ _ newDhs => ∀ q, newDhs ∉ s.network.used q

/-- The message is one that its sender's device has produced, handed over once. -/
def Submitted (s : Deployment S ι) (m : Relay.Message ι) : Prop :=
  ∃ k, s.submitted[m.id]? = some (m, k) ∧
    (s.network.produced m.sender)[k]? = some m.body

end Deployment
end Epistl
