import Epistl.Inbox.Calls
import Epistl.Inbox.Network

/-! # Devices whose calls overlap at their await points

Every device starts its calls when it likes, and each of them goes on from one await to the
next while the others wait. From its load on, only writes are left of a call. When a device
loads only while none of its calls has writes left, and no crash loses any, what the devices
reach is what whole calls reach.
-/
namespace Epistl
variable {S : Suite} {ι : Type}

/-- One call on a device on which nothing else runs. -/
def Calls.alone (dev : Device S) (call : Call S) : Calls S := { Calls.start dev with calls := [call] }

@[simp] theorem Calls.alone_device (dev : Device S) (call : Call S) :
    (Calls.alone dev call).device = dev := rfl

@[simp] theorem Calls.alone_calls (dev : Device S) (call : Call S) :
    (Calls.alone dev call).calls = [call] := rfl

namespace Call
variable (ctx : Context S) (contactUserId : JsString)

/-- The accesses that are left of a call after its load. -/
def left : Call S → ℕ
  | looking .. | loading .. | sending .. | done => 0
  | writing _ => 5
  | indexing _ => 4
  | indexWriting .. => 3
  | saving _ => 2
  | returning _ => 1

/-- The awaited access takes place, and the call gets to its next await. -/
def advance (dev : Device S) (newDhs : S.X25519Secret) (random : SendRandom S) (call : Call S) :
    Option (Device S × Call S) :=
  (Calls.resume ctx contactUserId (Calls.alone dev call) 0 newDhs random call).bind fun t =>
    t.calls.head?.map fun next => (t.device, next)

/-- The next access is the load, or the call ends without one. -/
def loads : Call S → Bool
  | looking bodyB64 _ => (ctx.findContactBundle contactUserId).isNone ||
    (Base64.base64ToBytes bodyB64).head? ≠ some ratchetEnvelopeVersion
  | loading .. | sending .. => true
  | _ => false

/-- The body a call hands to the transport as it goes on. -/
def handsOver (dev : Device S) (random : SendRandom S) : Call S → Option JsString
  | sending text _ contact =>
    match sendEnvelope ctx.identity contactUserId contact (JsString.utf8Bytes text)
        (dev.loadSession contactUserId) random with
    | .ok (some (envelopeBytes, _)) => some (Base64.bytesToBase64 envelopeBytes)
    | _ => none
  | _ => none

/-- The secrets a call generates as it goes on to `next`. -/
def generates (newDhs : S.X25519Secret) (random : SendRandom S) : Call S → Call S → List S.X25519Secret
  | looking .., loading .. => []
  | looking .., _ => [newDhs]
  | loading .., _ => [newDhs]
  | sending .., writing _ => [random.ea]
  | _, _ => []

/-- The envelope a call has decoded when it goes on to `next`. -/
def decodes : Call S → Call S → Option Bytes
  | looking bodyB64 _, writing _ => some (Base64.base64ToBytes bodyB64)
  | loading bodyB64 _ _, writing _ => some (Base64.base64ToBytes bodyB64)
  | _, _ => none

/-- What the call does when nothing comes between its accesses. -/
def Amounts (p : ι) (newDhs : S.X25519Secret) (random : SendRandom S) (b : Network.Action S ι) :
    Call S → Prop
  | looking bodyB64 createdAt => b = .present p ⟨contactUserId, bodyB64⟩ createdAt newDhs
  | loading bodyB64 createdAt _ => b = .present p ⟨contactUserId, bodyB64⟩ createdAt newDhs
  | sending text createdAt _ => ∃ draft, JsString.trim draft = text ∧
    b = .send p contactUserId true draft createdAt random
  | _ => False

/-- The bundle is the contact's, and what is sent is a text. -/
def Started : Call S → Prop
  | loading _ _ bundle => ctx.findContactBundle contactUserId = some bundle
  | sending text _ contact => text ≠ [] ∧ ctx.findContactBundle contactUserId = some contact
  | _ => True

end Call

namespace Device

/-- The event of a call that returns. -/
def report (dev : Device S) : Option InboxEvent → Device S
  | none => dev
  | some event => dev.emit event

/-- The accesses that are left of a call, done at once. -/
def finish (contactUserId : JsString) (dev : Device S) : Call S → Device S
  | .looking .. | .loading .. | .sending .. | .done => dev
  | .writing write => ((dev.saveSession contactUserId write.next).saveMessage
      write.outcome.message).report write.outcome.event
  | .indexing outcome => ((dev.writeIndex (if contactUserId ∈ dev.sessionIndex then
      dev.sessionIndex else dev.sessionIndex ++ [contactUserId])).saveMessage
      outcome.message).report outcome.event
  | .indexWriting index outcome => ((dev.writeIndex index).saveMessage outcome.message).report
      outcome.event
  | .saving outcome => (dev.saveMessage outcome.message).report outcome.event
  | .returning event => dev.report event

end Device

/-- All devices with the calls each of them has started, the contact of each call beside it. -/
structure Awaiting (S : Suite) (ι : Type) where
  device : ι → Device S
  calls : ι → List (JsString × Call S)
  produced : ι → List JsString
  used : ι → List S.X25519Secret
  accepted : ι → JsString → List Bytes

namespace Awaiting
variable [DecidableEq ι] (dir : Directory S ι)

inductive Action (S : Suite) (ι : Type) where
  | receive (p : ι) (frame : Frame) (createdAt : JsString)
  | send (p : ι) (contactUserId : JsString) (connected : Bool) (draft createdAt : JsString)
  | resume (p : ι) (i : ℕ) (newDhs : S.X25519Secret) (random : SendRandom S)
  | crash (p : ι)

def start : Awaiting S ι where
  device := fun _ => .empty
  calls := fun _ => []
  produced := fun _ => []
  used := fun p => [(dir.who p).x25519SecretKey]
  accepted := fun _ _ => []

/-- A call starts. -/
def begin (s : Awaiting S ι) (p : ι) (contactUserId : JsString) (call : Call S) : Awaiting S ι :=
  { s with calls := Function.update s.calls p (s.calls p ++ [(contactUserId, call)]) }

/-- Call `i` of `p` has got to `next`. -/
def put (s : Awaiting S ι) (p : ι) (i : ℕ) (contactUserId : JsString) (call next : Call S)
    (device : Device S) (newDhs : S.X25519Secret) (random : SendRandom S) : Awaiting S ι where
  device := Function.update s.device p device
  calls := Function.update s.calls p ((s.calls p).set i (contactUserId, next))
  produced := Function.update s.produced p (s.produced p ++
    (call.handsOver (dir.context p) contactUserId (s.device p) random).toList)
  used := Function.update s.used p (call.generates newDhs random next ++ s.used p)
  accepted := Function.update s.accepted p (Function.update (s.accepted p) contactUserId
    (s.accepted p contactUserId ++ (call.decodes next).toList))

def step (s : Awaiting S ι) : Action S ι → Option (Awaiting S ι)
  | .receive p frame createdAt =>
    some (s.begin p frame.sender (.looking frame.bodyB64 createdAt))
  | .send p contactUserId connected draft createdAt =>
    let text := JsString.trim draft
    if text = [] ∨ connected = false then some s
    else
      match (dir.context p).findContactBundle contactUserId with
      | none => some s
      | some contact => some (s.begin p contactUserId (.sending text createdAt contact))
  | .resume p i newDhs random => (s.calls p)[i]?.bind fun x =>
    (x.2.advance (dir.context p) x.1 (s.device p) newDhs random).map fun r =>
      s.put dir p i x.1 x.2 r.2 r.1 newDhs random
  | .crash p => some { s with calls := Function.update s.calls p [] }

def machine : Machine (Awaiting S ι) (Action S ι) where
  init s := s = start dir
  step := step dir

/-- No call of `p` has writes left. -/
def Idle (s : Awaiting S ι) (p : ι) : Prop := ∀ x ∈ s.calls p, x.2.left = 0

/-- The devices when every call that has loaded has also written. -/
def whole (s : Awaiting S ι) : Network S ι where
  device p := (s.calls p).foldl (fun dev x => dev.finish x.1 x.2) (s.device p)
  produced := s.produced
  used := s.used
  accepted := s.accepted

/-- A call loads only while no call of its device has writes left, and then as `G` allows
the whole call; no crash comes before the last write. -/
def Apart (G : Network S ι → Network.Action S ι → Prop) (s : Awaiting S ι) : Action S ι → Prop
  | .resume p i newDhs random => ∀ x ∈ (s.calls p)[i]?, x.2.loads (dir.context p) x.1 = true →
    s.Idle p ∧ ∃ b, x.2.Amounts x.1 p newDhs random b ∧ G s.whole b
  | .crash p => s.Idle p
  | .receive .. => True
  | .send .. => True

end Awaiting
end Epistl
