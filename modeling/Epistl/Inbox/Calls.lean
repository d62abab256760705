import Epistl.Inbox.Device
import Epistl.Runs.Machine

/-! # Calls that overlap at their await points

`handleSend` and `processMessageFrame` suspend at every access to the storage. A step
resumes one call: the awaited access takes place and the call runs to its next await.
All calls are about one contact.
-/
namespace Epistl
variable {S : Suite}

/-- What a call still does once its session is stored. -/
structure Outcome where
  message : StoredMessage
  event : Option InboxEvent
  deriving Repr, DecidableEq

/-- A session a call is about to store. `basis` is the version of the stored session it
was derived from, and `exposed` tells that an envelope made from that stored session
is with the transport already. -/
structure Pending (S : Suite) where
  next : RatchetState S
  outcome : Outcome
  basis : Option ℕ
  exposed : Bool

/-- What a call awaits. -/
inductive Call (S : Suite) where
  /-- `loadContext` and `findContactBundle`, in `processMessageFrame` -/
  | looking (bodyB64 createdAt : JsString)
  /-- `loadSession`, in `processMessageFrame` -/
  | loading (bodyB64 createdAt : JsString) (bundle : ContactKeyBundle)
  /-- `loadSession`, in `handleSend` -/
  | sending (text createdAt : JsString) (contact : ContactKeyBundle)
  /-- the first storage write of `saveSession` -/
  | writing (write : Pending S)
  /-- the read of `addToSessionIndex` -/
  | indexing (outcome : Outcome)
  /-- the write of `addToSessionIndex` -/
  | indexWriting (index : List JsString) (outcome : Outcome)
  /-- `saveMessage` -/
  | saving (outcome : Outcome)
  /-- nothing, it only has to return -/
  | returning (event : Option InboxEvent)
  | done

namespace Call

/-- The call has stored its session. -/
def wrote : Call S → Bool
  | looking .. | loading .. | sending .. | writing .. => false
  | indexing .. | indexWriting .. | saving .. | returning .. | done => true

/-- The call has seen its contact in the stored index. -/
def indexed : Call S → Bool
  | looking .. | loading .. | sending .. | writing .. | indexing .. | indexWriting .. => false
  | saving .. | returning .. | done => true

/-- The call has stored its message. -/
def saved : Call S → Bool
  | looking .. | loading .. | sending .. | writing .. | indexing .. | indexWriting .. |
    saving .. => false
  | returning .. | done => true

/-- The call has loaded or decoded, and has not yet stored its session. -/
def pending : Call S → Option (Pending S)
  | writing write => some write
  | _ => none

end Call

namespace Device

/-- `SecureStore.setItemAsync` on the session. -/
def writeSession (dev : Device S) (contactUserId : JsString) (state : RatchetState S) : Device S :=
  { dev with sessions := Function.update dev.sessions contactUserId (some state) }

/-- `SecureStore.setItemAsync` on the session index. -/
def writeIndex (dev : Device S) (index : List JsString) : Device S :=
  { dev with sessionIndex := index }

/-- The two writes of `saveSession`, done at once. -/
theorem saveSession_eq (dev : Device S) (contactUserId : JsString) (state : RatchetState S) :
    dev.saveSession contactUserId state =
      (dev.writeSession contactUserId state).writeIndex (if contactUserId ∈ dev.sessionIndex then
        dev.sessionIndex else dev.sessionIndex ++ [contactUserId]) :=
  rfl

end Device

/-- The device with its running calls, in the order they were started. `sent` has the
sending chain and the number of every envelope handed to the transport, `version`
counts the writes of the session, and `writes` records what each of them was derived
from and what it replaced. -/
structure Calls (S : Suite) where
  device : Device S
  calls : List (Call S)
  sent : List (Bytes × ℕ)
  used : List S.X25519Secret
  version : ℕ
  writes : List (Option ℕ × ℕ)

namespace Calls

inductive Action (S : Suite) where
  | receive (bodyB64 createdAt : JsString)
  | send (connected : Bool) (draft createdAt : JsString)
  | resume (i : ℕ) (newDhs : S.X25519Secret) (random : SendRandom S)
  | crash

def start (dev : Device S) : Calls S where
  device := dev
  calls := []
  sent := []
  used := []
  version := 0
  writes := []

/-- Call `i` moves on. -/
def put (s : Calls S) (i : ℕ) (call : Call S) : Calls S := { s with calls := s.calls.set i call }

def emit (s : Calls S) (event : InboxEvent) : Calls S := { s with device := s.device.emit event }

/-- The end of `processMessageFrame`, from the result of the decoding. -/
def settle (contactUserId : JsString) (s : Calls S) (i : ℕ) (createdAt : JsString)
    (basis : Option ℕ) : Except Thrown (Option (DecodeResult S)) → Calls S
  | .error _ => s.put i .done
  | .ok (some (.success plaintext next)) => s.put i (.writing {
      next := next
      outcome := ⟨incomingMessage contactUserId createdAt plaintext,
        some (.saved contactUserId createdAt (JsString.decodeUtf8Bytes plaintext))⟩
      basis := basis
      exposed := false })
  | .ok _ => (s.emit (.unverifiable contactUserId createdAt)).put i .done

/-- The sending chain, by its public key, and the number a send from this session uses. -/
def slot (session : Option (RatchetState S)) (random : SendRandom S) : Bytes × ℕ :=
  match session with
  | none => (S.x25519PublicKey random.ea, 0)
  | some state => (state.dhsPublicKey, state.sendMessageNumber)

variable (ctx : Context S) (contactUserId : JsString)

/-- The awaited access of call `i` takes place. -/
def resume (s : Calls S) (i : ℕ) (newDhs : S.X25519Secret) (random : SendRandom S) :
    Call S → Option (Calls S)
  | .looking bodyB64 createdAt =>
    match ctx.findContactBundle contactUserId with
    | none => some ((s.emit (.unverifiable contactUserId createdAt)).put i .done)
    | some bundle =>
      let envelope := Base64.base64ToBytes bodyB64
      if envelope.head? = some ratchetEnvelopeVersion then some (s.put i (.loading bodyB64 createdAt bundle))
      else some (s.settle contactUserId i createdAt none
        (decodeFrame ctx bundle contactUserId envelope none newDhs))
  | .loading bodyB64 createdAt bundle =>
    some (s.settle contactUserId i createdAt (some s.version) (decodeFrame ctx bundle contactUserId
      (Base64.base64ToBytes bodyB64) (s.device.loadSession contactUserId) newDhs))
  | .sending text createdAt contact =>
    let session := s.device.loadSession contactUserId
    match sendEnvelope ctx.identity contactUserId contact (JsString.utf8Bytes text) session random with
    | .ok (some (_, next)) => some { s.put i (.writing {
          next := next
          outcome := ⟨⟨contactUserId, .outgoing, text, createdAt⟩, none⟩
          basis := some s.version
          exposed := session.isSome }) with sent := s.sent ++ [slot session random] }
    | _ => some (s.put i .done)
  | .writing write => some { s.put i (.indexing write.outcome) with
      device := s.device.writeSession contactUserId write.next
      version := s.version + 1
      writes := s.writes ++ [(write.basis, s.version)] }
  | .indexing outcome =>
    if contactUserId ∈ s.device.sessionIndex then some (s.put i (.saving outcome))
    else some (s.put i (.indexWriting (s.device.sessionIndex ++ [contactUserId]) outcome))
  | .indexWriting index outcome =>
    some { s.put i (.saving outcome) with device := s.device.writeIndex index }
  | .saving outcome => some { s.put i (.returning outcome.event) with
      device := s.device.saveMessage outcome.message }
  | .returning event => some { s.put i .done with
      device := match event with
        | none => s.device
        | some event => s.device.emit event }
  | .done => none

/-- A crash loses the running calls and keeps what is stored. -/
def step (s : Calls S) : Action S → Option (Calls S)
  | .receive bodyB64 createdAt => some { s with calls := s.calls ++ [.looking bodyB64 createdAt] }
  | .send connected draft createdAt =>
    let text := JsString.trim draft
    if text = [] ∨ connected = false then some s
    else
      match ctx.findContactBundle contactUserId with
      | none => some s
      | some contact => some { s with calls := s.calls ++ [.sending text createdAt contact] }
  | .resume i newDhs random =>
    match s.calls[i]? with
    | none => none
    | some call => (resume ctx contactUserId s i newDhs random call).map fun t =>
        { t with used := newDhs :: random.ea :: s.used }
  | .crash => some { s with calls := [] }

def machine (dev : Device S) : Machine (Calls S) (Action S) where
  init s := s = start dev
  step := step ctx contactUserId

end Calls

end Epistl
