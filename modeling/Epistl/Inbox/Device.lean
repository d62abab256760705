import Epistl.Text.Base64
import Epistl.Ratchet.Handshake

/-! # One device: sending from a chat and receiving in the inbox

`handleSend` and `processMessageFrame` load the stored session, derive, and save the
advanced one. Here each runs in one step; what they compute between the storage
accesses is kept apart, so that the interleaved model can share it.
-/
namespace Epistl
variable {S : Suite}

structure ContactKeyBundle where
  x25519PublicKey : Bytes
  kyberPublicKey : Bytes
  dilithiumPublicKey : Bytes
  prekeySignature : Bytes

def prekeySignatureContext : Bytes := JsString.textEncode (JsString.ofString "epistl/v1/prekey/")

def prekeyMessage (x25519PublicKey kyberPublicKey : Bytes) : Bytes :=
  prekeySignatureContext ++ x25519PublicKey ++ kyberPublicKey

def verifyPrekeyBundle (S : Suite) (bundle : ContactKeyBundle) : Bool :=
  (S.verify bundle.prekeySignature (prekeyMessage bundle.x25519PublicKey bundle.kyberPublicKey)
    bundle.dilithiumPublicKey).getD false

/-- The bundle a device registers; its prekey signature is `signPrekey`'s. -/
def Identity.keyBundle (a : Identity S) (entropy : Bytes) : ContactKeyBundle where
  x25519PublicKey := a.bundle.x25519PublicKey
  kyberPublicKey := a.bundle.kyberPublicKey
  dilithiumPublicKey := S.dilithiumPublicKey a.dilithiumSecretKey
  prekeySignature := S.sign (prekeyMessage a.bundle.x25519PublicKey a.bundle.kyberPublicKey)
    a.dilithiumSecretKey entropy

/-- What a signed in device has loaded: its identity, and its contacts' bundles. -/
structure Context (S : Suite) where
  identity : Identity S
  findContactBundle : JsString → Option ContactKeyBundle

inductive MessageDirection where
  | outgoing
  | incoming
  deriving Repr, DecidableEq

structure StoredMessage where
  contactUserId : JsString
  direction : MessageDirection
  body : JsString
  createdAt : JsString
  deriving Repr, DecidableEq

inductive InboxEvent where
  | saved (contactUserId createdAt text : JsString)
  | unverifiable (contactUserId createdAt : JsString)
  deriving Repr, DecidableEq

/-- The stored sessions with their index, the message history and the inbox events. -/
structure Device (S : Suite) where
  sessions : JsString → Option (RatchetState S)
  sessionIndex : List JsString
  messages : List StoredMessage
  events : List InboxEvent

namespace Device

def empty : Device S where
  sessions := fun _ => none
  sessionIndex := []
  messages := []
  events := []

def loadSession (dev : Device S) (contactUserId : JsString) : Option (RatchetState S) :=
  dev.sessions contactUserId

def saveSession (dev : Device S) (contactUserId : JsString) (state : RatchetState S) : Device S :=
  { dev with
    sessions := Function.update dev.sessions contactUserId (some state)
    sessionIndex := if contactUserId ∈ dev.sessionIndex then dev.sessionIndex
      else dev.sessionIndex ++ [contactUserId] }

def saveMessage (dev : Device S) (message : StoredMessage) : Device S :=
  { dev with messages := dev.messages ++ [message] }

def emit (dev : Device S) (event : InboxEvent) : Device S :=
  { dev with events := dev.events ++ [event] }

end Device

/-- A `message` frame. -/
structure Frame where
  sender : JsString
  bodyB64 : JsString
  deriving Repr, DecidableEq

/-- The decoding in `processMessageFrame`; `session` is what `loadSession` returned. -/
def decodeFrame (ctx : Context S) (bundle : ContactKeyBundle) (contactUserId : JsString)
    (envelope : Bytes) (session : Option (RatchetState S)) (newDhs : S.X25519Secret) :
    Except Thrown (Option (DecodeResult S)) :=
  let version := envelope.head?
  if version = some handshakeEnvelopeVersion then
    (decodeHandshakeEnvelope envelope {
      contactUserId := contactUserId
      selfUserId := ctx.identity.userId
      selfX25519SecretKey := ctx.identity.x25519SecretKey
      selfKyberSecretKey := ctx.identity.kyberSecretKey
      senderDilithiumPublicKey := bundle.dilithiumPublicKey } newDhs).map some
  else if version = some ratchetEnvelopeVersion then
    match session with
    | none => .ok none
    | some session =>
      (decodeRatchetEnvelope envelope {
        state := session
        senderDilithiumPublicKey := bundle.dilithiumPublicKey
        selfUserId := ctx.identity.userId
        contactUserId := contactUserId } newDhs).map some
  else .ok none

/-- What is saved of an accepted frame. -/
def incomingMessage (contactUserId createdAt : JsString) (plaintext : Bytes) : StoredMessage where
  contactUserId := contactUserId
  direction := .incoming
  body := JsString.decodeUtf8Bytes plaintext
  createdAt := createdAt

def Device.accept (dev : Device S) (contactUserId createdAt : JsString) (plaintext : Bytes)
    (nextState : RatchetState S) : Device S :=
  ((dev.saveSession contactUserId nextState).saveMessage
    (incomingMessage contactUserId createdAt plaintext)).emit
    (.saved contactUserId createdAt (JsString.decodeUtf8Bytes plaintext))

/-- `processMessageFrame` in one step; a thrown exception ends it with nothing done. -/
def processMessageFrame (ctx : Context S) (frame : Frame) (createdAt : JsString)
    (newDhs : S.X25519Secret) (dev : Device S) : Device S :=
  let contactUserId := frame.sender
  match ctx.findContactBundle contactUserId with
  | none => dev.emit (.unverifiable contactUserId createdAt)
  | some bundle =>
    match decodeFrame ctx bundle contactUserId (Base64.base64ToBytes frame.bodyB64)
        (dev.loadSession contactUserId) newDhs with
    | .error _ => dev
    | .ok (some (.success plaintext nextState)) =>
      dev.accept contactUserId createdAt plaintext nextState
    | .ok _ => dev.emit (.unverifiable contactUserId createdAt)

/-- The randomness one send may consume. -/
structure SendRandom (S : Suite) where
  ea : S.X25519Secret
  kemRandom : Bytes
  encode : EncodeRandom

/-- The envelope `handleSend` builds from the loaded session, and the state it will
save; `none` is an untrusted bundle. -/
def sendEnvelope (self : Identity S) (contactUserId : JsString) (contact : ContactKeyBundle)
    (plaintextBytes : Bytes) (session : Option (RatchetState S)) (random : SendRandom S) :
    Except Thrown (Option (Bytes × RatchetState S)) :=
  match session with
  | none =>
    if verifyPrekeyBundle S contact = false then .ok none
    else do
      let initiated ← initiateSession contactUserId self.userId
        ⟨contact.x25519PublicKey, contact.kyberPublicKey⟩ random.ea random.kemRandom
      let send0 ← deriveNextSendingMessageKey initiated.state
      let envelopeBytes := encodeHandshakeEnvelope initiated.ea initiated.kyberCiphertext
        send0.messageKey plaintextBytes self.userId contactUserId self.dilithiumSecretKey
        random.encode
      return some (envelopeBytes, send0.nextState)
  | some session => do
    let send ← deriveNextSendingMessageKey session
    let envelopeBytes := encodeRatchetEnvelope send.header send.messageKey plaintextBytes
      self.userId contactUserId self.dilithiumSecretKey random.encode
    return some (envelopeBytes, send.nextState)

/-- `handleSend` in one step: the device afterwards and the body handed to the
transport. An empty draft, a closed transport, an unknown or untrusted contact and a
thrown exception all end it with nothing done. -/
def handleSend (ctx : Context S) (contactUserId : JsString) (connected : Bool) (draft : JsString)
    (createdAt : JsString) (random : SendRandom S) (dev : Device S) :
    Device S × Option JsString :=
  let text := JsString.trim draft
  if text = [] ∨ connected = false then (dev, none)
  else
    match ctx.findContactBundle contactUserId with
    | none => (dev, none)
    | some contact =>
      match sendEnvelope ctx.identity contactUserId contact (JsString.utf8Bytes text)
          (dev.loadSession contactUserId) random with
      | .ok (some (envelopeBytes, nextState)) =>
        ((dev.saveSession contactUserId nextState).saveMessage
          ⟨contactUserId, .outgoing, text, createdAt⟩,
          some (Base64.bytesToBase64 envelopeBytes))
      | _ => (dev, none)

section
variable {ctx : Context S} {dev : Device S}

/-- The two ways in which a frame is decoded. -/
theorem decodeFrame_success {bundle : ContactKeyBundle} {contactUserId : JsString}
    {session : Option (RatchetState S)} {envelope plaintext : Bytes} {newDhs : S.X25519Secret}
    {next : RatchetState S}
    (h : decodeFrame ctx bundle contactUserId envelope session newDhs =
      .ok (some (.success plaintext next))) :
    (envelope.head? = some handshakeEnvelopeVersion ∧ decodeHandshakeEnvelope envelope {
        contactUserId := contactUserId
        selfUserId := ctx.identity.userId
        selfX25519SecretKey := ctx.identity.x25519SecretKey
        selfKyberSecretKey := ctx.identity.kyberSecretKey
        senderDilithiumPublicKey := bundle.dilithiumPublicKey } newDhs =
          .ok (.success plaintext next)) ∨
      envelope.head? = some ratchetEnvelopeVersion ∧ ∃ state, session = some state ∧
        decodeRatchetEnvelope envelope {
          state := state
          senderDilithiumPublicKey := bundle.dilithiumPublicKey
          selfUserId := ctx.identity.userId
          contactUserId := contactUserId } newDhs = .ok (.success plaintext next) := by
  have hmap {r : Except Thrown (DecodeResult S)}
      (h : r.map some = .ok (some (.success plaintext next))) : r = .ok (.success plaintext next) := by
    cases r with
    | error e => cases h
    | ok d => exact congrArg Except.ok (Option.some.inj (Except.ok.inj h))
  unfold decodeFrame at h
  dsimp only at h
  split at h
  · rename_i hv
    exact .inl ⟨hv, hmap h⟩
  · split at h
    · rename_i hv
      cases session with
      | none => cases h
      | some state => exact .inr ⟨hv, state, rfl, hmap h⟩
    · cases h

/-- Only a ratchet envelope is decoded under the stored session. -/
theorem decodeFrame_congr {bundle : ContactKeyBundle} {contactUserId : JsString} {envelope : Bytes}
    {newDhs : S.X25519Secret} (h : envelope.head? ≠ some ratchetEnvelopeVersion)
    (session session' : Option (RatchetState S)) :
    decodeFrame ctx bundle contactUserId envelope session newDhs =
      decodeFrame ctx bundle contactUserId envelope session' newDhs := by
  simp only [decodeFrame, if_neg h]

theorem processMessageFrame_success {frame : Frame} {bundle : ContactKeyBundle} {plaintext : Bytes}
    {nextState : RatchetState S} {newDhs : S.X25519Secret} (createdAt : JsString)
    (hbundle : ctx.findContactBundle frame.sender = some bundle)
    (hd : decodeFrame ctx bundle frame.sender (Base64.base64ToBytes frame.bodyB64)
      (dev.loadSession frame.sender) newDhs = .ok (some (.success plaintext nextState))) :
    processMessageFrame ctx frame createdAt newDhs dev =
      dev.accept frame.sender createdAt plaintext nextState := by
  simp only [processMessageFrame, hbundle, hd]

theorem handleSend_eq {contactUserId draft : JsString} {contact : ContactKeyBundle}
    {envelope : Bytes} {next : RatchetState S} {random : SendRandom S} (createdAt : JsString)
    (htext : JsString.trim draft ≠ []) (hcontact : ctx.findContactBundle contactUserId = some contact)
    (hsend : sendEnvelope ctx.identity contactUserId contact
      (JsString.utf8Bytes (JsString.trim draft)) (dev.loadSession contactUserId) random =
        .ok (some (envelope, next))) :
    handleSend ctx contactUserId true draft createdAt random dev =
      ((dev.saveSession contactUserId next).saveMessage
        ⟨contactUserId, .outgoing, JsString.trim draft, createdAt⟩,
        some (Base64.bytesToBase64 envelope)) := by
  have hguard : ¬ (JsString.trim draft = [] ∨ true = false) := by simp [htext]
  simp only [handleSend, if_neg hguard, hcontact, hsend]

/-- A body is handed to the transport exactly with the session that is saved. -/
theorem handleSend_some {contactUserId : JsString} {connected : Bool} {draft createdAt : JsString}
    {random : SendRandom S} {dev' : Device S} {body : JsString}
    (h : handleSend ctx contactUserId connected draft createdAt random dev = (dev', some body)) :
    ∃ contact envelope next, ctx.findContactBundle contactUserId = some contact ∧
      sendEnvelope ctx.identity contactUserId contact (JsString.utf8Bytes (JsString.trim draft))
        (dev.loadSession contactUserId) random = .ok (some (envelope, next)) ∧
      dev' = (dev.saveSession contactUserId next).saveMessage
        ⟨contactUserId, .outgoing, JsString.trim draft, createdAt⟩ ∧
      body = Base64.bytesToBase64 envelope := by
  unfold handleSend at h
  dsimp only at h
  split at h
  · cases h
  · split at h
    · cases h
    · rename_i contact hcontact
      split at h
      · rename_i envelope next hsend
        cases h
        exact ⟨contact, envelope, next, hcontact, hsend, rfl, rfl⟩
      · cases h

/-- A send that hands nothing over does nothing. -/
theorem handleSend_none {contactUserId : JsString} {connected : Bool} {draft createdAt : JsString}
    {random : SendRandom S} {dev' : Device S}
    (h : handleSend ctx contactUserId connected draft createdAt random dev = (dev', none)) :
    dev' = dev := by
  unfold handleSend at h
  dsimp only at h
  split at h
  · exact (congrArg Prod.fst h).symm
  · split at h
    · exact (congrArg Prod.fst h).symm
    · split at h
      · cases h
      · exact (congrArg Prod.fst h).symm

end

end Epistl
