import Epistl.Crypto.WireFormat
import Epistl.Inbox.Device
import Epistl.Ratchet.Agreement

/-! # Two devices that both may speak first

Each device decides from its own storage whether a send opens a session. While no
device opens one against a peer that already has one, the runs are those of a
conversation with a single initiator, and every delivered frame is saved. A call of
`handleSend` or `processMessageFrame` is one step.
-/
namespace Epistl
variable {S : Suite}

/-- Both devices, the bodies in flight towards each, and what was sent and delivered. -/
structure Messenger (S : Suite) where
  device : Party → Device S
  inbound : Party → List JsString
  used : List S.X25519Secret
  sent : Party → List JsString
  delivered : Party → ℕ

namespace Messenger
variable (who : Party → Identity S) (entropy : Party → Bytes)

/-- Each device knows the other one's registered bundle. -/
def context (p : Party) : Context S where
  identity := who p
  findContactBundle userId :=
    if userId = (who p.other).userId then some ((who p.other).keyBundle (entropy p.other)) else none

inductive Action (S : Suite) where
  | send (p : Party) (connected : Bool) (draft createdAt : JsString) (random : SendRandom S)
  | deliver (p : Party) (createdAt : JsString) (newDhs : S.X25519Secret)

def start : Messenger S where
  device := fun _ => .empty
  inbound := fun _ => []
  used := [(who .alice).x25519SecretKey, (who .bob).x25519SecretKey]
  sent := fun _ => []
  delivered := fun _ => 0

def step (s : Messenger S) : Action S → Option (Messenger S)
  | .send p connected draft createdAt random =>
    match handleSend (context who entropy p) (who p.other).userId connected draft createdAt random
        (s.device p) with
    | (_, none) => some s
    | (device, some body) => some {
        device := Function.update s.device p device
        inbound := Function.update s.inbound p.other (s.inbound p.other ++ [body])
        used := random.ea :: s.used
        sent := Function.update s.sent p (s.sent p ++ [JsString.trim draft])
        delivered := s.delivered }
  | .deliver p createdAt newDhs =>
    match s.inbound p with
    | [] => none
    | body :: rest => some {
        device := Function.update s.device p (processMessageFrame (context who entropy p)
          ⟨(who p.other).userId, body⟩ createdAt newDhs (s.device p))
        inbound := Function.update s.inbound p rest
        used := newDhs :: s.used
        sent := s.sent
        delivered := Function.update s.delivered p (s.delivered p + 1) }

def machine : Machine (Messenger S) (Action S) where
  init s := s = start who
  step := step who entropy

/-- The stored session of `p` for the other device. -/
def session (s : Messenger S) (p : Party) : Option (RatchetState S) :=
  (s.device p).loadSession (who p.other).userId

/-- Every key generation is fresh. -/
def Fresh (s : Messenger S) : Action S → Prop
  | .send _ _ _ _ random => random.ea ∉ s.used
  | .deliver _ _ newDhs => newDhs ∉ s.used

/-- A send that opens a session does so only while the peer has none, and a send on a
session gets a number that fits the wire field. -/
def SpeaksInTurn (s : Messenger S) : Action S → Prop
  | .send p connected draft _ _ => JsString.trim draft = [] ∨ connected = false ∨
    match session who s p with
    | none => session who s p.other = none
    | some state => state.sendMessageNumber < 2 ^ 32
  | .deliver _ _ _ => True

def Guard (s : Messenger S) (a : Action S) : Prop := Fresh s a ∧ SpeaksInTurn who s a

/-- The text a device stores for a sent one. -/
def received (text : JsString) : JsString := JsString.decodeUtf8Bytes (JsString.utf8Bytes text)

/-- The bodies of the stored incoming messages. -/
def incoming (dev : Device S) : List JsString :=
  (dev.messages.filter fun m => m.direction = .incoming).map StoredMessage.body

/-- Every delivered frame was decoded and saved, and none reported as unverifiable. -/
structure AllSaved (s : Messenger S) : Prop where
  saved : ∀ p, incoming (s.device p) = ((s.sent p.other).take (s.delivered p)).map received
  events : ∀ p, (s.device p).events.length = s.delivered p ∧
    ∀ c t, InboxEvent.unverifiable c t ∉ (s.device p).events

/-- A text sent by `p` now would be delivered and saved. -/
def CanReach (s : Messenger S) (p : Party) : Prop :=
  ∀ draft createdAt createdAt' random newDhs, JsString.trim draft ≠ [] → random.ea ∉ s.used →
    newDhs ∉ random.ea :: s.used →
    ∃ t u, step who entropy s (.send p true draft createdAt random) = some t ∧
      step who entropy t (.deliver p.other createdAt' newDhs) = some u ∧
      (u.device p.other).messages = (s.device p.other).messages ++
        [⟨(who p).userId, .incoming, received (JsString.trim draft), createdAt'⟩]

/-- The text and the randomness of the concrete runs. -/
def hello : JsString := [0x68]

def randomOf (n : ℕ) (h : n < 256 ^ 32) : SendRandom Symbolic.suite :=
  ⟨⟨n, h⟩, [], TwoParty.someRandom⟩

end Messenger

/-! ### The two models of a send and of a decode agree -/

section agree
variable {a b : Identity S} {newDhs : S.X25519Secret}

theorem verifyPrekeyBundle_keyBundle (hS : S.Ideal) (a : Identity S) (entropy : Bytes) :
    verifyPrekeyBundle S (a.keyBundle entropy) = true := by
  simp only [verifyPrekeyBundle, Identity.keyBundle, hS.verify_sign, Option.getD_some]

theorem sendEnvelope_none (hS : S.Ideal) (entropy plaintext : Bytes) (random : SendRandom S) :
    sendEnvelope a b.userId (b.keyBundle entropy) plaintext none random =
      (TwoParty.initiate a b random.ea random.kemRandom plaintext random.encode).map
        fun r => some (r.2.envelope, r.1) := by
  simp only [sendEnvelope, verifyPrekeyBundle_keyBundle hS, Bool.true_eq_false, if_false]
  simp only [TwoParty.initiate, Identity.keyBundle, Identity.bundle]
  cases initiateSession b.userId a.userId ⟨S.x25519PublicKey b.x25519SecretKey,
    S.kyberPublicKey b.kyberSecretKey⟩ random.ea random.kemRandom with
  | error e => rfl
  | ok initiated =>
    simp only [bind, Except.bind]
    cases deriveNextSendingMessageKey initiated.state with
    | error e => rfl
    | ok send0 => rfl

theorem sendEnvelope_some (contact : ContactKeyBundle) (plaintext : Bytes)
    (state : RatchetState S) (random : SendRandom S) :
    sendEnvelope a b.userId contact plaintext (some state) random =
      (TwoParty.sendOn a b state plaintext random.encode).map fun r => some (r.2.envelope, r.1) := by
  simp only [sendEnvelope, TwoParty.sendOn]
  cases deriveNextSendingMessageKey state with
  | error e => rfl
  | ok send => rfl

theorem head_of_decodeHandshake {envelope plaintext : Bytes} {params : DecodeHandshakeParams S}
    {next : RatchetState S}
    (h : decodeHandshakeEnvelope envelope params newDhs = .ok (.success plaintext next)) :
    envelope.head? = some handshakeEnvelopeVersion := by
  obtain ⟨⟨hmin, hversion, -⟩, -⟩ := decodeHandshakeEnvelope_success h
  cases envelope with
  | nil => exact absurd hmin (by decide)
  | cons v rest => exact congrArg some hversion

theorem head_of_decodeRatchet {envelope plaintext : Bytes} {params : DecodeRatchetParams S}
    {next : RatchetState S}
    (h : decodeRatchetEnvelope envelope params newDhs = .ok (.success plaintext next)) :
    envelope.head? = some ratchetEnvelopeVersion := by
  obtain ⟨⟨hmin, hversion⟩, -⟩ := decodeRatchetEnvelope_success h
  cases envelope with
  | nil => exact absurd hmin (by decide)
  | cons v rest => exact congrArg some hversion

/-- An envelope the session layer accepts is accepted by the inbox. -/
theorem decodeFrame_of_accepts {who : Party → Identity S} {p : Party}
    {session : Option (RatchetState S)} {envelope plaintext : Bytes} {next : RatchetState S}
    {ctx : Context S} {entropy : Bytes} (hctx : ctx.identity = who p)
    (h : TwoParty.decode who p session envelope newDhs = .ok (.success plaintext next)) :
    decodeFrame ctx ((who p.other).keyBundle entropy) (who p.other).userId envelope session newDhs =
      .ok (some (.success plaintext next)) := by
  cases session with
  | none =>
    simp only [TwoParty.decode] at h
    simp only [decodeFrame, head_of_decodeHandshake h, if_true, hctx]
    exact congrArg (Except.map some) h
  | some state =>
    simp only [TwoParty.decode] at h
    have hv : some ratchetEnvelopeVersion ≠ some handshakeEnvelopeVersion := by decide
    simp only [decodeFrame, head_of_decodeRatchet h, if_neg hv, if_true, hctx]
    exact congrArg (Except.map some) h

end agree

end Epistl
