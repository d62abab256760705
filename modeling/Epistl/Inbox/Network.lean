import Mathlib.Data.List.Nodup
import Epistl.Inbox.Messenger
import Epistl.Runs.Recurrence

/-! # Devices behind a relay that replays

Every device runs `handleSend` and `processMessageFrame`. A step is a whole call: it ends
before its device starts the next one, and its envelope is with the relay when it has ended.
The relay keeps each body that was ever handed to it and presents any of them, under any
sender, to any device and as often as it likes.
-/
namespace Epistl
variable {S : Suite} {ι : Type}

/-- Who the users are and whose bundle a device finds under a user id. Key generation
is fresh, and `add_contact` refuses to add oneself. -/
structure Directory (S : Suite) (ι : Type) where
  who : ι → Identity S
  entropy : ι → Bytes
  contact : ι → JsString → Option ι
  contact_userId {p q : ι} {userId : JsString} : contact p userId = some q → (who q).userId = userId
  contact_ne {p q : ι} {userId : JsString} : contact p userId = some q → q ≠ p
  signing_injective {p q : ι} : S.dilithiumPublicKey (who p).dilithiumSecretKey =
    S.dilithiumPublicKey (who q).dilithiumSecretKey → p = q
  identity_injective {p q : ι} : (who p).x25519SecretKey = (who q).x25519SecretKey → p = q

def Directory.context (dir : Directory S ι) (p : ι) : Context S where
  identity := dir.who p
  findContactBundle userId :=
    (dir.contact p userId).map fun q => (dir.who q).keyBundle (dir.entropy q)

/-- Whether `processMessageFrame` saves the frame. -/
def acceptsFrame (ctx : Context S) (frame : Frame) (newDhs : S.X25519Secret) (dev : Device S) :
    Bool :=
  match ctx.findContactBundle frame.sender with
  | none => false
  | some bundle =>
    match decodeFrame ctx bundle frame.sender (Base64.base64ToBytes frame.bodyB64)
        (dev.loadSession frame.sender) newDhs with
    | .ok (some (.success _ _)) => true
    | _ => false

section
variable {ctx : Context S} {frame : Frame} {newDhs : S.X25519Secret} {dev : Device S}

theorem acceptsFrame_true (h : acceptsFrame ctx frame newDhs dev = true) (createdAt : JsString) :
    ∃ bundle plaintext nextState, ctx.findContactBundle frame.sender = some bundle ∧
      decodeFrame ctx bundle frame.sender (Base64.base64ToBytes frame.bodyB64)
        (dev.loadSession frame.sender) newDhs = .ok (some (.success plaintext nextState)) ∧
      processMessageFrame ctx frame createdAt newDhs dev =
        dev.accept frame.sender createdAt plaintext nextState := by
  unfold acceptsFrame at h
  split at h
  · cases h
  · rename_i bundle hbundle
    split at h
    · rename_i plaintext nextState hd
      exact ⟨bundle, plaintext, nextState, hbundle, hd,
        processMessageFrame_success createdAt hbundle hd⟩
    · cases h

/-- A frame that is not saved leaves everything stored as it is. -/
theorem acceptsFrame_false (h : acceptsFrame ctx frame newDhs dev = false) (createdAt : JsString) :
    (processMessageFrame ctx frame createdAt newDhs dev).sessions = dev.sessions ∧
      (processMessageFrame ctx frame createdAt newDhs dev).sessionIndex = dev.sessionIndex ∧
      (processMessageFrame ctx frame createdAt newDhs dev).messages = dev.messages := by
  unfold acceptsFrame at h
  unfold processMessageFrame
  split at h
  · rename_i hbundle
    simp [hbundle, Device.emit]
  · rename_i bundle hbundle
    simp only [hbundle]
    split at h
    · cases h
    · rename_i hno
      split
      · exact ⟨rfl, rfl, rfl⟩
      · rename_i plaintext nextState hd
        exact absurd hd (hno plaintext nextState)
      · exact ⟨rfl, rfl, rfl⟩

end

/-- All devices, the bodies each of them produced, the secrets each of them generated,
and the envelopes each of them accepted from a contact. -/
structure Network (S : Suite) (ι : Type) where
  device : ι → Device S
  produced : ι → List JsString
  used : ι → List S.X25519Secret
  accepted : ι → JsString → List Bytes

namespace Network
variable [DecidableEq ι] (dir : Directory S ι)

inductive Action (S : Suite) (ι : Type) where
  | send (p : ι) (contactUserId : JsString) (connected : Bool) (draft createdAt : JsString)
      (random : SendRandom S)
  | present (p : ι) (frame : Frame) (createdAt : JsString) (newDhs : S.X25519Secret)

def start : Network S ι where
  device := fun _ => .empty
  produced := fun _ => []
  used := fun p => [(dir.who p).x25519SecretKey]
  accepted := fun _ _ => []

def step (s : Network S ι) : Action S ι → Option (Network S ι)
  | .send p contactUserId connected draft createdAt random =>
    match handleSend (dir.context p) contactUserId connected draft createdAt random
        (s.device p) with
    | (_, none) => some s
    | (device, some body) => some { s with
        device := Function.update s.device p device
        produced := Function.update s.produced p (s.produced p ++ [body])
        used := Function.update s.used p (random.ea :: s.used p) }
  | .present p frame createdAt newDhs => some { s with
      device := Function.update s.device p
        (processMessageFrame (dir.context p) frame createdAt newDhs (s.device p))
      used := Function.update s.used p (newDhs :: s.used p)
      accepted := if acceptsFrame (dir.context p) frame newDhs (s.device p) = true then
          Function.update s.accepted p (Function.update (s.accepted p) frame.sender
            (s.accepted p frame.sender ++ [Base64.base64ToBytes frame.bodyB64]))
        else s.accepted }

def machine : Machine (Network S ι) (Action S ι) where
  init s := s = start dir
  step := step dir

/-- Key generation is fresh, and the relay presents only what some device produced. -/
def Replays (s : Network S ι) : Action S ι → Prop
  | .send _ _ _ _ _ random => ∀ q, random.ea ∉ s.used q
  | .present _ frame _ newDhs => (∀ q, newDhs ∉ s.used q) ∧ ∃ q, ∃ body ∈ s.produced q,
      Base64.base64ToBytes frame.bodyB64 = Base64.base64ToBytes body

/-- A handshake envelope, by its version byte. -/
def Opening (envelope : Bytes) : Prop := envelope.head? = some handshakeEnvelopeVersion

instance : DecidablePred Opening := fun envelope =>
  inferInstanceAs (Decidable (envelope.head? = some handshakeEnvelopeVersion))

/-- The three parts of the stored data that a refused frame must not change. -/
def SameStorage (dev dev' : Device S) : Prop :=
  dev'.sessions = dev.sessions ∧ dev'.sessionIndex = dev.sessionIndex ∧ dev'.messages = dev.messages

/-- At most once acceptance, up to handshakes the relay got accepted again. -/
structure AtMostOnce (s : Network S ι) : Prop where
  /-- A ratchet envelope recurs only after an accepted handshake was accepted again. -/
  ratchet (p : ι) (userId : JsString) : OncePerReset Opening (s.accepted p userId)
  contact {p : ι} {userId userId' : JsString} {envelope : Bytes} :
    envelope ∈ s.accepted p userId → envelope ∈ s.accepted p userId' → userId = userId'
  /-- While no handshake is accepted twice, nothing is. -/
  nodup (p : ι) (userId : JsString) :
    ((s.accepted p userId).filter Opening).Nodup → (s.accepted p userId).Nodup
  /-- Presenting an accepted ratchet envelope again changes nothing, unless an accepted
  handshake was accepted again since. -/
  unchanged {p : ι} {userId : JsString} {before after : List Bytes} {frame : Frame}
    {createdAt : JsString} {newDhs : S.X25519Secret} :
    s.accepted p userId = before ++ Base64.base64ToBytes frame.bodyB64 :: after →
    ¬ Opening (Base64.base64ToBytes frame.bodyB64) → (∀ h ∈ after, Opening h → h ∉ before) →
    Replays s (.present p frame createdAt newDhs) →
    SameStorage (s.device p)
      (processMessageFrame (dir.context p) frame createdAt newDhs (s.device p))

end Network

end Epistl
