import Epistl.Ratchet.Acceptance
import Epistl.Runs.Machine
import Mathlib.Logic.Function.Basic

/-! # The shared session of `crypto/notificationDecrypt.ts`

The storage that the notification process and the main app share for one contact, and
`receiveLocked` as one undivided operation on it. `SessionStore.write` is the compare
and set that its contract asks for.
-/
namespace Epistl.Shared
variable {S : Suite}

structure StoredSession (S : Suite) where
  state : RatchetState S
  generation : ℕ

structure StoredDecrypted where
  envelopeDigest : Bytes
  plaintext : Bytes
  deriving Repr, DecidableEq

/-- What is stored for the contact. -/
structure SessionStore (S : Suite) where
  session : Option (StoredSession S)
  decrypted : JsString → Option StoredDecrypted

namespace SessionStore

/-- The stored generation, 0 when no session exists. -/
def generation (store : SessionStore S) : ℕ :=
  match store.session with
  | none => 0
  | some stored => stored.generation

/-- `none` is the result `stale`. -/
def write (store : SessionStore S) (state : RatchetState S) (expectedGeneration : ℕ)
    (decrypted : Option (JsString × StoredDecrypted)) : Option (SessionStore S) :=
  if store.generation = expectedGeneration then
    some {
      session := some ⟨state, expectedGeneration + 1⟩
      decrypted := match decrypted with
        | none => store.decrypted
        | some (messageId, record) => Function.update store.decrypted messageId (some record) }
  else none

def deleteDecrypted (store : SessionStore S) (messageId : JsString) : SessionStore S :=
  { store with decrypted := Function.update store.decrypted messageId none }

end SessionStore

inductive NotificationDecryptFailureReason where
  | noSession
  | fetchFailed
  | lockTimeout
  | corruptEnvelope
  | unsupportedEnvelope
  | decryptFailure
  | stateConflict
  | storageError
  deriving Repr, DecidableEq

inductive ReceiveResult where
  | success (plaintext : Bytes)
  | failure (reason : NotificationDecryptFailureReason)
  deriving Repr, DecidableEq

inductive NotificationDecryptResult where
  | success (senderUserId previewText : JsString)
  | failure (reason : NotificationDecryptFailureReason)
  deriving Repr, DecidableEq

/-- What `notificationDecrypt` makes of the result of `receiveLocked`. -/
def ReceiveResult.preview (fromUserId : JsString) : ReceiveResult → NotificationDecryptResult
  | success plaintext => .success fromUserId (JsString.decodeUtf8Bytes plaintext)
  | failure reason => .failure reason

/-- The message a call is about. The relay chooses both. -/
structure Request where
  messageId : JsString
  envelope : Bytes
  deriving Repr, DecidableEq

/-- What every call is given: the hash function, the contact and the own user id. -/
structure Deps where
  sha256 : Bytes → Bytes
  selfUserId : JsString
  contactUserId : JsString

def bytesEqual (a b : Bytes) : Bool :=
  if a.length ≠ b.length then false else (a.zip b).all fun p => p.1 == p.2

theorem bytesEqual_iff {a b : Bytes} : bytesEqual a b = true ↔ a = b := by
  induction a generalizing b with
  | nil => cases b <;> simp [bytesEqual]
  | cons x a ih =>
    cases b with
    | nil => simp [bytesEqual]
    | cons y b =>
      rw [List.cons_eq_cons, ← ih]
      simp only [bytesEqual, List.length_cons, List.zip_cons_cons, List.all_cons]
      split <;> split <;> simp_all

variable (deps : Deps)

def Request.digest (r : Request) : Bytes := deps.sha256 r.envelope

/-- Stored plaintext for `messageId`, only if bound to this exact envelope. -/
def cachedFor (store : SessionStore S) (r : Request) : Option Bytes :=
  match store.decrypted r.messageId with
  | none => none
  | some cached =>
    if bytesEqual cached.envelopeDigest (r.digest deps) then some cached.plaintext else none

/-- The checks of the version byte. -/
def refusedVersion (envelope : Bytes) : Option NotificationDecryptFailureReason :=
  if 0 < envelope.length ∧ envelope.getD 0 0 = handshakeEnvelopeVersion then
    some .unsupportedEnvelope
  else if envelope.length = 0 ∨ envelope.getD 0 0 ≠ ratchetEnvelopeVersion then
    some .corruptEnvelope
  else none

/-- The reason reported for a decoder's. -/
def decodeFailure : FailureReason → NotificationDecryptFailureReason
  | .malformed | .unrecognizedVersion => .corruptEnvelope
  | .signatureFailure | .rejected | .aeadFailure => .decryptFailure

/-- The decoding of a request from a session that was read. An exception of the decoder
is caught like one of the storage. -/
def decode (r : Request) (stored : StoredSession S) (senderKey : Bytes)
    (newDhs : S.X25519Secret) :
    Except NotificationDecryptFailureReason (Bytes × RatchetState S) :=
  match decodeRatchetEnvelope r.envelope
      ⟨stored.state, senderKey, deps.selfUserId, deps.contactUserId⟩ newDhs with
  | .error _ => .error .storageError
  | .ok (.failure reason) => .error (decodeFailure reason)
  | .ok (.success plaintext nextState) => .ok (plaintext, nextState)

/-- The write of `receiveLocked`. -/
def writeDecoded (r : Request) (stored : StoredSession S) (plaintext : Bytes)
    (nextState : RatchetState S) (store : SessionStore S) : Option (SessionStore S) :=
  store.write nextState stored.generation (some (r.messageId, ⟨r.digest deps, plaintext⟩))

/-- `receiveLocked` with nothing happening in between. -/
def receiveLocked (r : Request) (senderKey : Option Bytes) (newDhs : S.X25519Secret)
    (store : SessionStore S) : SessionStore S × ReceiveResult :=
  match store.session with
  | none => (store, .failure .noSession)
  | some stored =>
    match cachedFor deps store r with
    | some plaintext => (store, .success plaintext)
    | none =>
      match refusedVersion r.envelope, senderKey with
      | some reason, _ => (store, .failure reason)
      | none, none => (store, .failure .noSession)
      | none, some senderKey =>
        match decode deps r stored senderKey newDhs with
        | .error reason => (store, .failure reason)
        | .ok (plaintext, nextState) =>
          match writeDecoded deps r stored plaintext nextState store with
          | none => (store, .failure .stateConflict)
          | some store => (store, .success plaintext)

/-- What happens to the store in one piece: a message that advances the ratchet, a reply
from the cache, and the main app's removal of a record. -/
inductive Event (S : Suite) where
  | advanced (r : Request) (senderKey : Bytes) (newDhs : S.X25519Secret) (plaintext : Bytes)
  | replied (r : Request) (plaintext : Bytes)
  | deleted (messageId : JsString)

namespace Event

/-- The request that advanced the ratchet, with the plaintext it yielded. -/
def advance : Event S → Option (Request × Bytes)
  | advanced r _ _ plaintext => some (r, plaintext)
  | replied .. | deleted _ => none

/-- The event is a call of `receiveLocked` or a deletion, undisturbed. -/
def step (store : SessionStore S) : Event S → Option (SessionStore S)
  | advanced r senderKey newDhs plaintext =>
    let (store', result) := receiveLocked deps r (some senderKey) newDhs store
    if cachedFor deps store r = none ∧ result = .success plaintext then some store' else none
  | replied r plaintext =>
    if store.session.isSome = true ∧ cachedFor deps store r = some plaintext then some store
    else none
  | deleted messageId => some (store.deleteDecrypted messageId)

end Event

/-- The shared session as it would be with every call undivided. -/
def atomic (session : Option (StoredSession S)) : Machine (SessionStore S) (Event S) where
  init store := store = ⟨session, fun _ => none⟩
  step := Event.step deps

end Epistl.Shared
