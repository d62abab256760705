import Epistl.Shared.Store

/-! # Processes that share one session

Any number of calls of `notificationDecrypt` and `receiveEnvelopeShared` run against the
store, and a step resumes one of them at its await. The lock grants itself to whoever
asks. A call that takes no further step is a process that died.
-/
namespace Epistl.Shared
variable {S : Suite}

/-- An envelope the contact makes, on a chain of its own. -/
inductive Encoded (S : Suite) where
  | handshake (chain : Chain S) (kyberCiphertext plaintext : Bytes) (contactUserId : JsString)
      (random : EncodeRandom)
  | ratchet (chain : Chain S) (previousChainLength messageNumber : ℕ) (plaintext : Bytes)
      (contactUserId : JsString) (random : EncodeRandom)

namespace Encoded

def chain : Encoded S → Chain S
  | handshake chain .. | ratchet chain .. => chain

def plaintext : Encoded S → Bytes
  | handshake _ _ plaintext .. | ratchet _ _ _ plaintext .. => plaintext

def envelope (contact : Identity S) : Encoded S → Bytes
  | handshake chain kyberCiphertext plaintext contactUserId random =>
    encodeHandshakeEnvelope chain.publicKey kyberCiphertext (chain.messageKey 0) plaintext
      contact.userId contactUserId contact.dilithiumSecretKey random
  | ratchet chain previousChainLength messageNumber plaintext contactUserId random =>
    encodeRatchetEnvelope ⟨chain.publicKey, previousChainLength, messageNumber⟩
      (chain.messageKey messageNumber) plaintext contact.userId contactUserId
      contact.dilithiumSecretKey random

end Encoded

/-- What a call awaits. -/
inductive Call (S : Suite) where
  /-- `fetchEnvelope`, in `notificationDecrypt` -/
  | fetching
  /-- `lock.acquire` -/
  | acquiring (r : Request)
  /-- `sessionStore.read` -/
  | reading (r : Request)
  /-- `getDecrypted`, before decoding -/
  | checking (r : Request) (stored : StoredSession S)
  /-- `resolveSenderKey` -/
  | resolving (r : Request) (stored : StoredSession S)
  /-- `sessionStore.write`, of what `senderKey` and `newDhs` made of `stored` -/
  | writing (r : Request) (stored : StoredSession S) (senderKey : Bytes)
      (newDhs : S.X25519Secret) (plaintext : Bytes) (nextState : RatchetState S)
  /-- `getDecrypted`, after a lost race -/
  | rechecking (r : Request)
  | returned (r : Option Request) (result : ReceiveResult)

/-- How a `write` comes back: with its result, or by throwing, before or after it took
place. -/
inductive Answer where
  | result
  | failed
  | lost
  deriving Repr, DecidableEq

/-- The store with the calls that were started on it. `ours` are the ratchet secrets on
this side and `theirs` those of the contact, which made the envelopes in `produced`. -/
structure System (S : Suite) where
  store : SessionStore S
  calls : List (Call S)
  ours : List S.X25519Secret
  theirs : List S.X25519Secret
  produced : List (Encoded S)
  history : List (Event S)

namespace System

inductive Action (S : Suite) where
  /-- the contact generates a ratchet key -/
  | generate (secret : S.X25519Secret)
  /-- the contact makes an envelope -/
  | produce (message : Encoded S)
  /-- the main app removes a record it has ingested -/
  | deleteDecrypted (messageId : JsString)
  | notificationDecrypt
  | receiveEnvelopeShared (r : Request)
  | fetched (i : ℕ) (r : Option Request)
  | acquired (i : ℕ) (granted : Bool)
  | read (i : ℕ) (throws : Bool)
  | checked (i : ℕ) (throws : Bool)
  /-- `none` when `resolveSenderKey` throws -/
  | resolved (i : ℕ) (senderKey : Option (Option Bytes)) (newDhs : S.X25519Secret)
  | wrote (i : ℕ) (answer : Answer)
  | rechecked (i : ℕ) (throws : Bool)

variable (deps : Deps)

/-- Call `i` moves on. -/
def put (s : System S) (i : ℕ) (call : Call S) : System S := { s with calls := s.calls.set i call }

def fail (s : System S) (i : ℕ) (r : Request) (reason : NotificationDecryptFailureReason) :
    System S :=
  s.put i (.returned (some r) (.failure reason))

/-- Call `i` returns a plaintext from the cache. -/
def reply (s : System S) (i : ℕ) (r : Request) (plaintext : Bytes) : System S :=
  { s.put i (.returned (some r) (.success plaintext)) with
    history := s.history ++ [.replied r plaintext] }

/-- The awaited `getDecrypted` takes place, before decoding. -/
def check (s : System S) (i : ℕ) (r : Request) (stored : StoredSession S) : System S :=
  match cachedFor deps s.store r with
  | some plaintext => s.reply i r plaintext
  | none =>
    match refusedVersion r.envelope with
    | some reason => s.fail i r reason
    | none => s.put i (.resolving r stored)

/-- The sender's key is there and the envelope is decoded. -/
def resolve (s : System S) (i : ℕ) (r : Request) (stored : StoredSession S)
    (senderKey : Option Bytes) (newDhs : S.X25519Secret) : System S :=
  match senderKey with
  | none => s.fail i r .noSession
  | some senderKey =>
    match decode deps r stored senderKey newDhs with
    | .error reason => s.fail i r reason
    | .ok (plaintext, nextState) =>
      s.put i (.writing r stored senderKey newDhs plaintext nextState)

/-- The awaited `write` succeeds. -/
def commit (s : System S) (store : SessionStore S) (r : Request) (senderKey : Bytes)
    (newDhs : S.X25519Secret) (plaintext : Bytes) : System S :=
  { s with
    store := store
    history := s.history ++ [.advanced r senderKey newDhs plaintext] }

/-- The awaited `write` takes place. -/
def write (s : System S) (i : ℕ) (answer : Answer) (r : Request) (stored : StoredSession S)
    (senderKey : Bytes) (newDhs : S.X25519Secret) (plaintext : Bytes)
    (nextState : RatchetState S) : System S :=
  match answer, writeDecoded deps r stored plaintext nextState s.store with
  | .failed, _ => s.fail i r .storageError
  | .result, none => s.put i (.rechecking r)
  | .result, some store => (s.commit store r senderKey newDhs plaintext).put i
      (.returned (some r) (.success plaintext))
  | .lost, none => s.fail i r .storageError
  | .lost, some store => (s.commit store r senderKey newDhs plaintext).fail i r .storageError

def step (s : System S) : Action S → Option (System S)
  | .generate secret => some { s with theirs := secret :: s.theirs }
  | .produce message => some { s with produced := s.produced ++ [message] }
  | .deleteDecrypted messageId => some { s with
      store := s.store.deleteDecrypted messageId
      history := s.history ++ [.deleted messageId] }
  | .notificationDecrypt => some { s with calls := s.calls ++ [.fetching] }
  | .receiveEnvelopeShared r => some { s with calls := s.calls ++ [.acquiring r] }
  | .fetched i r =>
    match s.calls[i]?, r with
    | some .fetching, none => some (s.put i (.returned none (.failure .fetchFailed)))
    | some .fetching, some r => some (s.put i (.acquiring r))
    | _, _ => none
  | .acquired i granted =>
    match s.calls[i]? with
    | some (.acquiring r) =>
      some (if granted then s.put i (.reading r) else s.fail i r .lockTimeout)
    | _ => none
  | .read i throws =>
    match s.calls[i]? with
    | some (.reading r) =>
      if throws then some (s.fail i r .storageError)
      else match s.store.session with
        | none => some (s.fail i r .noSession)
        | some stored => some (s.put i (.checking r stored))
    | _ => none
  | .checked i throws =>
    match s.calls[i]? with
    | some (.checking r stored) =>
      some (if throws then s.fail i r .storageError else s.check deps i r stored)
    | _ => none
  | .resolved i senderKey newDhs =>
    match s.calls[i]?, senderKey with
    | some (.resolving r _), none => some (s.fail i r .storageError)
    | some (.resolving r stored), some senderKey =>
      some { s.resolve deps i r stored senderKey newDhs with ours := newDhs :: s.ours }
    | _, _ => none
  | .wrote i answer =>
    match s.calls[i]? with
    | some (.writing r stored senderKey newDhs plaintext nextState) =>
      some (s.write deps i answer r stored senderKey newDhs plaintext nextState)
    | _ => none
  | .rechecked i throws =>
    match s.calls[i]? with
    | some (.rechecking r) =>
      if throws then some (s.fail i r .storageError)
      else match cachedFor deps s.store r with
        | some plaintext => some (s.reply i r plaintext)
        | none => some (s.fail i r .stateConflict)
    | _ => none

variable (contact : Identity S)

/-- The envelope is one the contact has made. -/
def Honest (s : System S) (r : Request) : Prop :=
  ∃ message ∈ s.produced, message.envelope contact = r.envelope

/-- Every call is about an envelope of the contact, the contact makes envelopes on its
own secrets, and a new ratchet secret is one nobody has used before. -/
def Permits (s : System S) : Action S → Prop
  | .generate secret => secret ∉ s.ours ∧ secret ∉ s.theirs
  | .produce message => message.chain.secret ∈ s.theirs
  | .receiveEnvelopeShared r | .fetched _ (some r) => s.Honest contact r
  | .resolved _ _ newDhs => newDhs ∉ s.ours ∧ newDhs ∉ s.theirs ∧
      ∀ message ∈ s.produced, message.chain.peer ≠ newDhs
  | _ => True

/-- Nothing is running and nothing has been decrypted yet; the session is any session
whose ratchet secret is not one of the contact's. -/
structure Init (session : Option (StoredSession S)) (s : System S) : Prop where
  store : s.store = ⟨session, fun _ => none⟩
  calls : s.calls = []
  history : s.history = []
  ours : ∀ stored, session = some stored → stored.state.dhsSecretKey ∈ s.ours
  disjoint : ∀ secret ∈ s.ours, secret ∉ s.theirs
  produced : ∀ message ∈ s.produced, message.chain.secret ∈ s.theirs

def machine (session : Option (StoredSession S)) : Machine (System S) (Action S) where
  init := Init session
  step := step deps

end System

end Epistl.Shared
