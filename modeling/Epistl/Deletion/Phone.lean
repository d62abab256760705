import Epistl.Deletion.Storage

/-! # Deleting the account while calls run

`processMessageFrame` and `handleSend` for any contacts, the loading of their context with
`ensureLocalIdentity`, `stopInboxListener` and the wipe of `handleConfirmDelete`,
interleaved at their await points. What the server and the network answer is part of the
action.
-/
namespace Epistl.Deletion
variable {S : Suite}

/-- An `ensureLocalIdentityUncached` that was started. -/
inductive EnsureIdentity (S : Suite) where
  /-- with the stored entries that were read -/
  | loading (read : (name : KeyName) → Option (Option (name.Value S)))
  /-- with the entries that are still to be written -/
  | persisting (keys : IdentityKeys S) (left : List KeyName)
  | ready (keys : IdentityKeys S)

/-- `loadStoredKeys`, when all reads are back. -/
def storedKeys (read : (name : KeyName) → Option (Option (name.Value S))) :
    Option (IdentityKeys S) := do
  let kyberSecretKey ← (read .kyberSecretKey).join
  let kyberPublicKey ← (read .kyberPublicKey).join
  let dilithiumSecretKey ← (read .dilithiumSecretKey).join
  let dilithiumPublicKey ← (read .dilithiumPublicKey).join
  let x25519SecretKey ← (read .x25519SecretKey).join
  let x25519PublicKey ← (read .x25519PublicKey).join
  return fun
    | .kyberSecretKey => kyberSecretKey
    | .kyberPublicKey => kyberPublicKey
    | .dilithiumSecretKey => dilithiumSecretKey
    | .dilithiumPublicKey => dilithiumPublicKey
    | .x25519SecretKey => x25519SecretKey
    | .x25519PublicKey => x25519PublicKey

/-- The promise of a `loadContext`: its `ensureLocalIdentity`, and what `getUserId` read. -/
structure LoadContext where
  identity : ℕ
  userId : Option (Option JsString)
  deriving Repr, DecidableEq

/-- The context a call waits for, or has. -/
inductive Loaded (S : Suite) where
  | awaiting (context : ℕ)
  | loaded (context : Option (Identity S))

/-- What a call awaits. -/
inductive Call (S : Suite) where
  /-- `loadContext` and `findContactBundle`, in `processMessageFrame` -/
  | looking (frame : Frame) (createdAt : JsString) (context : Loaded S)
      (bundle : Option (Option ContactKeyBundle))
  /-- `loadSession`, in `processMessageFrame` -/
  | loading (frame : Frame) (createdAt : JsString) (identity : Identity S)
      (bundle : ContactKeyBundle)
  /-- `loadSession`, in `handleSend` -/
  | sending (contactUserId text createdAt : JsString) (identity : Identity S)
      (contact : ContactKeyBundle)
  /-- the first storage write of `saveSession` -/
  | writing (contactUserId : JsString) (next : RatchetState S) (outcome : Outcome)
  /-- the read of `addToSessionIndex` -/
  | indexing (contactUserId : JsString) (outcome : Outcome)
  /-- the write of `addToSessionIndex` -/
  | indexWriting (contactUserId : JsString) (index : List JsString) (outcome : Outcome)
  /-- `saveMessage` -/
  | saving (outcome : Outcome)
  /-- nothing, it only has to return -/
  | returning (event : Option InboxEvent)
  | done

structure Phone (S : Suite) where
  storage : Storage S
  wipe : Option Wipe
  subscribed : Bool
  contextPromise : Option ℕ
  inFlight : Option ℕ
  contexts : List LoadContext
  identities : List (EnsureIdentity S)
  calls : List (Call S)
  events : List InboxEvent

namespace Phone

inductive Action (S : Suite) where
  /-- the transport store shows a `message` frame -/
  | receive (frame : Frame) (createdAt : JsString)
  | readUserId (context : ℕ)
  | readKey (identity : ℕ) (name : KeyName)
  /-- all keys are read; the secrets are for an identity that has to be generated -/
  | keysRead (identity : ℕ) (kyber : S.KyberSecret) (dilithium : S.DilithiumSecret)
      (x25519 : S.X25519Secret)
  | persistKey (identity : ℕ) (name : KeyName)
  | contextLoaded (i : ℕ)
  | found (i : ℕ) (bundle : Option ContactKeyBundle)
  /-- `handleSend`, with the identity and the contact its screen has loaded -/
  | send (contactUserId draft createdAt : JsString) (connected : Bool)
      (screen : Option (Identity S × ContactKeyBundle))
  | resume (i : ℕ) (newDhs : S.X25519Secret) (random : SendRandom S)
  | stopInboxListener
  /-- `deleteAccount` has succeeded -/
  | confirmDelete
  | wipe (a : Wipe.Action)

def put (s : Phone S) (i : ℕ) (call : Call S) : Phone S := { s with calls := s.calls.set i call }

/-- An `ensureLocalIdentity` moves on. -/
def advance (s : Phone S) (identity : ℕ) (task : EnsureIdentity S) : Phone S :=
  { s with identities := s.identities.set identity task }

def emit (s : Phone S) (event : InboxEvent) : Phone S := { s with events := s.events ++ [event] }

def store (s : Phone S) (x : Secret S) : Phone S := { s with storage := s.storage.put x }

/-- The `ensureLocalIdentity` a caller waits for. -/
def ensureLocalIdentity (s : Phone S) : Phone S × ℕ :=
  match s.inFlight with
  | some identity => (s, identity)
  | none => ({ s with
      identities := s.identities ++ [.loading fun _ => none]
      inFlight := some s.identities.length }, s.identities.length)

/-- `ensureLocalIdentity` has settled. -/
def settleIdentity (s : Phone S) (identity : ℕ) (keys : IdentityKeys S) : Phone S :=
  { s.advance identity (.ready keys) with
    inFlight := if s.inFlight = some identity then none else s.inFlight }

/-- The context a call of `loadContext` waits for. -/
def loadContext (s : Phone S) : Phone S × ℕ :=
  match s.contextPromise with
  | some context => (s, context)
  | none =>
    let (s, identity) := s.ensureLocalIdentity
    ({ s with
      contexts := s.contexts ++ [⟨identity, none⟩]
      contextPromise := some s.contexts.length }, s.contexts.length)

/-- What a context promise has resolved to. -/
def context (s : Phone S) (context : ℕ) : Option (Option (Identity S)) := do
  let loading ← s.contexts[context]?
  let userId ← loading.userId
  match s.identities[loading.identity]? with
  | some (.ready keys) => return userId.map keys.identity
  | _ => none

/-- The end of `processMessageFrame`, from the result of the decoding. -/
def settle (s : Phone S) (i : ℕ) (contactUserId createdAt : JsString) :
    Except Thrown (Option (DecodeResult S)) → Phone S
  | .error _ => s.put i .done
  | .ok (some (.success plaintext next)) => s.put i (.writing contactUserId next
      ⟨incomingMessage contactUserId createdAt plaintext,
        some (.saved contactUserId createdAt (JsString.decodeUtf8Bytes plaintext))⟩)
  | .ok _ => (s.emit (.unverifiable contactUserId createdAt)).put i .done

/-- The decoding of a frame with the identity of its context. -/
def decode (identity : Identity S) (bundle : ContactKeyBundle) (frame : Frame)
    (session : Option (RatchetState S)) (newDhs : S.X25519Secret) :
    Except Thrown (Option (DecodeResult S)) :=
  decodeFrame ⟨identity, fun _ => some bundle⟩ bundle frame.sender
    (Base64.base64ToBytes frame.bodyB64) session newDhs

/-- The awaited access of call `i` takes place. -/
def resume (s : Phone S) (i : ℕ) (newDhs : S.X25519Secret) (random : SendRandom S) :
    Call S → Option (Phone S)
  | .looking frame createdAt (.loaded (some identity)) (some (some bundle)) =>
    if (Base64.base64ToBytes frame.bodyB64).head? = some ratchetEnvelopeVersion then
      some (s.put i (.loading frame createdAt identity bundle))
    else some (s.settle i frame.sender createdAt (decode identity bundle frame none newDhs))
  | .looking frame createdAt (.loaded _) (some _) =>
    some ((s.emit (.unverifiable frame.sender createdAt)).put i .done)
  | .looking .. => none
  | .loading frame createdAt identity bundle =>
    some (s.settle i frame.sender createdAt
      (decode identity bundle frame (s.storage.sessions frame.sender) newDhs))
  | .sending contactUserId text createdAt identity contact =>
    match sendEnvelope identity contactUserId contact (JsString.utf8Bytes text)
        (s.storage.sessions contactUserId) random with
    | .ok (some (_, next)) => some (s.put i (.writing contactUserId next
        ⟨⟨contactUserId, .outgoing, text, createdAt⟩, none⟩))
    | _ => some (s.put i .done)
  | .writing contactUserId next outcome =>
    some ((s.store (.session contactUserId next)).put i (.indexing contactUserId outcome))
  | .indexing contactUserId outcome =>
    if contactUserId ∈ s.storage.sessionIndex then some (s.put i (.saving outcome))
    else some (s.put i (.indexWriting contactUserId s.storage.sessionIndex outcome))
  | .indexWriting contactUserId index outcome =>
    some ((s.store (.sessionIndex index contactUserId)).put i (.saving outcome))
  | .saving outcome =>
    some ((s.store (.message outcome.message)).put i (.returning outcome.event))
  | .returning event =>
    some ((match event with
      | none => s
      | some event => s.emit event).put i .done)
  | .done => none

def step (s : Phone S) : Action S → Option (Phone S)
  | .receive frame createdAt =>
    if s.subscribed then
      let (s, context) := s.loadContext
      some { s with calls := s.calls ++ [.looking frame createdAt (.awaiting context) none] }
    else none
  | .readUserId context =>
    match s.contexts[context]? with
    | some ⟨identity, none⟩ =>
      some { s with contexts := s.contexts.set context ⟨identity, some s.storage.userId⟩ }
    | _ => none
  | .readKey identity name =>
    match s.identities[identity]? with
    | some (.loading read) =>
      if (read name).isNone then
        some (s.advance identity
          (.loading (Function.update read name (some (s.storage.keys name)))))
      else none
    | _ => none
  | .keysRead identity kyber dilithium x25519 =>
    match s.identities[identity]? with
    | some (.loading read) =>
      if KeyName.all.all fun name => (read name).isSome then
        match storedKeys read with
        | some keys => some (s.settleIdentity identity keys)
        | none => some (s.advance identity
            (.persisting (generateIdentity kyber dilithium x25519) KeyName.all))
      else none
    | _ => none
  | .persistKey identity name =>
    match s.identities[identity]? with
    | some (.persisting keys left) =>
      if name ∈ left then
        let s := s.store (.key name (keys name))
        if left.erase name = [] then some (s.settleIdentity identity keys)
        else some (s.advance identity (.persisting keys (left.erase name)))
      else none
    | _ => none
  | .contextLoaded i =>
    match s.calls[i]? with
    | some (.looking frame createdAt (.awaiting context) bundle) =>
      match s.context context with
      | some loaded => some { s.put i (.looking frame createdAt (.loaded loaded) bundle) with
          contextPromise := if loaded.isNone then none else s.contextPromise }
      | none => none
    | _ => none
  | .found i bundle =>
    match s.calls[i]? with
    | some (.looking frame createdAt context none) =>
      some (s.put i (.looking frame createdAt context (some bundle)))
    | _ => none
  | .send contactUserId draft createdAt connected screen =>
    let text := JsString.trim draft
    if text = [] ∨ connected = false then some s
    else
      match screen with
      | none => some s
      | some (identity, contact) => some { s with
          calls := s.calls ++ [.sending contactUserId text createdAt identity contact] }
  | .resume i newDhs random =>
    match s.calls[i]? with
    | none => none
    | some call => s.resume i newDhs random call
  | .stopInboxListener => some { s with subscribed := false, contextPromise := none }
  | .confirmDelete =>
    match s.wipe with
    | none => some { s with wipe := some .start }
    | some _ => none
  | .wipe a =>
    match s.wipe with
    | none => none
    | some w =>
      match w.step s.storage a with
      | some (w, storage) => some { s with wipe := some w, storage := storage }
      | none => none

/-- Nothing is running; anything may be stored. -/
structure Init (s : Phone S) : Prop where
  wipe : s.wipe = none
  contextPromise : s.contextPromise = none
  inFlight : s.inFlight = none
  contexts : s.contexts = []
  identities : s.identities = []
  calls : s.calls = []

def machine (S : Suite) : Machine (Phone S) (Action S) where
  init := Init
  step := step

/-- The wipe of `handleConfirmDelete` has resolved. -/
def Wiped (s : Phone S) : Prop := ∃ w, s.wipe = some w ∧ w.resolved = true

/-- The secret that an action stores. -/
def stores (s : Phone S) : Action S → Option (Secret S)
  | .resume i _ _ =>
    match s.calls[i]? with
    | some (.writing contactUserId next _) => some (.session contactUserId next)
    | some (.indexWriting contactUserId index _) => some (.sessionIndex index contactUserId)
    | some (.saving outcome) => some (.message outcome.message)
    | _ => none
  | .persistKey identity name =>
    match s.identities[identity]? with
    | some (.persisting keys left) => if name ∈ left then some (.key name (keys name)) else none
    | _ => none
  | _ => none

/-- The condition on a step: what it stores is still deleted by a wipe that has started, and
the wipe reads the index of the sessions when every stored session is in it. -/
def InTime (s : Phone S) (a : Action S) : Prop :=
  (∀ x w, s.stores a = some x → s.wipe = some w → w.Covers x) ∧
    ∀ b, a = .wipe b → Wipe.Fit s.storage b

end Phone
end Epistl.Deletion
