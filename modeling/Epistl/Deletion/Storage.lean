import Epistl.Inbox.Calls

/-! # What the account deletion wipes

The stored secrets of a device, the accesses that store one, and the four deletions that
`handleConfirmDelete` runs side by side, each `SecureStore` or database access a step of
its own.
-/
namespace Epistl.Deletion
variable {S : Suite}

/-- The six entries of the stored identity. -/
inductive KeyName where
  | kyberSecretKey
  | kyberPublicKey
  | dilithiumSecretKey
  | dilithiumPublicKey
  | x25519SecretKey
  | x25519PublicKey
  deriving Repr, DecidableEq

def KeyName.all : List KeyName :=
  [kyberSecretKey, kyberPublicKey, dilithiumSecretKey, dilithiumPublicKey, x25519SecretKey,
    x25519PublicKey]

@[simp] theorem KeyName.mem_all (name : KeyName) : name ∈ all := by
  cases name <;> decide

def KeyName.Value (S : Suite) : KeyName → Type
  | kyberSecretKey => S.KyberSecret
  | dilithiumSecretKey => S.DilithiumSecret
  | x25519SecretKey => S.X25519Secret
  | kyberPublicKey | dilithiumPublicKey | x25519PublicKey => Bytes

def IdentityKeys (S : Suite) : Type := (name : KeyName) → name.Value S

/-- `generateIdentity`, from the secret keys that were drawn. -/
def generateIdentity (kyber : S.KyberSecret) (dilithium : S.DilithiumSecret)
    (x25519 : S.X25519Secret) : IdentityKeys S
  | .kyberSecretKey => kyber
  | .kyberPublicKey => S.kyberPublicKey kyber
  | .dilithiumSecretKey => dilithium
  | .dilithiumPublicKey => S.dilithiumPublicKey dilithium
  | .x25519SecretKey => x25519
  | .x25519PublicKey => S.x25519PublicKey x25519

def IdentityKeys.identity (keys : IdentityKeys S) (userId : JsString) : Identity S where
  userId := userId
  x25519SecretKey := keys .x25519SecretKey
  kyberSecretKey := keys .kyberSecretKey
  dilithiumSecretKey := keys .dilithiumSecretKey

/-- What is stored. An absent session index is the empty one. -/
structure Storage (S : Suite) where
  userId : Option JsString
  keys : (name : KeyName) → Option (name.Value S)
  sessions : JsString → Option (RatchetState S)
  sessionIndex : List JsString
  messages : List StoredMessage

/-- An access that stores a secret. -/
inductive Secret (S : Suite) where
  | session (contactUserId : JsString) (state : RatchetState S)
  /-- the write of `addToSessionIndex`, from the index it has read -/
  | sessionIndex (index : List JsString) (contactUserId : JsString)
  | key (name : KeyName) (value : name.Value S)
  | message (message : StoredMessage)

namespace Storage

def put (store : Storage S) : Secret S → Storage S
  | .session contactUserId state =>
    { store with sessions := Function.update store.sessions contactUserId (some state) }
  | .sessionIndex index contactUserId => { store with sessionIndex := index ++ [contactUserId] }
  | .key name value => { store with keys := Function.update store.keys name (some value) }
  | .message message => { store with messages := store.messages ++ [message] }

@[simp] theorem sessions_put (store : Storage S) (contactUserId : JsString)
    (state : RatchetState S) : (store.put (.session contactUserId state)).sessions =
      Function.update store.sessions contactUserId (some state) := rfl

@[simp] theorem keys_put (store : Storage S) (name : KeyName) (value : name.Value S) :
    (store.put (.key name value)).keys = Function.update store.keys name (some value) := rfl

/-- No secret is left. -/
structure Clean (store : Storage S) : Prop where
  sessions (contactUserId : JsString) : store.sessions contactUserId = none
  sessionIndex : store.sessionIndex = []
  keys (name : KeyName) : store.keys name = none
  messages : store.messages = []

end Storage

/-- Where `clearAllSessions` stands. -/
inductive ClearAllSessions where
  /-- before its read of the index -/
  | reading
  /-- with the contacts whose deletes are under way, and those whose deletes failed -/
  | deleting (left failed : List JsString)
  | deletingIndex
  | writingIndex (failed : List JsString)
  | resolved
  | rejected
  deriving Repr, DecidableEq

/-- Where the `Promise.all` of `handleConfirmDelete` stands. -/
structure Wipe where
  session : Bool
  /-- the entries `clearIdentity` has not deleted yet -/
  keys : List KeyName
  sessions : ClearAllSessions
  messages : Bool
  deriving Repr, DecidableEq

namespace Wipe

def start : Wipe := ⟨false, KeyName.all, .reading, false⟩

def resolved (w : Wipe) : Bool :=
  w.session && w.keys.isEmpty && decide (w.sessions = .resolved) && w.messages

inductive Action where
  | clearSession
  | deleteKey (name : KeyName)
  | readIndex
  | deleteSession (contactUserId : JsString) (deleted : Bool)
  /-- `Promise.allSettled` is done -/
  | settled
  | deleteIndex
  | writeIndex
  | clearAllMessages
  deriving Repr, DecidableEq

/-- One access of the wipe, or what follows one. -/
def step (w : Wipe) (store : Storage S) : Action → Option (Wipe × Storage S)
  | .clearSession =>
    if w.session then none else some ({ w with session := true }, { store with userId := none })
  | .deleteKey name =>
    if name ∈ w.keys then
      some ({ w with keys := w.keys.erase name },
        { store with keys := Function.update store.keys name none })
    else none
  | .readIndex =>
    match w.sessions with
    | .reading => some ({ w with sessions := .deleting store.sessionIndex [] }, store)
    | _ => none
  | .deleteSession contactUserId deleted =>
    match w.sessions with
    | .deleting left failed =>
      if contactUserId ∈ left then
        if deleted then
          some ({ w with sessions := .deleting (left.erase contactUserId) failed },
            { store with sessions := Function.update store.sessions contactUserId none })
        else
          some ({ w with
            sessions := .deleting (left.erase contactUserId) (failed ++ [contactUserId]) }, store)
      else none
    | _ => none
  | .settled =>
    match w.sessions with
    | .deleting [] [] => some ({ w with sessions := .deletingIndex }, store)
    | .deleting [] failed => some ({ w with sessions := .writingIndex failed }, store)
    | _ => none
  | .deleteIndex =>
    match w.sessions with
    | .deletingIndex => some ({ w with sessions := .resolved }, { store with sessionIndex := [] })
    | _ => none
  | .writeIndex =>
    match w.sessions with
    | .writingIndex failed =>
      some ({ w with sessions := .rejected }, { store with sessionIndex := failed })
    | _ => none
  | .clearAllMessages =>
    if w.messages then none else some ({ w with messages := true }, { store with messages := [] })

/-- The session of the contact is still to be deleted. -/
def Awaits (w : Wipe) (contactUserId : JsString) : Prop :=
  match w.sessions with
  | .reading => True
  | .deleting left _ => contactUserId ∈ left
  | _ => False

/-- A secret that is stored now is still deleted: what deletes it has not come yet. -/
def Covers (w : Wipe) : Secret S → Prop
  | .session contactUserId _ => w.Awaits contactUserId
  | .sessionIndex _ _ => w.sessions ≠ .resolved
  | .key name _ => name ∈ w.keys
  | .message _ => w.messages = false

/-- Every stored session is in the stored index. -/
def Listed (store : Storage S) : Prop :=
  ∀ contactUserId, store.sessions contactUserId ≠ none → contactUserId ∈ store.sessionIndex

/-- The condition on a step of the wipe: it reads the index when every stored session is in
it. -/
def Fit (store : Storage S) (a : Action) : Prop := a = .readIndex → Listed store

end Wipe
end Epistl.Deletion
