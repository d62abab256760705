import Epistl.Runs.Throwing
import Epistl.Shared.Store

/-! # Receiving with injected dependencies

The storage, the lock and the fetch of `crypto/notificationDecrypt.ts` are injected. Here
each of them is any computation on a state of its own that returns anything or throws, and
a call keeps a log of what it did through them.
-/
namespace Epistl.Shared
variable {S : Suite} {σ ρ : Type}

inductive WriteResult where
  | written (generation : ℕ)
  | stale
  deriving Repr, DecidableEq

/-- `NotificationDecryptDeps`, with the hash function. A lock hands out a `ρ` to release it
with. -/
structure NotificationDecryptDeps (S : Suite) (σ ρ : Type) where
  read : JsString → EStateM Thrown σ (Option (StoredSession S))
  write : JsString → RatchetState S → ℕ → JsString × StoredDecrypted → EStateM Thrown σ WriteResult
  getDecrypted : JsString → JsString → EStateM Thrown σ (Option StoredDecrypted)
  acquire : JsString → ℕ → EStateM Thrown σ (Option ρ)
  release : ρ → EStateM Thrown σ Unit
  fetchEnvelope : JsString → EStateM Thrown σ (Option Request)
  resolveSenderKey : JsString → EStateM Thrown σ (Option Bytes)
  selfUserId : JsString
  lockTimeoutMs : Option ℕ
  sha256 : Bytes → Bytes

def defaultLockTimeoutMs : ℕ := 5000

/-- What a call did through its dependencies. -/
inductive Effect (S : Suite) (ρ : Type) where
  | acquired (lock : ρ)
  | read (contactUserId : JsString) (stored : StoredSession S)
  /-- `none` is a `write` that threw -/
  | wrote (contactUserId : JsString) (state : RatchetState S) (expectedGeneration : ℕ)
      (messageId : JsString) (record : StoredDecrypted) (answer : Option WriteResult)
  | released (lock : ρ)

namespace Effect

/-- What an effect makes of the stored sessions. A `write` that throws or is stale has none. -/
def apply : Effect S ρ → (JsString → SessionStore S) → JsString → SessionStore S
  | wrote contactUserId state expectedGeneration messageId record (some (.written _)), stores =>
    Function.update stores contactUserId {
      session := some ⟨state, expectedGeneration + 1⟩
      decrypted := Function.update (stores contactUserId).decrypted messageId (some record) }
  | _, stores => stores

def lockAcquired : Effect S ρ → Option ρ
  | acquired lock => some lock
  | _ => none

def lockReleased : Effect S ρ → Option ρ
  | released lock => some lock
  | _ => none

end Effect

/-- What a call does to the stored sessions. -/
def applied (log : List (Effect S ρ)) (stores : JsString → SessionStore S) :
    JsString → SessionStore S :=
  log.foldl (fun stores effect => effect.apply stores) stores

/-- The state of the dependencies with the log of a call. -/
structure World (S : Suite) (σ ρ : Type) where
  inner : σ
  log : List (Effect S ρ)

/-- A call into a dependency, with what is logged when it returns and when it throws. -/
def perform {α : Type} (call : EStateM Thrown σ α) (returned : α → List (Effect S ρ))
    (threw : List (Effect S ρ)) : EStateM Thrown (World S σ ρ) α := fun w =>
  match call w.inner with
  | .ok a t => .ok a ⟨t, w.log ++ returned a⟩
  | .error e t => .error e ⟨t, w.log ++ threw⟩

namespace NotificationDecryptDeps
variable (deps : NotificationDecryptDeps S σ ρ)

def acquireLock (contactUserId : JsString) : EStateM Thrown (World S σ ρ) (Option ρ) :=
  perform (deps.acquire contactUserId (deps.lockTimeoutMs.getD defaultLockTimeoutMs))
    (fun lock => lock.toList.map .acquired) []

def releaseLock (lock : ρ) : EStateM Thrown (World S σ ρ) Unit :=
  perform (deps.release lock) (fun _ => [.released lock]) [.released lock]

def readSession (contactUserId : JsString) :
    EStateM Thrown (World S σ ρ) (Option (StoredSession S)) :=
  perform (deps.read contactUserId) (fun stored => stored.toList.map (.read contactUserId)) []

def writeSession (contactUserId : JsString) (state : RatchetState S) (expectedGeneration : ℕ)
    (messageId : JsString) (record : StoredDecrypted) :
    EStateM Thrown (World S σ ρ) WriteResult :=
  perform (deps.write contactUserId state expectedGeneration (messageId, record))
    (fun answer =>
      [.wrote contactUserId state expectedGeneration messageId record (some answer)])
    [.wrote contactUserId state expectedGeneration messageId record none]

/-- Stored plaintext for `messageId`, only if bound to this exact envelope. -/
def cachedFor (contactUserId messageId : JsString) (digest : Bytes) :
    EStateM Thrown (World S σ ρ) (Option Bytes) := do
  let cached ← perform (deps.getDecrypted contactUserId messageId) (fun _ => []) []
  match cached with
  | none => return none
  | some cached =>
    return if bytesEqual cached.envelopeDigest digest then some cached.plaintext else none

/-- `receiveLocked` from the write on. -/
def receiveDecoded (contactUserId : JsString) (r : Request) (stored : StoredSession S)
    (plaintext : Bytes) (nextState : RatchetState S) :
    EStateM Thrown (World S σ ρ) ReceiveResult := do
  let written ← deps.writeSession contactUserId nextState stored.generation r.messageId
    ⟨deps.sha256 r.envelope, plaintext⟩
  match written with
  | .written _ => return .success plaintext
  | .stale =>
    -- the other process may have won the race for this very message
    let winner ← deps.cachedFor contactUserId r.messageId (deps.sha256 r.envelope)
    match winner with
    | some winner => return .success winner
    | none => return .failure .stateConflict

/-- `receiveLocked` from the sender's key on. -/
def receiveResolved (contactUserId : JsString) (r : Request) (stored : StoredSession S)
    (newDhs : S.X25519Secret) : EStateM Thrown (World S σ ρ) ReceiveResult := do
  let senderKey ← perform (deps.resolveSenderKey contactUserId) (fun _ => []) []
  match senderKey with
  | none => return .failure .noSession
  | some senderKey =>
    match decodeRatchetEnvelope r.envelope
        ⟨stored.state, senderKey, deps.selfUserId, contactUserId⟩ newDhs with
    | .error e => throw e
    | .ok (.failure reason) => return .failure (decodeFailure reason)
    | .ok (.success plaintext nextState) =>
      deps.receiveDecoded contactUserId r stored plaintext nextState

/-- The `try` block of `receiveLocked`. -/
def receiveHeld (contactUserId : JsString) (r : Request) (newDhs : S.X25519Secret) :
    EStateM Thrown (World S σ ρ) ReceiveResult := do
  let stored ← deps.readSession contactUserId
  match stored with
  | none => return .failure .noSession
  | some stored =>
    let cached ← deps.cachedFor contactUserId r.messageId (deps.sha256 r.envelope)
    match cached with
    | some cached => return .success cached
    | none =>
      match refusedVersion r.envelope with
      | some reason => return .failure reason
      | none => deps.receiveResolved contactUserId r stored newDhs

/-- `newDhs` is the ratchet secret that decoding generates. -/
def receiveLocked (contactUserId : JsString) (r : Request) (newDhs : S.X25519Secret) :
    EStateM Thrown (World S σ ρ) ReceiveResult := do
  let release ← tryCatch (deps.acquireLock contactUserId) fun _ => return none
  match release with
  | none => return .failure .lockTimeout
  | some release =>
    let result ← tryCatch (deps.receiveHeld contactUserId r newDhs) fun _ =>
      return .failure .storageError
    -- the `finally` block
    tryCatch (deps.releaseLock release) fun _ => return ()
    return result

def notificationDecrypt (fromUserId : JsString) (newDhs : S.X25519Secret) :
    EStateM Thrown (World S σ ρ) NotificationDecryptResult := do
  let fetched ← tryCatch (perform (deps.fetchEnvelope fromUserId) (fun _ => []) []) fun _ =>
    return none
  match fetched with
  | none => return .failure .fetchFailed
  | some r =>
    let result ← deps.receiveLocked fromUserId r newDhs
    return result.preview fromUserId

def receiveEnvelopeShared (contactUserId : JsString) (r : Request) (newDhs : S.X25519Secret) :
    EStateM Thrown (World S σ ρ) ReceiveResult := do
  let result ← deps.receiveLocked contactUserId r newDhs
  match result with
  | .failure reason => return .failure reason
  | .success plaintext => return .success plaintext

end NotificationDecryptDeps

open NotificationDecryptDeps

/-- Dependencies that answer from a store, with nothing happening in between. -/
def NotificationDecryptDeps.undisturbed (sha256 : Bytes → Bytes) (selfUserId : JsString)
    (senderKey : Option Bytes) : NotificationDecryptDeps S (SessionStore S) Unit where
  read _ := fun store => .ok store.session store
  write _ state expectedGeneration decrypted := fun store =>
    match store.write state expectedGeneration (some decrypted) with
    | none => .ok .stale store
    | some store => .ok (.written store.generation) store
  getDecrypted _ messageId := fun store => .ok (store.decrypted messageId) store
  acquire _ _ := fun store => .ok (some ()) store
  release _ := fun store => .ok () store
  fetchEnvelope _ := fun store => .ok none store
  resolveSenderKey _ := fun store => .ok senderKey store
  selfUserId := selfUserId
  lockTimeoutMs := none
  sha256 := sha256

section Undisturbed
variable (sha256 : Bytes → Bytes) (selfUserId contactUserId : JsString) (senderKey : Option Bytes)
  (r : Request) (newDhs : S.X25519Secret) (store : SessionStore S)

theorem perform_of_ok {α : Type} {call : EStateM Thrown σ α} {returned : α → List (Effect S ρ)}
    {threw : List (Effect S ρ)} {w : World S σ ρ} {a : α} {t : σ} (h : call w.inner = .ok a t) :
    perform call returned threw w = .ok a ⟨t, w.log ++ returned a⟩ := by
  rw [perform, h]

theorem undisturbed_cachedFor (log : List (Effect S Unit)) :
    (undisturbed sha256 selfUserId senderKey).cachedFor contactUserId r.messageId
      ((undisturbed (S := S) sha256 selfUserId senderKey).sha256 r.envelope) ⟨store, log⟩ =
        .ok (Shared.cachedFor ⟨sha256, selfUserId, contactUserId⟩ store r) ⟨store, log ++ []⟩ := by
  have hget : (undisturbed sha256 selfUserId senderKey).getDecrypted contactUserId r.messageId
      store = .ok (store.decrypted r.messageId) store := rfl
  rw [NotificationDecryptDeps.cachedFor, bind_of_ok (perform_of_ok hget), Shared.cachedFor]
  cases store.decrypted r.messageId <;> rfl

theorem undisturbed_write (stored : StoredSession S) (plaintext : Bytes)
    (nextState : RatchetState S) :
    (undisturbed sha256 selfUserId senderKey).write contactUserId nextState stored.generation
        (r.messageId, ⟨sha256 r.envelope, plaintext⟩) store =
      match writeDecoded ⟨sha256, selfUserId, contactUserId⟩ r stored plaintext nextState store with
      | none => .ok .stale store
      | some store => .ok (.written store.generation) store := rfl

/-- The write of `receiveLocked` and what follows. -/
theorem undisturbed_receiveDecoded (stored : StoredSession S) (plaintext : Bytes)
    (nextState : RatchetState S) (log : List (Effect S Unit))
    (hcached : Shared.cachedFor ⟨sha256, selfUserId, contactUserId⟩ store r = none) :
    ∃ log', (undisturbed sha256 selfUserId senderKey).receiveDecoded contactUserId r stored
        plaintext nextState ⟨store, log⟩ =
      match writeDecoded ⟨sha256, selfUserId, contactUserId⟩ r stored plaintext nextState store with
      | none => .ok (.failure .stateConflict) ⟨store, log'⟩
      | some store => .ok (.success plaintext) ⟨store, log'⟩ := by
  rw [receiveDecoded]
  cases hwrite : writeDecoded ⟨sha256, selfUserId, contactUserId⟩ r stored plaintext nextState
      store with
  | none =>
    have hstale : (undisturbed sha256 selfUserId senderKey).write contactUserId nextState
        stored.generation (r.messageId, ⟨sha256 r.envelope, plaintext⟩) store = .ok .stale store := by
      rw [undisturbed_write, hwrite]
    rw [writeSession, bind_of_ok (perform_of_ok hstale)]
    dsimp only
    rw [bind_of_ok (undisturbed_cachedFor ..), hcached]
    exact ⟨_, rfl⟩
  | some store' =>
    have hwritten : (undisturbed sha256 selfUserId senderKey).write contactUserId nextState
        stored.generation (r.messageId, ⟨sha256 r.envelope, plaintext⟩) store =
          .ok (.written store'.generation) store' := by
      rw [undisturbed_write, hwrite]
    rw [writeSession, bind_of_ok (perform_of_ok hwritten)]
    exact ⟨_, rfl⟩

theorem undisturbed_receiveHeld (log : List (Effect S Unit)) :
    ∃ log', tryCatch ((undisturbed sha256 selfUserId senderKey).receiveHeld contactUserId r newDhs)
        (fun _ => return .failure .storageError) ⟨store, log⟩ =
      .ok (Shared.receiveLocked ⟨sha256, selfUserId, contactUserId⟩ r senderKey newDhs store).2
        ⟨(Shared.receiveLocked ⟨sha256, selfUserId, contactUserId⟩ r senderKey newDhs store).1,
          log'⟩ := by
  have hread : (undisturbed sha256 selfUserId senderKey).readSession contactUserId ⟨store, log⟩ =
      .ok store.session ⟨store, log ++ store.session.toList.map (.read contactUserId)⟩ := rfl
  rw [tryCatch_apply, receiveHeld, bind_of_ok hread, Shared.receiveLocked]
  cases store.session with
  | none => exact ⟨_, rfl⟩
  | some stored =>
    dsimp only
    rw [bind_of_ok (undisturbed_cachedFor ..)]
    cases hcached : Shared.cachedFor ⟨sha256, selfUserId, contactUserId⟩ store r with
    | some plaintext => exact ⟨_, rfl⟩
    | none =>
      cases refusedVersion r.envelope with
      | some reason => exact ⟨_, rfl⟩
      | none =>
        dsimp only
        have hkey : (undisturbed sha256 selfUserId senderKey).resolveSenderKey contactUserId store =
            .ok senderKey store := rfl
        rw [receiveResolved, bind_of_ok (perform_of_ok hkey)]
        cases senderKey with
        | none => exact ⟨_, rfl⟩
        | some senderKey =>
          have hself : (undisturbed (S := S) sha256 selfUserId (some senderKey)).selfUserId =
              selfUserId := rfl
          dsimp only
          rw [decode, hself]
          cases decodeRatchetEnvelope r.envelope
              ⟨stored.state, senderKey, selfUserId, contactUserId⟩ newDhs with
          | error e => exact ⟨_, rfl⟩
          | ok decoded =>
            cases decoded with
            | failure reason => exact ⟨_, rfl⟩
            | success plaintext nextState =>
              obtain ⟨log', h⟩ := undisturbed_receiveDecoded sha256 selfUserId contactUserId
                (some senderKey) r store stored plaintext nextState _ hcached
              refine ⟨log', ?_⟩
              dsimp only
              rw [h]
              cases writeDecoded ⟨sha256, selfUserId, contactUserId⟩ r stored plaintext nextState
                store <;> rfl

/-- When nothing happens in between, the injected dependencies give `receiveLocked` as one
undivided operation. -/
theorem receiveLocked_undisturbed (log : List (Effect S Unit)) :
    ∃ log', (undisturbed sha256 selfUserId senderKey).receiveLocked contactUserId r newDhs
        ⟨store, log⟩ =
      .ok (Shared.receiveLocked ⟨sha256, selfUserId, contactUserId⟩ r senderKey newDhs store).2
        ⟨(Shared.receiveLocked ⟨sha256, selfUserId, contactUserId⟩ r senderKey newDhs store).1,
          log'⟩ := by
  have hacquire : tryCatch ((undisturbed (S := S) sha256 selfUserId senderKey).acquireLock
      contactUserId) (fun _ => return none) ⟨store, log⟩ =
        .ok (some ()) ⟨store, log ++ [.acquired ()]⟩ := rfl
  obtain ⟨log', hheld⟩ := undisturbed_receiveHeld sha256 selfUserId contactUserId senderKey r newDhs
    store (log ++ [.acquired ()])
  rw [NotificationDecryptDeps.receiveLocked, bind_of_ok hacquire]
  dsimp only
  rw [bind_of_ok hheld]
  exact ⟨_, rfl⟩

end Undisturbed

end Epistl.Shared
