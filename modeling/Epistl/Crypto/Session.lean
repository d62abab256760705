import Epistl.Crypto.Suite

/-! # The ratchet session of `crypto/session.ts`

Key generation and encapsulation take their randomness as an argument. A call that
can throw returns in `Except Thrown`; a rejected message is the value `none`.
-/
namespace Epistl
variable (S : Suite)

/-- What a call can throw: an error of the source, or of a package it calls. -/
inductive Thrown where
  | error (message : String)
  | x25519
  | mlKem768
  deriving Repr, DecidableEq

def Thrown.ofOption {α : Type} (e : Thrown) : Option α → Except Thrown α
  | some a => .ok a
  | none => .error e

theorem Thrown.bind_eq_ok {α β : Type} {x : Except Thrown α} {f : α → Except Thrown β} {b : β}
    (h : (x >>= f) = .ok b) : ∃ a, x = .ok a ∧ f a = .ok b := by
  cases x with
  | error e => cases h
  | ok a => exact ⟨a, rfl, h⟩

structure RatchetState where
  rootKey : S.RootKey
  dhsPublicKey : Bytes
  dhsSecretKey : S.X25519Secret
  dhrPublicKey : Option Bytes
  sendingChainKey : Option S.ChainKey
  receivingChainKey : Option S.ChainKey
  sendMessageNumber : ℕ
  receiveMessageNumber : ℕ
  previousSendingChainLength : ℕ

/-- The state after a ratchet step: the three nullable fields are set. -/
structure RatchetedState where
  rootKey : S.RootKey
  dhsPublicKey : Bytes
  dhsSecretKey : S.X25519Secret
  dhrPublicKey : Bytes
  sendingChainKey : S.ChainKey
  receivingChainKey : S.ChainKey
  sendMessageNumber : ℕ
  receiveMessageNumber : ℕ
  previousSendingChainLength : ℕ

variable {S}

def RatchetedState.toRatchetState (r : RatchetedState S) : RatchetState S where
  rootKey := r.rootKey
  dhsPublicKey := r.dhsPublicKey
  dhsSecretKey := r.dhsSecretKey
  dhrPublicKey := some r.dhrPublicKey
  sendingChainKey := some r.sendingChainKey
  receivingChainKey := some r.receivingChainKey
  sendMessageNumber := r.sendMessageNumber
  receiveMessageNumber := r.receiveMessageNumber
  previousSendingChainLength := r.previousSendingChainLength

def rootKeyInfoPrefix : JsString := JsString.ofString "epistl/v1/pqxdh/root/"

def kdfRkInfo : Bytes := JsString.textEncode (JsString.ofString "epistl/v1/pqxdh/kdf_rk")

def kdfCkNextChainKeyInput : Bytes := [0x01]
def kdfCkMessageKeyInput : Bytes := [0x02]

def rootKeyInfoBytes (contactUserId selfUserId : JsString) : Bytes :=
  let (lower, higher) := JsString.sortPair contactUserId selfUserId
  JsString.textEncode (rootKeyInfoPrefix ++ lower ++ JsString.ofString "/" ++ higher)

theorem rootKeyInfoBytes_comm (a b : JsString) : rootKeyInfoBytes a b = rootKeyInfoBytes b a := by
  simp only [rootKeyInfoBytes, JsString.sortPair_comm a b]

/-- `KDF_RK`. -/
def kdfRk (rootKey : S.RootKey) (dhOutput : S.SharedSecret) : S.RootKey × S.ChainKey :=
  S.hkdfRatchet dhOutput rootKey kdfRkInfo

def nextChainKey (chainKey : S.ChainKey) : S.ChainKey :=
  S.hmacChainKey chainKey kdfCkNextChainKeyInput

def messageKeyOf (chainKey : S.ChainKey) : S.MessageKey :=
  S.hmacMessageKey chainKey kdfCkMessageKeyInput

/-- `KDF_CK`: the next chain key and the message key. -/
def kdfCk (chainKey : S.ChainKey) : S.ChainKey × S.MessageKey :=
  (nextChainKey chainKey, messageKeyOf chainKey)

def dhRatchetStep (state : RatchetState S) (newDhrPublicKey : Bytes) (newDhs : S.X25519Secret) :
    Except Thrown (RatchetedState S) := do
  let dh ← Thrown.x25519.ofOption (S.x25519SharedSecret state.dhsSecretKey newDhrPublicKey)
  let receiving := kdfRk state.rootKey dh
  let dh' ← Thrown.x25519.ofOption (S.x25519SharedSecret newDhs newDhrPublicKey)
  let sending := kdfRk receiving.1 dh'
  return {
    rootKey := sending.1
    dhsPublicKey := S.x25519PublicKey newDhs
    dhsSecretKey := newDhs
    dhrPublicKey := newDhrPublicKey
    sendingChainKey := sending.2
    receivingChainKey := receiving.2
    sendMessageNumber := 0
    receiveMessageNumber := 0
    previousSendingChainLength := state.sendMessageNumber }

structure ContactBundle where
  x25519PublicKey : Bytes
  kyberPublicKey : Bytes

/-- What `initiateSession` returns. -/
structure Initiated (S : Suite) where
  state : RatchetState S
  ea : Bytes
  kyberCiphertext : Bytes

def initiateSession (contactUserId selfUserId : JsString) (contactBundle : ContactBundle)
    (ea : S.X25519Secret) (kemRandom : Bytes) : Except Thrown (Initiated S) := do
  let dhOutput ← Thrown.x25519.ofOption (S.x25519SharedSecret ea contactBundle.x25519PublicKey)
  let (cipherText, sharedSecret) ←
    Thrown.mlKem768.ofOption (S.encapsulate contactBundle.kyberPublicKey kemRandom)
  let rootKey0 := S.hkdfHandshake dhOutput sharedSecret (rootKeyInfoBytes contactUserId selfUserId)
  let (rootKey, chainKey) := kdfRk rootKey0 dhOutput
  return {
    state := {
      rootKey := rootKey
      dhsPublicKey := S.x25519PublicKey ea
      dhsSecretKey := ea
      dhrPublicKey := none
      sendingChainKey := some chainKey
      receivingChainKey := none
      sendMessageNumber := 0
      receiveMessageNumber := 0
      previousSendingChainLength := 0 }
    ea := S.x25519PublicKey ea
    kyberCiphertext := cipherText }

def receiveHandshake (contactUserId selfUserId : JsString) (ea kyberCiphertext : Bytes)
    (selfX25519SecretKey : S.X25519Secret) (selfKyberSecretKey : S.KyberSecret)
    (newDhs : S.X25519Secret) : Except Thrown (RatchetedState S) := do
  let dhOutput ← Thrown.x25519.ofOption (S.x25519SharedSecret selfX25519SecretKey ea)
  let sharedSecret ← Thrown.mlKem768.ofOption (S.decapsulate kyberCiphertext selfKyberSecretKey)
  let rootKey0 := S.hkdfHandshake dhOutput sharedSecret (rootKeyInfoBytes contactUserId selfUserId)
  let startingState : RatchetState S := {
    rootKey := rootKey0
    dhsPublicKey := S.x25519PublicKey selfX25519SecretKey
    dhsSecretKey := selfX25519SecretKey
    dhrPublicKey := none
    sendingChainKey := none
    receivingChainKey := none
    sendMessageNumber := 0
    receiveMessageNumber := 0
    previousSendingChainLength := 0 }
  dhRatchetStep startingState ea newDhs

structure Header where
  dhPublicKey : Bytes
  previousChainLength : ℕ
  messageNumber : ℕ
  deriving Repr, DecidableEq

/-- What `deriveNextSendingMessageKey` returns. -/
structure SendingKey (S : Suite) where
  messageKey : S.MessageKey
  nextState : RatchetState S
  header : Header

def deriveNextSendingMessageKey (state : RatchetState S) : Except Thrown (SendingKey S) :=
  match state.sendingChainKey with
  | none => .error (.error "deriveNextSendingMessageKey: no sending chain established yet")
  | some sendingChainKey =>
    let (nextChainKey, messageKey) := kdfCk sendingChainKey
    .ok {
      messageKey := messageKey
      nextState := { state with
        sendingChainKey := some nextChainKey
        sendMessageNumber := state.sendMessageNumber + 1 }
      header := {
        dhPublicKey := state.dhsPublicKey
        previousChainLength := state.previousSendingChainLength
        messageNumber := state.sendMessageNumber } }

/-- What `deriveNextReceivingMessageKey` returns when it does not reject. -/
structure ReceivingKey (S : Suite) where
  messageKey : S.MessageKey
  nextState : RatchetState S

def deriveNextReceivingMessageKey (state : RatchetState S) (peerDhPublicKey : Bytes)
    (messageNumber : ℕ) (newDhs : S.X25519Secret) : Except Thrown (Option (ReceivingKey S)) :=
  if state.dhrPublicKey ≠ some peerDhPublicKey then do
    let ratchetedState ← dhRatchetStep state peerDhPublicKey newDhs
    let (nextChainKey, messageKey) := kdfCk ratchetedState.receivingChainKey
    return some {
      messageKey := messageKey
      nextState := { ratchetedState.toRatchetState with
        receivingChainKey := some nextChainKey
        receiveMessageNumber := ratchetedState.receiveMessageNumber + 1 } }
  else if messageNumber ≠ state.receiveMessageNumber then .ok none
  else
    match state.receivingChainKey with
    | none => .ok none
    | some receivingChainKey =>
      let (nextChainKey, messageKey) := kdfCk receivingChainKey
      .ok (some {
        messageKey := messageKey
        nextState := { state with
          receivingChainKey := some nextChainKey
          receiveMessageNumber := state.receiveMessageNumber + 1 } })

theorem deriveNextSendingMessageKey_of_some {state : RatchetState S} {ck : S.ChainKey}
    (h : state.sendingChainKey = some ck) :
    deriveNextSendingMessageKey state = .ok {
      messageKey := messageKeyOf ck
      nextState := { state with
        sendingChainKey := some (nextChainKey ck)
        sendMessageNumber := state.sendMessageNumber + 1 }
      header := ⟨state.dhsPublicKey, state.previousSendingChainLength, state.sendMessageNumber⟩ } := by
  simp only [deriveNextSendingMessageKey, h, kdfCk]

/-- On the current receiving chain only the expected number yields a key. -/
theorem deriveNextReceivingMessageKey_same {state : RatchetState S} {p : Bytes}
    {newDhs : S.X25519Secret} {n : ℕ} (h : state.dhrPublicKey = some p) :
    deriveNextReceivingMessageKey state p n newDhs =
      if n = state.receiveMessageNumber then
        .ok (state.receivingChainKey.map fun ck =>
          { messageKey := messageKeyOf ck
            nextState := { state with
              receivingChainKey := some (nextChainKey ck)
              receiveMessageNumber := state.receiveMessageNumber + 1 } })
      else .ok none := by
  unfold deriveNextReceivingMessageKey
  by_cases hn : n = state.receiveMessageNumber
  · cases hc : state.receivingChainKey with
    | none => simp [h, hn]
    | some ck => simp [h, hn, kdfCk]
  · simp [h, hn]

/-- The state after ratcheting to a new peer key and taking message 0 of its chain. -/
def ratcheted (state : RatchetState S) (p : Bytes) (newDhs : S.X25519Secret)
    (receiving sending : S.SharedSecret) : RatchetState S :=
  let r := kdfRk state.rootKey receiving
  let s := kdfRk r.1 sending
  { rootKey := s.1
    dhsPublicKey := S.x25519PublicKey newDhs
    dhsSecretKey := newDhs
    dhrPublicKey := some p
    sendingChainKey := some s.2
    receivingChainKey := some (nextChainKey r.2)
    sendMessageNumber := 0
    receiveMessageNumber := 1
    previousSendingChainLength := state.sendMessageNumber }

/-- Any other peer key is ratcheted to, whatever the message number. -/
theorem deriveNextReceivingMessageKey_new {state : RatchetState S} {p : Bytes}
    {newDhs : S.X25519Secret} {n : ℕ} {z z' : S.SharedSecret} (h : state.dhrPublicKey ≠ some p)
    (hz : S.x25519SharedSecret state.dhsSecretKey p = some z)
    (hz' : S.x25519SharedSecret newDhs p = some z') :
    deriveNextReceivingMessageKey state p n newDhs =
      .ok (some ⟨messageKeyOf (kdfRk state.rootKey z).2, ratcheted state p newDhs z z'⟩) := by
  simp only [deriveNextReceivingMessageKey, if_pos h, dhRatchetStep, hz, hz', Thrown.ofOption]
  rfl

end Epistl
