import Epistl.Sessions.Store
import Epistl.Text.Rfc4648

/-! # A session as it is stored

`saveSession` and `loadSession` of `crypto/session.ts` over the bytes of a ratchet state: the
keys are written in base64, in a JSON object with the counters. A counter is a natural number
that JavaScript holds exactly.
-/
namespace Epistl.Sessions
open Base64

/-- The fields of a session, whose keys are arrays of bytes. -/
structure RatchetState where
  rootKey : Bytes
  dhsPublicKey : Bytes
  dhsSecretKey : Bytes
  dhrPublicKey : Option Bytes
  sendingChainKey : Option Bytes
  receivingChainKey : Option Bytes
  sendMessageNumber : ℕ
  receiveMessageNumber : ℕ
  previousSendingChainLength : ℕ
  deriving Repr, DecidableEq

/-- `bytesToBase64`, as its loop runs. -/
def encodeBytes (bytes : Bytes) : JsString := encodeFrom bytes 0

theorem encodeBytes_eq (bytes : Bytes) : encodeBytes bytes = bytesToBase64 bytes :=
  encodeFrom_eq bytes 0

theorem base64ToBytes_encodeBytes (bytes : Bytes) : base64ToBytes (encodeBytes bytes) = bytes := by
  rw [encodeBytes_eq, base64ToBytes_bytesToBase64]

def stringifyKey (bytes : Bytes) : Js.Value := .string (encodeBytes bytes)

def stringifyKey? : Option Bytes → Js.Value
  | none => .null
  | some bytes => stringifyKey bytes

def RatchetState.serialize (state : RatchetState) : Js.Value := .object
  [(JsString.ofString "rootKey", stringifyKey state.rootKey),
    (JsString.ofString "dhsPublicKey", stringifyKey state.dhsPublicKey),
    (JsString.ofString "dhsSecretKey", stringifyKey state.dhsSecretKey),
    (JsString.ofString "dhrPublicKey", stringifyKey? state.dhrPublicKey),
    (JsString.ofString "sendingChainKey", stringifyKey? state.sendingChainKey),
    (JsString.ofString "receivingChainKey", stringifyKey? state.receivingChainKey),
    (JsString.ofString "sendMessageNumber", .number state.sendMessageNumber),
    (JsString.ofString "receiveMessageNumber", .number state.receiveMessageNumber),
    (JsString.ofString "previousSendingChainLength", .number state.previousSendingChainLength)]

/-- `base64ToBytes` of a field; `none` when it is no string and the call throws. -/
def readKey (parsed : Js.Value) (field : String) : Option Bytes :=
  match parsed.get (JsString.ofString field) with
  | some (.string text) => some (base64ToBytes text)
  | _ => none

def readKey? (parsed : Js.Value) (field : String) : Option (Option Bytes) :=
  match parsed.get (JsString.ofString field) with
  | some .null => some none
  | some (.string text) => some (some (base64ToBytes text))
  | _ => none

def readCounter (parsed : Js.Value) (field : String) : Option ℕ :=
  match parsed.get (JsString.ofString field) with
  | some (.number n) => some n
  | _ => none

def RatchetState.deserialize (parsed : Js.Value) : Option RatchetState := do
  return {
    rootKey := ← readKey parsed "rootKey"
    dhsPublicKey := ← readKey parsed "dhsPublicKey"
    dhsSecretKey := ← readKey parsed "dhsSecretKey"
    dhrPublicKey := ← readKey? parsed "dhrPublicKey"
    sendingChainKey := ← readKey? parsed "sendingChainKey"
    receivingChainKey := ← readKey? parsed "receivingChainKey"
    sendMessageNumber := ← readCounter parsed "sendMessageNumber"
    receiveMessageNumber := ← readCounter parsed "receiveMessageNumber"
    previousSendingChainLength := ← readCounter parsed "previousSendingChainLength" }

/-- `loadSession`; `none` when it throws. -/
def loadSession (store : SecureStore) (contactUserId : JsString) : Option (Option RatchetState) :=
  match store (sessionStorageKey contactUserId) with
  | none => some none
  | some raw => ((Js.parse raw).bind RatchetState.deserialize).map some

/-- `saveSession`, with the store it leaves; it throws when the index is not readable. -/
def saveSession (store : SecureStore) (contactUserId : JsString) (state : RatchetState) :
    Except Unit Unit × SecureStore :=
  let store := store.setItem (sessionStorageKey contactUserId) (Js.stringify state.serialize)
  match store.readIndex with
  | none => (.error (), store)
  | some index => (.ok (), store.addToSessionIndex contactUserId index)

variable {store : SecureStore} {contactUserId : JsString} {state : RatchetState}

/-- The fields of the object that is written. -/
theorem get_serialize (state : RatchetState) :
    state.serialize.get (JsString.ofString "rootKey") = some (stringifyKey state.rootKey) ∧
    state.serialize.get (JsString.ofString "dhsPublicKey") =
      some (stringifyKey state.dhsPublicKey) ∧
    state.serialize.get (JsString.ofString "dhsSecretKey") =
      some (stringifyKey state.dhsSecretKey) ∧
    state.serialize.get (JsString.ofString "dhrPublicKey") =
      some (stringifyKey? state.dhrPublicKey) ∧
    state.serialize.get (JsString.ofString "sendingChainKey") =
      some (stringifyKey? state.sendingChainKey) ∧
    state.serialize.get (JsString.ofString "receivingChainKey") =
      some (stringifyKey? state.receivingChainKey) ∧
    state.serialize.get (JsString.ofString "sendMessageNumber") =
      some (.number state.sendMessageNumber) ∧
    state.serialize.get (JsString.ofString "receiveMessageNumber") =
      some (.number state.receiveMessageNumber) ∧
    state.serialize.get (JsString.ofString "previousSendingChainLength") =
      some (.number state.previousSendingChainLength) :=
  ⟨rfl, rfl, rfl, rfl, rfl, rfl, rfl, rfl, rfl⟩

section Read
variable {parsed : Js.Value} {field : String}

theorem readKey_of_get {bytes : Bytes}
    (h : parsed.get (JsString.ofString field) = some (stringifyKey bytes)) :
    readKey parsed field = some bytes := by
  simp only [readKey, h, stringifyKey, base64ToBytes_encodeBytes]

theorem readKey?_of_get {key : Option Bytes}
    (h : parsed.get (JsString.ofString field) = some (stringifyKey? key)) :
    readKey? parsed field = some key := by
  cases key with
  | none => simp only [readKey?, h, stringifyKey?]
  | some bytes => simp only [readKey?, h, stringifyKey?, stringifyKey, base64ToBytes_encodeBytes]

theorem readCounter_of_get {n : ℕ}
    (h : parsed.get (JsString.ofString field) = some (.number n)) :
    readCounter parsed field = some n := by
  simp only [readCounter, h]

end Read

theorem deserialize_serialize (state : RatchetState) :
    RatchetState.deserialize state.serialize = some state := by
  obtain ⟨h1, h2, h3, h4, h5, h6, h7, h8, h9⟩ := get_serialize state
  rw [RatchetState.deserialize, readKey_of_get h1, readKey_of_get h2, readKey_of_get h3,
    readKey?_of_get h4, readKey?_of_get h5, readKey?_of_get h6, readCounter_of_get h7,
    readCounter_of_get h8, readCounter_of_get h9]
  rfl

theorem saveSession_stored : (saveSession store contactUserId state).2
    (sessionStorageKey contactUserId) = some (Js.stringify state.serialize) := by
  unfold saveSession
  dsimp only
  split
  · exact SecureStore.setItem_self
  · dsimp only
    rw [SecureStore.addToSessionIndex_session, SecureStore.setItem_self]

theorem loadSession_saveSession :
    loadSession (saveSession store contactUserId state).2 contactUserId = some (some state) := by
  simp only [loadSession, saveSession_stored, Js.parse_stringify, Option.bind_some,
    deserialize_serialize, Option.map_some]

/-- Every byte string survives its base64 text, which is the standard one and the only one the
strict decoder takes for it, and every session is loaded as it was saved. -/
theorem codec_roundTrip :
    (∀ bytes : Bytes, base64ToBytes (encodeBytes bytes) = bytes ∧
      encodeBytes bytes = standard bytes ∧
      ∀ text, decodeStandard text = some bytes ↔ encodeBytes bytes = text) ∧
    ∀ (store : SecureStore) (contactUserId : JsString) (state : RatchetState),
      loadSession (saveSession store contactUserId state).2 contactUserId = some (some state) := by
  refine ⟨fun bytes => ⟨base64ToBytes_encodeBytes bytes, ?_, fun text => ?_⟩,
    fun store contactUserId state => loadSession_saveSession⟩
  · rw [encodeBytes_eq, bytesToBase64_standard]
  · rw [encodeBytes_eq, decodeStandard_eq_some]

end Epistl.Sessions
