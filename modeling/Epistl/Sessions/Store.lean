import Epistl.Text.JsJson

/-! # The stored sessions and their index

`crypto/session.ts` over the key-value store of the device: one entry for every contact with
a session, and one that lists those contacts as a JSON array.
-/
namespace Epistl.Sessions

/-- `expo-secure-store`: the text under each key that has one. -/
abbrev SecureStore := JsString → Option JsString

namespace SecureStore

def setItem (store : SecureStore) (key value : JsString) : SecureStore :=
  Function.update store key (some value)

def deleteItem (store : SecureStore) (key : JsString) : SecureStore :=
  Function.update store key none

variable {store : SecureStore} {key other value : JsString}

theorem setItem_of_ne (h : other ≠ key) : store.setItem key value other = store other :=
  Function.update_of_ne h _ _

theorem deleteItem_of_ne (h : other ≠ key) : store.deleteItem key other = store other :=
  Function.update_of_ne h _ _

@[simp] theorem setItem_self : store.setItem key value key = some value := Function.update_self _ _ _

@[simp] theorem deleteItem_self : store.deleteItem key key = none := Function.update_self _ _ _

end SecureStore

def sessionKeyPrefix : JsString := JsString.ofString "epistl.ratchet_session."

def sessionStorageKey (contactUserId : JsString) : JsString := sessionKeyPrefix ++ contactUserId

/-- `SESSION_INDEX_KEY`. -/
def sessionIndexKey : JsString := JsString.ofString "epistl.ratchet_session_index"

theorem sessionStorageKey_injective : Function.Injective sessionStorageKey :=
  List.append_right_injective sessionKeyPrefix

theorem sessionStorageKey_ne (contactUserId : JsString) :
    sessionStorageKey contactUserId ≠ sessionIndexKey := by
  intro h
  -- the two names differ after the word `session`
  have hunit := congrArg (fun key => key[22]?) h
  simp only [sessionStorageKey] at hunit
  rw [List.getElem?_append_left (by decide)] at hunit
  exact absurd hunit (by decide)

/-- The elements of an array of strings. -/
def stringItems : Js.Value → Option (List JsString)
  | .array items => items.mapM fun v =>
    match v with
    | .string text => some text
    | _ => none
  | _ => none

def stringifyIds (ids : List JsString) : JsString := Js.stringify (.array (ids.map .string))

theorem stringItems_array (ids : List JsString) :
    stringItems (.array (ids.map .string)) = some ids := by
  unfold stringItems
  induction ids with
  | nil => rfl
  | cons id ids ih => simp_all

namespace SecureStore
variable {store : SecureStore} {key contactUserId : JsString} {ids : List JsString}

/-- The index as it is read; `none` when `JSON.parse` throws. -/
def readIndex (store : SecureStore) : Option (List JsString) :=
  match store sessionIndexKey with
  | none => some []
  | some raw => (Js.parse raw).bind stringItems

@[simp] theorem readIndex_setIndex (store : SecureStore) (ids : List JsString) :
    (store.setItem sessionIndexKey (stringifyIds ids)).readIndex = some ids := by
  simp only [readIndex, setItem_self, stringifyIds, Js.parse_stringify, Option.bind_some,
    stringItems_array]

@[simp] theorem readIndex_deleteIndex (store : SecureStore) :
    (store.deleteItem sessionIndexKey).readIndex = some [] := by
  simp only [readIndex, deleteItem_self]

theorem readIndex_congr {other : SecureStore} (h : store sessionIndexKey = other sessionIndexKey) :
    store.readIndex = other.readIndex := by
  rw [readIndex, readIndex, h]

@[simp] theorem readIndex_setSession (store : SecureStore) (contactUserId text : JsString) :
    (store.setItem (sessionStorageKey contactUserId) text).readIndex = store.readIndex :=
  readIndex_congr (setItem_of_ne (sessionStorageKey_ne contactUserId).symm)

/-- `addToSessionIndex`, with the index it has read. -/
def addToSessionIndex (store : SecureStore) (contactUserId : JsString) (index : List JsString) :
    SecureStore :=
  if contactUserId ∈ index then store
  else store.setItem sessionIndexKey (stringifyIds (index ++ [contactUserId]))

theorem addToSessionIndex_session {index : List JsString} (other : JsString) :
    store.addToSessionIndex contactUserId index (sessionStorageKey other) =
      store (sessionStorageKey other) := by
  unfold addToSessionIndex
  split
  · rfl
  · exact setItem_of_ne (sessionStorageKey_ne other)

end SecureStore
end Epistl.Sessions
