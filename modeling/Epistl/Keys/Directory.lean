import Epistl.Inbox.Device
import Epistl.Text.Rfc4648
import Mathlib.Data.List.Induction

/-! # The key directory

A device posts the four fields of its bundle as base64 text, the server keeps the bytes, and
the contact list gives them as base64 text again, from which a contact's device decodes the
bundle.
-/
namespace Epistl.KeyDirectory
open Base64 (bytesToBase64 base64ToBytes base64ToBytes_bytesToBase64 decodeStandard
  decodeStandard_eq_some)

structure UploadKeysPayload where
  x25519PublicKeyB64 : Option JsString
  kyberPublicKeyB64 : Option JsString
  dilithiumPublicKeyB64 : Option JsString
  prekeySignatureB64 : Option JsString

/-- A row of `user_keys`. -/
structure UserKeys where
  x25519PublicKey : Bytes
  kyberPublicKey : Bytes
  dilithiumPublicKey : Bytes
  prekeySignature : Bytes

abbrev Table : Type := JsString → Option UserKeys

def x25519PublicKeyLen : ℕ := 32
def kyberPublicKeyLen : ℕ := 1184
def dilithiumPublicKeyLen : ℕ := 1952
def prekeySignatureLen : ℕ := 3309

inductive Answer where
  | ok
  | badRequest (error : String)
  | internalError
  deriving Repr, DecidableEq

def decodeField (field : Option JsString) : Option Bytes := field.bind decodeStandard

/-- The row of a payload, or the error that it is refused with. -/
def parse (payload : UploadKeysPayload) : Except String UserKeys :=
  match decodeField payload.x25519PublicKeyB64, decodeField payload.kyberPublicKeyB64,
    decodeField payload.dilithiumPublicKeyB64, decodeField payload.prekeySignatureB64 with
  | some x25519, some kyber, some dilithium, some prekeySignature =>
    if x25519.length ≠ x25519PublicKeyLen then .error "invalid_x25519_key"
    else if kyber.length ≠ kyberPublicKeyLen then .error "invalid_kyber_key"
    else if dilithium.length ≠ dilithiumPublicKeyLen then .error "invalid_dilithium_key"
    else if prekeySignature.length ≠ prekeySignatureLen then .error "invalid_prekey_signature"
    else .ok ⟨x25519, kyber, dilithium, prekeySignature⟩
  | _, _, _, _ => .error "invalid_input"

/-- `succeeds` says whether the statement was executed. -/
def uploadKeys (table : Table) (user : JsString) (payload : UploadKeysPayload) (succeeds : Bool) :
    Table × Answer :=
  match parse payload with
  | .error error => (table, .badRequest error)
  | .ok row =>
    if succeeds then (Function.update table user (some row), .ok) else (table, .internalError)

/-- The key columns of a contact as `list_contacts` shows them. -/
structure ContactView where
  x25519PublicKeyB64 : Option JsString
  kyberPublicKeyB64 : Option JsString
  dilithiumPublicKeyB64 : Option JsString
  prekeySignatureB64 : Option JsString
  deriving DecidableEq

/-- The columns are null when the contact has no row. -/
def ContactView.from (row : Option UserKeys) : ContactView where
  x25519PublicKeyB64 := row.map fun k => bytesToBase64 k.x25519PublicKey
  kyberPublicKeyB64 := row.map fun k => bytesToBase64 k.kyberPublicKey
  dilithiumPublicKeyB64 := row.map fun k => bytesToBase64 k.dilithiumPublicKey
  prekeySignatureB64 := row.map fun k => bytesToBase64 k.prekeySignature

def bundleFromContact (contact : ContactView) : Option ContactKeyBundle :=
  match contact.x25519PublicKeyB64, contact.kyberPublicKeyB64, contact.dilithiumPublicKeyB64,
    contact.prekeySignatureB64 with
  | some x25519, some kyber, some dilithium, some prekeySignature => some {
      x25519PublicKey := base64ToBytes x25519
      kyberPublicKey := base64ToBytes kyber
      dilithiumPublicKey := base64ToBytes dilithium
      prekeySignature := base64ToBytes prekeySignature }
  | _, _, _, _ => none

/-- What a contact's device decodes for this user. -/
def listed (table : Table) (user : JsString) : Option ContactKeyBundle :=
  bundleFromContact (.from (table user))

/-- The body of `registerKeys`, for the bundle that `ensureKeysRegistered` encodes. -/
def registerKeysBody (bundle : ContactKeyBundle) : UploadKeysPayload where
  x25519PublicKeyB64 := some (bytesToBase64 bundle.x25519PublicKey)
  kyberPublicKeyB64 := some (bytesToBase64 bundle.kyberPublicKey)
  dilithiumPublicKeyB64 := some (bytesToBase64 bundle.dilithiumPublicKey)
  prekeySignatureB64 := some (bytesToBase64 bundle.prekeySignature)

def UserKeys.bundle (row : UserKeys) : ContactKeyBundle :=
  ⟨row.x25519PublicKey, row.kyberPublicKey, row.dilithiumPublicKey, row.prekeySignature⟩

/-- The lengths that `upload_keys` asks for. -/
structure Sized (bundle : ContactKeyBundle) : Prop where
  x25519PublicKey : bundle.x25519PublicKey.length = x25519PublicKeyLen
  kyberPublicKey : bundle.kyberPublicKey.length = kyberPublicKeyLen
  dilithiumPublicKey : bundle.dilithiumPublicKey.length = dilithiumPublicKeyLen
  prekeySignature : bundle.prekeySignature.length = prekeySignatureLen

theorem decodeField_eq_some {field : Option JsString} {b : Bytes} :
    decodeField field = some b ↔ field = some (bytesToBase64 b) := by
  rw [decodeField, Option.bind_eq_some_iff]
  constructor
  · rintro ⟨s, hs, hb⟩
    rw [hs, decodeStandard_eq_some.mp hb]
  · intro h
    exact ⟨_, h, decodeStandard_eq_some.mpr rfl⟩

/-- An accepted payload is the encoding of a sized bundle, and the other way round. -/
theorem parse_eq_ok {payload : UploadKeysPayload} {row : UserKeys} :
    parse payload = .ok row ↔ payload = registerKeysBody row.bundle ∧ Sized row.bundle := by
  constructor
  · intro h
    unfold parse at h
    split at h
    · rename_i x k d p hx hk hd hp
      rw [decodeField_eq_some] at hx hk hd hp
      split at h
      · cases h
      rename_i hxlen
      split at h
      · cases h
      rename_i hklen
      split at h
      · cases h
      rename_i hdlen
      split at h
      · cases h
      rename_i hplen
      cases h
      obtain ⟨_, _, _, _⟩ := payload
      cases hx
      cases hk
      cases hd
      cases hp
      exact ⟨rfl, not_not.mp hxlen, not_not.mp hklen, not_not.mp hdlen, not_not.mp hplen⟩
    · cases h
  · rintro ⟨rfl, hsized⟩
    have hx := decodeField_eq_some (b := row.x25519PublicKey).mpr rfl
    have hk := decodeField_eq_some (b := row.kyberPublicKey).mpr rfl
    have hd := decodeField_eq_some (b := row.dilithiumPublicKey).mpr rfl
    have hp := decodeField_eq_some (b := row.prekeySignature).mpr rfl
    have hxlen : row.x25519PublicKey.length = x25519PublicKeyLen := hsized.x25519PublicKey
    have hklen : row.kyberPublicKey.length = kyberPublicKeyLen := hsized.kyberPublicKey
    have hdlen : row.dilithiumPublicKey.length = dilithiumPublicKeyLen := hsized.dilithiumPublicKey
    have hplen : row.prekeySignature.length = prekeySignatureLen := hsized.prekeySignature
    simp only [parse, registerKeysBody, UserKeys.bundle, hx, hk, hd, hp, hxlen, hklen, hdlen, hplen,
      ne_eq, not_true_eq_false, if_false]

theorem registerKeysBody_injective {bundle bundle' : ContactKeyBundle}
    (h : registerKeysBody bundle = registerKeysBody bundle') : bundle = bundle' := by
  have hbytes {b b' : Bytes} (h : bytesToBase64 b = bytesToBase64 b') : b = b' := by
    rw [← base64ToBytes_bytesToBase64 b, h, base64ToBytes_bytesToBase64]
  obtain ⟨x, k, d, p⟩ := bundle
  simp only [registerKeysBody, UploadKeysPayload.mk.injEq, Option.some.injEq] at h
  rw [hbytes h.1, hbytes h.2.1, hbytes h.2.2.1, hbytes h.2.2.2]

/-- The bundle is decoded from the contact list as it was stored. -/
theorem listed_eq (table : Table) (user : JsString) :
    listed table user = (table user).map UserKeys.bundle := by
  unfold listed
  cases table user with
  | none => rfl
  | some row =>
    simp only [ContactView.from, bundleFromContact, Option.map_some, base64ToBytes_bytesToBase64]
    rfl

theorem listed_update_self (table : Table) (user : JsString) (row : Option UserKeys) :
    listed (Function.update table user row) user = row.map UserKeys.bundle := by
  rw [listed_eq, Function.update_self]

theorem listed_update_ne (table : Table) {user other : JsString} (row : Option UserKeys)
    (h : other ≠ user) : listed (Function.update table user row) other = listed table other := by
  rw [listed_eq, listed_eq, Function.update_of_ne h]

/-- What changes the table: an upload, or the deletion of an account with its row. -/
inductive Event where
  | upload (user : JsString) (payload : UploadKeysPayload) (succeeds : Bool)
  | deleteAccount (user : JsString)

def Event.user : Event → JsString
  | upload user _ _ | deleteAccount user => user

def Event.apply (table : Table) : Event → Table
  | upload user payload succeeds => (uploadKeys table user payload succeeds).1
  | deleteAccount user => Function.update table user none

/-- The event replaces or removes the row of its user. -/
def Event.Replaces : Event → Prop
  | upload user payload succeeds => (uploadKeys (fun _ => none) user payload succeeds).2 = .ok
  | deleteAccount _ => True

/-- The table after these events. -/
def after (events : List Event) : Table := events.foldl Event.apply fun _ => none

theorem after_concat (events : List Event) (e : Event) :
    after (events ++ [e]) = e.apply (after events) := by
  rw [after, List.foldl_append]
  rfl

theorem uploadKeys_cases (table : Table) (user : JsString) (payload : UploadKeysPayload)
    (succeeds : Bool) :
    (∃ row, parse payload = .ok row ∧ succeeds = true ∧
      uploadKeys table user payload succeeds = (Function.update table user (some row), .ok)) ∨
    (¬((∃ row, parse payload = .ok row) ∧ succeeds = true) ∧
      ∃ answer, answer ≠ .ok ∧ uploadKeys table user payload succeeds = (table, answer)) := by
  unfold uploadKeys
  cases parse payload with
  | error error => exact .inr ⟨by simp, .badRequest error, by simp, rfl⟩
  | ok row =>
    cases succeeds with
    | true => exact .inl ⟨row, rfl, rfl, rfl⟩
    | false => exact .inr ⟨by simp, .internalError, by simp, rfl⟩

/-- Whether a statement replaces the row does not depend on the table. -/
theorem Event.replaces_upload {user : JsString} {payload : UploadKeysPayload} {succeeds : Bool} :
    (upload user payload succeeds).Replaces ↔ (∃ row, parse payload = .ok row) ∧ succeeds = true := by
  rcases uploadKeys_cases (fun _ => none) user payload succeeds with ⟨row, hrow, hok, he⟩ |
    ⟨hno, answer, hanswer, he⟩
  · exact ⟨fun _ => ⟨⟨row, hrow⟩, hok⟩, fun _ => congrArg Prod.snd he⟩
  · exact ⟨fun h => absurd ((congrArg Prod.snd he).symm.trans h) hanswer, fun h => absurd h hno⟩

/-- An event leaves the row of a user that it does not replace. -/
theorem Event.apply_same (table : Table) {e : Event} {user : JsString}
    (h : e.user = user → ¬e.Replaces) : e.apply table user = table user := by
  cases e with
  | upload u payload succeeds =>
    rcases uploadKeys_cases table u payload succeeds with ⟨row, hrow, hok, he⟩ | ⟨-, _, -, he⟩
    · have hne : user ≠ u := fun heq => h heq.symm (replaces_upload.mpr ⟨⟨row, hrow⟩, hok⟩)
      exact (congrFun (congrArg Prod.fst he) user).trans (Function.update_of_ne hne _ _)
    · exact congrFun (congrArg Prod.fst he) user
  | deleteAccount u => exact Function.update_of_ne (fun heq => h heq.symm trivial) _ _

theorem Event.apply_upload (table : Table) {user : JsString} {row : UserKeys}
    {payload : UploadKeysPayload} (h : parse payload = .ok row) :
    (upload user payload true).apply table user = some row := by
  rw [apply, uploadKeys, h]
  exact Function.update_self _ _ _

/-- What is listed for a user is the bundle of the last upload that was accepted, byte for byte,
as long as nothing has replaced or removed it. -/
theorem listed_eq_some {events : List Event} {user : JsString} {bundle : ContactKeyBundle} :
    listed (after events) user = some bundle ↔ Sized bundle ∧ ∃ before later,
      events = before ++ .upload user (registerKeysBody bundle) true :: later ∧
      ∀ e ∈ later, e.user = user → ¬e.Replaces := by
  rw [listed_eq]
  induction events using List.reverseRecOn with
  | nil =>
    constructor
    · intro h
      cases h
    · rintro ⟨-, before, later, he, -⟩
      cases before <;> cases he
  | append_singleton events e ih =>
    rw [after_concat]
    constructor
    · intro h
      by_cases hreplaces : e.user = user ∧ e.Replaces
      · obtain ⟨rfl, hreplaces⟩ := hreplaces
        cases e with
        | upload u payload succeeds =>
          obtain ⟨⟨row, hrow⟩, rfl⟩ := Event.replaces_upload.mp hreplaces
          obtain ⟨rfl, hsized⟩ := parse_eq_ok.mp hrow
          rw [Event.user, Event.apply_upload _ hrow] at h
          cases h
          exact ⟨hsized, events, [], rfl, fun _ hmem => nomatch hmem⟩
        | deleteAccount u =>
          rw [Event.user, Event.apply, Function.update_self] at h
          cases h
      · rw [Event.apply_same _ fun huser hr => hreplaces ⟨huser, hr⟩] at h
        obtain ⟨hsized, before, later, rfl, hlater⟩ := ih.mp h
        refine ⟨hsized, before, later ++ [e], by simp, fun e' he' huser hr => ?_⟩
        rcases List.mem_append.mp he' with he' | he'
        · exact hlater e' he' huser hr
        · cases List.mem_singleton.mp he'
          exact hreplaces ⟨huser, hr⟩
    · rintro ⟨hsized, before, later, he, hlater⟩
      rcases List.eq_nil_or_concat' later with rfl | ⟨later, last, rfl⟩
      · obtain ⟨-, hlast⟩ := List.append_inj' he rfl
        cases hlast
        have hrow : parse (registerKeysBody bundle) = .ok ⟨bundle.x25519PublicKey,
            bundle.kyberPublicKey, bundle.dilithiumPublicKey, bundle.prekeySignature⟩ :=
          parse_eq_ok.mpr ⟨rfl, hsized⟩
        rw [Event.apply_upload _ hrow]
        rfl
      · rw [← List.cons_append, ← List.append_assoc] at he
        obtain ⟨rfl, hlast⟩ := List.append_inj' he rfl
        cases hlast
        rw [Event.apply_same _ (hlater e (List.mem_append_right _ (.head _)))]
        exact ih.mpr ⟨hsized, before, later, rfl, fun e' he' =>
          hlater e' (List.mem_append_left _ he')⟩

end Epistl.KeyDirectory
