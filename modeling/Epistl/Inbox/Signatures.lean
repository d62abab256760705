import Epistl.Crypto.WireFormat
import Epistl.Inbox.Device

/-! # What a signature says

One signing key signs prekeys and both kinds of envelopes. The first byte tells the three
apart and the fields of an envelope have fixed places, so an accepted envelope was produced
with the same fields. The two keys of a bundle are only told apart by the length of the first.
-/
namespace Epistl
variable {S : Suite} {publicKey envelope : Bytes}

/-- One use of a signing key. -/
inductive Signing (S : Suite) where
  | signPrekey (x25519PublicKey kyberPublicKey : Bytes)
  | encodeHandshakeEnvelope (ea kyberCiphertext : Bytes) (messageKey : S.MessageKey)
    (plaintext : Bytes) (selfUserId contactUserId : JsString) (nonce : Nonce)
  | encodeRatchetEnvelope (header : Header) (messageKey : S.MessageKey) (plaintext : Bytes)
    (selfUserId contactUserId : JsString) (nonce : Nonce)

/-- What a signed message says: its kind, and every field that is parsed from it. -/
inductive Content where
  | prekey (x25519PublicKey kyberPublicKey : Bytes)
  | handshake (ea kyberCiphertext : Bytes) (messageNumber : ℕ) (nonce ciphertext : Bytes)
  | ratchet (header : Header) (nonce ciphertext : Bytes)
  deriving Repr, DecidableEq

namespace Signing

/-- The bytes that are signed. -/
def message : Signing S → Bytes
  | signPrekey x25519PublicKey kyberPublicKey => prekeyMessage x25519PublicKey kyberPublicKey
  | encodeHandshakeEnvelope ea kyberCiphertext messageKey plaintext selfUserId contactUserId nonce =>
    handshakeSignedPortion ea kyberCiphertext nonce.val
      (S.aeadEncrypt messageKey nonce.val (directionAad selfUserId contactUserId) plaintext)
  | encodeRatchetEnvelope header messageKey plaintext selfUserId contactUserId nonce =>
    ratchetSignedPortion header nonce.val
      (S.aeadEncrypt messageKey nonce.val (directionAad selfUserId contactUserId) plaintext)

/-- What was signed, the numbers of a header as its four byte fields carry them. -/
def content : Signing S → Content
  | signPrekey x25519PublicKey kyberPublicKey => .prekey x25519PublicKey kyberPublicKey
  | encodeHandshakeEnvelope ea kyberCiphertext messageKey plaintext selfUserId contactUserId nonce =>
    .handshake ea kyberCiphertext 0 nonce.val
      (S.aeadEncrypt messageKey nonce.val (directionAad selfUserId contactUserId) plaintext)
  | encodeRatchetEnvelope header messageKey plaintext selfUserId contactUserId nonce =>
    .ratchet ⟨header.dhPublicKey, header.previousChainLength % 2 ^ 32, header.messageNumber % 2 ^ 32⟩
      nonce.val
      (S.aeadEncrypt messageKey nonce.val (directionAad selfUserId contactUserId) plaintext)

/-- The keys have their sizes. -/
def Sized : Signing S → Prop
  | signPrekey x25519PublicKey _ => x25519PublicKey.length = x25519PublicKeyLength
  | encodeHandshakeEnvelope ea kyberCiphertext _ _ _ _ _ =>
    ea.length = x25519PublicKeyLength ∧ kyberCiphertext.length = kyberCiphertextLength
  | encodeRatchetEnvelope header _ _ _ _ _ => header.dhPublicKey.length = x25519PublicKeyLength

end Signing

def ContactKeyBundle.content (bundle : ContactKeyBundle) : Content :=
  .prekey bundle.x25519PublicKey bundle.kyberPublicKey

def HandshakeFields.content (f : HandshakeFields) : Content :=
  .handshake f.ea f.kyberCiphertext f.messageNumber f.nonce f.ciphertext

def RatchetFields.content (f : RatchetFields) : Content := .ratchet f.header f.nonce f.ciphertext

/-- An honest identity's key and all its uses: ideal signatures are accepted under the key for
the messages it signed only. -/
structure Honest (S : Suite) (publicKey : Bytes) (uses : List (Signing S)) : Prop where
  sized : ∀ u ∈ uses, u.Sized
  verify_only : ∀ signature message, S.verify signature message publicKey = some true →
    ∃ u ∈ uses, u.message = message

/-- The signature check of a decoder has accepted. -/
def PassesSignature (result : Except Thrown (DecodeResult S)) : Prop :=
  result ≠ .ok (.failure .malformed) ∧ result ≠ .ok (.failure .unrecognizedVersion) ∧
    result ≠ .ok (.failure .signatureFailure)

variable {uses : List (Signing S)}

theorem Honest.signed (h : Honest S publicKey uses) {signature message : Bytes}
    (hv : verifySignature S signature message publicKey = true) :
    ∃ u ∈ uses, u.message = message := by
  apply h.verify_only signature
  unfold verifySignature at hv
  cases hb : S.verify signature message publicKey with
  | none =>
    rw [hb] at hv
    cases hv
  | some b =>
    rw [hb] at hv
    exact congrArg some hv

theorem head_prekeyMessage (x25519PublicKey kyberPublicKey : Bytes) :
    (prekeyMessage x25519PublicKey kyberPublicKey).head? = some 0x65 := by
  have hhead : prekeySignatureContext.head? = some 0x65 := by decide
  rw [prekeyMessage, List.append_assoc, List.head?_append, hhead]
  rfl

theorem head_handshakeSignedPortion (ea kyberCiphertext nonce ciphertext : Bytes) :
    (handshakeSignedPortion ea kyberCiphertext nonce ciphertext).head? =
      some handshakeEnvelopeVersion := rfl

theorem head_ratchetSignedPortion (header : Header) (nonce ciphertext : Bytes) :
    (ratchetSignedPortion header nonce ciphertext).head? = some ratchetEnvelopeVersion := rfl

/-- The keys of a prekey message, given the length of the first. -/
theorem prekeyMessage_inj {x k x' k' : Bytes} (hlength : x.length = x'.length)
    (h : prekeyMessage x k = prekeyMessage x' k') : x = x' ∧ k = k' := by
  rw [prekeyMessage, prekeyMessage, List.append_assoc, List.append_assoc] at h
  exact List.append_inj (List.append_cancel_left h) hlength

theorem Honest.prekey_iff (h : Honest S publicKey uses) {bundle : ContactKeyBundle}
    (hkey : bundle.dilithiumPublicKey = publicKey) (hv : verifyPrekeyBundle S bundle = true) :
    (∃ u ∈ uses, u.content = bundle.content) ↔
      bundle.x25519PublicKey.length = x25519PublicKeyLength := by
  subst hkey
  constructor
  · rintro ⟨u, hu, hcontent⟩
    have hsized := h.sized u hu
    cases u with
    | signPrekey x k =>
      cases hcontent
      exact hsized
    | encodeHandshakeEnvelope => cases hcontent
    | encodeRatchetEnvelope => cases hcontent
  · intro hlength
    obtain ⟨u, hu, hmessage⟩ := h.signed hv
    have hsized := h.sized u hu
    have hhead := congrArg List.head? hmessage
    rw [head_prekeyMessage] at hhead
    cases u with
    | signPrekey x k =>
      obtain ⟨hx, hk⟩ := prekeyMessage_inj (hsized.trans hlength.symm) hmessage
      refine ⟨_, hu, ?_⟩
      rw [Signing.content, ContactKeyBundle.content, hx, hk]
    | encodeHandshakeEnvelope => cases hhead
    | encodeRatchetEnvelope => cases hhead

theorem Honest.handshake (h : Honest S publicKey uses) {params : DecodeHandshakeParams S}
    {newDhs : S.X25519Secret} (hkey : params.senderDilithiumPublicKey = publicKey)
    (haccept : PassesSignature (decodeHandshakeEnvelope envelope params newDhs)) :
    ∃ u ∈ uses, u.content = (handshakeFields envelope).content := by
  subst hkey
  obtain ⟨hmalformed, hversion, hsignature⟩ := haccept
  obtain ⟨hchecks, hv⟩ := decodeHandshakeEnvelope_verified rfl hmalformed hversion hsignature
  have hlayout := handshakeLayout_of_checks hchecks
  obtain ⟨u, hu, hmessage⟩ := h.signed hv
  have hsized := h.sized u hu
  have hhead := congrArg List.head? hmessage
  rw [hlayout.signedPortion, head_handshakeSignedPortion] at hhead
  cases u with
  | signPrekey x k =>
    rw [Signing.message, head_prekeyMessage] at hhead
    cases hhead
  | encodeHandshakeEnvelope ea kyberCiphertext messageKey plaintext selfUserId contactUserId nonce =>
    have hfields := handshakeFields_append (S.aeadEncrypt messageKey nonce.val
      (directionAad selfUserId contactUserId) plaintext) hsized.1 hsized.2 nonce.property
        hlayout.signature
    have hparts := hlayout.parts
    rw [← hmessage, Signing.message] at hparts
    rw [hparts] at hfields
    refine ⟨_, hu, ?_⟩
    rw [hfields]
    rfl
  | encodeRatchetEnvelope => cases hhead

theorem Honest.ratchet (h : Honest S publicKey uses) {params : DecodeRatchetParams S}
    {newDhs : S.X25519Secret} (hkey : params.senderDilithiumPublicKey = publicKey)
    (haccept : PassesSignature (decodeRatchetEnvelope envelope params newDhs)) :
    ∃ u ∈ uses, u.content = (ratchetFields envelope).content := by
  subst hkey
  obtain ⟨hmalformed, hversion, hsignature⟩ := haccept
  obtain ⟨hchecks, hv⟩ := decodeRatchetEnvelope_verified rfl hmalformed hversion hsignature
  have hlayout := ratchetLayout_of_checks hchecks
  obtain ⟨u, hu, hmessage⟩ := h.signed hv
  have hsized := h.sized u hu
  have hhead := congrArg List.head? hmessage
  rw [hlayout.signedPortion, head_ratchetSignedPortion] at hhead
  cases u with
  | signPrekey x k =>
    rw [Signing.message, head_prekeyMessage] at hhead
    cases hhead
  | encodeHandshakeEnvelope => cases hhead
  | encodeRatchetEnvelope header messageKey plaintext selfUserId contactUserId nonce =>
    have hfields := ratchetFields_append (S.aeadEncrypt messageKey nonce.val
      (directionAad selfUserId contactUserId) plaintext) hsized nonce.property hlayout.signature
    have hparts := hlayout.parts
    rw [← hmessage, Signing.message] at hparts
    rw [hparts] at hfields
    refine ⟨_, hu, ?_⟩
    rw [hfields]
    rfl

/-- What is accepted under an honest identity's key is what the identity signed: for envelopes
always, for a bundle exactly when its first key has its size. -/
theorem unambiguous (h : Honest S publicKey uses) :
    (∀ bundle : ContactKeyBundle, bundle.dilithiumPublicKey = publicKey →
      verifyPrekeyBundle S bundle = true →
      ((∃ u ∈ uses, u.content = bundle.content) ↔
        bundle.x25519PublicKey.length = x25519PublicKeyLength)) ∧
    (∀ (envelope : Bytes) (params : DecodeHandshakeParams S) (newDhs : S.X25519Secret),
      params.senderDilithiumPublicKey = publicKey →
      PassesSignature (decodeHandshakeEnvelope envelope params newDhs) →
      ∃ u ∈ uses, u.content = (handshakeFields envelope).content) ∧
    ∀ (envelope : Bytes) (params : DecodeRatchetParams S) (newDhs : S.X25519Secret),
      params.senderDilithiumPublicKey = publicKey →
      PassesSignature (decodeRatchetEnvelope envelope params newDhs) →
      ∃ u ∈ uses, u.content = (ratchetFields envelope).content :=
  ⟨fun _ hkey hv => h.prekey_iff hkey hv, fun _ _ _ hkey haccept => h.handshake hkey haccept,
    fun _ _ _ hkey haccept => h.ratchet hkey haccept⟩

/-- Terms with a signature that is bound to the messages a key has signed. -/
def Symbolic.signed (messages : List Bytes) : Suite :=
  { Symbolic.suite with
    verify := fun signature message publicKey =>
      some (decide (signature = publicKey) && decide (message ∈ messages)) }

namespace Symbolic

theorem honest_signPrekey {x : Bytes} (k : Bytes) (hx : x.length = x25519PublicKeyLength) :
    Honest (signed [prekeyMessage x k]) [1] [.signPrekey x k] := by
  refine ⟨fun u hu => ?_, fun signature message hv => ?_⟩
  · cases List.mem_singleton.mp hu
    exact hx
  · have hmem := (Bool.and_eq_true_iff.mp (Option.some.inj hv)).2
    exact ⟨_, List.mem_singleton_self _, (List.mem_singleton.mp (of_decide_eq_true hmem)).symm⟩

/-- The bytes count, however they are cut into two keys. -/
theorem verifyPrekeyBundle_signed {x k x' k' : Bytes}
    (hsame : prekeyMessage x' k' = prekeyMessage x k) :
    verifyPrekeyBundle (signed [prekeyMessage x k]) ⟨x', k', [1], [1]⟩ = true := by
  have hmem : decide (prekeyMessage x' k' ∈ [prekeyMessage x k]) = true :=
    decide_eq_true (hsame ▸ List.mem_singleton_self _)
  change (some (decide (([1] : Bytes) = [1]) && _)).getD false = true
  rw [hmem]
  rfl

end Symbolic

/-- The last byte of the first key is moved to the second one. -/
theorem prekey_resplit : ¬ ∀ (S : Suite) (publicKey : Bytes) (uses : List (Signing S)),
    Honest S publicKey uses → ∀ bundle : ContactKeyBundle, bundle.dilithiumPublicKey = publicKey →
      verifyPrekeyBundle S bundle = true → ∃ u ∈ uses, u.content = bundle.content := by
  intro hall
  let x := List.replicate 31 (9 : UInt8)
  let k := List.replicate 1184 (6 : UInt8)
  have hsame : prekeyMessage x (7 :: k) = prekeyMessage (x ++ [7]) k := by
    simp only [prekeyMessage, List.append_assoc, List.singleton_append]
  obtain ⟨u, hu, hcontent⟩ := hall _ [1] _ (Symbolic.honest_signPrekey k rfl)
    ⟨x, 7 :: k, [1], [1]⟩ rfl (Symbolic.verifyPrekeyBundle_signed hsame)
  cases List.mem_singleton.mp hu
  have hlength := congrArg List.length (Content.prekey.inj hcontent).1
  simp [x] at hlength

/-- The bundle as it was signed. -/
theorem unambiguous_first : ∃ (S : Suite) (bundle : ContactKeyBundle) (uses : List (Signing S)),
    verifyPrekeyBundle S bundle = true ∧ bundle.x25519PublicKey = List.replicate 32 9 ∧
      ∃ u ∈ uses, u.content = bundle.content := by
  let x := List.replicate 32 (9 : UInt8)
  let k := List.replicate 1184 (6 : UInt8)
  have hv : verifyPrekeyBundle (Symbolic.signed [prekeyMessage x k]) ⟨x, k, [1], [1]⟩ = true :=
    Symbolic.verifyPrekeyBundle_signed rfl
  obtain ⟨hprekey, -, -⟩ := unambiguous (Symbolic.honest_signPrekey k (List.length_replicate : x.length = 32))
  exact ⟨_, _, _, hv, rfl, (hprekey _ rfl hv).mpr List.length_replicate⟩

end Epistl
