import Epistl.Crypto.Session

/-! # The binary envelopes of `crypto/envelope.ts`

Both layouts are a version byte, fixed width fields, a nonce and the ciphertext,
followed by a signature over all of it. Decoding slices the same offsets back out.
-/
namespace Epistl
variable {S : Suite}

def handshakeEnvelopeVersion : UInt8 := 0x02
def ratchetEnvelopeVersion : UInt8 := 0x03

def x25519PublicKeyLength : ℕ := 32
def kyberCiphertextLength : ℕ := 1088
def uint32FieldLength : ℕ := 4
def xchacha20poly1305NonceLength : ℕ := 24
def aeadTagLength : ℕ := 16
def mlDsa65SignatureLength : ℕ := 3309

/-- What `randomBytes(XCHACHA20POLY1305_NONCE_LENGTH)` returns. -/
abbrev Nonce := {n : Bytes // n.length = xchacha20poly1305NonceLength}

inductive FailureReason where
  | unrecognizedVersion
  | malformed
  | signatureFailure
  | rejected
  | aeadFailure
  deriving Repr, DecidableEq

/-- `EnvelopeDecodeResult`. -/
inductive DecodeResult (S : Suite) where
  | success (plaintext : Bytes) (nextState : RatchetState S)
  | failure (reason : FailureReason)

/-- `Array.prototype.slice` on bytes. -/
def slice (b : Bytes) (start stop : ℕ) : Bytes := (b.drop start).take (stop - start)

def writeUint32BE (value : ℕ) : Bytes :=
  [UInt8.ofNat (value / 2 ^ 24), UInt8.ofNat (value / 2 ^ 16), UInt8.ofNat (value / 2 ^ 8),
    UInt8.ofNat value]

def readUint32BE (bytes : Bytes) (offset : ℕ) : ℕ :=
  (bytes.getD offset 0).toNat * 2 ^ 24 + (bytes.getD (offset + 1) 0).toNat * 2 ^ 16 +
    (bytes.getD (offset + 2) 0).toNat * 2 ^ 8 + (bytes.getD (offset + 3) 0).toNat

def directionAad (senderUserId recipientUserId : JsString) : Bytes :=
  JsString.utf8Bytes senderUserId ++ JsString.utf8Bytes recipientUserId

def verifySignature (S : Suite) (signature message publicKey : Bytes) : Bool :=
  (S.verify signature message publicKey).getD false

/-- The randomness of one encoding: the nonce and the signer's entropy. -/
structure EncodeRandom where
  nonce : Nonce
  entropy : Bytes

def handshakeSignedPortion (ea kyberCiphertext nonce ciphertext : Bytes) : Bytes :=
  [handshakeEnvelopeVersion] ++ ea ++ kyberCiphertext ++ writeUint32BE 0 ++ nonce ++ ciphertext

def encodeHandshakeEnvelope (ea kyberCiphertext : Bytes) (messageKey : S.MessageKey)
    (plaintext : Bytes) (selfUserId contactUserId : JsString)
    (signingSecretKey : S.DilithiumSecret) (random : EncodeRandom) : Bytes :=
  let nonce := random.nonce.val
  let aad := directionAad selfUserId contactUserId
  let ciphertext := S.aeadEncrypt messageKey nonce aad plaintext
  let signedPortion := handshakeSignedPortion ea kyberCiphertext nonce ciphertext
  let signature := S.sign signedPortion signingSecretKey random.entropy
  signedPortion ++ signature

structure DecodeHandshakeParams (S : Suite) where
  contactUserId : JsString
  selfUserId : JsString
  selfX25519SecretKey : S.X25519Secret
  selfKyberSecretKey : S.KyberSecret
  senderDilithiumPublicKey : Bytes

def handshakeEnvelopeMinLength : ℕ :=
  1 + x25519PublicKeyLength + kyberCiphertextLength + uint32FieldLength +
    xchacha20poly1305NonceLength + aeadTagLength + mlDsa65SignatureLength

/-- The shared tail of both decoders: the reading of a derived key with the cipher. -/
def openCiphertext (received : Option (ReceivingKey S)) (nonce aad ciphertext : Bytes) :
    DecodeResult S :=
  match received with
  | none => .failure .rejected
  | some received =>
    match S.aeadDecrypt received.messageKey nonce aad ciphertext with
    | none => .failure .aeadFailure
    | some plaintext => .success plaintext received.nextState

/-- The literals are the values of the running `offset`. -/
def decodeHandshakeEnvelope (envelope : Bytes) (params : DecodeHandshakeParams S)
    (newDhs : S.X25519Secret) : Except Thrown (DecodeResult S) :=
  if envelope.length < handshakeEnvelopeMinLength then .ok (.failure .malformed)
  else if envelope.getD 0 0 ≠ handshakeEnvelopeVersion then .ok (.failure .unrecognizedVersion)
  else
    let ea := slice envelope 1 33
    let kyberCiphertext := slice envelope 33 1121
    let messageNumber := readUint32BE envelope 1121
    let nonce := slice envelope 1125 1149
    let signedLength := envelope.length - mlDsa65SignatureLength
    if signedLength ≤ 1149 ∨ messageNumber ≠ 0 then .ok (.failure .malformed)
    else
      let ciphertext := slice envelope 1149 signedLength
      let signedPortion := slice envelope 0 signedLength
      let signature := slice envelope signedLength envelope.length
      if verifySignature S signature signedPortion params.senderDilithiumPublicKey = false then
        .ok (.failure .signatureFailure)
      else do
        let state ← receiveHandshake params.contactUserId params.selfUserId ea kyberCiphertext
          params.selfX25519SecretKey params.selfKyberSecretKey newDhs
        -- `ea` is the state's peer key already, so no second key pair is generated here
        let received ← deriveNextReceivingMessageKey state.toRatchetState ea 0 newDhs
        return openCiphertext received nonce (directionAad params.contactUserId params.selfUserId)
          ciphertext

def ratchetSignedPortion (header : Header) (nonce ciphertext : Bytes) : Bytes :=
  [ratchetEnvelopeVersion] ++ header.dhPublicKey ++ writeUint32BE header.previousChainLength ++
    writeUint32BE header.messageNumber ++ nonce ++ ciphertext

def encodeRatchetEnvelope (header : Header) (messageKey : S.MessageKey) (plaintext : Bytes)
    (selfUserId contactUserId : JsString) (signingSecretKey : S.DilithiumSecret)
    (random : EncodeRandom) : Bytes :=
  let nonce := random.nonce.val
  let aad := directionAad selfUserId contactUserId
  let ciphertext := S.aeadEncrypt messageKey nonce aad plaintext
  let signedPortion := ratchetSignedPortion header nonce ciphertext
  let signature := S.sign signedPortion signingSecretKey random.entropy
  signedPortion ++ signature

structure DecodeRatchetParams (S : Suite) where
  state : RatchetState S
  senderDilithiumPublicKey : Bytes
  selfUserId : JsString
  contactUserId : JsString

def ratchetEnvelopeMinLength : ℕ :=
  1 + x25519PublicKeyLength + uint32FieldLength * 2 + xchacha20poly1305NonceLength +
    aeadTagLength + mlDsa65SignatureLength

def decodeRatchetEnvelope (envelope : Bytes) (params : DecodeRatchetParams S)
    (newDhs : S.X25519Secret) : Except Thrown (DecodeResult S) :=
  if envelope.length < ratchetEnvelopeMinLength then .ok (.failure .malformed)
  else if envelope.getD 0 0 ≠ ratchetEnvelopeVersion then .ok (.failure .unrecognizedVersion)
  else
    let dhPublicKey := slice envelope 1 33
    -- the previous chain length at 33 is signed over, not needed to decrypt
    let messageNumber := readUint32BE envelope 37
    let nonce := slice envelope 41 65
    let signedLength := envelope.length - mlDsa65SignatureLength
    if signedLength ≤ 65 then .ok (.failure .malformed)
    else
      let ciphertext := slice envelope 65 signedLength
      let signedPortion := slice envelope 0 signedLength
      let signature := slice envelope signedLength envelope.length
      if verifySignature S signature signedPortion params.senderDilithiumPublicKey = false then
        .ok (.failure .signatureFailure)
      else do
        let received ← deriveNextReceivingMessageKey params.state dhPublicKey messageNumber newDhs
        return openCiphertext received nonce (directionAad params.contactUserId params.selfUserId)
          ciphertext

end Epistl
