import Epistl.Ratchet.Chain

/-! # Opening a session

The initiator's first chain joins its ephemeral secret to the responder's identity
secret. Decoding the handshake envelope leaves the responder one ratchet step ahead.
-/
namespace Epistl
variable {S : Suite}

/-- What one device knows about itself. -/
structure Identity (S : Suite) where
  userId : JsString
  x25519SecretKey : S.X25519Secret
  kyberSecretKey : S.KyberSecret
  dilithiumSecretKey : S.DilithiumSecret

namespace Identity

def bundle (a : Identity S) : ContactBundle where
  x25519PublicKey := S.x25519PublicKey a.x25519SecretKey
  kyberPublicKey := S.kyberPublicKey a.kyberSecretKey

/-- The direction from `a` to `b`. -/
def toward (a b : Identity S) : Direction S where
  senderUserId := a.userId
  recipientUserId := b.userId
  signingSecretKey := a.dilithiumSecretKey

/-- The arguments with which `b` decodes a handshake of `a`. -/
def handshakeParams (a b : Identity S) : DecodeHandshakeParams S where
  contactUserId := a.userId
  selfUserId := b.userId
  selfX25519SecretKey := b.x25519SecretKey
  selfKyberSecretKey := b.kyberSecretKey
  senderDilithiumPublicKey := S.dilithiumPublicKey a.dilithiumSecretKey

end Identity

/-- The initiator's state before its first message. -/
def openedOn (c : Chain S) : RatchetState S where
  rootKey := c.nextRoot
  dhsPublicKey := c.publicKey
  dhsSecretKey := c.secret
  dhrPublicKey := none
  sendingChainKey := some (c.key 0)
  receivingChainKey := none
  sendMessageNumber := 0
  receiveMessageNumber := 0
  previousSendingChainLength := 0

/-- A first chain from `a` to `b`, whose root comes from the encapsulated secret. -/
structure FirstChain (a b : Identity S) (c : Chain S) (kyberCiphertext : Bytes) : Prop where
  peer : c.peer = b.x25519SecretKey
  length : kyberCiphertext.length = 1088
  root : ∃ k, S.decapsulate kyberCiphertext b.kyberSecretKey = some k ∧
    c.root = S.hkdfHandshake c.shared k (rootKeyInfoBytes b.userId a.userId)

theorem initiateSession_eq (hS : S.Ideal) (a b : Identity S) (ea : S.X25519Secret)
    (kemRandom : Bytes) :
    ∃ (c : Chain S) (kyberCiphertext : Bytes), c.secret = ea ∧
      FirstChain a b c kyberCiphertext ∧
      initiateSession b.userId a.userId b.bundle ea kemRandom =
        .ok ⟨openedOn c, c.publicKey, kyberCiphertext⟩ := by
  obtain ⟨z, hz⟩ := hS.shared_exists ea b.x25519SecretKey
  obtain ⟨⟨ct, k⟩, hk⟩ :=
    Option.isSome_iff_exists.mp (hS.encapsulate_isSome b.kyberSecretKey kemRandom)
  let c : Chain S := ⟨ea, b.x25519SecretKey, S.hkdfHandshake z k (rootKeyInfoBytes b.userId a.userId),
    z, hz⟩
  refine ⟨c, ct, rfl, ⟨rfl, hS.kyberCiphertext hk, k, hS.decapsulate_encapsulate hk, rfl⟩, ?_⟩
  simp only [initiateSession, Identity.bundle, hz, hk, Thrown.ofOption]
  rfl

/-- What the responder derives from a handshake, as a chain `g` from its own identity
secret. -/
theorem receiveHandshake_eq (contactUserId selfUserId : JsString) {kyberCiphertext : Bytes}
    {selfKyberSecretKey : S.KyberSecret} {k : S.KyberShared} {g f : Chain S}
    (hk : S.decapsulate kyberCiphertext selfKyberSecretKey = some k)
    (hg : g.root = S.hkdfHandshake g.shared k (rootKeyInfoBytes contactUserId selfUserId))
    (hpeer : f.peer = g.peer) (hroot : f.root = g.nextRoot) :
    (do
      let state ← receiveHandshake contactUserId selfUserId (S.x25519PublicKey g.peer)
        kyberCiphertext g.secret selfKyberSecretKey f.secret
      deriveNextReceivingMessageKey state.toRatchetState (S.x25519PublicKey g.peer) 0 f.secret) =
      .ok (some ⟨g.messageKey 0, ratchetedTo (S.x25519PublicKey g.peer) g f 0⟩) := by
  let r : RatchetedState S := {
    rootKey := f.nextRoot
    dhsPublicKey := f.publicKey
    dhsSecretKey := f.secret
    dhrPublicKey := S.x25519PublicKey g.peer
    sendingChainKey := f.key 0
    receivingChainKey := g.key 0
    sendMessageNumber := 0
    receiveMessageNumber := 0
    previousSendingChainLength := 0 }
  have hz' : S.x25519SharedSecret f.secret (S.x25519PublicKey g.peer) = some f.shared := by
    rw [← hpeer, f.agreed]
  have hstate : receiveHandshake contactUserId selfUserId (S.x25519PublicKey g.peer)
      kyberCiphertext g.secret selfKyberSecretKey f.secret = .ok r := by
    simp only [receiveHandshake, g.agreed, hz', hk, Thrown.ofOption, dhRatchetStep, bind,
      Except.bind, pure, Except.pure, ← hg]
    simp only [r, Chain.key, Chain.nextRoot, Chain.publicKey, hroot]
  rw [hstate]
  exact deriveNextReceivingMessageKey_same rfl

/-- The responder accepts the handshake and answers on a chain of its own. -/
theorem decode_handshake (hS : S.Ideal) {a b : Identity S} {c : Chain S} {kyberCiphertext : Bytes}
    (hc : FirstChain a b c kyberCiphertext) (plaintext : Bytes) (random : EncodeRandom)
    (newDhs : S.X25519Secret) :
    ∃ f : Chain S, f.secret = newDhs ∧ f.peer = c.secret ∧ f.root = c.nextRoot ∧
      decodeHandshakeEnvelope (encodeHandshakeEnvelope c.publicKey kyberCiphertext (c.messageKey 0)
        plaintext a.userId b.userId a.dilithiumSecretKey random) (a.handshakeParams b) newDhs =
        .ok (.success plaintext (ratchetedTo c.publicKey c f 0)) := by
  obtain ⟨k, hk, hroot⟩ := hc.root
  obtain ⟨f, rfl, hf2, hf3⟩ := Chain.exists_of_secrets hS newDhs c.secret c.nextRoot
  refine ⟨f, rfl, hf2, hf3, ?_⟩
  have hreceive := receiveHandshake_eq (g := c.mirror hS) (f := f) a.userId b.userId hk
    (by rw [rootKeyInfoBytes_comm]; exact hroot) hf2 hf3
  rw [Chain.messageKey, c.key_mirror hS, ratchetedTo, c.key_mirror hS] at hreceive
  rw [decodeHandshakeEnvelope_encode hS (c.length_publicKey hS) hc.length rfl, ← bind_assoc]
  rw [show (a.handshakeParams b).selfX25519SecretKey = (c.mirror hS).secret from hc.peer.symm]
  refine (congrArg (· >>= _) hreceive).trans ?_
  exact congrArg Except.ok (openCiphertext_encrypt hS _ _ _)

end Epistl
