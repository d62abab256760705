import Epistl.Crypto.WireFormat

/-! # An envelope under another signature

Nothing binds an envelope to one signature over it. The decoders verify the signature and
read nothing else of it, so what they return depends on the signed portion only.
-/
namespace Epistl
variable {S : Suite} {envelope signature plaintext : Bytes} {newDhs : S.X25519Secret}
  {next : RatchetState S}

/-- The bytes that either decoder verifies the signature over. -/
def signedPortionOf (envelope : Bytes) : Bytes :=
  slice envelope 0 (envelope.length - mlDsa65SignatureLength)

def signatureOf (envelope : Bytes) : Bytes :=
  slice envelope (envelope.length - mlDsa65SignatureLength) envelope.length

theorem signedPortionOf_append (portion : Bytes) (hs : signature.length = mlDsa65SignatureLength) :
    signedPortionOf (portion ++ signature) = portion := by
  rw [signedPortionOf, List.length_append, hs, Nat.add_sub_cancel, slice, List.drop_zero,
    Nat.sub_zero, List.take_left]

theorem signatureOf_append (portion : Bytes) (hs : signature.length = mlDsa65SignatureLength) :
    signatureOf (portion ++ signature) = signature := by
  rw [signatureOf, List.length_append, hs, Nat.add_sub_cancel, slice, List.drop_left,
    Nat.add_sub_cancel_left, List.take_of_length_le hs.le]

theorem handshakeFields_signedPortion (envelope : Bytes) :
    (handshakeFields envelope).signedPortion = signedPortionOf envelope := by
  simp only [handshakeFields, signedPortionOf]

theorem handshakeFields_messageNumber (envelope : Bytes) :
    (handshakeFields envelope).messageNumber = readUint32BE envelope 1121 := by
  simp only [handshakeFields]

theorem handshakeFields_signature (envelope : Bytes) :
    (handshakeFields envelope).signature = signatureOf envelope := by
  simp only [handshakeFields, signatureOf]

theorem ratchetFields_signature (envelope : Bytes) :
    (ratchetFields envelope).signature = signatureOf envelope := by
  simp only [ratchetFields, signatureOf]

theorem ratchetFields_signedPortion (envelope : Bytes) :
    (ratchetFields envelope).signedPortion = signedPortionOf envelope := by
  simp only [ratchetFields, signedPortionOf]

theorem readUint32BE_lt (bytes : Bytes) (offset : ℕ) : readUint32BE bytes offset < 2 ^ 32 := by
  have hlt (i : ℕ) : (bytes.getD i 0).toNat < 256 := (bytes.getD i 0).toNat_lt
  have h0 := hlt offset
  have h1 := hlt (offset + 1)
  have h2 := hlt (offset + 2)
  have h3 := hlt (offset + 3)
  unfold readUint32BE
  omega

theorem length_resigned {portion signature' : Bytes} (hparts : portion ++ signature' = envelope)
    (hs' : signature'.length = mlDsa65SignatureLength)
    (hs : signature.length = mlDsa65SignatureLength) :
    (portion ++ signature).length = envelope.length := by
  rw [← hparts, List.length_append, List.length_append, hs, hs']

theorem head_signedPortionOf_handshake (hchecks : HandshakeChecks envelope) :
    (signedPortionOf envelope).head? = some handshakeEnvelopeVersion := by
  rw [← handshakeFields_signedPortion, (handshakeLayout_of_checks hchecks).signedPortion]
  rfl

theorem head_signedPortionOf_ratchet (hchecks : RatchetChecks envelope) :
    (signedPortionOf envelope).head? = some ratchetEnvelopeVersion := by
  rw [← ratchetFields_signedPortion, (ratchetLayout_of_checks hchecks).signedPortion]
  rfl

/-- The other signature takes the place of the first one, every other field stays. -/
theorem HandshakeChecks.resigned (hchecks : HandshakeChecks envelope)
    (hs : signature.length = mlDsa65SignatureLength) :
    HandshakeChecks (signedPortionOf envelope ++ signature) ∧
      handshakeFields (signedPortionOf envelope ++ signature) =
        { handshakeFields envelope with signature := signature } := by
  have hlayout := handshakeLayout_of_checks hchecks
  have hportion := (handshakeFields_signedPortion envelope).symm.trans hlayout.signedPortion
  have hparts := hlayout.parts
  rw [handshakeFields_signedPortion] at hparts
  have hlength := length_resigned hparts hlayout.signature hs
  have hfields := handshakeFields_append (handshakeFields envelope).ciphertext hlayout.ea
    hlayout.kyberCiphertext hlayout.nonce hs
  rw [← hportion] at hfields
  obtain ⟨hmin, -, -⟩ := hchecks
  refine ⟨⟨?_, ?_, ?_⟩, ?_⟩
  · rw [hlength]
    exact hmin
  · rw [hportion]
    rfl
  · rw [← handshakeFields_messageNumber, hfields]
  · dsimp only
    rw [hfields, hlayout.messageNumber, handshakeFields_signedPortion]

theorem RatchetChecks.resigned (hchecks : RatchetChecks envelope)
    (hs : signature.length = mlDsa65SignatureLength) :
    RatchetChecks (signedPortionOf envelope ++ signature) ∧
      ratchetFields (signedPortionOf envelope ++ signature) =
        { ratchetFields envelope with signature := signature } := by
  have hlayout := ratchetLayout_of_checks hchecks
  have hportion := (ratchetFields_signedPortion envelope).symm.trans hlayout.signedPortion
  have hparts := hlayout.parts
  rw [ratchetFields_signedPortion] at hparts
  have hlength := length_resigned hparts hlayout.signature hs
  have hkey : (ratchetFields envelope).header.dhPublicKey.length = x25519PublicKeyLength :=
    hlayout.dhPublicKey
  have hfields := ratchetFields_append (ratchetFields envelope).ciphertext hkey hlayout.nonce hs
  rw [← hportion] at hfields
  have hprevious := Nat.mod_eq_of_lt (readUint32BE_lt envelope 33)
  have hnumber := Nat.mod_eq_of_lt (readUint32BE_lt envelope 37)
  obtain ⟨hmin, -⟩ := hchecks
  refine ⟨⟨?_, ?_⟩, ?_⟩
  · rw [hlength]
    exact hmin
  · rw [hportion]
    rfl
  · rw [hfields]
    dsimp only [RatchetFields.header, ratchetFields]
    rw [hprevious, hnumber]
    rfl

/-- What is accepted under one signature is accepted, with the same result, under any other
one that verifies. -/
theorem decodeHandshakeEnvelope_resigned {params : DecodeHandshakeParams S}
    (h : decodeHandshakeEnvelope envelope params newDhs = .ok (.success plaintext next))
    (hs : signature.length = mlDsa65SignatureLength)
    (hv : verifySignature S signature (signedPortionOf envelope)
      params.senderDilithiumPublicKey = true) :
    decodeHandshakeEnvelope (signedPortionOf envelope ++ signature) params newDhs =
      .ok (.success plaintext next) := by
  obtain ⟨hchecks, hv'⟩ := decodeHandshakeEnvelope_verified h (by simp) (by simp) (by simp)
  obtain ⟨hchecks', hfields⟩ := hchecks.resigned hs
  rw [decodeHandshakeEnvelope_fields params newDhs hchecks] at h
  rw [decodeHandshakeEnvelope_fields params newDhs hchecks', hfields]
  dsimp only at h ⊢
  rw [if_neg (Bool.not_eq_false _ ▸ hv')] at h
  rw [handshakeFields_signedPortion, if_neg (Bool.not_eq_false _ ▸ hv)]
  exact h

theorem decodeRatchetEnvelope_resigned {params : DecodeRatchetParams S}
    (h : decodeRatchetEnvelope envelope params newDhs = .ok (.success plaintext next))
    (hs : signature.length = mlDsa65SignatureLength)
    (hv : verifySignature S signature (signedPortionOf envelope)
      params.senderDilithiumPublicKey = true) :
    decodeRatchetEnvelope (signedPortionOf envelope ++ signature) params newDhs =
      .ok (.success plaintext next) := by
  obtain ⟨hchecks, hv'⟩ := decodeRatchetEnvelope_verified h (by simp) (by simp) (by simp)
  obtain ⟨hchecks', hfields⟩ := hchecks.resigned hs
  rw [decodeRatchetEnvelope_fields params newDhs hchecks] at h
  rw [decodeRatchetEnvelope_fields params newDhs hchecks', hfields]
  dsimp only at h ⊢
  rw [if_neg (Bool.not_eq_false _ ▸ hv')] at h
  rw [ratchetFields_signedPortion, if_neg (Bool.not_eq_false _ ▸ hv)]
  exact h

end Epistl
