import Epistl.Crypto.Envelope

/-! # What decoding an honest envelope amounts to

On the output of an encoder the byte layout disappears: decoding is the signature
check, the derivation of a receiving key and one call of the cipher.
-/
namespace Epistl
variable {S : Suite}

theorem slice_append {a b c : Bytes} {i j : ℕ} (hi : a.length = i) (hj : i + b.length = j) :
    slice (a ++ (b ++ c)) i j = b := by
  subst hi
  subst hj
  simp [slice]

theorem length_writeUint32BE (v : ℕ) : (writeUint32BE v).length = 4 := rfl

/-- The wire field holds the number modulo `2 ^ 32`. -/
theorem readUint32BE_append {a c : Bytes} {i : ℕ} (v : ℕ) (hi : a.length = i) :
    readUint32BE (a ++ (writeUint32BE v ++ c)) i = v % 2 ^ 32 := by
  subst hi
  have h (k : ℕ) : (a ++ (writeUint32BE v ++ c)).getD (a.length + k) 0 =
      (writeUint32BE v ++ c).getD k 0 := by
    simp [List.getD_eq_getElem?_getD, List.getElem?_append_right]
  have h0 := h 0
  simp only [Nat.add_zero] at h0
  simp only [readUint32BE, h0, h 1, h 2, h 3]
  simp only [writeUint32BE, List.cons_append, List.nil_append, List.getD_cons_zero,
    List.getD_cons_succ, UInt8.toNat_ofNat']
  omega

section layout
variable {ea kyberCiphertext nonce ciphertext signature : Bytes} {header : Header}

theorem length_handshakeSignedPortion (ciphertext : Bytes) (hea : ea.length = 32)
    (hk : kyberCiphertext.length = 1088) (hn : nonce.length = 24) :
    (handshakeSignedPortion ea kyberCiphertext nonce ciphertext).length =
      1149 + ciphertext.length := by
  simp only [handshakeSignedPortion, List.length_append, List.length_cons, List.length_nil,
    length_writeUint32BE, hea, hk, hn]

theorem length_ratchetSignedPortion (ciphertext : Bytes) (hdh : header.dhPublicKey.length = 32)
    (hn : nonce.length = 24) :
    (ratchetSignedPortion header nonce ciphertext).length = 65 + ciphertext.length := by
  simp only [ratchetSignedPortion, List.length_append, List.length_cons, List.length_nil,
    length_writeUint32BE, hdh, hn]

/-- The fields the handshake decoder slices out of an encoded envelope. -/
theorem slices_handshake (ciphertext signature : Bytes) (hea : ea.length = 32)
    (hk : kyberCiphertext.length = 1088) (hn : nonce.length = 24) :
    let envelope := handshakeSignedPortion ea kyberCiphertext nonce ciphertext ++ signature
    envelope.getD 0 0 = handshakeEnvelopeVersion ∧ slice envelope 1 33 = ea ∧
      slice envelope 33 1121 = kyberCiphertext ∧ readUint32BE envelope 1121 = 0 ∧
      slice envelope 1125 1149 = nonce ∧
      slice envelope 1149 (1149 + ciphertext.length) = ciphertext := by
  refine ⟨rfl, ?_, ?_, ?_, ?_, ?_⟩
  · simp only [handshakeSignedPortion, List.append_assoc]
    exact slice_append (a := [_]) rfl (by rw [hea])
  · simp only [handshakeSignedPortion]
    rw [List.append_assoc _ nonce, List.append_assoc _ (writeUint32BE 0),
      List.append_assoc _ (writeUint32BE 0 ++ _), List.append_assoc _ kyberCiphertext]
    exact slice_append (by simp [hea]) (by rw [hk])
  · simp only [handshakeSignedPortion]
    rw [List.append_assoc _ nonce, List.append_assoc _ (nonce ++ ciphertext),
      List.append_assoc _ (writeUint32BE 0)]
    exact readUint32BE_append 0 (by simp [hea, hk])
  · simp only [handshakeSignedPortion]
    rw [List.append_assoc _ ciphertext, List.append_assoc _ nonce]
    exact slice_append (by simp [hea, hk, length_writeUint32BE]) (by rw [hn])
  · simp only [handshakeSignedPortion]
    rw [List.append_assoc _ ciphertext]
    exact slice_append (by simp [hea, hk, hn, length_writeUint32BE]) rfl

/-- The fields the ratchet decoder slices out of an encoded envelope. -/
theorem slices_ratchet (header : Header) (ciphertext signature : Bytes)
    (hdh : header.dhPublicKey.length = 32) (hn : nonce.length = 24) :
    let envelope := ratchetSignedPortion header nonce ciphertext ++ signature
    envelope.getD 0 0 = ratchetEnvelopeVersion ∧ slice envelope 1 33 = header.dhPublicKey ∧
      readUint32BE envelope 37 = header.messageNumber % 2 ^ 32 ∧ slice envelope 41 65 = nonce ∧
      slice envelope 65 (65 + ciphertext.length) = ciphertext := by
  refine ⟨rfl, ?_, ?_, ?_, ?_⟩
  · simp only [ratchetSignedPortion, List.append_assoc]
    exact slice_append (a := [_]) rfl (by rw [hdh])
  · simp only [ratchetSignedPortion]
    rw [List.append_assoc _ nonce, List.append_assoc _ (nonce ++ ciphertext),
      List.append_assoc _ (writeUint32BE header.messageNumber)]
    exact readUint32BE_append _ (by simp [hdh, length_writeUint32BE])
  · simp only [ratchetSignedPortion]
    rw [List.append_assoc _ ciphertext, List.append_assoc _ nonce]
    exact slice_append (by simp [hdh, length_writeUint32BE]) (by rw [hn])
  · simp only [ratchetSignedPortion]
    rw [List.append_assoc _ ciphertext]
    exact slice_append (by simp [hdh, hn, length_writeUint32BE]) rfl

/-- Cutting the signature off the end. -/
theorem slices_signature {portion : Bytes} {n : ℕ} (hp : portion.length = n)
    (hs : signature.length = mlDsa65SignatureLength) :
    let envelope := portion ++ signature
    envelope.length - mlDsa65SignatureLength = n ∧ slice envelope 0 n = portion ∧
      slice envelope n envelope.length = signature := by
  subst hp
  refine ⟨by simp [hs], by simp [slice], ?_⟩
  simp only [slice, List.drop_left, List.length_append, Nat.add_sub_cancel_left, List.take_length]

variable {newDhs : S.X25519Secret}

theorem decodeRatchetEnvelope_layout (hdh : header.dhPublicKey.length = 32)
    (hn : nonce.length = 24) (hc : 16 ≤ ciphertext.length)
    (hs : signature.length = mlDsa65SignatureLength) (params : DecodeRatchetParams S) :
    decodeRatchetEnvelope (ratchetSignedPortion header nonce ciphertext ++ signature) params newDhs =
      if verifySignature S signature (ratchetSignedPortion header nonce ciphertext)
          params.senderDilithiumPublicKey = false then .ok (.failure .signatureFailure)
      else (deriveNextReceivingMessageKey params.state header.dhPublicKey
        (header.messageNumber % 2 ^ 32) newDhs).map fun received =>
          openCiphertext received nonce (directionAad params.contactUserId params.selfUserId)
            ciphertext := by
  obtain ⟨hv, hdhs, hnum, hnon, hct⟩ := slices_ratchet header ciphertext signature hdh hn
  have hplen := length_ratchetSignedPortion ciphertext hdh hn
  obtain ⟨hlen, hport, hsg⟩ := slices_signature hplen hs
  have hmin : ¬ (ratchetSignedPortion header nonce ciphertext ++ signature).length <
      ratchetEnvelopeMinLength := by
    rw [List.length_append, hplen, hs]
    simp only [ratchetEnvelopeMinLength, x25519PublicKeyLength, uint32FieldLength,
      xchacha20poly1305NonceLength, aeadTagLength]
    omega
  unfold decodeRatchetEnvelope
  rw [if_neg hmin]
  simp only [hv, hlen, hport, hsg, hdhs, hnum, hnon, hct, ne_eq, not_true_eq_false, if_false]
  rw [if_neg (by omega)]
  rfl

theorem decodeHandshakeEnvelope_layout (hea : ea.length = 32)
    (hk : kyberCiphertext.length = 1088) (hn : nonce.length = 24) (hc : 16 ≤ ciphertext.length)
    (hs : signature.length = mlDsa65SignatureLength) (params : DecodeHandshakeParams S) :
    decodeHandshakeEnvelope (handshakeSignedPortion ea kyberCiphertext nonce ciphertext ++ signature)
        params newDhs =
      if verifySignature S signature (handshakeSignedPortion ea kyberCiphertext nonce ciphertext)
          params.senderDilithiumPublicKey = false then .ok (.failure .signatureFailure)
      else do
        let state ← receiveHandshake params.contactUserId params.selfUserId ea kyberCiphertext
          params.selfX25519SecretKey params.selfKyberSecretKey newDhs
        let received ← deriveNextReceivingMessageKey state.toRatchetState ea 0 newDhs
        return openCiphertext received nonce (directionAad params.contactUserId params.selfUserId)
          ciphertext := by
  obtain ⟨hv, heas, hks, hnum, hnon, hct⟩ := slices_handshake ciphertext signature hea hk hn
  have hplen := length_handshakeSignedPortion ciphertext hea hk hn
  obtain ⟨hlen, hport, hsg⟩ := slices_signature hplen hs
  have hmin : ¬ (handshakeSignedPortion ea kyberCiphertext nonce ciphertext ++ signature).length <
      handshakeEnvelopeMinLength := by
    rw [List.length_append, hplen, hs]
    simp only [handshakeEnvelopeMinLength, x25519PublicKeyLength, kyberCiphertextLength,
      uint32FieldLength, xchacha20poly1305NonceLength, aeadTagLength]
    omega
  unfold decodeHandshakeEnvelope
  rw [if_neg hmin]
  simp only [hv, hlen, hport, hsg, heas, hks, hnum, hnon, hct, ne_eq, not_true_eq_false, if_false,
    or_false]
  rw [if_neg (by omega)]

end layout

section encoded
variable {ea kyberCiphertext plaintext : Bytes} {header : Header} {messageKey : S.MessageKey}
  {selfUserId contactUserId : JsString} {sk : S.DilithiumSecret} {random : EncodeRandom}
  {newDhs : S.X25519Secret}

/-- The signature of an encoder is accepted under the signer's public key only. -/
theorem verifySignature_sign (hS : S.Ideal) (portion entropy pk : Bytes) :
    verifySignature S (S.sign portion sk entropy) portion pk = true ↔
      pk = S.dilithiumPublicKey sk := by
  constructor
  · intro h
    cases hv : S.verify (S.sign portion sk entropy) portion pk with
    | none => simp [verifySignature, hv] at h
    | some b =>
      simp only [verifySignature, hv, Option.getD_some] at h
      subst h
      exact hS.verify_only hv
  · rintro rfl
    simp [verifySignature, hS.verify_sign]

/-- Decoding an encoded ratchet envelope under the sender's signing key. -/
theorem decodeRatchetEnvelope_encode (hS : S.Ideal) (hdh : header.dhPublicKey.length = 32)
    (params : DecodeRatchetParams S)
    (hpk : params.senderDilithiumPublicKey = S.dilithiumPublicKey sk) :
    decodeRatchetEnvelope (encodeRatchetEnvelope header messageKey plaintext selfUserId
        contactUserId sk random) params newDhs =
      (deriveNextReceivingMessageKey params.state header.dhPublicKey
        (header.messageNumber % 2 ^ 32) newDhs).map fun received =>
        openCiphertext received random.nonce.val
          (directionAad params.contactUserId params.selfUserId)
          (S.aeadEncrypt messageKey random.nonce.val (directionAad selfUserId contactUserId)
            plaintext) := by
  rw [encodeRatchetEnvelope, decodeRatchetEnvelope_layout hdh random.nonce.property
    (hS.ciphertext _ _ _ _) (hS.signature _ _ _), if_neg]
  simp only [(verifySignature_sign hS _ _ _).mpr hpk, Bool.true_eq_false, not_false_eq_true]

/-- A ratchet envelope under another signing key than the sender's is refused. -/
theorem decodeRatchetEnvelope_foreign (hS : S.Ideal) (hdh : header.dhPublicKey.length = 32)
    {params : DecodeRatchetParams S}
    (hpk : params.senderDilithiumPublicKey ≠ S.dilithiumPublicKey sk) :
    decodeRatchetEnvelope (encodeRatchetEnvelope header messageKey plaintext selfUserId
        contactUserId sk random) params newDhs = .ok (.failure .signatureFailure) := by
  rw [encodeRatchetEnvelope, decodeRatchetEnvelope_layout hdh random.nonce.property
    (hS.ciphertext _ _ _ _) (hS.signature _ _ _), if_pos]
  exact Bool.eq_false_iff.mpr fun h => hpk ((verifySignature_sign hS _ _ _).mp h)

/-- Decoding an encoded handshake envelope under the sender's signing key. -/
theorem decodeHandshakeEnvelope_encode (hS : S.Ideal) (hea : ea.length = 32)
    (hk : kyberCiphertext.length = 1088) {params : DecodeHandshakeParams S}
    (hpk : params.senderDilithiumPublicKey = S.dilithiumPublicKey sk) :
    decodeHandshakeEnvelope (encodeHandshakeEnvelope ea kyberCiphertext messageKey plaintext
        selfUserId contactUserId sk random) params newDhs = do
      let state ← receiveHandshake params.contactUserId params.selfUserId ea kyberCiphertext
        params.selfX25519SecretKey params.selfKyberSecretKey newDhs
      let received ← deriveNextReceivingMessageKey state.toRatchetState ea 0 newDhs
      return openCiphertext received random.nonce.val
        (directionAad params.contactUserId params.selfUserId)
        (S.aeadEncrypt messageKey random.nonce.val (directionAad selfUserId contactUserId)
          plaintext) := by
  rw [encodeHandshakeEnvelope, decodeHandshakeEnvelope_layout hea hk random.nonce.property
    (hS.ciphertext _ _ _ _) (hS.signature _ _ _), if_neg]
  simp only [(verifySignature_sign hS _ _ _).mpr hpk, Bool.true_eq_false, not_false_eq_true]

theorem decodeHandshakeEnvelope_foreign (hS : S.Ideal) (hea : ea.length = 32)
    (hk : kyberCiphertext.length = 1088) {params : DecodeHandshakeParams S}
    (hpk : params.senderDilithiumPublicKey ≠ S.dilithiumPublicKey sk) :
    decodeHandshakeEnvelope (encodeHandshakeEnvelope ea kyberCiphertext messageKey plaintext
        selfUserId contactUserId sk random) params newDhs = .ok (.failure .signatureFailure) := by
  rw [encodeHandshakeEnvelope, decodeHandshakeEnvelope_layout hea hk random.nonce.property
    (hS.ciphertext _ _ _ _) (hS.signature _ _ _), if_pos]
  exact Bool.eq_false_iff.mpr fun h => hpk ((verifySignature_sign hS _ _ _).mp h)

/-- Neither decoder accepts the other layout. -/
theorem decodeRatchetEnvelope_handshake (params : DecodeRatchetParams S) :
    ∃ reason, decodeRatchetEnvelope (encodeHandshakeEnvelope ea kyberCiphertext messageKey plaintext
      selfUserId contactUserId sk random) params newDhs = .ok (.failure reason) := by
  unfold decodeRatchetEnvelope
  split
  · exact ⟨_, rfl⟩
  · exact ⟨.unrecognizedVersion, if_pos (show handshakeEnvelopeVersion ≠ ratchetEnvelopeVersion by decide)⟩

theorem decodeHandshakeEnvelope_ratchet (params : DecodeHandshakeParams S) :
    ∃ reason, decodeHandshakeEnvelope (encodeRatchetEnvelope header messageKey plaintext selfUserId
      contactUserId sk random) params newDhs = .ok (.failure reason) := by
  unfold decodeHandshakeEnvelope
  split
  · exact ⟨_, rfl⟩
  · exact ⟨.unrecognizedVersion, if_pos (show ratchetEnvelopeVersion ≠ handshakeEnvelopeVersion by decide)⟩

/-- The cipher accepts its own output exactly under the key and direction it was made for. -/
theorem openCiphertext_encrypt (hS : S.Ideal) {k : S.MessageKey} {next : RatchetState S}
    (nonce aad plaintext : Bytes) :
    openCiphertext (some ⟨k, next⟩) nonce aad (S.aeadEncrypt k nonce aad plaintext) =
      .success plaintext next := by
  simp only [openCiphertext, hS.decrypt_encrypt]

theorem openCiphertext_success (hS : S.Ideal) {received : Option (ReceivingKey S)}
    {k : S.MessageKey} {nonce nonce' aad aad' plaintext p : Bytes} {next : RatchetState S}
    (h : openCiphertext received nonce aad (S.aeadEncrypt k nonce' aad' plaintext) =
      .success p next) : received = some ⟨k, next⟩ ∧ aad = aad' := by
  cases received with
  | none => simp [openCiphertext] at h
  | some r =>
    simp only [openCiphertext] at h
    split at h
    · simp at h
    · rename_i p' hd
      obtain ⟨hk, -, ha⟩ := hS.decrypt_only hd
      simp only [DecodeResult.success.injEq] at h
      obtain ⟨-, rfl⟩ := h
      exact ⟨by rw [← hk], ha⟩

end encoded

end Epistl
