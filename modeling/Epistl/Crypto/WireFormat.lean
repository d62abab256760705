import Epistl.Crypto.EnvelopeRoundTrip
import Epistl.Crypto.Symbolic
import Epistl.Text.Int32

/-! # The wire format of the envelopes

Cutting an encoded envelope gives back what was encoded, and an envelope that passes the
length and version checks of a decoder is the encoding of what is cut out of it.
-/
namespace Epistl
variable {S : Suite} {envelope : Bytes}

/-- `writeUint32BE`, with the bit operators of the source. -/
def writeUint32BEBits (value : ℕ) : Bytes :=
  [UInt8.ofNat (Js.and (Js.shiftRight value 24) 0xff).toNat,
    UInt8.ofNat (Js.and (Js.shiftRight value 16) 0xff).toNat,
    UInt8.ofNat (Js.and (Js.shiftRight value 8) 0xff).toNat,
    UInt8.ofNat (Js.and value 0xff).toNat]

/-- `readUint32BE`, with the bit operators of the source. -/
def readUint32BEBits (bytes : Bytes) (offset : ℕ) : ℤ :=
  Js.shiftRight
    (Js.or (Js.or (Js.or (Js.shiftLeft (bytes.getD offset 0).toNat 24)
      (Js.shiftLeft (bytes.getD (offset + 1) 0).toNat 16))
        (Js.shiftLeft (bytes.getD (offset + 2) 0).toNat 8)) (bytes.getD (offset + 3) 0).toNat) 0

theorem writeUint32BE_bits (value : ℕ) : writeUint32BEBits value = writeUint32BE value := by
  have hbyte (n : ℕ) : UInt8.ofNat (n % 2 ^ 8) = UInt8.ofNat n := by
    apply UInt8.toNat_inj.mp
    rw [UInt8.toNat_ofNat', UInt8.toNat_ofNat', Nat.mod_mod]
  have hpart (k : ℕ) (hk : k ≤ 24) : UInt8.ofNat (value % 2 ^ 32 / 2 ^ k) = UInt8.ofNat (value / 2 ^ k) := by
    apply UInt8.toNat_inj.mp
    rw [UInt8.toNat_ofNat', UInt8.toNat_ofNat']
    have hsplit : 2 ^ 32 = 2 ^ k * 2 ^ (32 - k) := by
      rw [← Nat.pow_add]
      congr 1
      omega
    rw [hsplit, Nat.mod_mul_right_div_self]
    exact Nat.mod_mod_of_dvd _ (Nat.pow_dvd_pow 2 (by omega))
  unfold writeUint32BEBits writeUint32BE
  simp only [Js.shiftRight_natCast, Js.and_byte, Int.toNat_natCast, hbyte]
  rw [hpart 24 (by omega), hpart 16 (by omega), hpart 8 (by omega)]

theorem readUint32BE_bits (bytes : Bytes) (offset : ℕ) :
    readUint32BEBits bytes offset = readUint32BE bytes offset := by
  have hlt (i : ℕ) : (bytes.getD i 0).toNat < 256 := (bytes.getD i 0).toNat_lt
  unfold readUint32BEBits readUint32BE
  rw [Js.shiftRight_zero]
  simp only [Js.toInt32_or, Js.toInt32_shiftLeft, Js.toInt32_natCast]
  rw [Js.toNat_bytes (hlt _) (hlt _) (hlt _) (hlt _)]

theorem length_slice {b : Bytes} {i j : ℕ} (hj : j ≤ b.length) : (slice b i j).length = j - i := by
  rw [slice, List.length_take, List.length_drop]
  omega

theorem slice_append_slice {b : Bytes} {i j k : ℕ} (hij : i ≤ j) (hjk : j ≤ k) :
    slice b i j ++ slice b j k = slice b i k := by
  have hdrop : b.drop j = (b.drop i).drop (j - i) := by
    rw [List.drop_drop]
    congr 1
    omega
  have hlen : k - i = (j - i) + (k - j) := by omega
  rw [slice, slice, slice, hdrop, hlen, List.take_add]

theorem slice_all (b : Bytes) : slice b 0 b.length = b := by
  rw [slice, List.drop_zero, Nat.sub_zero, List.take_length]

theorem slice_getD {b : Bytes} {i : ℕ} (hi : i < b.length) : slice b i (i + 1) = [b.getD i 0] := by
  rw [slice, Nat.add_sub_cancel_left, List.drop_eq_getElem_cons hi, List.take_succ_cons,
    List.take_zero, List.getD_eq_getElem?_getD, List.getElem?_eq_getElem hi, Option.getD_some]

/-- Writing the number that was read gives back its four bytes. -/
theorem writeUint32BE_read {b : Bytes} {i : ℕ} (hi : i + 4 ≤ b.length) :
    writeUint32BE (readUint32BE b i) = slice b i (i + 4) := by
  have hbyte {n : ℕ} {v : UInt8} (h : n % 256 = v.toNat) : UInt8.ofNat n = v := by
    apply UInt8.toNat_inj.mp
    rw [UInt8.toNat_ofNat']
    exact h
  have hlt (j : ℕ) : (b.getD j 0).toNat < 256 := (b.getD j 0).toNat_lt
  have h0 := hlt i
  have h1 := hlt (i + 1)
  have h2 := hlt (i + 2)
  have h3 := hlt (i + 3)
  have hslice : slice b i (i + 4) =
      [b.getD i 0, b.getD (i + 1) 0, b.getD (i + 2) 0, b.getD (i + 3) 0] := by
    rw [← slice_append_slice (show i ≤ i + 1 by omega) (show i + 1 ≤ i + 4 by omega),
      ← slice_append_slice (show i + 1 ≤ i + 2 by omega) (show i + 2 ≤ i + 4 by omega),
      ← slice_append_slice (show i + 2 ≤ i + 3 by omega) (show i + 3 ≤ i + 4 by omega),
      slice_getD (by omega), slice_getD (by omega), slice_getD (by omega), slice_getD (by omega)]
    rfl
  rw [hslice]
  unfold writeUint32BE readUint32BE
  simp only [List.cons.injEq, and_true]
  refine ⟨hbyte ?_, hbyte ?_, hbyte ?_, hbyte ?_⟩ <;> omega

/-- What `decodeHandshakeEnvelope` cuts out of an envelope. -/
structure HandshakeFields where
  ea : Bytes
  kyberCiphertext : Bytes
  messageNumber : ℕ
  nonce : Bytes
  ciphertext : Bytes
  signedPortion : Bytes
  signature : Bytes
  deriving Repr, DecidableEq

def handshakeFields (envelope : Bytes) : HandshakeFields :=
  let signedLength := envelope.length - mlDsa65SignatureLength
  { ea := slice envelope 1 33
    kyberCiphertext := slice envelope 33 1121
    messageNumber := readUint32BE envelope 1121
    nonce := slice envelope 1125 1149
    ciphertext := slice envelope 1149 signedLength
    signedPortion := slice envelope 0 signedLength
    signature := slice envelope signedLength envelope.length }

/-- What `decodeRatchetEnvelope` cuts out of an envelope, and the chain length that it skips. -/
structure RatchetFields where
  dhPublicKey : Bytes
  previousChainLength : ℕ
  messageNumber : ℕ
  nonce : Bytes
  ciphertext : Bytes
  signedPortion : Bytes
  signature : Bytes
  deriving Repr, DecidableEq

def ratchetFields (envelope : Bytes) : RatchetFields :=
  let signedLength := envelope.length - mlDsa65SignatureLength
  { dhPublicKey := slice envelope 1 33
    previousChainLength := readUint32BE envelope 33
    messageNumber := readUint32BE envelope 37
    nonce := slice envelope 41 65
    ciphertext := slice envelope 65 signedLength
    signedPortion := slice envelope 0 signedLength
    signature := slice envelope signedLength envelope.length }

def RatchetFields.header (f : RatchetFields) : Header :=
  ⟨f.dhPublicKey, f.previousChainLength, f.messageNumber⟩

/-- The length, version and message number checks of `decodeHandshakeEnvelope`. -/
def HandshakeChecks (envelope : Bytes) : Prop :=
  handshakeEnvelopeMinLength ≤ envelope.length ∧ envelope.getD 0 0 = handshakeEnvelopeVersion ∧
    readUint32BE envelope 1121 = 0

instance (envelope : Bytes) : Decidable (HandshakeChecks envelope) :=
  inferInstanceAs (Decidable (_ ∧ _ ∧ _))

/-- The length and version checks of `decodeRatchetEnvelope`. -/
def RatchetChecks (envelope : Bytes) : Prop :=
  ratchetEnvelopeMinLength ≤ envelope.length ∧ envelope.getD 0 0 = ratchetEnvelopeVersion

instance (envelope : Bytes) : Decidable (RatchetChecks envelope) :=
  inferInstanceAs (Decidable (_ ∧ _))

/-- The envelope is the encoding of what is cut out of it, and every cut is within it. -/
structure HandshakeLayout (envelope : Bytes) (f : HandshakeFields) : Prop where
  signedPortion : f.signedPortion =
    handshakeSignedPortion f.ea f.kyberCiphertext f.nonce f.ciphertext
  parts : f.signedPortion ++ f.signature = envelope
  ea : f.ea.length = x25519PublicKeyLength
  kyberCiphertext : f.kyberCiphertext.length = kyberCiphertextLength
  messageNumber : f.messageNumber = 0
  nonce : f.nonce.length = xchacha20poly1305NonceLength
  ciphertext : aeadTagLength ≤ f.ciphertext.length
  signature : f.signature.length = mlDsa65SignatureLength
  /-- the branch `signedLength <= offset` is not taken -/
  offset : ¬ envelope.length - mlDsa65SignatureLength ≤ 1149

structure RatchetLayout (envelope : Bytes) (f : RatchetFields) : Prop where
  signedPortion : f.signedPortion = ratchetSignedPortion f.header f.nonce f.ciphertext
  parts : f.signedPortion ++ f.signature = envelope
  dhPublicKey : f.dhPublicKey.length = x25519PublicKeyLength
  nonce : f.nonce.length = xchacha20poly1305NonceLength
  ciphertext : aeadTagLength ≤ f.ciphertext.length
  signature : f.signature.length = mlDsa65SignatureLength
  offset : ¬ envelope.length - mlDsa65SignatureLength ≤ 65

/-- After its checks the handshake decoder depends on the fields only. -/
theorem decodeHandshakeEnvelope_fields (params : DecodeHandshakeParams S) (newDhs : S.X25519Secret)
    (hchecks : HandshakeChecks envelope) :
    decodeHandshakeEnvelope envelope params newDhs =
      let f := handshakeFields envelope
      if verifySignature S f.signature f.signedPortion params.senderDilithiumPublicKey = false then
        .ok (.failure .signatureFailure)
      else do
        let state ← receiveHandshake params.contactUserId params.selfUserId f.ea f.kyberCiphertext
          params.selfX25519SecretKey params.selfKyberSecretKey newDhs
        let received ← deriveNextReceivingMessageKey state.toRatchetState f.ea 0 newDhs
        return openCiphertext received f.nonce (directionAad params.contactUserId params.selfUserId)
          f.ciphertext := by
  obtain ⟨hmin, hversion, hnumber⟩ := hchecks
  have hoffset : ¬ (envelope.length - mlDsa65SignatureLength ≤ 1149 ∨
      readUint32BE envelope 1121 ≠ 0) := by
    rw [not_or, not_not]
    refine ⟨?_, hnumber⟩
    simp only [handshakeEnvelopeMinLength, x25519PublicKeyLength, kyberCiphertextLength,
      uint32FieldLength, xchacha20poly1305NonceLength, aeadTagLength,
      mlDsa65SignatureLength] at hmin ⊢
    omega
  unfold decodeHandshakeEnvelope
  rw [if_neg (Nat.not_lt.mpr hmin), if_neg (not_not.mpr hversion)]
  dsimp only [handshakeFields]
  generalize envelope.length - mlDsa65SignatureLength = signedLength at hoffset ⊢
  rw [if_neg hoffset]

/-- Before that it fails. -/
theorem decodeHandshakeEnvelope_unchecked (params : DecodeHandshakeParams S) (newDhs : S.X25519Secret)
    (hchecks : ¬ HandshakeChecks envelope) :
    decodeHandshakeEnvelope envelope params newDhs = .ok (.failure .malformed) ∨
      decodeHandshakeEnvelope envelope params newDhs = .ok (.failure .unrecognizedVersion) := by
  unfold decodeHandshakeEnvelope
  by_cases hmin : envelope.length < handshakeEnvelopeMinLength
  · exact .inl (if_pos hmin)
  rw [if_neg hmin]
  by_cases hversion : envelope.getD 0 0 = handshakeEnvelopeVersion
  · left
    rw [if_neg (not_not.mpr hversion)]
    dsimp only
    rw [if_pos]
    exact .inr fun hnumber => hchecks ⟨Nat.not_lt.mp hmin, hversion, hnumber⟩
  · exact .inr (if_pos hversion)

theorem decodeRatchetEnvelope_fields (params : DecodeRatchetParams S) (newDhs : S.X25519Secret)
    (hchecks : RatchetChecks envelope) :
    decodeRatchetEnvelope envelope params newDhs =
      let f := ratchetFields envelope
      if verifySignature S f.signature f.signedPortion params.senderDilithiumPublicKey = false then
        .ok (.failure .signatureFailure)
      else do
        let received ← deriveNextReceivingMessageKey params.state f.dhPublicKey f.messageNumber
          newDhs
        return openCiphertext received f.nonce (directionAad params.contactUserId params.selfUserId)
          f.ciphertext := by
  obtain ⟨hmin, hversion⟩ := hchecks
  have hoffset : ¬ envelope.length - mlDsa65SignatureLength ≤ 65 := by
    simp only [ratchetEnvelopeMinLength, x25519PublicKeyLength, uint32FieldLength,
      xchacha20poly1305NonceLength, aeadTagLength, mlDsa65SignatureLength] at hmin ⊢
    omega
  unfold decodeRatchetEnvelope
  rw [if_neg (Nat.not_lt.mpr hmin), if_neg (not_not.mpr hversion)]
  dsimp only [ratchetFields]
  generalize envelope.length - mlDsa65SignatureLength = signedLength at hoffset ⊢
  rw [if_neg hoffset]

theorem decodeRatchetEnvelope_unchecked (params : DecodeRatchetParams S) (newDhs : S.X25519Secret)
    (hchecks : ¬ RatchetChecks envelope) :
    decodeRatchetEnvelope envelope params newDhs = .ok (.failure .malformed) ∨
      decodeRatchetEnvelope envelope params newDhs = .ok (.failure .unrecognizedVersion) := by
  unfold decodeRatchetEnvelope
  by_cases hmin : envelope.length < ratchetEnvelopeMinLength
  · exact .inl (if_pos hmin)
  rw [if_neg hmin]
  have hversion : ¬ envelope.getD 0 0 = ratchetEnvelopeVersion :=
    fun h => hchecks ⟨Nat.not_lt.mp hmin, h⟩
  exact .inr (if_pos hversion)

theorem openCiphertext_eq_success {received : Option (ReceivingKey S)}
    {nonce aad ciphertext plaintext : Bytes} {next : RatchetState S}
    (h : openCiphertext received nonce aad ciphertext = .success plaintext next) :
    ∃ k, received = some ⟨k, next⟩ ∧ S.aeadDecrypt k nonce aad ciphertext = some plaintext := by
  unfold openCiphertext at h
  split at h
  · cases h
  · split at h
    · cases h
    · rename_i hopened
      cases h
      exact ⟨_, rfl, hopened⟩

section accepted
variable {newDhs : S.X25519Secret} {plaintext : Bytes} {next : RatchetState S}

/-- A decoder that fails at none of its checks has accepted the signature. -/
theorem decodeHandshakeEnvelope_verified {params : DecodeHandshakeParams S}
    {result : Except Thrown (DecodeResult S)}
    (h : decodeHandshakeEnvelope envelope params newDhs = result)
    (hmalformed : result ≠ .ok (.failure .malformed))
    (hversion : result ≠ .ok (.failure .unrecognizedVersion))
    (hsignature : result ≠ .ok (.failure .signatureFailure)) :
    HandshakeChecks envelope ∧ verifySignature S (handshakeFields envelope).signature
      (handshakeFields envelope).signedPortion params.senderDilithiumPublicKey = true := by
  subst h
  have hchecks : HandshakeChecks envelope := by
    by_contra hchecks
    rcases decodeHandshakeEnvelope_unchecked params newDhs hchecks with hfail | hfail
    · exact hmalformed hfail
    · exact hversion hfail
  refine ⟨hchecks, ?_⟩
  by_contra hv
  rw [decodeHandshakeEnvelope_fields params newDhs hchecks] at hsignature
  exact hsignature (if_pos (Bool.not_eq_true _ ▸ hv))

theorem decodeRatchetEnvelope_verified {params : DecodeRatchetParams S}
    {result : Except Thrown (DecodeResult S)}
    (h : decodeRatchetEnvelope envelope params newDhs = result)
    (hmalformed : result ≠ .ok (.failure .malformed))
    (hversion : result ≠ .ok (.failure .unrecognizedVersion))
    (hsignature : result ≠ .ok (.failure .signatureFailure)) :
    RatchetChecks envelope ∧ verifySignature S (ratchetFields envelope).signature
      (ratchetFields envelope).signedPortion params.senderDilithiumPublicKey = true := by
  subst h
  have hchecks : RatchetChecks envelope := by
    by_contra hchecks
    rcases decodeRatchetEnvelope_unchecked params newDhs hchecks with hfail | hfail
    · exact hmalformed hfail
    · exact hversion hfail
  refine ⟨hchecks, ?_⟩
  by_contra hv
  rw [decodeRatchetEnvelope_fields params newDhs hchecks] at hsignature
  exact hsignature (if_pos (Bool.not_eq_true _ ▸ hv))

/-- What an accepted envelope has gone through. -/
theorem decodeHandshakeEnvelope_success {params : DecodeHandshakeParams S}
    (h : decodeHandshakeEnvelope envelope params newDhs = .ok (.success plaintext next)) :
    HandshakeChecks envelope ∧ ∃ state k,
      receiveHandshake params.contactUserId params.selfUserId (handshakeFields envelope).ea
        (handshakeFields envelope).kyberCiphertext params.selfX25519SecretKey
        params.selfKyberSecretKey newDhs = .ok state ∧
      deriveNextReceivingMessageKey state.toRatchetState (handshakeFields envelope).ea 0 newDhs =
        .ok (some ⟨k, next⟩) ∧
      S.aeadDecrypt k (handshakeFields envelope).nonce
        (directionAad params.contactUserId params.selfUserId)
        (handshakeFields envelope).ciphertext = some plaintext := by
  obtain ⟨hchecks, hv⟩ := decodeHandshakeEnvelope_verified h (by simp) (by simp) (by simp)
  rw [decodeHandshakeEnvelope_fields params newDhs hchecks] at h
  dsimp only at h
  rw [if_neg (Bool.not_eq_false _ ▸ hv)] at h
  obtain ⟨state, hstate, h⟩ := Thrown.bind_eq_ok h
  obtain ⟨received, hreceived, h⟩ := Thrown.bind_eq_ok h
  obtain ⟨k, rfl, hk⟩ := openCiphertext_eq_success (Except.ok.inj h)
  exact ⟨hchecks, state, k, hstate, hreceived, hk⟩

theorem decodeRatchetEnvelope_success {params : DecodeRatchetParams S}
    (h : decodeRatchetEnvelope envelope params newDhs = .ok (.success plaintext next)) :
    RatchetChecks envelope ∧ ∃ k,
      deriveNextReceivingMessageKey params.state (ratchetFields envelope).dhPublicKey
        (ratchetFields envelope).messageNumber newDhs = .ok (some ⟨k, next⟩) ∧
      S.aeadDecrypt k (ratchetFields envelope).nonce
        (directionAad params.contactUserId params.selfUserId)
        (ratchetFields envelope).ciphertext = some plaintext := by
  obtain ⟨hchecks, hv⟩ := decodeRatchetEnvelope_verified h (by simp) (by simp) (by simp)
  rw [decodeRatchetEnvelope_fields params newDhs hchecks] at h
  dsimp only at h
  rw [if_neg (Bool.not_eq_false _ ▸ hv)] at h
  obtain ⟨received, hreceived, h⟩ := Thrown.bind_eq_ok h
  obtain ⟨k, rfl, hk⟩ := openCiphertext_eq_success (Except.ok.inj h)
  exact ⟨hchecks, k, hreceived, hk⟩

end accepted

section encoders
variable {ea kyberCiphertext nonce signature : Bytes} {header : Header} (ciphertext : Bytes)

theorem handshakeFields_append (hea : ea.length = x25519PublicKeyLength)
    (hk : kyberCiphertext.length = kyberCiphertextLength)
    (hn : nonce.length = xchacha20poly1305NonceLength)
    (hs : signature.length = mlDsa65SignatureLength) :
    handshakeFields (handshakeSignedPortion ea kyberCiphertext nonce ciphertext ++ signature) =
      { ea := ea
        kyberCiphertext := kyberCiphertext
        messageNumber := 0
        nonce := nonce
        ciphertext := ciphertext
        signedPortion := handshakeSignedPortion ea kyberCiphertext nonce ciphertext
        signature := signature } := by
  obtain ⟨-, heas, hks, hnum, hnon, hct⟩ := slices_handshake ciphertext signature hea hk hn
  obtain ⟨hlen, hport, hsg⟩ :=
    slices_signature (length_handshakeSignedPortion ciphertext hea hk hn) hs
  simp only [handshakeFields, hlen, heas, hks, hnum, hnon, hct, hport, hsg]

theorem ratchetFields_append (hdh : header.dhPublicKey.length = x25519PublicKeyLength)
    (hn : nonce.length = xchacha20poly1305NonceLength)
    (hs : signature.length = mlDsa65SignatureLength) :
    ratchetFields (ratchetSignedPortion header nonce ciphertext ++ signature) =
      { dhPublicKey := header.dhPublicKey
        previousChainLength := header.previousChainLength % 2 ^ 32
        messageNumber := header.messageNumber % 2 ^ 32
        nonce := nonce
        ciphertext := ciphertext
        signedPortion := ratchetSignedPortion header nonce ciphertext
        signature := signature } := by
  obtain ⟨-, hdhs, hnum, hnon, hct⟩ := slices_ratchet header ciphertext signature hdh hn
  obtain ⟨hlen, hport, hsg⟩ := slices_signature (length_ratchetSignedPortion ciphertext hdh hn) hs
  have hprev : readUint32BE (ratchetSignedPortion header nonce ciphertext ++ signature) 33 =
      header.previousChainLength % 2 ^ 32 := by
    simp only [ratchetSignedPortion, List.append_assoc]
    rw [← List.append_assoc [_]]
    exact readUint32BE_append _ (by simp [hdh, x25519PublicKeyLength])
  simp only [ratchetFields, hlen, hdhs, hprev, hnum, hnon, hct, hport, hsg]

end encoders

/-- Within the length of an envelope, its cuts are next to each other. -/
theorem handshakeLayout_of_checks (hchecks : HandshakeChecks envelope) :
    HandshakeLayout envelope (handshakeFields envelope) := by
  obtain ⟨hmin, hversion, hnumber⟩ := hchecks
  have hlen : 4474 ≤ envelope.length := hmin
  have hfirst : slice envelope 0 1 = [handshakeEnvelopeVersion] := by
    rw [← hversion]
    exact slice_getD (by omega)
  have hzero : writeUint32BE 0 = slice envelope 1121 1125 := by
    rw [← hnumber]
    exact writeUint32BE_read (by omega)
  have hsigned : 1165 ≤ envelope.length - mlDsa65SignatureLength :=
    Nat.sub_le_sub_right hlen mlDsa65SignatureLength
  have hsignature : envelope.length - (envelope.length - mlDsa65SignatureLength) =
      mlDsa65SignatureLength := Nat.sub_sub_self (Nat.le_trans (by decide) hlen)
  have hwithin : envelope.length - mlDsa65SignatureLength ≤ envelope.length := Nat.sub_le _ _
  unfold handshakeFields
  -- the literal 3309 is not to be unfolded
  generalize envelope.length - mlDsa65SignatureLength = signedLength at hsigned hsignature hwithin ⊢
  have hportion : handshakeSignedPortion (slice envelope 1 33) (slice envelope 33 1121)
      (slice envelope 1125 1149) (slice envelope 1149 signedLength) =
        slice envelope 0 signedLength := by
    rw [handshakeSignedPortion, ← hfirst, hzero, slice_append_slice (by omega) (by omega),
      slice_append_slice (by omega) (by omega), slice_append_slice (by omega) (by omega),
      slice_append_slice (by omega) (by omega), slice_append_slice (by omega) (by omega)]
  constructor
  · dsimp only
    exact hportion.symm
  · exact (slice_append_slice (Nat.zero_le _) hwithin).trans (slice_all envelope)
  · exact length_slice (by omega)
  · exact length_slice (by omega)
  · exact hnumber
  · exact length_slice (by omega)
  · dsimp only
    rw [length_slice hwithin]
    unfold aeadTagLength
    omega
  · exact (length_slice (Nat.le_refl _)).trans hsignature
  · omega

theorem ratchetLayout_of_checks (hchecks : RatchetChecks envelope) :
    RatchetLayout envelope (ratchetFields envelope) := by
  obtain ⟨hmin, hversion⟩ := hchecks
  have hlen : 3390 ≤ envelope.length := hmin
  have hfirst : slice envelope 0 1 = [ratchetEnvelopeVersion] := by
    rw [← hversion]
    exact slice_getD (by omega)
  have hprevious : writeUint32BE (readUint32BE envelope 33) = slice envelope 33 37 :=
    writeUint32BE_read (by omega)
  have hnumber : writeUint32BE (readUint32BE envelope 37) = slice envelope 37 41 :=
    writeUint32BE_read (by omega)
  have hsigned : 81 ≤ envelope.length - mlDsa65SignatureLength :=
    Nat.sub_le_sub_right hlen mlDsa65SignatureLength
  have hsignature : envelope.length - (envelope.length - mlDsa65SignatureLength) =
      mlDsa65SignatureLength := Nat.sub_sub_self (Nat.le_trans (by decide) hlen)
  have hwithin : envelope.length - mlDsa65SignatureLength ≤ envelope.length := Nat.sub_le _ _
  unfold ratchetFields
  generalize envelope.length - mlDsa65SignatureLength = signedLength at hsigned hsignature hwithin ⊢
  have hportion : ratchetSignedPortion
      ⟨slice envelope 1 33, readUint32BE envelope 33, readUint32BE envelope 37⟩
      (slice envelope 41 65) (slice envelope 65 signedLength) = slice envelope 0 signedLength := by
    dsimp only [ratchetSignedPortion]
    rw [← hfirst, hprevious, hnumber, slice_append_slice (by omega) (by omega),
      slice_append_slice (by omega) (by omega), slice_append_slice (by omega) (by omega),
      slice_append_slice (by omega) (by omega), slice_append_slice (by omega) (by omega)]
  constructor
  · dsimp only [RatchetFields.header]
    exact hportion.symm
  · exact (slice_append_slice (Nat.zero_le _) hwithin).trans (slice_all envelope)
  · exact length_slice (by omega)
  · exact length_slice (by omega)
  · dsimp only
    rw [length_slice hwithin]
    unfold aeadTagLength
    omega
  · exact (length_slice (Nat.le_refl _)).trans hsignature
  · omega

theorem handshakeChecks_append {ea kyberCiphertext nonce ciphertext signature : Bytes}
    (hea : ea.length = x25519PublicKeyLength) (hk : kyberCiphertext.length = kyberCiphertextLength)
    (hn : nonce.length = xchacha20poly1305NonceLength) (hc : aeadTagLength ≤ ciphertext.length)
    (hs : signature.length = mlDsa65SignatureLength) :
    HandshakeChecks (handshakeSignedPortion ea kyberCiphertext nonce ciphertext ++ signature) := by
  obtain ⟨hversion, -, -, hnum, -, -⟩ := slices_handshake ciphertext signature hea hk hn
  refine ⟨?_, hversion, hnum⟩
  rw [List.length_append, length_handshakeSignedPortion ciphertext hea hk hn, hs]
  simp only [handshakeEnvelopeMinLength, x25519PublicKeyLength, kyberCiphertextLength,
    uint32FieldLength, xchacha20poly1305NonceLength, aeadTagLength] at hc ⊢
  omega

theorem ratchetChecks_append {header : Header} {nonce ciphertext signature : Bytes}
    (hdh : header.dhPublicKey.length = x25519PublicKeyLength)
    (hn : nonce.length = xchacha20poly1305NonceLength) (hc : aeadTagLength ≤ ciphertext.length)
    (hs : signature.length = mlDsa65SignatureLength) :
    RatchetChecks (ratchetSignedPortion header nonce ciphertext ++ signature) := by
  obtain ⟨hversion, -⟩ := slices_ratchet header ciphertext signature hdh hn
  refine ⟨?_, hversion⟩
  rw [List.length_append, length_ratchetSignedPortion ciphertext hdh hn, hs]
  simp only [ratchetEnvelopeMinLength, x25519PublicKeyLength, uint32FieldLength,
    xchacha20poly1305NonceLength, aeadTagLength] at hc ⊢
  omega

/-- Decoding recovers what `encodeHandshakeEnvelope` put in. -/
theorem handshakeFields_encode (hS : S.Sized) {ea kyberCiphertext : Bytes}
    (hea : ea.length = x25519PublicKeyLength) (hk : kyberCiphertext.length = kyberCiphertextLength)
    (messageKey : S.MessageKey) (plaintext : Bytes) (selfUserId contactUserId : JsString)
    (sk : S.DilithiumSecret) (random : EncodeRandom) :
    let envelope := encodeHandshakeEnvelope ea kyberCiphertext messageKey plaintext selfUserId
      contactUserId sk random
    let ciphertext := S.aeadEncrypt messageKey random.nonce.val
      (directionAad selfUserId contactUserId) plaintext
    let signedPortion := handshakeSignedPortion ea kyberCiphertext random.nonce.val ciphertext
    HandshakeChecks envelope ∧ handshakeFields envelope =
      ⟨ea, kyberCiphertext, 0, random.nonce.val, ciphertext, signedPortion,
        S.sign signedPortion sk random.entropy⟩ := by
  have hn := random.nonce.property
  constructor
  · exact handshakeChecks_append hea hk hn (hS.ciphertext _ _ _ _) (hS.signature _ _ _)
  · exact handshakeFields_append _ hea hk hn (hS.signature _ _ _)

/-- Decoding recovers what `encodeRatchetEnvelope` put in, numbers modulo `2 ^ 32`. -/
theorem ratchetFields_encode (hS : S.Sized) {header : Header}
    (hdh : header.dhPublicKey.length = x25519PublicKeyLength) (messageKey : S.MessageKey)
    (plaintext : Bytes) (selfUserId contactUserId : JsString) (sk : S.DilithiumSecret)
    (random : EncodeRandom) :
    let envelope := encodeRatchetEnvelope header messageKey plaintext selfUserId contactUserId sk
      random
    let ciphertext := S.aeadEncrypt messageKey random.nonce.val
      (directionAad selfUserId contactUserId) plaintext
    let signedPortion := ratchetSignedPortion header random.nonce.val ciphertext
    RatchetChecks envelope ∧ ratchetFields envelope =
      ⟨header.dhPublicKey, header.previousChainLength % 2 ^ 32, header.messageNumber % 2 ^ 32,
        random.nonce.val, ciphertext, signedPortion, S.sign signedPortion sk random.entropy⟩ := by
  have hn := random.nonce.property
  constructor
  · exact ratchetChecks_append hdh hn (hS.ciphertext _ _ _ _) (hS.signature _ _ _)
  · exact ratchetFields_append _ hdh hn (hS.signature _ _ _)

/-- Encoders and decoders agree on both layouts, in both directions, and on the numbers, for
which the source uses the bit operators. -/
theorem wire_format (hS : S.Sized) :
    (∀ (ea kyberCiphertext : Bytes) (messageKey : S.MessageKey) (plaintext : Bytes)
      (selfUserId contactUserId : JsString) (sk : S.DilithiumSecret) (random : EncodeRandom),
      ea.length = x25519PublicKeyLength → kyberCiphertext.length = kyberCiphertextLength →
      let envelope := encodeHandshakeEnvelope ea kyberCiphertext messageKey plaintext selfUserId
        contactUserId sk random
      let ciphertext := S.aeadEncrypt messageKey random.nonce.val
        (directionAad selfUserId contactUserId) plaintext
      let signedPortion := handshakeSignedPortion ea kyberCiphertext random.nonce.val ciphertext
      HandshakeChecks envelope ∧ handshakeFields envelope =
        ⟨ea, kyberCiphertext, 0, random.nonce.val, ciphertext, signedPortion,
          S.sign signedPortion sk random.entropy⟩) ∧
    (∀ (header : Header) (messageKey : S.MessageKey) (plaintext : Bytes)
      (selfUserId contactUserId : JsString) (sk : S.DilithiumSecret) (random : EncodeRandom),
      header.dhPublicKey.length = x25519PublicKeyLength → header.previousChainLength < 2 ^ 32 →
      header.messageNumber < 2 ^ 32 →
      let envelope := encodeRatchetEnvelope header messageKey plaintext selfUserId contactUserId sk
        random
      let ciphertext := S.aeadEncrypt messageKey random.nonce.val
        (directionAad selfUserId contactUserId) plaintext
      let signedPortion := ratchetSignedPortion header random.nonce.val ciphertext
      RatchetChecks envelope ∧ (ratchetFields envelope).header = header ∧ ratchetFields envelope =
        ⟨header.dhPublicKey, header.previousChainLength, header.messageNumber, random.nonce.val,
          ciphertext, signedPortion, S.sign signedPortion sk random.entropy⟩) ∧
    (∀ envelope, HandshakeChecks envelope → HandshakeLayout envelope (handshakeFields envelope)) ∧
    (∀ envelope, RatchetChecks envelope → RatchetLayout envelope (ratchetFields envelope)) ∧
    (∀ value, writeUint32BEBits value = writeUint32BE value) ∧
    ∀ bytes offset, readUint32BEBits bytes offset = readUint32BE bytes offset := by
  refine ⟨fun ea kyberCiphertext messageKey plaintext selfUserId contactUserId sk random hea hk =>
      handshakeFields_encode hS hea hk messageKey plaintext selfUserId contactUserId sk random,
    fun header messageKey plaintext selfUserId contactUserId sk random hdh hprevious hnumber => ?_,
    fun _ => handshakeLayout_of_checks, fun _ => ratchetLayout_of_checks, writeUint32BE_bits,
    readUint32BE_bits⟩
  obtain ⟨hchecks, hfields⟩ :=
    ratchetFields_encode hS hdh messageKey plaintext selfUserId contactUserId sk random
  rw [Nat.mod_eq_of_lt hprevious, Nat.mod_eq_of_lt hnumber] at hfields
  exact ⟨hchecks, congrArg RatchetFields.header hfields, hfields⟩

/-- Numbers from `2 ^ 31` on, which the signed operators read as negative. -/
theorem wire_format_large :
    (∃ envelope, (ratchetFields envelope).previousChainLength = 2 ^ 31 ∧
      (ratchetFields envelope).messageNumber = 2 ^ 32 - 1 ∧
      RatchetLayout envelope (ratchetFields envelope)) ∧
    ∃ envelope, (handshakeFields envelope).ea = List.replicate 32 5 ∧
      HandshakeLayout envelope (handshakeFields envelope) := by
  obtain ⟨hhandshake, hratchet, hhandshakes, hratchets, -⟩ := wire_format Symbolic.suite_sized
  let random : EncodeRandom := ⟨⟨List.replicate 24 7, List.length_replicate⟩, []⟩
  constructor
  · obtain ⟨hchecks, hheader, -⟩ := hratchet ⟨List.replicate 32 9, 2 ^ 31, 2 ^ 32 - 1⟩
      (.handshake 0 0 [] []) [104, 105] [] [] ⟨2, by decide⟩ random List.length_replicate (by decide)
      (by decide)
    exact ⟨_, congrArg Header.previousChainLength hheader, congrArg Header.messageNumber hheader,
      hratchets _ hchecks⟩
  · obtain ⟨hchecks, hfields⟩ := hhandshake (List.replicate 32 5) (List.replicate 1088 6)
      (.handshake 0 0 [] []) [104, 105] [] [] ⟨2, by decide⟩ random List.length_replicate
      List.length_replicate
    exact ⟨_, congrArg HandshakeFields.ea hfields, hhandshakes _ hchecks⟩

end Epistl
