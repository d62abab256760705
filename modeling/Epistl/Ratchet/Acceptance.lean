import Epistl.Ratchet.Handshake

/-! # What an accepted envelope tells

The sender of an accepted envelope is the one whose key verified it, the derived key
is the one it was sealed under, and the next state follows from the kind of step.
Nothing is assumed about the order in which envelopes arrive.
-/
namespace Epistl
variable {S : Suite} {a : Identity S} {c : Chain S} {n : ℕ} {envelope plaintext : Bytes}
  {newDhs : S.X25519Secret} {next : RatchetState S}

/-- The offset at which either layout has its ciphertext. -/
def ciphertextOffset (envelope : Bytes) : ℕ :=
  if envelope.head? = some handshakeEnvelopeVersion then 1149 else 65

/-- The envelope carries a ciphertext under this key. -/
def SealedUnder (envelope : Bytes) (k : S.MessageKey) : Prop :=
  ∃ lead nonce aad plaintext signature,
    envelope = lead ++ S.aeadEncrypt k nonce aad plaintext ++ signature ∧
      lead.length = ciphertextOffset envelope ∧ signature.length = mlDsa65SignatureLength

theorem SealedUnder.unique (hS : S.Ideal) {k k' : S.MessageKey} (h : SealedUnder envelope k)
    (h' : SealedUnder envelope k') : k = k' := by
  obtain ⟨lead, nonce, aad, p, signature, he, hl, hs⟩ := h
  obtain ⟨lead', nonce', aad', p', signature', he', hl', hs'⟩ := h'
  obtain ⟨hportion, -⟩ := List.append_inj' (he.symm.trans he') (hs.trans hs'.symm)
  obtain ⟨-, hct⟩ := List.append_inj hportion (hl.trans hl'.symm)
  have hd := hS.decrypt_encrypt k nonce aad p
  rw [hct] at hd
  exact (hS.decrypt_only hd).1

/-- Message `n` of a chain, made by `a` for someone. -/
def MadeRatchet (a : Identity S) (c : Chain S) (n : ℕ) (envelope : Bytes) : Prop :=
  ∃ contactUserId previousChainLength plaintext random,
    envelope = encodeRatchetEnvelope ⟨c.publicKey, previousChainLength, n⟩ (c.messageKey n)
      plaintext a.userId contactUserId a.dilithiumSecretKey random

/-- Message 0 of a chain, made by `a` to open a session with someone. -/
def MadeHandshake (a : Identity S) (c : Chain S) (envelope : Bytes) : Prop :=
  ∃ contactUserId kyberCiphertext plaintext random, kyberCiphertext.length = 1088 ∧
    envelope = encodeHandshakeEnvelope c.publicKey kyberCiphertext (c.messageKey 0) plaintext
      a.userId contactUserId a.dilithiumSecretKey random

theorem MadeRatchet.head (h : MadeRatchet a c n envelope) :
    envelope.head? = some ratchetEnvelopeVersion := by
  obtain ⟨_, _, _, _, rfl⟩ := h
  rfl

theorem MadeHandshake.head (h : MadeHandshake a c envelope) :
    envelope.head? = some handshakeEnvelopeVersion := by
  obtain ⟨_, _, _, _, -, rfl⟩ := h
  rfl

theorem MadeRatchet.sealed (hS : S.Ideal) (h : MadeRatchet a c n envelope) :
    SealedUnder envelope (c.messageKey n) := by
  have hoff : ciphertextOffset envelope = 65 := by
    rw [ciphertextOffset, h.head]
    decide
  obtain ⟨contactUserId, pcl, plaintext, random, rfl⟩ := h
  refine ⟨[ratchetEnvelopeVersion] ++ c.publicKey ++ writeUint32BE pcl ++ writeUint32BE n ++
    random.nonce.val, random.nonce.val, directionAad a.userId contactUserId, plaintext, _, rfl, ?_,
    hS.signature _ _ _⟩
  rw [hoff]
  simp [length_writeUint32BE, c.length_publicKey hS, random.nonce.property,
    xchacha20poly1305NonceLength]

theorem MadeHandshake.sealed (hS : S.Ideal) (h : MadeHandshake a c envelope) :
    SealedUnder envelope (c.messageKey 0) := by
  have hoff : ciphertextOffset envelope = 1149 := by
    rw [ciphertextOffset, h.head]
    decide
  obtain ⟨contactUserId, kct, plaintext, random, hk, rfl⟩ := h
  refine ⟨[handshakeEnvelopeVersion] ++ c.publicKey ++ kct ++ writeUint32BE 0 ++ random.nonce.val,
    random.nonce.val, directionAad a.userId contactUserId, plaintext, _, rfl, ?_,
    hS.signature _ _ _⟩
  rw [hoff]
  simp [length_writeUint32BE, c.length_publicKey hS, random.nonce.property,
    xchacha20poly1305NonceLength, hk]

/-- An accepted ratchet envelope is the next of the receiving chain or starts a new one. -/
theorem MadeRatchet.accepted (hS : S.Ideal) (h : MadeRatchet a c n envelope)
    {params : DecodeRatchetParams S}
    (hd : decodeRatchetEnvelope envelope params newDhs = .ok (.success plaintext next)) :
    params.senderDilithiumPublicKey = S.dilithiumPublicKey a.dilithiumSecretKey ∧
      ((∃ ck, params.state.dhrPublicKey = some c.publicKey ∧
          params.state.receivingChainKey = some ck ∧ c.messageKey n = messageKeyOf ck ∧
          next = { params.state with
            receivingChainKey := some (nextChainKey ck)
            receiveMessageNumber := params.state.receiveMessageNumber + 1 }) ∨
        ∃ g f : Chain S, params.state.dhrPublicKey ≠ some c.publicKey ∧
          g.secret = params.state.dhsSecretKey ∧ g.peer = c.secret ∧ f.secret = newDhs ∧
          c.messageKey n = g.messageKey 0 ∧
          next = ratchetedTo c.publicKey g f params.state.sendMessageNumber) := by
  obtain ⟨_, pcl, p, random, rfl⟩ := h
  by_cases hpk : params.senderDilithiumPublicKey = S.dilithiumPublicKey a.dilithiumSecretKey
  · refine ⟨hpk, ?_⟩
    rw [decodeRatchetEnvelope_encode hS (c.length_publicKey hS) params hpk] at hd
    by_cases hp : params.state.dhrPublicKey = some c.publicKey
    · rw [deriveNextReceivingMessageKey_same hp] at hd
      split at hd
      · have hopen := (openCiphertext_success hS (Except.ok.inj hd)).1
        obtain ⟨ck, hck, heq⟩ := Option.map_eq_some_iff.mp hopen
        obtain ⟨hk, hnext⟩ := ReceivingKey.mk.inj heq
        exact .inl ⟨ck, hp, hck, hk.symm, hnext.symm⟩
      · cases hd
    · obtain ⟨g, f, hg1, hg2, -, hf1, -, -, hderive⟩ :=
        derive_new hS (n % 2 ^ 32) newDhs hp
      rw [hderive] at hd
      have hopen := (openCiphertext_success hS (Except.ok.inj hd)).1
      obtain ⟨hk, hnext⟩ := ReceivingKey.mk.inj (Option.some.inj hopen)
      exact .inr ⟨g, f, hp, hg1, hg2, hf1, hk.symm, hnext.symm⟩
  · rw [decodeRatchetEnvelope_foreign hS (c.length_publicKey hS) hpk] at hd
    cases hd

/-- An accepted handshake envelope starts over from the identity secret. -/
theorem MadeHandshake.accepted (hS : S.Ideal) (h : MadeHandshake a c envelope)
    {params : DecodeHandshakeParams S}
    (hd : decodeHandshakeEnvelope envelope params newDhs = .ok (.success plaintext next)) :
    params.senderDilithiumPublicKey = S.dilithiumPublicKey a.dilithiumSecretKey ∧
      ∃ g f : Chain S, g.secret = params.selfX25519SecretKey ∧ g.peer = c.secret ∧
        f.secret = newDhs ∧ c.messageKey 0 = g.messageKey 0 ∧
        next = ratchetedTo c.publicKey g f 0 := by
  obtain ⟨_, kct, p, random, hk, rfl⟩ := h
  by_cases hpk : params.senderDilithiumPublicKey = S.dilithiumPublicKey a.dilithiumSecretKey
  · refine ⟨hpk, ?_⟩
    rw [decodeHandshakeEnvelope_encode hS (c.length_publicKey hS) hk hpk, ← bind_assoc] at hd
    obtain ⟨z, hz⟩ := hS.shared_exists params.selfX25519SecretKey c.secret
    cases hdec : S.decapsulate kct params.selfKyberSecretKey with
    | none =>
      have hz : S.x25519SharedSecret params.selfX25519SecretKey c.publicKey = some z := hz
      simp [receiveHandshake, hz, hdec, Thrown.ofOption, bind, Except.bind] at hd
    | some k =>
      let g : Chain S := ⟨params.selfX25519SecretKey, c.secret, S.hkdfHandshake z k
        (rootKeyInfoBytes params.contactUserId params.selfUserId), z, hz⟩
      obtain ⟨f, rfl, hpeer, hroot⟩ := Chain.exists_of_secrets hS newDhs g.peer g.nextRoot
      have hreceive := receiveHandshake_eq (g := g) (f := f) _ _ hdec rfl hpeer hroot
      have hd := (congrArg (· >>= _) hreceive).symm.trans hd
      have hopen := (openCiphertext_success hS (Except.ok.inj hd)).1
      obtain ⟨hk, hnext⟩ := ReceivingKey.mk.inj (Option.some.inj hopen)
      exact ⟨g, f, rfl, rfl, rfl, hk.symm, hnext.symm⟩
  · rw [decodeHandshakeEnvelope_foreign hS (c.length_publicKey hS) hk hpk] at hd
    cases hd

end Epistl
