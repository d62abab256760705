import Epistl.Crypto.WireFormat
import Epistl.Inbox.Device
import Epistl.Ratchet.Acceptance
import Epistl.Ratchet.Agreement
import Epistl.Text.Utf8

/-! # Envelopes belong to one conversation

The user ids travel in the associated data of the cipher only, one after the other and
undelimited. Ids of one length can be told from there, so a ciphertext opens on nobody
else's device and under nobody else's name, whoever signed the envelope around it.
-/
namespace Epistl
variable {S : Suite} {a : Identity S} {recipientUserId : JsString}
  {sent received envelope plaintext : Bytes} {newDhs : S.X25519Secret} {next : RatchetState S}

/-- What a device encodes for a recipient. -/
inductive EncodedFor (a : Identity S) (recipientUserId : JsString) : Bytes → Prop
  | handshake {ea kyberCiphertext : Bytes} (messageKey : S.MessageKey) (plaintext : Bytes)
      (random : EncodeRandom) : ea.length = x25519PublicKeyLength →
      kyberCiphertext.length = kyberCiphertextLength →
      EncodedFor a recipientUserId (encodeHandshakeEnvelope ea kyberCiphertext messageKey plaintext
        a.userId recipientUserId a.dilithiumSecretKey random)
  | ratchet {header : Header} (messageKey : S.MessageKey) (plaintext : Bytes)
      (random : EncodeRandom) : header.dhPublicKey.length = x25519PublicKeyLength →
      EncodedFor a recipientUserId (encodeRatchetEnvelope header messageKey plaintext a.userId
        recipientUserId a.dilithiumSecretKey random)

/-- The bytes either decoder hands to the cipher. -/
def ciphertextOf (envelope : Bytes) : Bytes :=
  slice envelope (ciphertextOffset envelope) (envelope.length - mlDsa65SignatureLength)

/-- Nothing but the ciphertext counts: the conversation of an envelope is that of its
sender and its recipient. -/
structure BoundTo (S : Suite) (senderUserId recipientUserId : JsString) (envelope : Bytes) :
    Prop where
  handshake {params : DecodeHandshakeParams S} {newDhs : S.X25519Secret} {plaintext : Bytes}
    {next : RatchetState S} : params.contactUserId.length = senderUserId.length →
    decodeHandshakeEnvelope envelope params newDhs = .ok (.success plaintext next) →
    params.contactUserId = senderUserId ∧ params.selfUserId = recipientUserId
  ratchet {params : DecodeRatchetParams S} {newDhs : S.X25519Secret} {plaintext : Bytes}
    {next : RatchetState S} : params.contactUserId.length = senderUserId.length →
    decodeRatchetEnvelope envelope params newDhs = .ok (.success plaintext next) →
    params.contactUserId = senderUserId ∧ params.selfUserId = recipientUserId
  /-- On a device, with the sender the relay names and whatever is stored for it. -/
  frame {ctx : Context S} {bundle : ContactKeyBundle} {contactUserId : JsString}
    {session : Option (RatchetState S)} {newDhs : S.X25519Secret} {plaintext : Bytes}
    {next : RatchetState S} : contactUserId.length = senderUserId.length →
    decodeFrame ctx bundle contactUserId envelope session newDhs =
      .ok (some (.success plaintext next)) →
    contactUserId = senderUserId ∧ ctx.identity.userId = recipientUserId

/-- The ids of the conversation can be read off the associated data. -/
theorem directionAad_inj {s r s' r' : JsString} (hlength : s.length = s'.length)
    (h : directionAad s r = directionAad s' r') : s = s' ∧ r = r' :=
  JsString.utf8Bytes_append_inj hlength h

/-- The ciphertext of an encoded envelope was made for its conversation. -/
theorem EncodedFor.ciphertext (hS : S.Ideal) (h : EncodedFor a recipientUserId sent) :
    ∃ key nonce plaintext, ciphertextOf sent =
      S.aeadEncrypt key nonce (directionAad a.userId recipientUserId) plaintext := by
  cases h with
  | handshake messageKey plaintext random hea hk =>
    refine ⟨messageKey, random.nonce.val, plaintext, ?_⟩
    have hn := random.nonce.property
    obtain ⟨-, -, -, -, -, hct⟩ := slices_handshake (S.aeadEncrypt messageKey random.nonce.val
      (directionAad a.userId recipientUserId) plaintext) (S.sign (handshakeSignedPortion _ _ _ _)
        a.dilithiumSecretKey random.entropy) hea hk hn
    obtain ⟨hlen, -, -⟩ := slices_signature (length_handshakeSignedPortion _ hea hk hn)
      (hS.signature (handshakeSignedPortion _ _ _ _) a.dilithiumSecretKey random.entropy)
    unfold ciphertextOf
    rw [encodeHandshakeEnvelope, hlen]
    exact hct
  | ratchet messageKey plaintext random hdh =>
    refine ⟨messageKey, random.nonce.val, plaintext, ?_⟩
    have hn := random.nonce.property
    obtain ⟨-, -, -, -, hct⟩ := slices_ratchet _ (S.aeadEncrypt messageKey random.nonce.val
      (directionAad a.userId recipientUserId) plaintext) (S.sign (ratchetSignedPortion _ _ _)
        a.dilithiumSecretKey random.entropy) hdh hn
    obtain ⟨hlen, -, -⟩ := slices_signature (length_ratchetSignedPortion _ hdh hn)
      (hS.signature (ratchetSignedPortion _ _ _) a.dilithiumSecretKey random.entropy)
    unfold ciphertextOf
    rw [encodeRatchetEnvelope, hlen]
    exact hct

theorem ciphertextOffset_of_getD {v : UInt8} (hne : envelope ≠ []) (h : envelope.getD 0 0 = v) :
    ciphertextOffset envelope = if v = handshakeEnvelopeVersion then 1149 else 65 := by
  cases envelope with
  | nil => exact absurd rfl hne
  | cons b rest =>
    obtain rfl : b = v := h
    simp only [ciphertextOffset, List.head?_cons, Option.some.injEq]

theorem ciphertextOf_handshake (hchecks : HandshakeChecks envelope) :
    ciphertextOf envelope = (handshakeFields envelope).ciphertext := by
  obtain ⟨hmin, hversion, -⟩ := hchecks
  have hne : envelope ≠ [] := by
    rintro rfl
    exact absurd hmin (by decide)
  have hoffset : ciphertextOffset envelope = 1149 := ciphertextOffset_of_getD hne hversion
  simp only [ciphertextOf, hoffset, handshakeFields]

theorem ciphertextOf_ratchet (hchecks : RatchetChecks envelope) :
    ciphertextOf envelope = (ratchetFields envelope).ciphertext := by
  obtain ⟨hmin, hversion⟩ := hchecks
  have hne : envelope ≠ [] := by
    rintro rfl
    exact absurd hmin (by decide)
  have hoffset : ciphertextOffset envelope = 65 := ciphertextOffset_of_getD hne hversion
  simp only [ciphertextOf, hoffset, ratchetFields]

/-- What a decoder accepts, it opened under the ids of the conversation it is for. -/
theorem decodeHandshakeEnvelope_opens {params : DecodeHandshakeParams S}
    (h : decodeHandshakeEnvelope envelope params newDhs = .ok (.success plaintext next)) :
    ∃ k nonce, S.aeadDecrypt k nonce (directionAad params.contactUserId params.selfUserId)
      (ciphertextOf envelope) = some plaintext := by
  obtain ⟨hchecks, state, k, -, -, hk⟩ := decodeHandshakeEnvelope_success h
  exact ⟨k, _, ciphertextOf_handshake hchecks ▸ hk⟩

theorem decodeRatchetEnvelope_opens {params : DecodeRatchetParams S}
    (h : decodeRatchetEnvelope envelope params newDhs = .ok (.success plaintext next)) :
    ∃ k nonce, S.aeadDecrypt k nonce (directionAad params.contactUserId params.selfUserId)
      (ciphertextOf envelope) = some plaintext := by
  obtain ⟨hchecks, k, -, hk⟩ := decodeRatchetEnvelope_success h
  exact ⟨k, _, ciphertextOf_ratchet hchecks ▸ hk⟩

theorem decodeFrame_opens {ctx : Context S} {bundle : ContactKeyBundle}
    {contactUserId : JsString} {session : Option (RatchetState S)}
    (h : decodeFrame ctx bundle contactUserId envelope session newDhs =
      .ok (some (.success plaintext next))) :
    ∃ k nonce, S.aeadDecrypt k nonce (directionAad contactUserId ctx.identity.userId)
      (ciphertextOf envelope) = some plaintext := by
  rcases decodeFrame_success h with ⟨-, hd⟩ | ⟨-, state, -, hd⟩
  · exact decodeHandshakeEnvelope_opens hd
  · exact decodeRatchetEnvelope_opens hd

/-- Signing the same bytes with another key leaves the ciphertext. -/
theorem ciphertextOf_resigned {portion signature signature' : Bytes} (hne : portion ≠ [])
    (hs : signature.length = mlDsa65SignatureLength)
    (hs' : signature'.length = mlDsa65SignatureLength) (hoff :
      ciphertextOffset (portion ++ signature) ≤ portion.length) :
    ciphertextOf (portion ++ signature') = ciphertextOf (portion ++ signature) := by
  obtain ⟨b, rest, rfl⟩ := List.exists_cons_of_ne_nil hne
  have hsame : ciphertextOffset (b :: rest ++ signature') =
    ciphertextOffset (b :: rest ++ signature) := rfl
  rw [ciphertextOf, ciphertextOf, hsame]
  simp only [List.length_append, hs, hs', Nat.add_sub_cancel, slice]
  rw [List.drop_append_of_le_length hoff, List.drop_append_of_le_length hoff,
    List.take_append_of_le_length (by rw [List.length_drop]),
    List.take_append_of_le_length (by rw [List.length_drop])]

/-- An envelope around a ciphertext of an honest device is accepted by its recipient only,
and only as a message of its sender: in any session, from any sender the relay names, and
whoever signed it. -/
theorem conversation_binding (hS : S.Ideal) (hsent : EncodedFor a recipientUserId sent)
    (hct : ciphertextOf received = ciphertextOf sent) :
    BoundTo S a.userId recipientUserId received := by
  obtain ⟨key, nonce, plaintext, hsealed⟩ := hsent.ciphertext hS
  have hbound {contactUserId selfUserId : JsString} {k : S.MessageKey} {n p : Bytes}
      (hlength : contactUserId.length = a.userId.length)
      (hd : S.aeadDecrypt k n (directionAad contactUserId selfUserId) (ciphertextOf received) =
        some p) : contactUserId = a.userId ∧ selfUserId = recipientUserId := by
    rw [hct, hsealed] at hd
    exact directionAad_inj hlength (hS.decrypt_only hd).2.2
  refine ⟨fun hlength hd => ?_, fun hlength hd => ?_, fun hlength hd => ?_⟩
  · obtain ⟨k, n, hk⟩ := decodeHandshakeEnvelope_opens hd
    exact hbound hlength hk
  · obtain ⟨k, n, hk⟩ := decodeRatchetEnvelope_opens hd
    exact hbound hlength hk
  · rcases decodeFrame_success hd with ⟨-, hd⟩ | ⟨-, state, -, hd⟩
    · obtain ⟨k, n, hk⟩ := decodeHandshakeEnvelope_opens hd
      exact hbound hlength hk
    · obtain ⟨k, n, hk⟩ := decodeRatchetEnvelope_opens hd
      exact hbound hlength hk

/-- Alice's first message to Bob, signed by someone else: Bob accepts it from the one he
takes the signer's key for, and it is still from Alice to him. -/
theorem conversation_binding_resigned :
    ∃ (received : Bytes) (params : DecodeRatchetParams Symbolic.suite)
      (newDhs : Symbolic.Secret) (plaintext : Bytes) (next : RatchetState Symbolic.suite),
      params.senderDilithiumPublicKey ≠
        Symbolic.suite.dilithiumPublicKey (TwoParty.someone .alice).dilithiumSecretKey ∧
      decodeRatchetEnvelope received params newDhs = .ok (.success plaintext next) ∧
      BoundTo Symbolic.suite (TwoParty.someone .alice).userId (TwoParty.someone .bob).userId
        received := by
  have hS := Symbolic.suite_ideal
  let alice := TwoParty.someone .alice
  let bob := TwoParty.someone .bob
  let mallory : Symbolic.suite.DilithiumSecret := ⟨7, by decide⟩
  obtain ⟨c, -, hpeer, hroot⟩ := Chain.exists_of_secrets hS
    (⟨2, by decide⟩ : Symbolic.suite.X25519Secret) ⟨3, by decide⟩
    (Symbolic.Key.handshake 0 0 [] [])
  let y : RatchetState Symbolic.suite := {
    rootKey := .handshake 0 0 [] []
    dhsPublicKey := Symbolic.publicKey ⟨3, by decide⟩
    dhsSecretKey := ⟨3, by decide⟩
    dhrPublicKey := none
    sendingChainKey := none
    receivingChainKey := none
    sendMessageNumber := 0
    receiveMessageNumber := 0
    previousSendingChainLength := 0 }
  let header : Header := ⟨c.publicKey, 0, 0⟩
  let encode (sk : Symbolic.suite.DilithiumSecret) : Bytes := encodeRatchetEnvelope header
    (c.messageKey 0) [104, 105] alice.userId bob.userId sk TwoParty.someRandom
  let d : Direction Symbolic.suite := ⟨alice.userId, bob.userId, mallory⟩
  have hm : IsRatchet d c 0 ⟨encode mallory, c.publicKey, [104, 105]⟩ :=
    ⟨rfl, 0, TwoParty.someRandom, rfl⟩
  have hdh : header.dhPublicKey.length = x25519PublicKeyLength := c.length_publicKey hS
  have hsent : EncodedFor alice bob.userId (encode alice.dilithiumSecretKey) :=
    .ratchet (c.messageKey 0) [104, 105] TwoParty.someRandom hdh
  have hct : ciphertextOf (encode mallory) = ciphertextOf (encode alice.dilithiumSecretKey) := by
    refine ciphertextOf_resigned (List.cons_ne_nil _ _) (hS.signature _ _ _) (hS.signature _ _ _) ?_
    refine Nat.le_trans ?_ (length_ratchetSignedPortion _ hdh
      TwoParty.someRandom.nonce.property).ge
    exact Nat.le_trans (Nat.le_refl 65) (Nat.le_add_right 65 _)
  obtain ⟨f, -, -, -, hd⟩ := decode_new (y := y) hS (⟨4, by decide⟩ : Symbolic.Secret) hm
    (by simp [y]) hpeer hroot
  refine ⟨encode mallory, d.params y, ⟨4, by decide⟩, [104, 105], _, fun heq => ?_, hd,
    conversation_binding hS hsent hct⟩
  cases congrArg List.head? heq

end Epistl
