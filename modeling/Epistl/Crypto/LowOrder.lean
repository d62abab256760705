import Epistl.Crypto.WireFormat

/-! # When decoding throws

The signature and the cipher are called within `try`, the key agreement is not. It throws on
a point of low order, whatever the secret. A decoder that has accepted the signature runs it on
a point of the signer's choice.
-/
namespace Epistl
variable {S : Suite} {envelope : Bytes} {lowOrder : Bytes → Prop}

/-- The documented behaviour of the packages: the shared secret with a public key is all zero
exactly when the key is a point of low order, and decapsulation takes every ciphertext of
the right length. -/
structure Throws (S : Suite) (lowOrder : Bytes → Prop) : Prop where
  x25519 (a : S.X25519Secret) {p : Bytes} : p.length = x25519PublicKeyLength →
    (S.x25519SharedSecret a p = none ↔ lowOrder p)
  mlKem768 (sk : S.KyberSecret) {ct : Bytes} : ct.length = kyberCiphertextLength →
    ∃ k, S.decapsulate ct sk = some k

/-- A call returns when it does not throw. -/
def Returns {α : Type} (x : Except Thrown α) : Prop := ∃ a, x = .ok a

theorem Returns.bind_iff {α β : Type} {x : Except Thrown α} {f : α → Except Thrown β} :
    Returns (x >>= f) ↔ ∃ a, x = .ok a ∧ Returns (f a) := by
  constructor
  · rintro ⟨b, hb⟩
    obtain ⟨a, ha, hb⟩ := Thrown.bind_eq_ok hb
    exact ⟨a, ha, b, hb⟩
  · rintro ⟨a, rfl, b, hb⟩
    exact ⟨b, hb⟩

theorem returns_pure {α : Type} (a : α) : Returns (pure a) := ⟨a, rfl⟩

/-- A key agreement returns on a point that is not of low order. -/
theorem Throws.shared (h : Throws S lowOrder) (a : S.X25519Secret) {p : Bytes}
    (hp : p.length = x25519PublicKeyLength) :
    Returns (Thrown.x25519.ofOption (S.x25519SharedSecret a p)) ↔ ¬ lowOrder p := by
  rw [← h.x25519 a hp]
  cases S.x25519SharedSecret a p with
  | none =>
    refine iff_of_false ?_ (not_not.mpr rfl)
    rintro ⟨z, hz⟩
    cases hz
  | some z => exact iff_of_true ⟨z, rfl⟩ (Option.some_ne_none z)

theorem dhRatchetStep_returns (h : Throws S lowOrder) {p : Bytes}
    (hp : p.length = x25519PublicKeyLength) (state : RatchetState S) (newDhs : S.X25519Secret) :
    Returns (dhRatchetStep state p newDhs) ↔ ¬ lowOrder p := by
  unfold dhRatchetStep
  rw [Returns.bind_iff]
  constructor
  · rintro ⟨z, hz, -⟩
    exact (h.shared state.dhsSecretKey hp).mp ⟨z, hz⟩
  · intro hlow
    obtain ⟨z, hz⟩ := (h.shared state.dhsSecretKey hp).mpr hlow
    obtain ⟨z', hz'⟩ := (h.shared newDhs hp).mpr hlow
    refine ⟨z, hz, Returns.bind_iff.mpr ⟨z', hz', returns_pure _⟩⟩

theorem deriveNextReceivingMessageKey_returns (h : Throws S lowOrder) {p : Bytes}
    (hp : p.length = x25519PublicKeyLength) (state : RatchetState S) (n : ℕ)
    (newDhs : S.X25519Secret) :
    Returns (deriveNextReceivingMessageKey state p n newDhs) ↔
      ¬ (state.dhrPublicKey ≠ some p ∧ lowOrder p) := by
  unfold deriveNextReceivingMessageKey
  by_cases hnew : state.dhrPublicKey ≠ some p
  · rw [if_pos hnew, Returns.bind_iff, and_iff_right hnew, ← dhRatchetStep_returns h hp state newDhs]
    constructor
    · rintro ⟨r, hr, -⟩
      exact ⟨r, hr⟩
    · rintro ⟨r, hr⟩
      exact ⟨r, hr, returns_pure _⟩
  · rw [if_neg hnew]
    refine iff_of_true ?_ fun hboth => hnew hboth.1
    split
    · exact ⟨_, rfl⟩
    · split <;> exact ⟨_, rfl⟩

/-- The handshake agrees on its point twice, and the first message takes that chain. -/
theorem receiveHandshake_returns (h : Throws S lowOrder) {ea kyberCiphertext : Bytes}
    (hea : ea.length = x25519PublicKeyLength) (hk : kyberCiphertext.length = kyberCiphertextLength)
    (contactUserId selfUserId : JsString) (sk : S.X25519Secret) (kyberSk : S.KyberSecret)
    (newDhs : S.X25519Secret) :
    Returns (receiveHandshake contactUserId selfUserId ea kyberCiphertext sk kyberSk newDhs) ↔
      ¬ lowOrder ea := by
  unfold receiveHandshake
  rw [Returns.bind_iff]
  constructor
  · rintro ⟨z, hz, -⟩
    exact (h.shared sk hea).mp ⟨z, hz⟩
  · intro hlow
    obtain ⟨z, hz⟩ := (h.shared sk hea).mpr hlow
    obtain ⟨k, hdecapsulated⟩ := h.mlKem768 kyberSk hk
    refine ⟨z, hz, Returns.bind_iff.mpr ⟨k, ?_, ?_⟩⟩
    · rw [hdecapsulated]
      rfl
    · exact (dhRatchetStep_returns h hea _ newDhs).mpr hlow

theorem dhrPublicKey_receiveHandshake {contactUserId selfUserId : JsString}
    {ea kyberCiphertext : Bytes} {sk : S.X25519Secret} {kyberSk : S.KyberSecret}
    {newDhs : S.X25519Secret} {state : RatchetedState S}
    (hd : receiveHandshake contactUserId selfUserId ea kyberCiphertext sk kyberSk newDhs =
      .ok state) : state.dhrPublicKey = ea := by
  unfold receiveHandshake at hd
  obtain ⟨_, -, hd⟩ := Thrown.bind_eq_ok hd
  obtain ⟨_, -, hd⟩ := Thrown.bind_eq_ok hd
  unfold dhRatchetStep at hd
  obtain ⟨_, -, hd⟩ := Thrown.bind_eq_ok hd
  obtain ⟨_, -, hd⟩ := Thrown.bind_eq_ok hd
  cases hd
  rfl

/-- The signature check of `decodeHandshakeEnvelope` accepts. -/
def HandshakeVerified (S : Suite) (envelope senderDilithiumPublicKey : Bytes) : Prop :=
  HandshakeChecks envelope ∧ verifySignature S (handshakeFields envelope).signature
    (handshakeFields envelope).signedPortion senderDilithiumPublicKey = true

/-- The signature check of `decodeRatchetEnvelope` accepts. -/
def RatchetVerified (S : Suite) (envelope senderDilithiumPublicKey : Bytes) : Prop :=
  RatchetChecks envelope ∧ verifySignature S (ratchetFields envelope).signature
    (ratchetFields envelope).signedPortion senderDilithiumPublicKey = true

theorem decodeHandshakeEnvelope_returns (h : Throws S lowOrder) (envelope : Bytes)
    (params : DecodeHandshakeParams S) (newDhs : S.X25519Secret) :
    Returns (decodeHandshakeEnvelope envelope params newDhs) ↔
      ¬ (HandshakeVerified S envelope params.senderDilithiumPublicKey ∧
        lowOrder (handshakeFields envelope).ea) := by
  by_cases hchecks : HandshakeChecks envelope
  · have hlayout := handshakeLayout_of_checks hchecks
    rw [decodeHandshakeEnvelope_fields params newDhs hchecks]
    dsimp only
    by_cases hv : verifySignature S (handshakeFields envelope).signature
        (handshakeFields envelope).signedPortion params.senderDilithiumPublicKey = true
    · have hnot : ¬ verifySignature S (handshakeFields envelope).signature
          (handshakeFields envelope).signedPortion params.senderDilithiumPublicKey = false := by
        rw [hv]
        decide
      rw [if_neg hnot, Returns.bind_iff, and_iff_right ⟨hchecks, hv⟩]
      have hreceive := receiveHandshake_returns h hlayout.ea hlayout.kyberCiphertext
        params.contactUserId params.selfUserId params.selfX25519SecretKey params.selfKyberSecretKey
          newDhs
      constructor
      · rintro ⟨state, hstate, -⟩
        exact hreceive.mp ⟨state, hstate⟩
      · intro hlow
        obtain ⟨state, hstate⟩ := hreceive.mpr hlow
        have hpeer : state.toRatchetState.dhrPublicKey = some (handshakeFields envelope).ea :=
          congrArg some (dhrPublicKey_receiveHandshake hstate)
        obtain ⟨received, hreceived⟩ := (deriveNextReceivingMessageKey_returns h hlayout.ea
          state.toRatchetState 0 newDhs).mpr fun hboth => hboth.1 hpeer
        exact ⟨state, hstate, Returns.bind_iff.mpr ⟨received, hreceived, returns_pure _⟩⟩
    · rw [if_pos (Bool.not_eq_true _ ▸ hv)]
      exact iff_of_true ⟨_, rfl⟩ fun hboth => hv hboth.1.2
  · refine iff_of_true ?_ fun hboth => hchecks hboth.1.1
    rcases decodeHandshakeEnvelope_unchecked params newDhs hchecks with hfail | hfail
    · exact ⟨_, hfail⟩
    · exact ⟨_, hfail⟩

theorem decodeRatchetEnvelope_returns (h : Throws S lowOrder) (envelope : Bytes)
    (params : DecodeRatchetParams S) (newDhs : S.X25519Secret) :
    Returns (decodeRatchetEnvelope envelope params newDhs) ↔
      ¬ (RatchetVerified S envelope params.senderDilithiumPublicKey ∧
        params.state.dhrPublicKey ≠ some (ratchetFields envelope).dhPublicKey ∧
        lowOrder (ratchetFields envelope).dhPublicKey) := by
  by_cases hchecks : RatchetChecks envelope
  · have hlayout := ratchetLayout_of_checks hchecks
    rw [decodeRatchetEnvelope_fields params newDhs hchecks]
    dsimp only
    by_cases hv : verifySignature S (ratchetFields envelope).signature
        (ratchetFields envelope).signedPortion params.senderDilithiumPublicKey = true
    · have hnot : ¬ verifySignature S (ratchetFields envelope).signature
          (ratchetFields envelope).signedPortion params.senderDilithiumPublicKey = false := by
        rw [hv]
        decide
      rw [if_neg hnot, Returns.bind_iff, and_iff_right ⟨hchecks, hv⟩,
        ← deriveNextReceivingMessageKey_returns h hlayout.dhPublicKey params.state
          (ratchetFields envelope).messageNumber newDhs]
      constructor
      · rintro ⟨received, hreceived, -⟩
        exact ⟨received, hreceived⟩
      · rintro ⟨received, hreceived⟩
        exact ⟨received, hreceived, returns_pure _⟩
    · rw [if_pos (Bool.not_eq_true _ ▸ hv)]
      exact iff_of_true ⟨_, rfl⟩ fun hboth => hv hboth.1.2
  · refine iff_of_true ?_ fun hboth => hchecks hboth.1.1
    rcases decodeRatchetEnvelope_unchecked params newDhs hchecks with hfail | hfail
    · exact ⟨_, hfail⟩
    · exact ⟨_, hfail⟩

/-- Decoding throws exactly on an envelope whose signature is accepted and whose new point is of
low order. -/
theorem decode_returns_iff (h : Throws S lowOrder) :
    (∀ (envelope : Bytes) (params : DecodeHandshakeParams S) (newDhs : S.X25519Secret),
      Returns (decodeHandshakeEnvelope envelope params newDhs) ↔
        ¬ (HandshakeVerified S envelope params.senderDilithiumPublicKey ∧
          lowOrder (handshakeFields envelope).ea)) ∧
    ∀ (envelope : Bytes) (params : DecodeRatchetParams S) (newDhs : S.X25519Secret),
      Returns (decodeRatchetEnvelope envelope params newDhs) ↔
        ¬ (RatchetVerified S envelope params.senderDilithiumPublicKey ∧
          params.state.dhrPublicKey ≠ some (ratchetFields envelope).dhPublicKey ∧
          lowOrder (ratchetFields envelope).dhPublicKey) :=
  ⟨decodeHandshakeEnvelope_returns h, decodeRatchetEnvelope_returns h⟩

namespace Symbolic

/-- Terms with one point of low order. -/
def zeroPoint : Bytes := List.replicate 32 0

def suiteWithZero : Suite :=
  { suite with
    x25519SharedSecret := fun a q => if q = zeroPoint then none else sharedSecret a q }

theorem throws_suiteWithZero : Throws suiteWithZero (· = zeroPoint) where
  x25519 a p hp := by
    change (if p = zeroPoint then none else sharedSecret a p) = none ↔ _
    by_cases hzero : p = zeroPoint
    · rw [if_pos hzero]
      exact iff_of_true rfl hzero
    · have hsome : sharedSecret a p = some _ := if_pos hp
      rw [if_neg hzero, hsome]
      exact iff_of_false (Option.some_ne_none _) hzero
  mlKem768 sk ct _ := ⟨_, rfl⟩

theorem sized_suiteWithZero : suiteWithZero.Sized where
  x25519PublicKey := suite_sized.x25519PublicKey
  kyberCiphertext := suite_sized.kyberCiphertext
  ciphertext := suite_sized.ciphertext
  signature := suite_sized.signature

theorem two_lt : 2 < 256 ^ 32 := by decide

/-- A contact's handshake envelope around any point. -/
def handshakeOn (ea : Bytes) : Bytes :=
  encodeHandshakeEnvelope (S := suiteWithZero) ea (List.replicate 1088 6) (.handshake 0 0 [] [])
    [104, 105] [] [] ⟨2, two_lt⟩ ⟨⟨List.replicate 24 7, List.length_replicate⟩, []⟩

def handshakeParams : DecodeHandshakeParams suiteWithZero where
  contactUserId := []
  selfUserId := []
  selfX25519SecretKey := ⟨3, by decide⟩
  selfKyberSecretKey := []
  senderDilithiumPublicKey := toBytes 3309 2

theorem handshakeOn_fields {ea : Bytes} (hea : ea.length = x25519PublicKeyLength) :
    HandshakeVerified suiteWithZero (handshakeOn ea) handshakeParams.senderDilithiumPublicKey ∧
      (handshakeFields (handshakeOn ea)).ea = ea := by
  obtain ⟨hchecks, hfields⟩ := handshakeFields_encode sized_suiteWithZero hea
    (List.length_replicate : (List.replicate 1088 (6 : UInt8)).length = kyberCiphertextLength)
    (.handshake 0 0 [] []) [104, 105] [] [] ⟨2, by decide⟩
    ⟨⟨List.replicate 24 7, List.length_replicate⟩, []⟩
  refine ⟨⟨hchecks, ?_⟩, congrArg HandshakeFields.ea hfields⟩
  have hsign (m entropy : Bytes) (sk : Secret) :
      suiteWithZero.verify (suiteWithZero.sign m sk entropy) m (toBytes 3309 sk.val) = some true :=
    congrArg some (decide_eq_true rfl)
  unfold handshakeOn
  rw [hfields, verifySignature, handshakeParams, hsign]
  rfl

end Symbolic

/-- A contact signs a handshake with the zero point. -/
theorem decode_throws : ¬ ∀ (S : Suite) (lowOrder : Bytes → Prop), Throws S lowOrder →
    ∀ (envelope : Bytes) (params : DecodeHandshakeParams S) (newDhs : S.X25519Secret),
      Returns (decodeHandshakeEnvelope envelope params newDhs) := by
  intro hall
  obtain ⟨hverified, hea⟩ := Symbolic.handshakeOn_fields
    (List.length_replicate : Symbolic.zeroPoint.length = 32)
  have hreturns := hall _ _ Symbolic.throws_suiteWithZero (Symbolic.handshakeOn Symbolic.zeroPoint)
    Symbolic.handshakeParams ⟨4, by decide⟩
  exact (decodeHandshakeEnvelope_returns Symbolic.throws_suiteWithZero _ _ _).mp hreturns
    ⟨hverified, hea⟩

/-- On any other point decoding returns. -/
theorem decode_returns_five : Returns (decodeHandshakeEnvelope
    (Symbolic.handshakeOn (List.replicate 32 5)) Symbolic.handshakeParams ⟨4, by decide⟩) := by
  obtain ⟨-, hea⟩ := Symbolic.handshakeOn_fields
    (List.length_replicate : (List.replicate 32 (5 : UInt8)).length = 32)
  refine ((decode_returns_iff Symbolic.throws_suiteWithZero).1 _ _ _).mpr fun hboth => ?_
  have hzero : List.replicate 32 (5 : UInt8) = Symbolic.zeroPoint := hea.symm.trans hboth.2
  cases congrArg List.head? hzero

end Epistl
