import Epistl.Crypto.EnvelopeRoundTrip

/-! # Sending chains and the envelopes made on them

A chain is fixed by the ratchet secret that owns it, the peer secret it was derived
against and the root key of the derivation. Under ideal cryptography its message
keys tell chain and position apart, which is all the fail closed receiver relies on.
-/
namespace Epistl
variable {S : Suite}

/-- A sending chain, with the X25519 output its derivation used. -/
structure Chain (S : Suite) where
  secret : S.X25519Secret
  peer : S.X25519Secret
  root : S.RootKey
  shared : S.SharedSecret
  agreed : S.x25519SharedSecret secret (S.x25519PublicKey peer) = some shared

namespace Chain

def publicKey (c : Chain S) : Bytes := S.x25519PublicKey c.secret

/-- The root key after the derivation. -/
def nextRoot (c : Chain S) : S.RootKey := (kdfRk c.root c.shared).1

/-- The chain key before message `n`. -/
def key (c : Chain S) : ℕ → S.ChainKey
  | 0 => (kdfRk c.root c.shared).2
  | n + 1 => nextChainKey (c.key n)

def messageKey (c : Chain S) (n : ℕ) : S.MessageKey := messageKeyOf (c.key n)

@[simp] theorem nextChainKey_key (c : Chain S) (n : ℕ) : nextChainKey (c.key n) = c.key (n + 1) :=
  rfl

theorem exists_of_secrets (hS : S.Ideal) (secret peer : S.X25519Secret) (root : S.RootKey) :
    ∃ c : Chain S, c.secret = secret ∧ c.peer = peer ∧ c.root = root := by
  obtain ⟨z, hz⟩ := hS.shared_exists secret peer
  exact ⟨⟨secret, peer, root, z, hz⟩, rfl, rfl, rfl⟩

theorem length_publicKey (hS : S.Ideal) (c : Chain S) : c.publicKey.length = 32 :=
  hS.x25519PublicKey c.secret

theorem publicKey_injective (hS : S.Ideal) {c e : Chain S} (h : c.publicKey = e.publicKey) :
    c.secret = e.secret :=
  hS.x25519PublicKey_injective h

/-- Equal chain keys sit at the same position of chains with the same derivation. -/
theorem key_injective (hS : S.Ideal) {c e : Chain S} {i j : ℕ} (h : c.key i = e.key j) :
    i = j ∧ c.root = e.root ∧ c.shared = e.shared := by
  induction i generalizing j with
  | zero =>
    cases j with
    | zero =>
      obtain ⟨hz, hr, -⟩ := hS.hkdfRatchet_injective h
      exact ⟨rfl, hr, hz⟩
    | succ j => exact absurd h (hS.hkdfRatchet_ne_hmacChainKey _ _ _ _ _)
  | succ i ih =>
    cases j with
    | zero => exact absurd h.symm (hS.hkdfRatchet_ne_hmacChainKey _ _ _ _ _)
    | succ j =>
      obtain ⟨rfl, hr⟩ := ih (hS.hmacChainKey_injective h).1
      exact ⟨rfl, hr⟩

theorem messageKey_injective (hS : S.Ideal) {c e : Chain S} {i j : ℕ}
    (h : c.messageKey i = e.messageKey j) : i = j ∧ c.root = e.root ∧ c.shared = e.shared :=
  key_injective hS (hS.hmacMessageKey_injective h).1

/-- Two chains with a message key in common join the same two secrets. -/
theorem secrets_of_messageKey (hS : S.Ideal) {c e : Chain S} {i j : ℕ}
    (h : c.messageKey i = e.messageKey j) :
    c.secret = e.secret ∧ c.peer = e.peer ∨ c.secret = e.peer ∧ c.peer = e.secret := by
  obtain ⟨-, -, hz⟩ := messageKey_injective hS h
  have ha : S.x25519SharedSecret c.secret (S.x25519PublicKey c.peer) =
      S.x25519SharedSecret e.secret (S.x25519PublicKey e.peer) := by
    rw [c.agreed, e.agreed, hz]
  exact hS.shared_injective ha

/-- The other side computes the same X25519 output. -/
theorem agreed_symm (hS : S.Ideal) (c : Chain S) :
    S.x25519SharedSecret c.peer c.publicKey = some c.shared := by
  rw [publicKey, hS.shared_comm, c.agreed]

/-- The same chain with the secrets exchanged. -/
def mirror (hS : S.Ideal) (c : Chain S) : Chain S :=
  ⟨c.peer, c.secret, c.root, c.shared, c.agreed_symm hS⟩

theorem key_mirror (hS : S.Ideal) (c : Chain S) (n : ℕ) : (c.mirror hS).key n = c.key n := by
  induction n with
  | zero => rfl
  | succ n ih => exact congrArg nextChainKey ih

end Chain

/-- One direction of a conversation: whose ids and whose signature its envelopes carry. -/
structure Direction (S : Suite) where
  senderUserId : JsString
  recipientUserId : JsString
  signingSecretKey : S.DilithiumSecret

/-- An envelope handed to the network, with the ratchet key its chain goes by. -/
structure Sent where
  envelope : Bytes
  dhPublicKey : Bytes
  plaintext : Bytes

/-- Message `n` of a chain, in a ratchet envelope. -/
def IsRatchet (d : Direction S) (c : Chain S) (n : ℕ) (m : Sent) : Prop :=
  m.dhPublicKey = c.publicKey ∧ ∃ previousChainLength random,
    m.envelope = encodeRatchetEnvelope ⟨c.publicKey, previousChainLength, n⟩ (c.messageKey n)
      m.plaintext d.senderUserId d.recipientUserId d.signingSecretKey random

/-- Message 0 of a chain, in a handshake envelope. -/
def IsHandshake (d : Direction S) (c : Chain S) (m : Sent) : Prop :=
  m.dhPublicKey = c.publicKey ∧ ∃ kyberCiphertext random,
    m.envelope = encodeHandshakeEnvelope c.publicKey kyberCiphertext (c.messageKey 0) m.plaintext
      d.senderUserId d.recipientUserId d.signingSecretKey random

def IsHonest (d : Direction S) (c : Chain S) (n : ℕ) (m : Sent) : Prop :=
  IsRatchet d c n m ∨ n = 0 ∧ IsHandshake d c m

theorem IsHonest.dhPublicKey {d : Direction S} {c : Chain S} {n : ℕ} {m : Sent}
    (h : IsHonest d c n m) : m.dhPublicKey = c.publicKey := by
  rcases h with h | ⟨-, h⟩
  · exact h.1
  · exact h.1

/-- The arguments with which the recipient of a direction decodes. -/
def Direction.params (d : Direction S) (state : RatchetState S) : DecodeRatchetParams S where
  state := state
  senderDilithiumPublicKey := S.dilithiumPublicKey d.signingSecretKey
  selfUserId := d.recipientUserId
  contactUserId := d.senderUserId

section receive
variable {d : Direction S} {c : Chain S} {n : ℕ} {m : Sent} {y : RatchetState S}
  {newDhs : S.X25519Secret}

theorem decode_ratchet (hS : S.Ideal) (hm : IsRatchet d c n m) (y : RatchetState S)
    (newDhs : S.X25519Secret) :
    ∃ random : EncodeRandom, decodeRatchetEnvelope m.envelope (d.params y) newDhs =
      (deriveNextReceivingMessageKey y c.publicKey (n % 2 ^ 32) newDhs).map fun received =>
        openCiphertext received random.nonce.val (directionAad d.senderUserId d.recipientUserId)
          (S.aeadEncrypt (c.messageKey n) random.nonce.val
            (directionAad d.senderUserId d.recipientUserId) m.plaintext) := by
  obtain ⟨-, p, random, he⟩ := hm
  refine ⟨random, ?_⟩
  rw [he, decodeRatchetEnvelope_encode hS (c.length_publicKey hS) (d.params y) rfl]
  rfl

/-- The next message of the receiving chain is accepted while its number fits the field. -/
theorem decode_next (hS : S.Ideal) (hm : IsRatchet d c n m) (hp : y.dhrPublicKey = some c.publicKey)
    (hk : y.receivingChainKey = some (c.key n)) (hn : y.receiveMessageNumber = n)
    (hlt : n < 2 ^ 32) :
    decodeRatchetEnvelope m.envelope (d.params y) newDhs = .ok (.success m.plaintext { y with
      receivingChainKey := some (c.key (n + 1))
      receiveMessageNumber := n + 1 }) := by
  obtain ⟨random, he⟩ := decode_ratchet hS hm y newDhs
  rw [he, deriveNextReceivingMessageKey_same hp, Nat.mod_eq_of_lt hlt, if_pos hn.symm, hk]
  simp only [Option.map_some, Except.map, Chain.nextChainKey_key, hn]
  exact congrArg Except.ok (openCiphertext_encrypt hS _ _ _)

/-- A ciphertext under another key than the derived one is refused. -/
theorem openCiphertext_refused (hS : S.Ideal) {received : ReceivingKey S} {k : S.MessageKey}
    (h : received.messageKey ≠ k) (nonce nonce' aad aad' plaintext : Bytes) :
    openCiphertext (some received) nonce aad (S.aeadEncrypt k nonce' aad' plaintext) =
      .failure .aeadFailure := by
  unfold openCiphertext
  cases hd : S.aeadDecrypt received.messageKey nonce aad (S.aeadEncrypt k nonce' aad' plaintext) with
  | none => simp only [hd]
  | some p => exact absurd (hS.decrypt_only hd).1 h

/-- Any other message of the receiving chain is refused, also one whose number wraps
around to the expected one. -/
theorem decode_same_refused (hS : S.Ideal) {k : ℕ} (hm : IsRatchet d c n m)
    (hp : y.dhrPublicKey = some c.publicKey) (hk : y.receivingChainKey = some (c.key k))
    (hn : y.receiveMessageNumber = k) (hne : ¬ (n = k ∧ n < 2 ^ 32)) :
    ∃ reason, decodeRatchetEnvelope m.envelope (d.params y) newDhs = .ok (.failure reason) := by
  obtain ⟨random, he⟩ := decode_ratchet hS hm y newDhs
  rw [he, deriveNextReceivingMessageKey_same hp, hk]
  by_cases hw : n % 2 ^ 32 = y.receiveMessageNumber
  · rw [if_pos hw]
    refine ⟨.aeadFailure, congrArg Except.ok (openCiphertext_refused hS ?_ _ _ _ _ _)⟩
    intro hkey
    have hkn : k = n := (Chain.messageKey_injective hS hkey).1
    omega
  · rw [if_neg hw]
    exact ⟨.rejected, rfl⟩

/-- The state of a receiver that has taken message 0 of chain `c`, made under the key
`p`, and answers on its own chain `f`. -/
def ratchetedTo (p : Bytes) (c f : Chain S) (previousSendingChainLength : ℕ) : RatchetState S where
  rootKey := f.nextRoot
  dhsPublicKey := f.publicKey
  dhsSecretKey := f.secret
  dhrPublicKey := some p
  sendingChainKey := some (f.key 0)
  receivingChainKey := some (c.key 1)
  sendMessageNumber := 0
  receiveMessageNumber := 1
  previousSendingChainLength := previousSendingChainLength

/-- The keys a ratchet step to an honest chain derives, and the state it ends in. -/
theorem derive_new (hS : S.Ideal) (k : ℕ) (newDhs : S.X25519Secret)
    (hp : y.dhrPublicKey ≠ some c.publicKey) :
    ∃ e f : Chain S, e.secret = y.dhsSecretKey ∧ e.peer = c.secret ∧ e.root = y.rootKey ∧
      f.secret = newDhs ∧ f.peer = c.secret ∧ f.root = e.nextRoot ∧
      deriveNextReceivingMessageKey y c.publicKey k newDhs = .ok (some
        ⟨e.messageKey 0, ratchetedTo c.publicKey e f y.sendMessageNumber⟩) := by
  obtain ⟨e, he1, he2, he3⟩ := Chain.exists_of_secrets hS y.dhsSecretKey c.secret y.rootKey
  obtain ⟨f, hf1, hf2, hf3⟩ := Chain.exists_of_secrets hS newDhs c.secret e.nextRoot
  refine ⟨e, f, he1, he2, he3, hf1, hf2, hf3, ?_⟩
  have hz : S.x25519SharedSecret y.dhsSecretKey c.publicKey = some e.shared := by
    rw [← he1, Chain.publicKey, ← he2, e.agreed]
  have hz' : S.x25519SharedSecret newDhs c.publicKey = some f.shared := by
    rw [← hf1, Chain.publicKey, ← hf2, f.agreed]
  rw [deriveNextReceivingMessageKey_new hp hz hz']
  simp only [ratcheted, ratchetedTo, Chain.messageKey, Chain.key, Chain.nextRoot, Chain.publicKey,
    hf1, hf3, he3]

/-- Message 0 of a chain made against the receiver's current key is accepted. -/
theorem decode_new (hS : S.Ideal) (newDhs : S.X25519Secret) (hm : IsRatchet d c 0 m)
    (hp : y.dhrPublicKey ≠ some c.publicKey) (hpeer : c.peer = y.dhsSecretKey)
    (hroot : c.root = y.rootKey) :
    ∃ f : Chain S, f.secret = newDhs ∧ f.peer = c.secret ∧ f.root = c.nextRoot ∧
      decodeRatchetEnvelope m.envelope (d.params y) newDhs =
        .ok (.success m.plaintext (ratchetedTo c.publicKey c f y.sendMessageNumber)) := by
  obtain ⟨e, f, he1, he2, he3, hf1, hf2, hf3, hd⟩ :=
    derive_new hS 0 newDhs hp
  have hshared : e.shared = c.shared := by
    have h := c.agreed_symm hS
    rw [hpeer, Chain.publicKey, ← he1, ← he2, e.agreed] at h
    exact Option.some.inj h
  have hroot' : e.nextRoot = c.nextRoot := by
    rw [Chain.nextRoot, Chain.nextRoot, hshared, he3, hroot]
  have hkey0 : e.key 0 = c.key 0 := by
    rw [Chain.key, Chain.key, hshared, he3, hroot]
  have hkey1 : e.key 1 = c.key 1 := congrArg nextChainKey hkey0
  have hmk : e.messageKey 0 = c.messageKey 0 := congrArg messageKeyOf hkey0
  refine ⟨f, hf1, hf2, by rw [hf3, hroot'], ?_⟩
  obtain ⟨random, he⟩ := decode_ratchet hS hm y newDhs
  rw [he, Nat.zero_mod, hd, hmk, ratchetedTo, hkey1]
  exact congrArg Except.ok (openCiphertext_encrypt hS _ _ _)

/-- Every other message of another chain is refused. -/
theorem decode_new_refused (hS : S.Ideal) (hm : IsRatchet d c n m)
    (hp : y.dhrPublicKey ≠ some c.publicKey) (hne : c.peer = y.dhsSecretKey → n ≠ 0) :
    ∃ reason, decodeRatchetEnvelope m.envelope (d.params y) newDhs = .ok (.failure reason) := by
  obtain ⟨e, f, he1, he2, -, -, -, -, hd⟩ :=
    derive_new hS (n % 2 ^ 32) newDhs hp
  obtain ⟨random, he⟩ := decode_ratchet hS hm y newDhs
  rw [he, hd]
  refine ⟨.aeadFailure, congrArg Except.ok (openCiphertext_refused hS ?_ _ _ _ _ _)⟩
  intro hkey
  have hn : 0 = n := (Chain.messageKey_injective hS hkey).1
  -- the derived chain ends in the sender's secret, so the sender's chain ends in ours
  rcases Chain.secrets_of_messageKey hS hkey with ⟨hs, hpe⟩ | ⟨hs, -⟩
  · exact hne (by rw [← hpe, he2, ← hs, he1]) hn.symm
  · exact hne (by rw [← hs, he1]) hn.symm

end receive

end Epistl
