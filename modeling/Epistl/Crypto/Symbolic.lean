import Epistl.Crypto.Suite
import Mathlib.Logic.Encodable.Basic
import Mathlib.Logic.Equiv.List
import Mathlib.Tactic.DeriveEncodable

/-! # A symbolic instance of the primitives

Secrets and derived keys are terms, so that derivations are injective by construction.
A ciphertext carries the code of all its inputs in its length.
-/
namespace Epistl.Symbolic

/-- Little endian bytes of a number. -/
def toBytes : ℕ → ℕ → Bytes
  | 0, _ => []
  | k + 1, n => UInt8.ofNat n :: toBytes k (n / 256)

def ofBytes : Bytes → ℕ
  | [] => 0
  | b :: rest => b.toNat + 256 * ofBytes rest

@[simp] theorem length_toBytes (k n : ℕ) : (toBytes k n).length = k := by
  induction k generalizing n with
  | zero => rfl
  | succ k ih => simp [toBytes, ih]

theorem ofBytes_toBytes (k n : ℕ) (hn : n < 256 ^ k) : ofBytes (toBytes k n) = n := by
  induction k generalizing n with
  | zero =>
    simp only [Nat.pow_zero] at hn
    simp [toBytes, ofBytes]
    omega
  | succ k ih =>
    have hdiv : n / 256 < 256 ^ k := by
      rw [Nat.div_lt_iff_lt_mul (by omega)]
      rwa [Nat.pow_succ] at hn
    rw [toBytes, ofBytes, ih _ hdiv, UInt8.toNat_ofNat']
    omega

instance encodableUInt8 : Encodable UInt8 :=
  Encodable.ofLeftInjection UInt8.toNat (fun n => some (UInt8.ofNat n)) (by simp)

/-- The terms of the key schedule. A shared secret is its two public numbers in order. -/
inductive Key where
  | handshake (low high : ℕ) (kyberShared : Bytes) (info : Bytes)
  | root (low high : ℕ) (rootKey : Key) (info : Bytes)
  | chain (low high : ℕ) (rootKey : Key) (info : Bytes)
  | next (chainKey : Key) (input : Bytes)
  | message (chainKey : Key) (input : Bytes)
  deriving DecidableEq, Encodable

/-- A secret is a number of 32 bytes. -/
@[ext]
structure Secret where
  val : ℕ
  lt : val < 256 ^ 32

def publicKey (a : Secret) : Bytes := toBytes 32 a.val

/-- A secret above every used one is fresh. -/
theorem not_mem_of_lt {used : List Secret} {n : ℕ} (h : ∀ a ∈ used, a.val < n)
    (hn : n < 256 ^ 32) : (⟨n, hn⟩ : Secret) ∉ used :=
  fun hmem => Nat.lt_irrefl n (h _ hmem)

theorem not_mem_of_val {used : List Secret} {n : ℕ} (h : ∀ a ∈ used, a.val < n) {a : Secret}
    (ha : a.val = n) : a ∉ used :=
  fun hmem => Nat.lt_irrefl n (ha ▸ h a hmem)

theorem length_publicKey (a : Secret) : (publicKey a).length = 32 := length_toBytes 32 a.val

theorem ofBytes_publicKey (a : Secret) : ofBytes (publicKey a) = a.val :=
  ofBytes_toBytes 32 a.val a.lt

def sharedSecret (a : Secret) (q : Bytes) : Option (ℕ × ℕ) :=
  if q.length = 32 then some (min a.val (ofBytes q), max a.val (ofBytes q)) else none

theorem sharedSecret_publicKey (a b : Secret) :
    sharedSecret a (publicKey b) = some (min a.val b.val, max a.val b.val) := by
  rw [sharedSecret, if_pos (length_publicKey b), ofBytes_publicKey]

/-- The ciphertext of the KEM is its randomness. -/
def kemCiphertext (r : Bytes) : Bytes := toBytes 1088 (ofBytes r)

/-- Everything an encryption depends on. -/
structure Sealed where
  key : Key
  nonce : Bytes
  aad : Bytes
  plaintext : Bytes
  deriving DecidableEq, Encodable

def code (x : Sealed) : ℕ := Encodable.encode x

def uncode (n : ℕ) : Option Sealed := Encodable.decode n

theorem uncode_code (x : Sealed) : uncode (code x) = some x := Encodable.encodek x

def aeadEncrypt (k : Key) (nonce aad plaintext : Bytes) : Bytes :=
  List.replicate (16 + code ⟨k, nonce, aad, plaintext⟩) 0

def aeadDecrypt (k : Key) (nonce aad ciphertext : Bytes) : Option Bytes :=
  (uncode (ciphertext.length - 16)).bind fun x =>
    if k = x.key ∧ nonce = x.nonce ∧ aad = x.aad then some x.plaintext else none

theorem length_aeadEncrypt (k : Key) (nonce aad plaintext : Bytes) :
    (aeadEncrypt k nonce aad plaintext).length = 16 + code ⟨k, nonce, aad, plaintext⟩ :=
  List.length_replicate

theorem aeadDecrypt_aeadEncrypt (k k' : Key) (n n' a a' p : Bytes) :
    aeadDecrypt k n a (aeadEncrypt k' n' a' p) =
      if k = k' ∧ n = n' ∧ a = a' then some p else none := by
  rw [aeadDecrypt, length_aeadEncrypt, Nat.add_sub_cancel_left, uncode_code]
  rfl

theorem aeadDecrypt_self (k : Key) (n a p : Bytes) :
    aeadDecrypt k n a (aeadEncrypt k n a p) = some p := by
  rw [aeadDecrypt_aeadEncrypt, if_pos ⟨rfl, rfl, rfl⟩]

theorem aeadDecrypt_only {k k' : Key} {n n' a a' p p' : Bytes}
    (h : aeadDecrypt k n a (aeadEncrypt k' n' a' p) = some p') : k = k' ∧ n = n' ∧ a = a' := by
  rw [aeadDecrypt_aeadEncrypt] at h
  split at h
  · rename_i he
    exact he
  · cases h

abbrev suite : Suite where
  X25519Secret := Secret
  SharedSecret := ℕ × ℕ
  KyberSecret := Bytes
  KyberShared := Bytes
  RootKey := Key
  ChainKey := Key
  MessageKey := Key
  DilithiumSecret := Secret
  x25519PublicKey := publicKey
  x25519SharedSecret := sharedSecret
  kyberPublicKey := id
  encapsulate pk r := some (kemCiphertext r, pk ++ kemCiphertext r)
  decapsulate ct sk := some (sk ++ ct)
  hkdfHandshake z k info := .handshake z.1 z.2 k info
  hkdfRatchet z rk info := (.root z.1 z.2 rk info, .chain z.1 z.2 rk info)
  hmacChainKey := .next
  hmacMessageKey := .message
  aeadEncrypt := aeadEncrypt
  aeadDecrypt := aeadDecrypt
  dilithiumPublicKey sk := toBytes 3309 sk.val
  sign _ sk _ := toBytes 3309 sk.val
  verify signature _ pk := some (signature = pk)

theorem suite_sized : suite.Sized where
  x25519PublicKey := length_publicKey
  kyberCiphertext h := by
    rw [← (Prod.mk.inj (Option.some.inj h)).1]
    exact length_toBytes 1088 _
  ciphertext k nonce aad plaintext := by
    dsimp only [suite]
    rw [length_aeadEncrypt]
    exact Nat.le_add_right 16 _
  signature m sk entropy := length_toBytes 3309 sk.val

theorem publicKey_injective {a b : Secret} (h : publicKey a = publicKey b) : a = b := by
  have h' := congrArg ofBytes h
  rw [ofBytes_publicKey, ofBytes_publicKey] at h'
  exact Secret.ext h'

theorem sharedSecret_isSome (a b : Secret) : (sharedSecret a (publicKey b)).isSome = true := by
  rw [sharedSecret_publicKey]
  rfl

theorem sharedSecret_comm (a b : Secret) :
    sharedSecret a (publicKey b) = sharedSecret b (publicKey a) := by
  rw [sharedSecret_publicKey, sharedSecret_publicKey, Nat.min_comm, Nat.max_comm]

theorem sharedSecret_injective {a b c d : Secret}
    (h : sharedSecret a (publicKey b) = sharedSecret c (publicKey d)) :
    a = c ∧ b = d ∨ a = d ∧ b = c := by
  rw [sharedSecret_publicKey, sharedSecret_publicKey] at h
  obtain ⟨hmin, hmax⟩ := Prod.mk.inj (Option.some.inj h)
  have hcases : a.val = c.val ∧ b.val = d.val ∨ a.val = d.val ∧ b.val = c.val := by omega
  exact hcases.imp (fun h => ⟨Secret.ext h.1, Secret.ext h.2⟩)
    fun h => ⟨Secret.ext h.1, Secret.ext h.2⟩

/-- The terms satisfy everything asked of ideal cryptography. -/
theorem suite_ideal : suite.Ideal where
  toSized := suite_sized
  x25519PublicKey_injective := publicKey_injective
  shared_isSome := sharedSecret_isSome
  shared_comm := sharedSecret_comm
  shared_injective := sharedSecret_injective
  encapsulate_isSome _ _ := rfl
  decapsulate_encapsulate h := by
    obtain ⟨rfl, rfl⟩ := Prod.mk.inj (Option.some.inj h)
    rfl
  hkdfRatchet_injective h := by
    obtain ⟨hlow, hhigh, hrk, hinfo⟩ := Key.chain.inj h
    exact ⟨Prod.ext hlow hhigh, hrk, hinfo⟩
  hmacChainKey_injective h := Key.next.inj h
  hmacMessageKey_injective h := Key.message.inj h
  hkdfRatchet_ne_hmacChainKey _ _ _ _ _ h := by cases h
  decrypt_encrypt k nonce aad plaintext := by
    dsimp only [suite]
    exact aeadDecrypt_self k nonce aad plaintext
  decrypt_only h := by
    dsimp only [suite] at h
    exact aeadDecrypt_only h
  verify_sign _ sk _ := congrArg some (decide_eq_true (rfl : toBytes 3309 sk.val = _))
  verify_only h := (of_decide_eq_true (Option.some.inj h)).symm

end Epistl.Symbolic
