import Epistl.Text.JsString

/-! # The cryptographic primitives the client calls

The primitives come from third party packages, so they are parameters. Values that
travel in an envelope are bytes; secrets and derived keys never do and keep a type
of their own. `Ideal` collects what symbolic cryptography promises about them.
-/
namespace Epistl

/-- The calls into the curve, KEM, hash, cipher and signature packages. Randomness
is an argument and `none` stands for a thrown exception. -/
structure Suite where
  X25519Secret : Type
  SharedSecret : Type
  KyberSecret : Type
  KyberShared : Type
  RootKey : Type
  ChainKey : Type
  MessageKey : Type
  DilithiumSecret : Type
  x25519PublicKey : X25519Secret → Bytes
  x25519SharedSecret : X25519Secret → Bytes → Option SharedSecret
  kyberPublicKey : KyberSecret → Bytes
  encapsulate : Bytes → Bytes → Option (Bytes × KyberShared)
  decapsulate : Bytes → KyberSecret → Option KyberShared
  /-- The unsalted 32 byte derivation of the first root key. -/
  hkdfHandshake : SharedSecret → KyberShared → Bytes → RootKey
  /-- The 64 byte derivation salted with a root key, cut into its two halves. -/
  hkdfRatchet : SharedSecret → RootKey → Bytes → RootKey × ChainKey
  hmacChainKey : ChainKey → Bytes → ChainKey
  hmacMessageKey : ChainKey → Bytes → MessageKey
  aeadEncrypt : MessageKey → Bytes → Bytes → Bytes → Bytes
  aeadDecrypt : MessageKey → Bytes → Bytes → Bytes → Option Bytes
  dilithiumPublicKey : DilithiumSecret → Bytes
  sign : Bytes → DilithiumSecret → Bytes → Bytes
  verify : Bytes → Bytes → Bytes → Option Bool

namespace Suite

/-- FIPS 203 ciphertexts, RFC 7748 keys, FIPS 204 signatures and Poly1305 tags. -/
structure Sized (S : Suite) : Prop where
  x25519PublicKey (a : S.X25519Secret) : (S.x25519PublicKey a).length = 32
  kyberCiphertext {pk r ct : Bytes} {k : S.KyberShared} :
    S.encapsulate pk r = some (ct, k) → ct.length = 1088
  ciphertext (k : S.MessageKey) (nonce aad plaintext : Bytes) :
    16 ≤ (S.aeadEncrypt k nonce aad plaintext).length
  signature (m : Bytes) (sk : S.DilithiumSecret) (entropy : Bytes) :
    (S.sign m sk entropy).length = 3309

/-- Symbolic cryptography: every derivation is injective, derivations of different
kinds never collide, and a ciphertext or signature opens under its own key only. -/
structure Ideal (S : Suite) : Prop extends Sized S where
  x25519PublicKey_injective {a b : S.X25519Secret} :
    S.x25519PublicKey a = S.x25519PublicKey b → a = b
  shared_isSome (a b : S.X25519Secret) :
    (S.x25519SharedSecret a (S.x25519PublicKey b)).isSome = true
  shared_comm (a b : S.X25519Secret) :
    S.x25519SharedSecret a (S.x25519PublicKey b) = S.x25519SharedSecret b (S.x25519PublicKey a)
  shared_injective {a b c d : S.X25519Secret} :
    S.x25519SharedSecret a (S.x25519PublicKey b) = S.x25519SharedSecret c (S.x25519PublicKey d) →
    a = c ∧ b = d ∨ a = d ∧ b = c
  encapsulate_isSome (sk : S.KyberSecret) (r : Bytes) :
    (S.encapsulate (S.kyberPublicKey sk) r).isSome = true
  decapsulate_encapsulate {sk : S.KyberSecret} {r ct : Bytes} {k : S.KyberShared} :
    S.encapsulate (S.kyberPublicKey sk) r = some (ct, k) → S.decapsulate ct sk = some k
  hkdfRatchet_injective {z z' : S.SharedSecret} {rk rk' : S.RootKey} {info info' : Bytes} :
    (S.hkdfRatchet z rk info).2 = (S.hkdfRatchet z' rk' info').2 → z = z' ∧ rk = rk' ∧ info = info'
  hmacChainKey_injective {ck ck' : S.ChainKey} {i i' : Bytes} :
    S.hmacChainKey ck i = S.hmacChainKey ck' i' → ck = ck' ∧ i = i'
  hmacMessageKey_injective {ck ck' : S.ChainKey} {i i' : Bytes} :
    S.hmacMessageKey ck i = S.hmacMessageKey ck' i' → ck = ck' ∧ i = i'
  hkdfRatchet_ne_hmacChainKey (z : S.SharedSecret) (rk : S.RootKey) (info : Bytes)
    (ck : S.ChainKey) (i : Bytes) : (S.hkdfRatchet z rk info).2 ≠ S.hmacChainKey ck i
  decrypt_encrypt (k : S.MessageKey) (nonce aad plaintext : Bytes) :
    S.aeadDecrypt k nonce aad (S.aeadEncrypt k nonce aad plaintext) = some plaintext
  decrypt_only {k k' : S.MessageKey} {n n' a a' plaintext plaintext' : Bytes} :
    S.aeadDecrypt k n a (S.aeadEncrypt k' n' a' plaintext) = some plaintext' →
    k = k' ∧ n = n' ∧ a = a'
  verify_sign (m : Bytes) (sk : S.DilithiumSecret) (entropy : Bytes) :
    S.verify (S.sign m sk entropy) m (S.dilithiumPublicKey sk) = some true
  verify_only {m entropy pk : Bytes} {sk : S.DilithiumSecret} :
    S.verify (S.sign m sk entropy) m pk = some true → pk = S.dilithiumPublicKey sk

variable {S : Suite}

theorem Ideal.shared_exists (h : S.Ideal) (a b : S.X25519Secret) :
    ∃ z, S.x25519SharedSecret a (S.x25519PublicKey b) = some z :=
  Option.isSome_iff_exists.mp (h.shared_isSome a b)

end Suite

end Epistl
