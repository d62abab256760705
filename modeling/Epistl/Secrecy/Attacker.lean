import Epistl.Crypto.Symbolic
import Epistl.Runs.Deduction

/-! # What an attacker can compute

An attacker runs every primitive of the packages on what it has, with inputs of its own
choice. The values that are sent openly are bytes and cost nothing; what it may lack are the
secrets, and the keys derived from them.
-/
namespace Epistl
variable (S : Suite)

/-- The derivations of the first root key and of the later ones tell their inputs apart, and
the output of a key agreement takes one of its two secrets. -/
structure Suite.OneWay : Prop extends S.Ideal where
  hkdfHandshake_injective {z z' : S.SharedSecret} {k k' : S.KyberShared} {info info' : Bytes} :
    S.hkdfHandshake z k info = S.hkdfHandshake z' k' info' → z = z' ∧ k = k' ∧ info = info'
  hkdfRatchet_root_injective {z z' : S.SharedSecret} {rk rk' : S.RootKey} {info info' : Bytes} :
    (S.hkdfRatchet z rk info).1 = (S.hkdfRatchet z' rk' info').1 → z = z' ∧ rk = rk' ∧ info = info'
  hkdfHandshake_ne_hkdfRatchet (z z' : S.SharedSecret) (k : S.KyberShared) (rk : S.RootKey)
    (info info' : Bytes) : S.hkdfHandshake z k info ≠ (S.hkdfRatchet z' rk info').1
  shared_only {a b c : S.X25519Secret} {q : Bytes} {z : S.SharedSecret} :
    S.x25519SharedSecret a (S.x25519PublicKey b) = some z → S.x25519SharedSecret c q = some z →
    c = a ∨ c = b

/-- The values an attacker may lack. -/
inductive Hidden where
  | x25519Secret (a : S.X25519Secret)
  | sharedSecret (z : S.SharedSecret)
  | kyberSecret (sk : S.KyberSecret)
  | kemRandom (r : Bytes)
  | kyberShared (k : S.KyberShared)
  | rootKey (rk : S.RootKey)
  | chainKey (ck : S.ChainKey)
  | messageKey (mk : S.MessageKey)

variable {S}

namespace Hidden

/-- What there is before the first root key is derived. -/
def IsMaterial : Hidden S → Prop
  | x25519Secret _ | sharedSecret _ | kyberSecret _ | kemRandom _ | kyberShared _ => True
  | rootKey _ | chainKey _ | messageKey _ => False

/-- One call of a primitive, from the secret arguments to the result. -/
inductive Rule : List (Hidden S) → Hidden S → Prop
  | x25519 {a q z} : S.x25519SharedSecret a q = some z → Rule [x25519Secret a] (sharedSecret z)
  | encapsulate {pk r ct k} : S.encapsulate pk r = some (ct, k) →
    Rule [kemRandom r] (kyberShared k)
  | decapsulate {ct sk k} : S.decapsulate ct sk = some k → Rule [kyberSecret sk] (kyberShared k)
  | handshake (z k info) : Rule [sharedSecret z, kyberShared k] (rootKey (S.hkdfHandshake z k info))
  | ratchetRoot (z rk info) : Rule [sharedSecret z, rootKey rk] (rootKey (S.hkdfRatchet z rk info).1)
  | ratchetChain (z rk info) :
    Rule [sharedSecret z, rootKey rk] (chainKey (S.hkdfRatchet z rk info).2)
  | nextChain (ck input) : Rule [chainKey ck] (chainKey (S.hmacChainKey ck input))
  | message (ck input) : Rule [chainKey ck] (messageKey (S.hmacMessageKey ck input))

end Hidden

/-- The keys an attacker with these values can compute. -/
abbrev Computes (known : Set (Hidden S)) : Hidden S → Prop := Deducible Hidden.Rule known

/-- The output of two secrets that an attacker has neither of. -/
theorem Suite.OneWay.not_computes_shared (hS : S.OneWay) {known : Set (Hidden S)}
    {a b : S.X25519Secret} {z : S.SharedSecret}
    (hz : S.x25519SharedSecret a (S.x25519PublicKey b) = some z)
    (ha : .x25519Secret a ∉ known) (hb : .x25519Secret b ∉ known)
    (hknown : .sharedSecret z ∉ known) : ¬Computes known (.sharedSecret z) := by
  have hguarded : Guarded Hidden.Rule known fun x =>
      x = .sharedSecret z ∨ x = .x25519Secret a ∨ x = .x25519Secret b := by
    refine ⟨?_, ?_⟩
    · rintro x hx (rfl | rfl | rfl)
      · exact hknown hx
      · exact ha hx
      · exact hb hx
    · rintro premises x hr (rfl | rfl | rfl)
      · cases hr with
        | x25519 hc =>
          refine ⟨_, List.mem_singleton_self _, ?_⟩
          rcases hS.shared_only hz hc with rfl | rfl
          · exact .inr (.inl rfl)
          · exact .inr (.inr rfl)
      · cases hr
      · cases hr
  exact hguarded.not_deducible (.inl rfl)

theorem Symbolic.suite_oneWay : Symbolic.suite.OneWay where
  toIdeal := Symbolic.suite_ideal
  hkdfHandshake_injective h := by
    obtain ⟨hlow, hhigh, hk, hinfo⟩ := Symbolic.Key.handshake.inj h
    exact ⟨Prod.ext hlow hhigh, hk, hinfo⟩
  hkdfRatchet_root_injective h := by
    obtain ⟨hlow, hhigh, hrk, hinfo⟩ := Symbolic.Key.root.inj h
    exact ⟨Prod.ext hlow hhigh, hrk, hinfo⟩
  hkdfHandshake_ne_hkdfRatchet _ _ _ _ _ _ h := by cases h
  shared_only {a b c q z} hz hc := by
    rw [show Symbolic.suite.x25519SharedSecret a (Symbolic.suite.x25519PublicKey b) = _ from
      Symbolic.sharedSecret_publicKey a b] at hz
    change Symbolic.sharedSecret c q = some z at hc
    rw [Symbolic.sharedSecret, ← hz] at hc
    split at hc
    · obtain ⟨hmin, hmax⟩ := Prod.mk.inj (Option.some.inj hc)
      have hcases : c.val = a.val ∨ c.val = b.val := by omega
      exact hcases.imp Symbolic.Secret.ext Symbolic.Secret.ext
    · cases hc

end Epistl
