import Epistl.Ratchet.Acceptance

/-! # A session takes an envelope once

Whatever session it starts from, a receiver that accepted message `n` of a chain never
accepts it again. While the session stays with the chain, the expected number has moved
past `n`; a session that left the chain and comes back to its public key does so on a
secret the chain was not made against.
-/
namespace Epistl
variable {S : Suite} {a : Identity S} {c : Chain S} {n : ℕ} {envelope plaintext : Bytes}
  {newDhs : S.X25519Secret} {y next : RatchetState S}

/-- The chain key `k` messages later. -/
def chainKeyAfter (ck : S.ChainKey) : ℕ → S.ChainKey
  | 0 => ck
  | k + 1 => nextChainKey (chainKeyAfter ck k)

theorem chainKeyAfter_next (ck : S.ChainKey) (k : ℕ) :
    chainKeyAfter (nextChainKey ck) k = chainKeyAfter ck (k + 1) := by
  induction k with
  | zero => rfl
  | succ k ih => exact congrArg nextChainKey ih

theorem chainKeyAfter_key (c : Chain S) (j k : ℕ) : chainKeyAfter (c.key j) k = c.key (j + k) := by
  induction k with
  | zero => rfl
  | succ k ih => exact congrArg nextChainKey ih

/-- The receiving chain of `y` has the key of message `n` behind it. -/
def Passed (c : Chain S) (n : ℕ) (y : RatchetState S) : Prop :=
  n % 2 ^ 32 < y.receiveMessageNumber ∨
    ∀ ck, y.receivingChainKey = some ck → ∀ k, c.messageKey n ≠ messageKeyOf (chainKeyAfter ck k)

/-- Message `n` of the chain is behind the session. -/
structure Chain.Behind (c : Chain S) (n : ℕ) (y : RatchetState S) : Prop where
  passed : y.dhrPublicKey = some c.publicKey → Passed c n y
  left : y.dhrPublicKey ≠ some c.publicKey → c.peer ≠ y.dhsSecretKey

/-- On the current receiving chain the number of an accepted envelope is the expected one. -/
theorem MadeRatchet.number (hS : S.Ideal) (h : MadeRatchet a c n envelope)
    {params : DecodeRatchetParams S} (hp : params.state.dhrPublicKey = some c.publicKey)
    (hd : decodeRatchetEnvelope envelope params newDhs = .ok (.success plaintext next)) :
    n % 2 ^ 32 = params.state.receiveMessageNumber := by
  have hpk := (h.accepted hS hd).1
  obtain ⟨_, pcl, p, random, rfl⟩ := h
  rw [decodeRatchetEnvelope_encode hS (c.length_publicKey hS) params hpk,
    deriveNextReceivingMessageKey_same hp] at hd
  by_contra hn
  rw [if_neg hn] at hd
  cases hd

/-- An accepted envelope is behind the next state. -/
theorem MadeRatchet.behind (hS : S.Ideal) (h : MadeRatchet a c n envelope)
    {params : DecodeRatchetParams S}
    (hd : decodeRatchetEnvelope envelope params newDhs = .ok (.success plaintext next)) :
    c.Behind n next := by
  obtain ⟨-, ⟨ck, hp, -, -, rfl⟩ | ⟨g, f, -, -, -, -, hkey, rfl⟩⟩ := h.accepted hS hd
  · have hn := h.number hS hp hd
    exact ⟨fun _ => .inl (hn ▸ Nat.lt_succ_self _), fun hne => absurd hp hne⟩
  · refine ⟨fun _ => .inr ?_, fun hne => absurd rfl hne⟩
    rintro _ ⟨⟩ k heq
    rw [hkey, chainKeyAfter_key] at heq
    have := (Chain.messageKey_injective hS heq).1
    omega

/-- What is behind a session stays behind it, when the session's secrets are not the
sender's and a new one is not what the message was made against. -/
theorem Chain.Behind.accept (hS : S.Ideal) {params : DecodeRatchetParams S}
    (hb : c.Behind n params.state) (hsecret : c.secret ≠ params.state.dhsSecretKey)
    (hfresh : c.peer ≠ newDhs) {c' : Chain S} {n' : ℕ} (h : MadeRatchet a c' n' envelope)
    (hd : decodeRatchetEnvelope envelope params newDhs = .ok (.success plaintext next)) :
    c.Behind n next := by
  obtain ⟨-, ⟨ck, hp, hck, -, rfl⟩ | ⟨g, f, hp, hg, -, rfl, -, rfl⟩⟩ := h.accepted hS hd
  · refine ⟨fun hc => ?_, hb.left⟩
    refine (hb.passed hc).imp Nat.lt_succ_of_lt fun hkeys => ?_
    rintro _ ⟨⟩ k
    rw [chainKeyAfter_next]
    exact hkeys ck hck (k + 1)
  · refine ⟨fun hc => .inr ?_, fun _ => hfresh⟩
    have hleft : c.peer ≠ params.state.dhsSecretKey := by
      apply hb.left
      rwa [← Option.some.inj hc]
    rintro _ ⟨⟩ k heq
    rw [chainKeyAfter_key] at heq
    rcases Chain.secrets_of_messageKey hS heq with ⟨hs, -⟩ | ⟨-, hs⟩
    · exact hsecret (hs.trans hg)
    · exact hleft (hs.trans hg)

/-- What is behind a session is refused by it. -/
theorem Chain.Behind.refused (hS : S.Ideal) {params : DecodeRatchetParams S}
    (hb : c.Behind n params.state) (hsecret : c.secret ≠ params.state.dhsSecretKey)
    (h : MadeRatchet a c n envelope) :
    decodeRatchetEnvelope envelope params newDhs ≠ .ok (.success plaintext next) := by
  intro hd
  obtain ⟨-, ⟨ck, hp, hck, hkey, -⟩ | ⟨g, f, hp, hg, -, -, hkey, -⟩⟩ := h.accepted hS hd
  · rcases hb.passed hp with hlt | hkeys
    · have hn := h.number hS hp hd
      omega
    · exact hkeys ck hck 0 hkey
  · rcases Chain.secrets_of_messageKey hS hkey with ⟨hs, -⟩ | ⟨-, hs⟩
    · exact hsecret (hs.trans hg)
    · exact hb.left hp (hs.trans hg)

/-- An accepted envelope yields the plaintext it was made from. -/
theorem decodeRatchetEnvelope_plaintext (hS : S.Ideal) {header : Header} {key : S.MessageKey}
    {p : Bytes} {selfUserId contactUserId : JsString} {sk : S.DilithiumSecret}
    {random : EncodeRandom} {params : DecodeRatchetParams S}
    (hdh : header.dhPublicKey.length = 32)
    (hd : decodeRatchetEnvelope (encodeRatchetEnvelope header key p selfUserId contactUserId sk
      random) params newDhs = .ok (.success plaintext next)) : plaintext = p := by
  by_cases hpk : params.senderDilithiumPublicKey = S.dilithiumPublicKey sk
  · rw [decodeRatchetEnvelope_encode hS hdh params hpk] at hd
    cases hr : deriveNextReceivingMessageKey params.state header.dhPublicKey
        (header.messageNumber % 2 ^ 32) newDhs with
    | error e =>
      rw [hr] at hd
      cases hd
    | ok received =>
      rw [hr] at hd
      have hopen := Except.ok.inj hd
      obtain ⟨rfl, haad⟩ := openCiphertext_success hS hopen
      rw [haad] at hopen
      have hsame := (openCiphertext_encrypt hS _ _ _).symm.trans hopen
      exact (DecodeResult.success.inj hsame).1.symm
  · rw [decodeRatchetEnvelope_foreign hS hdh hpk] at hd
    cases hd

end Epistl
