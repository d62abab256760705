import Epistl.Inbox.Replay
import Epistl.Runs.Ages

/-! # The numbers of envelopes

The envelopes of a device are numbered by the age of the ratchet secret they were made on, and by
their place on its chain. The order does not change when the device generates more secrets.
-/
namespace Epistl.Network
variable {S : Suite} {ι : Type} {dir : Directory S ι} {p q : ι} {s t : Network S ι}
  {envelope e e' : Bytes} {a b : S.X25519Secret} {m n : ℕ}

/-- Message `n` on the secret `a` of `q`. -/
def Numbered (dir : Directory S ι) (s : Network S ι) (q : ι) (envelope : Bytes)
    (a : S.X25519Secret) (n : ℕ) : Prop :=
  a ∈ s.used q ∧ ∃ c : Chain S, c.secret = a ∧
    (MadeHandshake (dir.who q) c envelope ∧ n = 0 ∨ MadeRatchet (dir.who q) c n envelope)

/-- The envelope comes before message `n` on the secret `a`. -/
def Beneath (dir : Directory S ι) (s : Network S ι) (q : ι) (envelope : Bytes)
    (a : S.X25519Secret) (n : ℕ) : Prop :=
  ∃ b m, Numbered dir s q envelope b m ∧
    (age (s.used q) b < age (s.used q) a ∨ b = a ∧ m < n)

def Before (dir : Directory S ι) (s : Network S ι) (q : ι) (e e' : Bytes) : Prop :=
  ∃ a n, Numbered dir s q e' a n ∧ Beneath dir s q e a n

theorem Numbered.sealed (hS : S.Ideal) (h : Numbered dir s q envelope a n) :
    ∃ c : Chain S, c.secret = a ∧ SealedUnder envelope (c.messageKey n) ∧
      slice envelope 1 33 = c.publicKey := by
  obtain ⟨-, c, hc, ⟨hm, rfl⟩ | hm⟩ := h
  · exact ⟨c, hc, hm.sealed hS, slice_madeHandshake hS hm⟩
  · exact ⟨c, hc, hm.sealed hS, slice_madeRatchet hS hm⟩

theorem Numbered.unique (hS : S.Ideal) (h : Numbered dir s q envelope a m)
    (h' : Numbered dir s q envelope b n) : a = b ∧ m = n := by
  obtain ⟨c, rfl, hsealed, hslice⟩ := h.sealed hS
  obtain ⟨c', rfl, hsealed', hslice'⟩ := h'.sealed hS
  exact ⟨Chain.publicKey_injective hS (hslice.symm.trans hslice'),
    (Chain.messageKey_injective hS (hsealed.unique hS hsealed')).1⟩

theorem Before.asymm (hS : S.Ideal) (h : Before dir s q e e') : ¬ Before dir s q e' e := by
  obtain ⟨a, n, ha, b, m, hb, hlt⟩ := h
  rintro ⟨b', m', hb', a', n', ha', hlt'⟩
  obtain ⟨rfl, rfl⟩ := ha.unique hS ha'
  obtain ⟨rfl, rfl⟩ := hb.unique hS hb'
  rcases hlt with hlt | ⟨rfl, hlt⟩
  · rcases hlt' with hlt' | ⟨rfl, -⟩
    · omega
    · omega
  · rcases hlt' with hlt' | ⟨-, hlt'⟩
    · omega
    · omega

/-- What comes before the first message on a secret is older than the secret. -/
theorem Beneath.older (hS : S.Ideal) (h : Beneath dir s q envelope a 0)
    (hn : Numbered dir s q envelope b n) : age (s.used q) b < age (s.used q) a := by
  obtain ⟨b', m, hb', hlt⟩ := h
  obtain ⟨rfl, rfl⟩ := hb'.unique hS hn
  exact hlt.resolve_right fun h => absurd h.2 (Nat.not_lt_zero m)

theorem Beneath.le (h : Beneath dir s q envelope a m) (hle : m ≤ n) :
    Beneath dir s q envelope a n := by
  obtain ⟨b, k, hb, hlt⟩ := h
  exact ⟨b, k, hb, hlt.imp id fun h => ⟨h.1, h.2.trans_le hle⟩⟩

theorem Numbered.beneath_succ (h : Numbered dir s q envelope a n) :
    Beneath dir s q envelope a (n + 1) :=
  ⟨a, n, h, .inr ⟨rfl, n.lt_succ_self⟩⟩

section mono
variable (hused : s.used q <:+ t.used q)
include hused

theorem Numbered.mono (h : Numbered dir s q envelope a n) : Numbered dir t q envelope a n :=
  ⟨hused.subset h.1, h.2⟩

theorem Beneath.mono (ha : a ∈ s.used q) (h : Beneath dir s q envelope a n) :
    Beneath dir t q envelope a n := by
  obtain ⟨b, m, hb, hlt⟩ := h
  refine ⟨b, m, hb.mono hused, ?_⟩
  rwa [age_of_suffix hused hb.1, age_of_suffix hused ha]

theorem Before.mono (h : Before dir s q e e') : Before dir t q e e' := by
  obtain ⟨a, n, ha, hbeneath⟩ := h
  exact ⟨a, n, ha.mono hused, hbeneath.mono hused ha.1⟩

end mono

/-- What there is already comes before all that is made on a new secret. -/
theorem Numbered.beneath_new (hused : t.used q = a :: s.used q) (hfresh : a ∉ s.used q)
    (h : Numbered dir s q envelope b m) (n : ℕ) : Beneath dir t q envelope a n := by
  refine ⟨b, m, h.mono (hused ▸ List.suffix_cons a _), .inl ?_⟩
  rw [hused]
  exact age_lt_of_mem h.1 hfresh

end Epistl.Network
