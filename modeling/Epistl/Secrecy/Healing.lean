import Epistl.Secrecy.Forward

/-! # Recovery after a compromise

Suppose every session state a device ever stored was read by somebody. With the first new
ratchet key of the peer the device derives its next sending chain from two secrets that were in
none of these states. From there on the attacker is out again, but for the chain on which the
healing message itself came.
-/
namespace Epistl
variable {S : Suite}

/-- A root key at or below another one. -/
inductive Under (top : S.RootKey) : S.RootKey → Prop
  | refl : Under top top
  | ratchet {rk : S.RootKey} (z : S.SharedSecret) (info : Bytes) :
    Under top rk → Under top (S.hkdfRatchet z rk info).1

theorem Under.rootAt {top rk : S.RootKey} {h : HandshakeSecrets S} {n : ℕ} (htop : RootAt h n top)
    (hu : Under top rk) : ∃ m, n ≤ m ∧ RootAt h m rk := by
  induction hu with
  | refl => exact ⟨n, le_rfl, htop⟩
  | ratchet z info _ ih =>
    obtain ⟨m, hm, hroot⟩ := ih
    exact ⟨m + 1, Nat.le_succ_of_le hm, .ratchet z info hroot⟩

/-- The derivation that heals: a root key and the new secret that goes into it. -/
structure Heal (S : Suite) where
  root : S.RootKey
  sharedSecret : S.SharedSecret

namespace Heal
variable {e : Heal S}

def top (e : Heal S) : S.RootKey := (kdfRk e.root e.sharedSecret).1

/-- The chains of the healed session. -/
def Covers (e : Heal S) (q : ChainPoint S) : Prop :=
  Under e.top q.root ∨ q.root = e.root ∧ q.sharedSecret = e.sharedSecret

theorem Covers.next {q : ChainPoint S} (h : e.Covers q) : e.Covers q.next := h

theorem covers_sending (e : Heal S) : e.Covers ⟨e.root, e.sharedSecret, 0⟩ := .inr ⟨rfl, rfl⟩

/-- What the attacker stays without after the healing. -/
def Covered (known : Set (Hidden S)) (e : Heal S) : Hidden S → Prop
  | .rootKey rk => Under e.top rk
  | .chainKey ck => ∃ q, e.Covers q ∧ ck = q.key
  | .messageKey key => ∃ q, e.Covers q ∧ key = q.messageKey
  | x => ¬Computes known x

variable {known : Set (Hidden S)} {h h' : HandshakeSecrets S} {depth depth' : ℕ}
  {sending : ChainPoint S} {receiving : Option (ChainPoint S)} {state : RatchetState S}

/-- The states from before have none of the covered keys. -/
theorem not_covered (hS : S.OneWay) (hroot : RootAt h depth e.root)
    (hp : Placed state h' depth' sending receiving) (hle : h' = h → depth' + 1 < depth)
    {x : Hidden S} (hx : x ∈ state.derivedKeys) : ¬Covered known e x := by
  have htop : RootAt h (depth + 1) e.top := .ratchet _ _ hroot
  -- the root keys of one handshake are told apart by their depth
  have hfar {n m : ℕ} {rk : S.RootKey} (hn : n ≤ depth' + 1) (hm : depth ≤ m)
      (h₁ : RootAt h' n rk) (h₂ : RootAt h m rk) : False := by
    obtain ⟨rfl, rfl⟩ := h₁.unique hS h₂
    have := hle rfl
    omega
  have hunder {n : ℕ} {rk : S.RootKey} (hn : n ≤ depth' + 1) (h₁ : RootAt h' n rk) :
      ¬Under e.top rk := by
    intro hu
    obtain ⟨m, hm, h₂⟩ := hu.rootAt htop
    exact hfar hn (by omega) h₁ h₂
  cases x with
  | rootKey rk =>
    rw [show rk = state.rootKey from hx]
    exact hunder le_rfl hp.root
  | chainKey ck =>
    rintro ⟨q, hq, rfl⟩
    obtain ⟨n, hn, hat⟩ := hp.chain_root hS hx
    rcases hq with hq | ⟨hq, -⟩
    · exact hunder (by omega) hat hq
    · rw [hq] at hat
      exact hfar (by omega) le_rfl hat hroot
  | messageKey mk => exact hx.elim
  | x25519Secret a => exact hx.elim
  | sharedSecret z => exact hx.elim
  | kyberSecret sk => exact hx.elim
  | kemRandom r => exact hx.elim
  | kyberShared k => exact hx.elim

theorem covered_guarded (hS : S.OneWay) (hknown : ∀ x ∈ known, x.IsMaterial)
    (hsecret : ¬Computes known (.sharedSecret e.sharedSecret)) (taken : Set (Hidden S))
    (htaken : ∀ x ∈ taken, ¬Covered known e x) :
    Guarded Hidden.Rule (known ∪ taken) (Covered known e) where
  notGiven x hx hcovered := by
    rcases hx with hx | hx
    · have hmaterial := hknown x hx
      cases x with
      | rootKey rk => exact hmaterial
      | chainKey ck => exact hmaterial
      | messageKey mk => exact hmaterial
      | x25519Secret a => exact hcovered (.given hx)
      | sharedSecret z => exact hcovered (.given hx)
      | kyberSecret sk => exact hcovered (.given hx)
      | kemRandom r => exact hcovered (.given hx)
      | kyberShared k => exact hcovered (.given hx)
    · exact htaken x hx hcovered
  premise {premises x} hr hcovered := by
    cases hr with
    | x25519 hz =>
      exact ⟨_, List.mem_singleton_self _,
        fun hc => hcovered (.derive (.x25519 hz) (by simpa using hc))⟩
    | encapsulate hk =>
      exact ⟨_, List.mem_singleton_self _,
        fun hc => hcovered (.derive (.encapsulate hk) (by simpa using hc))⟩
    | decapsulate hk =>
      exact ⟨_, List.mem_singleton_self _,
        fun hc => hcovered (.derive (.decapsulate hk) (by simpa using hc))⟩
    | handshake z k info =>
      generalize hrk : S.hkdfHandshake z k info = rk at hcovered
      cases hcovered with
      | refl => exact absurd hrk (hS.hkdfHandshake_ne_hkdfRatchet _ _ _ _ _ _)
      | ratchet z' info' _ => exact absurd hrk (hS.hkdfHandshake_ne_hkdfRatchet _ _ _ _ _ _)
    | ratchetRoot z rk info =>
      generalize hrk : (S.hkdfRatchet z rk info).1 = rk' at hcovered
      cases hcovered with
      | refl =>
        obtain ⟨rfl, -, -⟩ := hS.hkdfRatchet_root_injective hrk
        exact ⟨.sharedSecret e.sharedSecret, List.mem_cons_self, hsecret⟩
      | ratchet z' info' hunder =>
        obtain ⟨-, rfl, -⟩ := hS.hkdfRatchet_root_injective hrk
        exact ⟨.rootKey rk, List.mem_cons_of_mem _ List.mem_cons_self, hunder⟩
    | ratchetChain z rk info =>
      obtain ⟨q, hq, he⟩ := hcovered
      obtain ⟨rfl, rfl⟩ := ChainPoint.of_ratchet hS he
      rcases hq with hq | ⟨-, hq⟩
      · exact ⟨.rootKey q.root, List.mem_cons_of_mem _ List.mem_cons_self, hq⟩
      · exact ⟨.sharedSecret q.sharedSecret, List.mem_cons_self, hq ▸ hsecret⟩
    | nextChain ck input =>
      obtain ⟨q, hq, he⟩ := hcovered
      obtain ⟨r, rfl, rfl⟩ := ChainPoint.of_hmacChainKey hS he
      exact ⟨.chainKey r.key, List.mem_singleton_self _, r, hq, rfl⟩
    | message ck input =>
      obtain ⟨q, hq, he⟩ := hcovered
      exact ⟨.chainKey ck, List.mem_singleton_self _, q, hq, (hS.hmacMessageKey_injective he).1⟩

end Heal

namespace History
variable {s t u : History S} {a : Action S} {h : HandshakeSecrets S}

/-- All states that were stored are placed, those of the current session no deeper than it is. -/
def Ordered (s : History S) : Prop :=
  ∀ state ∈ s.stored.head?, ∃ h ∈ s.handshakes.head?, ∃ depth sending receiving,
    Placed state h depth sending receiving ∧ ∀ old ∈ s.stored, ∃ h' ∈ s.handshakes,
      ∃ depth' sending' receiving', Placed old h' depth' sending' receiving' ∧
        (h' = h → depth' ≤ depth)

theorem ordered_step (hS : S.OneWay) (hs : Ordered s) (hg : FreshHandshake s a)
    (he : step s a = some t) : Ordered t := by
  rcases step_cases he with ⟨h, key, next, hh, ho, rfl⟩ |
    ⟨state, rest, h, hs', key, next, -, hstored, hhandshakes, hc, rfl⟩
  · obtain ⟨depth, sending, receiving, p, hp, -, -⟩ := opening_placed hS hh ho
    rintro _ ⟨⟩
    refine ⟨h, rfl, depth, sending, receiving, hp, fun old hold => ?_⟩
    rcases List.mem_cons.mp hold with rfl | hold
    · exact ⟨h, List.mem_cons_self, depth, sending, receiving, hp, fun _ => le_rfl⟩
    · cases hstored : s.stored with
      | nil =>
        rw [hstored] at hold
        cases hold
      | cons state rest =>
        obtain ⟨_, _, _, _, _, _, hall⟩ := hs state (by rw [hstored]; rfl)
        obtain ⟨h', hmem, depth', sending', receiving', hp', -⟩ := hall old hold
        exact ⟨h', List.mem_cons_of_mem _ hmem, depth', sending', receiving', hp',
          fun heq => absurd (heq ▸ hmem) (hg h hh)⟩
  · obtain ⟨h', hh', depth, sending, receiving, hp, hall⟩ := hs state (by rw [hstored]; rfl)
    rw [hhandshakes] at hh'
    cases hh'
    obtain ⟨depth', sending', receiving', p, hle, hp', -, -, -⟩ := continuing_placed hS hp hc
    rintro _ ⟨⟩
    refine ⟨h, by rw [hhandshakes]; rfl, depth', sending', receiving', hp', fun old hold => ?_⟩
    rcases List.mem_cons.mp hold with rfl | hold
    · exact ⟨h, by rw [hhandshakes]; exact List.mem_cons_self, depth', sending', receiving', hp',
        fun _ => le_rfl⟩
    · obtain ⟨h', hmem, d, sending'', receiving'', hp'', hd⟩ := hall old hold
      exact ⟨h', hmem, d, sending'', receiving'', hp'', fun heq => (hd heq).trans hle⟩

theorem ordered (hS : S.OneWay) (hs : (machine S).Reach FreshHandshake s) : Ordered s := by
  refine hs.invariant ?_ fun s a t => ordered_step hS
  rintro _ rfl
  simp [Ordered]

/-- The run stays in the session it is in. -/
def SameSession (_ : History S) (a : Action S) : Prop := a.secrets = none

/-- A session in which every key is covered but for those of one receiving chain. -/
structure Healed (e : Heal S) (ck₀ : S.ChainKey) (old : List (UsedKey S)) (s : History S) : Prop where
  stored : s.stored ≠ []
  root : ∀ state ∈ s.stored.head?, Under e.top state.rootKey
  sending : ∀ state ∈ s.stored.head?, ∃ q, e.Covers q ∧ state.sendingChainKey = some q.key
  receiving : ∀ state ∈ s.stored.head?, ∀ ck, state.receivingChainKey = some ck →
    (∃ j, ck = nextChainKey^[j] ck₀) ∨ ∃ q, e.Covers q ∧ ck = q.key
  used : ∀ v ∈ s.used, v ∈ old ∨ (∃ j, v.messageKey = messageKeyOf (nextChainKey^[j] ck₀)) ∨
    ∃ q, e.Covers q ∧ v.messageKey = q.messageKey

/-- What one message does to the session, and under which key it went. -/
theorem healed_step {e : Heal S} {ck₀ : S.ChainKey} {old : List (UsedKey S)}
    (hs : Healed e ck₀ old s) (hg : SameSession s a) (he : step s a = some t) :
    Healed e ck₀ old t := by
  rcases step_cases he with ⟨h, key, next, hh, -, -⟩ |
    ⟨state, rest, h, hs', key, next, -, hstored, -, hc, rfl⟩
  · rw [hg] at hh
    cases hh
  have hmem : state ∈ s.stored.head? := by
    rw [hstored]
    rfl
  obtain ⟨q, hq, hsending⟩ := hs.sending state hmem
  have hused (hkey : (∃ j, key = messageKeyOf (nextChainKey^[j] ck₀)) ∨
      ∃ q, e.Covers q ∧ key = q.messageKey) : ∀ v ∈ UsedKey.mk h key :: s.used, v ∈ old ∨
        (∃ j, v.messageKey = messageKeyOf (nextChainKey^[j] ck₀)) ∨
        ∃ q, e.Covers q ∧ v.messageKey = q.messageKey := by
    intro v hv
    rcases List.mem_cons.mp hv with rfl | hv
    · exact .inr hkey
    · exact hs.used v hv
  cases a with
  | initiate contactUserId selfUserId contactBundle ea kemRandom => cases hc
  | handshake contactUserId selfUserId ea ct selfX25519SecretKey selfKyberSecretKey newDhs => cases hc
  | send =>
    simp only [continuing, deriveNextSendingMessageKey_of_some hsending] at hc
    cases hc
    refine ⟨List.cons_ne_nil _ _, ?_, ?_, ?_, hused (.inr ⟨q, hq, rfl⟩)⟩
    · rintro _ ⟨⟩
      exact hs.root state hmem
    · rintro _ ⟨⟩
      exact ⟨q.next, hq.next, congrArg some q.key_next.symm⟩
    · rintro _ ⟨⟩
      exact hs.receiving state hmem
  | receive p n newDhs =>
    simp only [continuing] at hc
    split at hc
    · rename_i k hk
      cases hc
      rcases receive_cases hk with ⟨-, ck, hck, hmk, hnext⟩ | ⟨-, z, z', -, -, hmk, hnext⟩
      · -- the next key of the receiving chain, which may be the one that came with the healing
        rw [hmk] at hused ⊢
        rw [hnext]
        have hon := hs.receiving state hmem ck hck
        refine ⟨List.cons_ne_nil _ _, ?_, ?_, ?_, hused ?_⟩
        · rintro _ ⟨⟩
          exact hs.root state hmem
        · rintro _ ⟨⟩
          exact ⟨q, hq, hsending⟩
        · rintro _ ⟨⟩ _ ⟨⟩
          rcases hon with ⟨j, rfl⟩ | ⟨c, hcover, rfl⟩
          · exact .inl ⟨j + 1, (Function.iterate_succ_apply' nextChainKey j ck₀).symm⟩
          · exact .inr ⟨c.next, hcover.next, c.key_next.symm⟩
        · rcases hon with ⟨j, rfl⟩ | ⟨c, hcover, rfl⟩
          · exact .inl ⟨j, rfl⟩
          · exact .inr ⟨c, hcover, rfl⟩
      · rw [hmk] at hused ⊢
        rw [hnext]
        have hunder := hs.root state hmem
        have hcover : e.Covers ⟨state.rootKey, z, 0⟩ := .inl hunder
        refine ⟨List.cons_ne_nil _ _, ?_, ?_, ?_, hused (.inr ⟨_, hcover, rfl⟩)⟩
        · rintro _ ⟨⟩
          exact .ratchet _ _ (.ratchet _ _ hunder)
        · rintro _ ⟨⟩
          exact ⟨⟨(kdfRk state.rootKey z).1, z', 0⟩, .inl (.ratchet _ _ hunder), rfl⟩
        · rintro _ ⟨⟩ _ ⟨⟩
          exact .inr ⟨_, hcover.next, rfl⟩
    · cases hc

section enabled
variable {state : RatchetState S} (rest : List (RatchetState S)) (hs : List (HandshakeSecrets S))
  (used : List (UsedKey S))

theorem receive_enabled (h : HandshakeSecrets S) {p : Bytes} (n : ℕ) {newDhs : S.X25519Secret} {z z' : S.SharedSecret}
    (hp : state.dhrPublicKey ≠ some p) (hz : S.x25519SharedSecret state.dhsSecretKey p = some z)
    (hz' : S.x25519SharedSecret newDhs p = some z') :
    (machine S).step ⟨state :: rest, h :: hs, used⟩ (.receive p n newDhs) = some
      ⟨ratcheted state p newDhs z z' :: state :: rest, h :: hs,
        ⟨h, messageKeyOf (kdfRk state.rootKey z).2⟩ :: used⟩ := by
  simp only [machine, step, Action.secrets, continuing, deriveNextReceivingMessageKey_new hp hz hz']
  rfl

theorem send_enabled (h : HandshakeSecrets S) {ck : S.ChainKey} (hck : state.sendingChainKey = some ck) :
    ∃ u, (machine S).step ⟨state :: rest, h :: hs, used⟩ .send = some u ∧
      ⟨h, messageKeyOf ck⟩ ∈ u.used := by
  simp only [machine, step, Action.secrets, continuing, deriveNextSendingMessageKey_of_some hck]
  exact ⟨_, rfl, List.mem_cons_self⟩

end enabled

end History

open History in
/-- Once a device has taken a new ratchet key of the peer with a new secret of its own, and the
attacker cannot compute what the two give, no message key of the session that follows is to be
computed from all session states that were ever stored before, except on the chain of the
message that brought the peer's key. -/
theorem postCompromiseSecurity (hS : S.OneWay) {s t u : History S} {p : Bytes} {n : ℕ}
    {newDhs : S.X25519Secret} {z : S.SharedSecret} {as : List (Action S)}
    (hs : (machine S).Reach FreshHandshake s)
    (hnew : ∀ state ∈ s.stored.head?, state.dhrPublicKey ≠ some p)
    (hheal : (machine S).step s (.receive p n newDhs) = some t)
    (hz : S.x25519SharedSecret newDhs p = some z)
    (has : (machine S).Obeys SameSession t as) (hrun : (machine S).exec t as = some u)
    {known : Set (Hidden S)} (hknown : ∀ x ∈ known, x.IsMaterial)
    (hsecret : ¬Computes known (.sharedSecret z)) {v : UsedKey S} (hv : v ∈ u.used)
    (hafter : v ∉ t.used)
    (hchain : ∀ state ∈ t.stored.head?, ∀ ck, state.receivingChainKey = some ck →
      ∀ j, v.messageKey ≠ messageKeyOf (nextChainKey^[j] ck)) :
    ¬Computes (known ∪ {x | ∃ state ∈ s.stored, x ∈ state.derivedKeys}) (.messageKey v.messageKey) := by
  rcases step_cases (show step s (.receive p n newDhs) = some t from hheal) with ⟨h, key, next, hh, -, -⟩ |
    ⟨state, rest, h, hs', key, next, -, hstored, hhandshakes, hc, rfl⟩
  · cases hh
  have hmem : state ∈ s.stored.head? := by
    rw [hstored]
    rfl
  obtain ⟨h', hh', depth, sending, receiving, hp, hall⟩ := ordered hS hs state hmem
  rw [hhandshakes] at hh'
  cases hh'
  simp only [continuing] at hc
  split at hc
  · rename_i k hk
    cases hc
    rcases receive_cases hk with ⟨heq, -⟩ | ⟨-, w, w', -, hw', hmk, hnext⟩
    · exact absurd heq (hnew state hmem)
    rw [hz] at hw'
    cases hw'
    let e : Heal S := ⟨(kdfRk state.rootKey w).1, z⟩
    have hroot : RootAt h (depth + 2) e.root := .ratchet _ _ hp.root
    have hstart : Healed e (nextChainKey (kdfRk state.rootKey w).2)
        (⟨h, k.messageKey⟩ :: s.used) ⟨k.nextState :: s.stored, s.handshakes,
          ⟨h, k.messageKey⟩ :: s.used⟩ := by
      rw [hnext]
      refine ⟨List.cons_ne_nil _ _, ?_, ?_, ?_, fun v hv => .inl hv⟩
      · rintro _ ⟨⟩
        exact .refl
      · rintro _ ⟨⟩
        exact ⟨_, e.covers_sending, rfl⟩
      · rintro _ ⟨⟩ _ ⟨⟩
        exact .inl ⟨0, rfl⟩
    have hend := has.invariant (fun s a t => healed_step) hstart hrun
    rcases hend.used v hv with hold | ⟨j, hj⟩ | ⟨q, hq, hmkq⟩
    · exact absurd hold hafter
    · exact absurd hj (hchain k.nextState rfl _ (by rw [hnext]; rfl) j)
    · have hguarded := Heal.covered_guarded hS hknown hsecret
        {x | ∃ state ∈ s.stored, x ∈ state.derivedKeys} (by
          rintro x ⟨old, hold, hx⟩
          obtain ⟨h', -, depth', sending', receiving', hp', hle⟩ := hall old hold
          exact Heal.not_covered hS hroot hp' (fun heq => by have := hle heq; omega) hx)
      exact hguarded.not_deducible
        (show Heal.Covered known e (.messageKey v.messageKey) from ⟨q, hq, hmkq⟩)
  · cases hc

namespace Symbolic

/-- A session is opened and its only state so far read. The answer of the peer heals it, and the
next message goes out under a key that everybody lacks who has neither of the two new secrets. -/
theorem postCompromiseSecurity_first_answer : ∃ (state : RatchetState suite) (v : UsedKey suite)
    (u : History suite), v ∈ u.used ∧ ¬Computes ({x | ∃ a : Secret, a.val < 3 ∧ x = .x25519Secret a} ∪
      {x | ∃ old ∈ [state], x ∈ old.derivedKeys}) (.messageKey v.messageKey) := by
  let a : Secret := ⟨1, by decide⟩
  let b : Secret := ⟨2, by decide⟩
  let c : Secret := ⟨3, by decide⟩
  let d : Secret := ⟨4, by decide⟩
  let h : HandshakeSecrets suite := ⟨(1, 2), kemCiphertext []⟩
  obtain ⟨state, hdhs, hdhr, hopen⟩ := History.initiate_enabled ⟨[], [], []⟩ [] []
    (k := kemCiphertext []) (b := ⟨publicKey b, []⟩) (r := [])
    (show suite.x25519SharedSecret a (publicKey b) = some (1, 2) from sharedSecret_publicKey a b) rfl
  have hnew : state.dhrPublicKey ≠ some (publicKey c) := by simp [hdhr]
  have hac : suite.x25519SharedSecret state.dhsSecretKey (publicKey c) = some (1, 3) := by
    rw [hdhs]
    exact sharedSecret_publicKey a c
  have hdc : suite.x25519SharedSecret d (publicKey c) = some (3, 4) := sharedSecret_publicKey d c
  have hheal := History.receive_enabled [] [] [⟨h, History.firstKey h [] []⟩] h 0 hnew hac hdc
  obtain ⟨u, hsend, hmem⟩ := History.send_enabled [state] []
    [⟨h, messageKeyOf (kdfRk state.rootKey (1, 3)).2⟩, ⟨h, History.firstKey h [] []⟩] h
    (show (ratcheted state (publicKey c) d (1, 3) (3, 4)).sendingChainKey = some _ from rfl)
  have hreach : (History.machine suite).Reach History.FreshHandshake _ :=
    .step (.init rfl) (fun _ _ => List.not_mem_nil) hopen
  have hrun {s t : History suite} (he : (History.machine suite).step s .send = some t) :
      (History.machine suite).exec s [.send] = some t := by
    rw [Machine.exec, he]
    rfl
  have hobeys (s : History suite) : (History.machine suite).Obeys History.SameSession s [.send] :=
    ⟨rfl, fun _ _ => trivial⟩
  refine ⟨state, _, u, hmem, postCompromiseSecurity suite_oneWay hreach ?_ hheal
    hdc (hobeys _) (hrun hsend) ?_ ?_ hmem ?_ ?_⟩
  · rintro _ ⟨⟩
    exact hnew
  · rintro x ⟨a, -, rfl⟩
    trivial
  · refine suite_oneWay.not_computes_shared (a := d) (b := c) hdc ?_ ?_ ?_
    · rintro ⟨x, hx, he⟩
      cases he
      exact absurd hx (by decide)
    · rintro ⟨x, hx, he⟩
      cases he
      exact absurd hx (by decide)
    · rintro ⟨x, -, he⟩
      cases he
  · intro hused
    rcases List.mem_cons.mp hused with he | hused
    · cases he
    · cases List.mem_singleton.mp hused
  · rintro _ ⟨⟩ _ ⟨⟩ j he
    have hchain := (Key.message.inj he).1
    cases j with
    | zero => cases hchain
    | succ j =>
      rw [Function.iterate_succ_apply'] at hchain
      cases hchain

end Symbolic

end Epistl
