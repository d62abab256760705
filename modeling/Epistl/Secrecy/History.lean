import Epistl.Crypto.Session
import Epistl.Runs.Machine
import Epistl.Secrecy.Attacker

/-! # The keys behind a device's sessions

A device opens sessions with a contact, answers handshakes, sends and receives, whatever the
peer and the network put into the calls. Beside the states that were stored runs what no call
returns: the secrets that each session began with and every message key that went to the cipher.
A root key has a depth, the number of derivations since the handshake, and that orders all of it.
-/
namespace Epistl
variable {S : Suite}

/-- What the first root key of a session is derived from. -/
structure HandshakeSecrets (S : Suite) where
  sharedSecret : S.SharedSecret
  kyberShared : S.KyberShared

structure UsedKey (S : Suite) where
  secrets : HandshakeSecrets S
  messageKey : S.MessageKey

structure History (S : Suite) where
  /-- the session states that were stored, the current one first -/
  stored : List (RatchetState S)
  handshakes : List (HandshakeSecrets S)
  used : List (UsedKey S)

namespace History

inductive Action (S : Suite) where
  | initiate (contactUserId selfUserId : JsString) (contactBundle : ContactBundle)
    (ea : S.X25519Secret) (kemRandom : Bytes)
  | handshake (contactUserId selfUserId : JsString) (ea kyberCiphertext : Bytes)
    (selfX25519SecretKey : S.X25519Secret) (selfKyberSecretKey : S.KyberSecret)
    (newDhs : S.X25519Secret)
  | send
  | receive (peerDhPublicKey : Bytes) (messageNumber : ℕ) (newDhs : S.X25519Secret)

/-- The secrets of the session that an action opens. -/
def Action.secrets : Action S → Option (HandshakeSecrets S)
  | .initiate _ _ contactBundle ea kemRandom => do
    let dhOutput ← S.x25519SharedSecret ea contactBundle.x25519PublicKey
    let (_, sharedSecret) ← S.encapsulate contactBundle.kyberPublicKey kemRandom
    return ⟨dhOutput, sharedSecret⟩
  | .handshake _ _ ea kyberCiphertext selfX25519SecretKey selfKyberSecretKey _ => do
    let dhOutput ← S.x25519SharedSecret selfX25519SecretKey ea
    let sharedSecret ← S.decapsulate kyberCiphertext selfKyberSecretKey
    return ⟨dhOutput, sharedSecret⟩
  | .send | .receive _ _ _ => none

/-- The first state of a new session that is stored, with the key its first message took. -/
def opening : Action S → Option (S.MessageKey × RatchetState S)
  | .initiate contactUserId selfUserId contactBundle ea kemRandom =>
    match initiateSession contactUserId selfUserId contactBundle ea kemRandom with
    | .error _ => none
    | .ok opened =>
      match deriveNextSendingMessageKey opened.state with
      | .error _ => none
      | .ok sending => some (sending.messageKey, sending.nextState)
  | .handshake contactUserId selfUserId ea kyberCiphertext selfX25519SecretKey selfKyberSecretKey
      newDhs =>
    match receiveHandshake contactUserId selfUserId ea kyberCiphertext selfX25519SecretKey
      selfKyberSecretKey newDhs with
    | .error _ => none
    | .ok state =>
      match deriveNextReceivingMessageKey state.toRatchetState ea 0 newDhs with
      | .ok (some received) => some (received.messageKey, received.nextState)
      | _ => none
  | .send | .receive _ _ _ => none

/-- The next state that is stored of the current session, with the key of the message. A
received one is stored when the cipher opens, so no other outcome is a step. -/
def continuing (state : RatchetState S) : Action S → Option (S.MessageKey × RatchetState S)
  | .initiate _ _ _ _ _ | .handshake _ _ _ _ _ _ _ => none
  | .send =>
    match deriveNextSendingMessageKey state with
    | .error _ => none
    | .ok sending => some (sending.messageKey, sending.nextState)
  | .receive peerDhPublicKey messageNumber newDhs =>
    match deriveNextReceivingMessageKey state peerDhPublicKey messageNumber newDhs with
    | .ok (some received) => some (received.messageKey, received.nextState)
    | _ => none

def step (s : History S) (a : Action S) : Option (History S) :=
  match a.secrets with
  | some h =>
    (opening a).map fun (key, next) =>
      ⟨next :: s.stored, h :: s.handshakes, ⟨h, key⟩ :: s.used⟩
  | none =>
    match s.stored, s.handshakes with
    | state :: _, h :: _ =>
      (continuing state a).map fun (key, next) =>
        ⟨next :: s.stored, s.handshakes, ⟨h, key⟩ :: s.used⟩
    | _, _ => none

def machine (S : Suite) : Machine (History S) (Action S) where
  init s := s = ⟨[], [], []⟩
  step := step

/-- No handshake is answered twice. -/
def FreshHandshake (s : History S) (a : Action S) : Prop := ∀ h ∈ a.secrets, h ∉ s.handshakes

variable {s t : History S} {a : Action S}

theorem step_cases (he : step s a = some t) :
    (∃ h key next, a.secrets = some h ∧ opening a = some (key, next) ∧
      t = ⟨next :: s.stored, h :: s.handshakes, ⟨h, key⟩ :: s.used⟩) ∨
    ∃ state rest h hs key next, a.secrets = none ∧ s.stored = state :: rest ∧ s.handshakes = h :: hs ∧
      continuing state a = some (key, next) ∧
      t = ⟨next :: s.stored, s.handshakes, ⟨h, key⟩ :: s.used⟩ := by
  unfold step at he
  split at he
  · rename_i h hh
    obtain ⟨⟨key, next⟩, ho, ht⟩ := Option.map_eq_some_iff.mp he
    exact .inl ⟨h, key, next, hh, ho, ht.symm⟩
  · rename_i hh
    split at he
    · rename_i state rest h hs hstored hhandshakes
      obtain ⟨⟨key, next⟩, ho, ht⟩ := Option.map_eq_some_iff.mp he
      exact .inr ⟨state, rest, h, hs, key, next, hh, hstored, hhandshakes, ho, ht.symm⟩
    · cases he

end History

/-- A root key at a number of derivations from the handshake with these secrets. -/
inductive RootAt (h : HandshakeSecrets S) : ℕ → S.RootKey → Prop
  | handshake (info : Bytes) : RootAt h 0 (S.hkdfHandshake h.sharedSecret h.kyberShared info)
  | ratchet {n : ℕ} {rk : S.RootKey} (z : S.SharedSecret) (info : Bytes) :
    RootAt h n rk → RootAt h (n + 1) (S.hkdfRatchet z rk info).1

namespace RootAt
variable {h h' : HandshakeSecrets S} {n m : ℕ} {rk : S.RootKey}

/-- A root key has one depth, and one handshake that it comes from. -/
theorem unique (hS : S.OneWay) (hn : RootAt h n rk) (hm : RootAt h' m rk) : h = h' ∧ n = m := by
  induction hn generalizing m with
  | handshake info =>
    generalize hrk : S.hkdfHandshake h.sharedSecret h.kyberShared info = rk at hm
    cases hm with
    | handshake info' =>
      obtain ⟨hz, hk, -⟩ := hS.hkdfHandshake_injective hrk
      cases h
      cases h'
      cases hz
      cases hk
      exact ⟨rfl, rfl⟩
    | ratchet z info' _ => exact absurd hrk (hS.hkdfHandshake_ne_hkdfRatchet _ _ _ _ _ _)
  | @ratchet n rk z info _ ih =>
    generalize hrk : (S.hkdfRatchet z rk info).1 = rk' at hm
    cases hm with
    | handshake info' => exact absurd hrk.symm (hS.hkdfHandshake_ne_hkdfRatchet _ _ _ _ _ _)
    | ratchet z' info' hm =>
      obtain ⟨-, rfl, -⟩ := hS.hkdfRatchet_root_injective hrk
      obtain ⟨hh, hnm⟩ := ih hm
      exact ⟨hh, congrArg (· + 1) hnm⟩

end RootAt

/-- A key on a chain: what `KDF_RK` derived the chain from, and the `KDF_CK` steps since. -/
structure ChainPoint (S : Suite) where
  root : S.RootKey
  sharedSecret : S.SharedSecret
  index : ℕ

namespace ChainPoint
variable {h : HandshakeSecrets S} {p q : ChainPoint S} {n m : ℕ}

def key (p : ChainPoint S) : S.ChainKey := nextChainKey^[p.index] (kdfRk p.root p.sharedSecret).2

def messageKey (p : ChainPoint S) : S.MessageKey := messageKeyOf p.key

def next (p : ChainPoint S) : ChainPoint S := { p with index := p.index + 1 }

def SameChain (p q : ChainPoint S) : Prop := p.root = q.root ∧ p.sharedSecret = q.sharedSecret

@[simp] theorem key_next (p : ChainPoint S) : p.next.key = nextChainKey p.key :=
  Function.iterate_succ_apply' nextChainKey p.index _

/-- A chain key that was advanced comes from no derivation. -/
theorem iterate_injective (hS : S.OneWay) {rk rk' : S.RootKey} {z z' : S.SharedSecret} {i j : ℕ}
    (he : nextChainKey^[i] (kdfRk rk z).2 = nextChainKey^[j] (kdfRk rk' z').2) :
    rk = rk' ∧ z = z' ∧ i = j := by
  induction i generalizing j with
  | zero =>
    cases j with
    | zero =>
      obtain ⟨hz, hrk, -⟩ := hS.hkdfRatchet_injective he
      exact ⟨hrk, hz, rfl⟩
    | succ j =>
      rw [Function.iterate_succ_apply'] at he
      exact absurd he (hS.hkdfRatchet_ne_hmacChainKey _ _ _ _ _)
  | succ i ih =>
    rw [Function.iterate_succ_apply'] at he
    cases j with
    | zero => exact absurd he.symm (hS.hkdfRatchet_ne_hmacChainKey _ _ _ _ _)
    | succ j =>
      rw [Function.iterate_succ_apply'] at he
      obtain ⟨hrk, hz, hij⟩ := ih (hS.hmacChainKey_injective he).1
      exact ⟨hrk, hz, congrArg (· + 1) hij⟩

theorem key_injective (hS : S.OneWay) (he : p.key = q.key) : p = q := by
  obtain ⟨root, z, i⟩ := p
  obtain ⟨root', z', j⟩ := q
  obtain ⟨rfl, rfl, rfl⟩ := iterate_injective hS he
  rfl

theorem messageKey_injective (hS : S.OneWay) (he : p.messageKey = q.messageKey) : p = q :=
  key_injective hS (hS.hmacMessageKey_injective he).1

/-- Chains on root keys of different depths are different. -/
theorem not_sameChain (hS : S.OneWay) (hp : RootAt h n p.root) (hq : RootAt h m q.root)
    (hne : n ≠ m) : ¬SameChain p q :=
  fun hsame => hne (hp.unique hS (hsame.1 ▸ hq)).2

end ChainPoint

/-- Where a session state stands: below its root key lie the root keys of its two chains. -/
structure Placed (state : RatchetState S) (h : HandshakeSecrets S) (depth : ℕ)
    (sending : ChainPoint S) (receiving : Option (ChainPoint S)) : Prop where
  root : RootAt h (depth + 1) state.rootKey
  sendingChainKey : state.sendingChainKey = some sending.key
  sendingRoot : RootAt h depth sending.root
  receivingChainKey : state.receivingChainKey = receiving.map ChainPoint.key
  receivingRoot : ∀ c ∈ receiving, ∃ n < depth, RootAt h n c.root

/-- The point is of an older chain, or of a chain the state has advanced beyond it. -/
structure Behind (h : HandshakeSecrets S) (depth : ℕ) (sending : ChainPoint S)
    (receiving : Option (ChainPoint S)) (p : ChainPoint S) : Prop where
  root : ∃ n ≤ depth, RootAt h n p.root
  sending : sending.SameChain p → p.index < sending.index
  receiving : ∀ c ∈ receiving, c.SameChain p → p.index < c.index

section step
variable {state : RatchetState S} {h : HandshakeSecrets S} {depth : ℕ} {sending p : ChainPoint S}
  {receiving : Option (ChainPoint S)}

/-- What a received message did to a placed state: it took the next key of the receiving
chain, or it came under a new key of the peer. -/
theorem receive_cases {q : Bytes} {n : ℕ} {newDhs : S.X25519Secret} {k : ReceivingKey S}
    (hk : deriveNextReceivingMessageKey state q n newDhs = .ok (some k)) :
    (state.dhrPublicKey = some q ∧ ∃ ck, state.receivingChainKey = some ck ∧
      k.messageKey = messageKeyOf ck ∧ k.nextState = { state with
        receivingChainKey := some (nextChainKey ck)
        receiveMessageNumber := state.receiveMessageNumber + 1 }) ∨
    (state.dhrPublicKey ≠ some q ∧ ∃ z z', S.x25519SharedSecret state.dhsSecretKey q = some z ∧
      S.x25519SharedSecret newDhs q = some z' ∧
      k.messageKey = messageKeyOf (kdfRk state.rootKey z).2 ∧
      k.nextState = ratcheted state q newDhs z z') := by
  by_cases hq : state.dhrPublicKey = some q
  · rw [deriveNextReceivingMessageKey_same hq] at hk
    split at hk
    · cases hc : state.receivingChainKey with
      | none =>
        rw [hc] at hk
        cases hk
      | some ck =>
        rw [hc] at hk
        cases hk
        exact .inl ⟨hq, ck, rfl, rfl, rfl⟩
    · cases hk
  · cases hz : S.x25519SharedSecret state.dhsSecretKey q with
    | none =>
      simp only [deriveNextReceivingMessageKey, if_pos hq, dhRatchetStep, hz, Thrown.ofOption] at hk
      cases hk
    | some z =>
      cases hz' : S.x25519SharedSecret newDhs q with
      | none =>
        simp only [deriveNextReceivingMessageKey, if_pos hq, dhRatchetStep, hz, hz',
          Thrown.ofOption] at hk
        cases hk
      | some z' =>
        rw [deriveNextReceivingMessageKey_new hq hz hz'] at hk
        cases hk
        exact .inr ⟨hq, z, z', rfl, rfl, rfl, rfl⟩

/-- A sent message takes the key of the sending chain. -/
theorem Placed.send (hp : Placed state h depth sending receiving) {k : SendingKey S}
    (hk : deriveNextSendingMessageKey state = .ok k) :
    k.messageKey = sending.messageKey ∧
      Placed k.nextState h depth sending.next receiving := by
  rw [deriveNextSendingMessageKey_of_some hp.sendingChainKey] at hk
  cases hk
  exact ⟨rfl, hp.root, congrArg some sending.key_next.symm, hp.sendingRoot, hp.receivingChainKey,
    hp.receivingRoot⟩

theorem Placed.receive (hp : Placed state h depth sending receiving) {q : Bytes} {n : ℕ}
    {newDhs : S.X25519Secret} {k : ReceivingKey S}
    (hk : deriveNextReceivingMessageKey state q n newDhs = .ok (some k)) :
    (state.dhrPublicKey = some q ∧ ∃ c ∈ receiving, k.messageKey = c.messageKey ∧
      Placed k.nextState h depth sending (some c.next)) ∨
    (state.dhrPublicKey ≠ some q ∧ ∃ z z', S.x25519SharedSecret newDhs q = some z' ∧
      k.messageKey = (ChainPoint.mk state.rootKey z 0).messageKey ∧
      Placed k.nextState h (depth + 2) ⟨(kdfRk state.rootKey z).1, z', 0⟩
        (some (ChainPoint.mk state.rootKey z 0).next)) := by
  rcases receive_cases hk with ⟨hq, ck, hck, hmk, hnext⟩ | ⟨hq, z, z', -, hz', hmk, hnext⟩
  · rw [hp.receivingChainKey] at hck
    obtain ⟨c, hc, rfl⟩ := Option.map_eq_some_iff.mp hck
    refine .inl ⟨hq, c, hc, hmk, ?_⟩
    rw [hnext]
    refine ⟨hp.root, hp.sendingChainKey, hp.sendingRoot, congrArg some c.key_next.symm, ?_⟩
    rintro _ ⟨⟩
    exact hp.receivingRoot c hc
  · refine .inr ⟨hq, z, z', hz', hmk, ?_⟩
    rw [hnext]
    refine ⟨.ratchet _ _ (.ratchet _ _ hp.root), rfl, .ratchet _ _ hp.root, rfl, ?_⟩
    rintro _ ⟨⟩
    exact ⟨depth + 1, Nat.lt_succ_self _, hp.root⟩

theorem Behind.send (hb : Behind h depth sending receiving p) :
    Behind h depth sending.next receiving p where
  root := hb.root
  sending hsame := (hb.sending hsame).trans (Nat.lt_succ_self _)
  receiving := hb.receiving

theorem Behind.receive {c : ChainPoint S} (hc : c ∈ receiving)
    (hb : Behind h depth sending receiving p) : Behind h depth sending (some c.next) p where
  root := hb.root
  sending := hb.sending
  receiving := by
    rintro _ ⟨⟩ hsame
    exact (hb.receiving c hc hsame).trans (Nat.lt_succ_self _)

theorem Behind.ratchet (hS : S.OneWay) (hp : Placed state h depth sending receiving)
    (z z' : S.SharedSecret) (hb : Behind h depth sending receiving p) :
    Behind h (depth + 2) ⟨(kdfRk state.rootKey z).1, z', 0⟩
      (some (ChainPoint.mk state.rootKey z 0).next) p := by
  obtain ⟨n, hn, hroot⟩ := hb.root
  refine ⟨⟨n, by omega, hroot⟩, fun hsame => ?_, ?_⟩
  · exact absurd hsame (ChainPoint.not_sameChain hS (.ratchet _ _ hp.root) hroot (by omega))
  · rintro _ ⟨⟩ hsame
    exact absurd hsame (ChainPoint.not_sameChain hS hp.root hroot (by omega))

/-- The key that a sent message took. -/
theorem Placed.behind_sent (hS : S.OneWay) (hp : Placed state h depth sending receiving) :
    Behind h depth sending.next receiving sending where
  root := ⟨depth, le_rfl, hp.sendingRoot⟩
  sending _ := Nat.lt_succ_self _
  receiving c hc hsame := by
    obtain ⟨n, hn, hroot⟩ := hp.receivingRoot c hc
    exact absurd hsame (ChainPoint.not_sameChain hS hroot hp.sendingRoot (by omega))

/-- The key that a message on the receiving chain took. -/
theorem Placed.behind_received (hS : S.OneWay) (hp : Placed state h depth sending receiving)
    {c : ChainPoint S} (hc : c ∈ receiving) : Behind h depth sending (some c.next) c := by
  obtain ⟨n, hn, hroot⟩ := hp.receivingRoot c hc
  refine ⟨⟨n, by omega, hroot⟩, fun hsame => ?_, ?_⟩
  · exact absurd hsame (ChainPoint.not_sameChain hS hp.sendingRoot hroot (by omega))
  · rintro _ ⟨⟩ -
    exact Nat.lt_succ_self _

/-- The key that the first message under a new key of the peer took. -/
theorem behind_ratcheted (hS : S.OneWay) {rk : S.RootKey} (hrk : RootAt h (depth + 1) rk)
    (z z' : S.SharedSecret) : Behind h (depth + 2) ⟨(kdfRk rk z).1, z', 0⟩
      (some (ChainPoint.mk rk z 0).next) ⟨rk, z, 0⟩ := by
  refine ⟨⟨depth + 1, by omega, hrk⟩, fun hsame => ?_, ?_⟩
  · exact absurd hsame (ChainPoint.not_sameChain hS (.ratchet _ _ hrk) hrk (by omega))
  · rintro _ ⟨⟩ -
    exact Nat.zero_lt_one

end step

end Epistl
