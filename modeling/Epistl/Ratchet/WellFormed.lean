import Epistl.Crypto.Symbolic
import Epistl.Crypto.Session
import Epistl.Sessions.Saved

/-! # Reachable sessions are well formed

A session is made by one of the two sides of a handshake, and then sends, receives, and is stored
and loaded again. Beside it runs what its two counters count: the chain key that each chain was
derived with, and the `KDF_CK` steps since.
-/
namespace Epistl

/-- The keys of a suite as the arrays of bytes that are stored. -/
structure KeyBytes (S : Suite) where
  rootKey : S.RootKey → Bytes
  rootKeyOf : Bytes → S.RootKey
  rootKeyOf_rootKey k : rootKeyOf (rootKey k) = k
  secret : S.X25519Secret → Bytes
  secretOf : Bytes → S.X25519Secret
  secretOf_secret a : secretOf (secret a) = a
  chainKey : S.ChainKey → Bytes
  chainKeyOf : Bytes → S.ChainKey
  chainKeyOf_chainKey k : chainKeyOf (chainKey k) = k

variable {S : Suite} {keys : KeyBytes S}

namespace KeyBytes

def toStored (keys : KeyBytes S) (state : RatchetState S) : Sessions.RatchetState where
  rootKey := keys.rootKey state.rootKey
  dhsPublicKey := state.dhsPublicKey
  dhsSecretKey := keys.secret state.dhsSecretKey
  dhrPublicKey := state.dhrPublicKey
  sendingChainKey := state.sendingChainKey.map keys.chainKey
  receivingChainKey := state.receivingChainKey.map keys.chainKey
  sendMessageNumber := state.sendMessageNumber
  receiveMessageNumber := state.receiveMessageNumber
  previousSendingChainLength := state.previousSendingChainLength

def ofStored (keys : KeyBytes S) (stored : Sessions.RatchetState) : RatchetState S where
  rootKey := keys.rootKeyOf stored.rootKey
  dhsPublicKey := stored.dhsPublicKey
  dhsSecretKey := keys.secretOf stored.dhsSecretKey
  dhrPublicKey := stored.dhrPublicKey
  sendingChainKey := stored.sendingChainKey.map keys.chainKeyOf
  receivingChainKey := stored.receivingChainKey.map keys.chainKeyOf
  sendMessageNumber := stored.sendMessageNumber
  receiveMessageNumber := stored.receiveMessageNumber
  previousSendingChainLength := stored.previousSendingChainLength

@[simp] theorem ofStored_toStored (state : RatchetState S) :
    keys.ofStored (keys.toStored state) = state := by
  have hchain (k : Option S.ChainKey) : (k.map keys.chainKey).map keys.chainKeyOf = k := by
    rw [Option.map_map, show keys.chainKeyOf ∘ keys.chainKey = id from
      funext keys.chainKeyOf_chainKey, Option.map_id]
    rfl
  simp only [ofStored, toStored, keys.rootKeyOf_rootKey, keys.secretOf_secret, hchain]

end KeyBytes

/-- The chain key that `KDF_RK` gave, and the `KDF_CK` steps taken from it. -/
structure DerivedChain (S : Suite) where
  start : S.ChainKey
  steps : ℕ

namespace DerivedChain

def step (c : DerivedChain S) : DerivedChain S := { c with steps := c.steps + 1 }

def key (c : DerivedChain S) : S.ChainKey := nextChainKey^[c.steps] c.start

@[simp] theorem key_derived (start : S.ChainKey) : (DerivedChain.mk start 0).key = start := rfl

@[simp] theorem key_step (c : DerivedChain S) : c.step.key = nextChainKey c.key :=
  Function.iterate_succ_apply' nextChainKey c.steps c.start

end DerivedChain

/-- The chains of a session. -/
structure Chains (S : Suite) where
  sending : DerivedChain S
  receiving : Option (DerivedChain S)

/-- The sessions that the calls of `crypto/session.ts` can lead to, with their chains. -/
inductive Reachable (keys : KeyBytes S) : RatchetState S → Chains S → Prop
  | initiated {contactUserId selfUserId contactBundle ea kemRandom} {r : Initiated S}
      {chainKey : S.ChainKey} :
      initiateSession contactUserId selfUserId contactBundle ea kemRandom = .ok r →
      r.state.sendingChainKey = some chainKey → Reachable keys r.state ⟨⟨chainKey, 0⟩, none⟩
  | received {contactUserId selfUserId ea kyberCiphertext selfX25519SecretKey selfKyberSecretKey
      newDhs} {r : RatchetedState S} :
      receiveHandshake contactUserId selfUserId ea kyberCiphertext selfX25519SecretKey
        selfKyberSecretKey newDhs = .ok r →
      Reachable keys r.toRatchetState ⟨⟨r.sendingChainKey, 0⟩, some ⟨r.receivingChainKey, 0⟩⟩
  | sent {state chains k} : Reachable keys state chains →
      deriveNextSendingMessageKey state = .ok k →
      Reachable keys k.nextState { chains with sending := chains.sending.step }
  /-- a message under a new key of the peer: both chains are derived, and one step is taken -/
  | ratcheted {state chains k peerDhPublicKey messageNumber newDhs} {r : RatchetedState S} :
      Reachable keys state chains → state.dhrPublicKey ≠ some peerDhPublicKey →
      dhRatchetStep state peerDhPublicKey newDhs = .ok r →
      deriveNextReceivingMessageKey state peerDhPublicKey messageNumber newDhs = .ok (some k) →
      Reachable keys k.nextState
        ⟨⟨r.sendingChainKey, 0⟩, some (DerivedChain.mk r.receivingChainKey 0).step⟩
  | advanced {state chains k peerDhPublicKey messageNumber newDhs} : Reachable keys state chains →
      state.dhrPublicKey = some peerDhPublicKey →
      deriveNextReceivingMessageKey state peerDhPublicKey messageNumber newDhs = .ok (some k) →
      Reachable keys k.nextState { chains with receiving := chains.receiving.map DerivedChain.step }
  | reloaded {state chains store contactUserId stored} : Reachable keys state chains →
      Sessions.loadSession (Sessions.saveSession store contactUserId (keys.toStored state)).2
        contactUserId = some (some stored) →
      Reachable keys (keys.ofStored stored) chains

structure RatchetState.WellFormed (state : RatchetState S) (chains : Chains S) : Prop where
  sendingChainKey : state.sendingChainKey = some chains.sending.key
  receivingChainKey : state.receivingChainKey = chains.receiving.map DerivedChain.key
  dhrPublicKey : state.dhrPublicKey = none ↔ state.receivingChainKey = none
  dhsPublicKey : state.dhsPublicKey = S.x25519PublicKey state.dhsSecretKey
  sendMessageNumber : state.sendMessageNumber = chains.sending.steps
  /-- without a receiving chain nothing was received -/
  receiveMessageNumber : state.receiveMessageNumber = chains.receiving.elim 0 DerivedChain.steps

variable {state : RatchetState S} {chains : Chains S} {p : Bytes} {newDhs : S.X25519Secret} {n : ℕ}

theorem dhRatchetStep_success {r : RatchetedState S} (h : dhRatchetStep state p newDhs = .ok r) :
    r.dhsPublicKey = S.x25519PublicKey r.dhsSecretKey ∧ r.sendMessageNumber = 0 ∧
      r.receiveMessageNumber = 0 := by
  obtain ⟨dh, -, h⟩ := Thrown.bind_eq_ok h
  obtain ⟨dh', -, h⟩ := Thrown.bind_eq_ok h
  cases h
  exact ⟨rfl, rfl, rfl⟩

theorem initiateSession_success {contactUserId selfUserId : JsString} {contactBundle : ContactBundle}
    {ea : S.X25519Secret} {kemRandom : Bytes} {r : Initiated S}
    (h : initiateSession contactUserId selfUserId contactBundle ea kemRandom = .ok r) :
    r.state.dhsPublicKey = S.x25519PublicKey r.state.dhsSecretKey ∧ r.state.dhrPublicKey = none ∧
      r.state.receivingChainKey = none ∧ r.state.sendMessageNumber = 0 ∧
      r.state.receiveMessageNumber = 0 := by
  obtain ⟨dhOutput, -, h⟩ := Thrown.bind_eq_ok h
  obtain ⟨⟨cipherText, sharedSecret⟩, -, h⟩ := Thrown.bind_eq_ok h
  cases h
  exact ⟨rfl, rfl, rfl, rfl, rfl⟩

namespace RatchetState.WellFormed

/-- After a ratchet step. -/
theorem ratcheted {r : RatchetedState S} (h : dhRatchetStep state p newDhs = .ok r) :
    r.toRatchetState.WellFormed ⟨⟨r.sendingChainKey, 0⟩, some ⟨r.receivingChainKey, 0⟩⟩ := by
  obtain ⟨hpublic, hsend, hreceive⟩ := dhRatchetStep_success h
  exact ⟨rfl, rfl, by simp [RatchetedState.toRatchetState], hpublic, hsend, hreceive⟩

theorem sent (h : state.WellFormed chains) {k : SendingKey S}
    (hk : deriveNextSendingMessageKey state = .ok k) :
    k.nextState.WellFormed { chains with sending := chains.sending.step } := by
  rw [deriveNextSendingMessageKey_of_some h.sendingChainKey] at hk
  cases hk
  exact ⟨by simp, h.receivingChainKey, h.dhrPublicKey, h.dhsPublicKey,
    congrArg (· + 1) h.sendMessageNumber, h.receiveMessageNumber⟩

/-- One step on the receiving chain. -/
theorem advanced (h : state.WellFormed chains) {c : DerivedChain S}
    (hc : chains.receiving = some c) :
    { state with
      receivingChainKey := some (nextChainKey c.key)
      receiveMessageNumber := state.receiveMessageNumber + 1 : RatchetState S }.WellFormed
      { chains with receiving := some c.step } where
  sendingChainKey := h.sendingChainKey
  receivingChainKey := by simp
  dhrPublicKey := by
    have hnull := h.dhrPublicKey
    rw [h.receivingChainKey, hc] at hnull
    simpa using hnull
  dhsPublicKey := h.dhsPublicKey
  sendMessageNumber := h.sendMessageNumber
  receiveMessageNumber := by
    have hcount := h.receiveMessageNumber
    rw [hc] at hcount
    exact congrArg (· + 1) hcount

theorem receivingChainKey_ne (h : state.WellFormed chains) (hp : state.dhrPublicKey = some p) :
    state.receivingChainKey ≠ none := by
  intro hnone
  rw [h.dhrPublicKey.mpr hnone] at hp
  cases hp

end RatchetState.WellFormed

theorem Reachable.wellFormed (h : Reachable keys state chains) : state.WellFormed chains := by
  induction h with
  | initiated hr hchain =>
    obtain ⟨hpublic, hdhr, hreceiving, hsend, hreceive⟩ := initiateSession_success hr
    exact ⟨hchain, hreceiving, by simp [hdhr, hreceiving], hpublic, hsend, hreceive⟩
  | received hr =>
    obtain ⟨dhOutput, -, hr⟩ := Thrown.bind_eq_ok hr
    obtain ⟨sharedSecret, -, hr⟩ := Thrown.bind_eq_ok hr
    exact .ratcheted hr
  | sent _ hk ih => exact ih.sent hk
  | ratcheted _ hnew hr hk ih =>
    rw [deriveNextReceivingMessageKey, if_pos hnew, hr] at hk
    cases hk
    exact (RatchetState.WellFormed.ratcheted hr).advanced rfl
  | @advanced state chains k p n newDhs _ hp hk ih =>
    rw [deriveNextReceivingMessageKey_same hp, ih.receivingChainKey] at hk
    split at hk
    · cases hc : chains.receiving with
      | none => simp [hc] at hk
      | some c =>
        rw [hc] at hk
        cases hk
        exact ih.advanced hc
    · cases hk
  | reloaded _ hstored ih =>
    rw [Sessions.loadSession_saveSession] at hstored
    cases hstored
    rwa [KeyBytes.ofStored_toStored]

/-- Every reachable session is well formed. The next message can be sent, and a peer key comes
with a receiving chain. -/
theorem reachable_wellFormed (keys : KeyBytes S) (state : RatchetState S) (chains : Chains S)
    (h : Reachable keys state chains) :
    state.WellFormed chains ∧ (∃ k, deriveNextSendingMessageKey state = .ok k) ∧
      ∀ p, state.dhrPublicKey = some p → state.receivingChainKey ≠ none := by
  have hwf := h.wellFormed
  exact ⟨hwf, ⟨_, deriveNextSendingMessageKey_of_some hwf.sendingChainKey⟩,
    fun p hp => hwf.receivingChainKey_ne hp⟩

namespace Symbolic

theorem secret_bound : 0 < 256 ^ 32 := by decide

/-- A term is stored as its code in unary. -/
def keyBytes : KeyBytes suite where
  rootKey k := List.replicate (Encodable.encode k) 0
  rootKeyOf bytes := (Encodable.decode bytes.length).getD (.handshake 0 0 [] [])
  rootKeyOf_rootKey k := by simp
  secret := publicKey
  secretOf bytes := if h : ofBytes bytes < 256 ^ 32 then ⟨ofBytes bytes, h⟩ else ⟨0, secret_bound⟩
  secretOf_secret a := by
    have hlt : ofBytes (publicKey a) < 256 ^ 32 := by
      rw [ofBytes_publicKey]
      exact a.lt
    rw [dif_pos hlt]
    exact Secret.ext (ofBytes_publicKey a)
  chainKey k := List.replicate (Encodable.encode k) 0
  chainKeyOf bytes := (Encodable.decode bytes.length).getD (.handshake 0 0 [] [])
  chainKeyOf_chainKey k := by simp

/-- The initiator's session is stored and loaded, sends, and takes a message of the peer. -/
theorem reachable_wellFormed_answered : ∃ state chains,
    Reachable keyBytes state chains ∧ state.receiveMessageNumber = 1 ∧
    state.WellFormed chains ∧ (∃ k, deriveNextSendingMessageKey state = .ok k) ∧
      ∀ p, state.dhrPublicKey = some p → state.receivingChainKey ≠ none := by
  let a : Secret := ⟨1, by decide⟩
  let b : Secret := ⟨2, by decide⟩
  have hinitiated := @Reachable.initiated suite keyBytes [] [] ⟨publicKey b, []⟩ a [] _ _ rfl rfl
  have hreloaded := @Reachable.reloaded suite keyBytes _ _ (fun _ => none) [] _ hinitiated
    Sessions.loadSession_saveSession
  rw [KeyBytes.ofStored_toStored] at hreloaded
  have hsent := Reachable.sent hreloaded rfl
  have hratcheted := @Reachable.ratcheted suite keyBytes _ _ _ (publicKey b) 0 a _ hsent (by decide)
    rfl rfl
  exact ⟨_, _, hratcheted, rfl, reachable_wellFormed keyBytes _ _ hratcheted⟩

end Symbolic

end Epistl
