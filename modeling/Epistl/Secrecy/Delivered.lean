import Epistl.Inbox.Messenger
import Epistl.Ratchet.WellFormed
import Epistl.Secrecy.Forward

/-! # A delivered message stays secret

Two devices and the network between them, where either may speak first. While handshakes come
only to a device that has no session, each device follows a history of its own, so what is proved
of histories holds of the two: a message that was accepted went under a key that both histories
have used.
-/
namespace Epistl
variable {S : Suite}

theorem Thrown.ofOption_eq_ok {α : Type} {e : Thrown} {o : Option α} {a : α}
    (h : e.ofOption o = .ok a) : o = some a := by
  cases o with
  | none => cases h
  | some b =>
    cases h
    rfl

theorem Thrown.map_eq_ok {α β : Type} {f : α → β} {x : Except Thrown α} {b : β}
    (h : x.map f = .ok b) : ∃ a, x = .ok a ∧ f a = b := by
  cases x with
  | error e => cases h
  | ok a => exact ⟨a, rfl, Except.ok.inj h⟩

/-- An envelope of one side for the other, with the message key that its ciphertext is under. -/
def SealedWith (a b : Identity S) (mk : S.MessageKey) (envelope : Bytes) : Prop :=
  (∃ header plaintext random, header.dhPublicKey.length = 32 ∧
    envelope = encodeRatchetEnvelope header mk plaintext a.userId b.userId a.dilithiumSecretKey
      random) ∨
  ∃ ea kyberCiphertext plaintext random, ea.length = 32 ∧ kyberCiphertext.length = 1088 ∧
    envelope = encodeHandshakeEnvelope ea kyberCiphertext mk plaintext a.userId b.userId
      a.dilithiumSecretKey random

/-- A session's own ratchet key keeps the length of a key. -/
theorem length_dhsPublicKey (hS : S.Ideal) (state : RatchetState S) {q : Bytes} {n : ℕ}
    {newDhs : S.X25519Secret} {k : ReceivingKey S} (hstate : state.dhsPublicKey.length = 32)
    (hk : deriveNextReceivingMessageKey state q n newDhs = .ok (some k)) :
    k.nextState.dhsPublicKey.length = 32 := by
  rcases receive_cases hk with ⟨-, ck, -, -, hnext⟩ | ⟨-, z, z', -, -, -, hnext⟩
  · rw [hnext]
    exact hstate
  · rw [hnext]
    exact hS.x25519PublicKey newDhs

namespace SealedWith
variable {a b : Identity S} {mk : S.MessageKey} {envelope plaintext : Bytes}
  {state next : RatchetState S} {newDhs : S.X25519Secret}

/-- A ratchet envelope opens under the key the session derives for it. -/
theorem decode_ratchet (hS : S.Ideal) (h : SealedWith a b mk envelope)
    (hd : decodeRatchetEnvelope envelope ((a.toward b).params state) newDhs =
      .ok (.success plaintext next)) :
    ∃ q n, deriveNextReceivingMessageKey state q n newDhs = .ok (some ⟨mk, next⟩) := by
  have hpk : ((a.toward b).params state).senderDilithiumPublicKey =
    S.dilithiumPublicKey a.dilithiumSecretKey := rfl
  rcases h with ⟨header, p, random, hlength, rfl⟩ | ⟨ea, ct, p, random, -, -, rfl⟩
  · rw [decodeRatchetEnvelope_encode hS hlength _ hpk] at hd
    cases hk : deriveNextReceivingMessageKey state header.dhPublicKey (header.messageNumber % 2 ^ 32)
      newDhs with
    | error e =>
      rw [show ((a.toward b).params state).state = state from rfl, hk] at hd
      cases hd
    | ok received =>
      rw [show ((a.toward b).params state).state = state from rfl, hk] at hd
      obtain ⟨rfl, -⟩ := openCiphertext_success hS (Except.ok.inj hd)
      exact ⟨_, _, hk⟩
  · rw [(decodeRatchetEnvelope_handshake ((a.toward b).params state)).choose_spec] at hd
    cases hd

/-- A handshake envelope opens under the first key of the session it makes. -/
theorem decode_handshake (hS : S.Ideal) (h : SealedWith a b mk envelope)
    (hd : decodeHandshakeEnvelope envelope (a.handshakeParams b) newDhs =
      .ok (.success plaintext next)) :
    ∃ action h, History.Action.secrets action = some h ∧
      History.opening action = some (mk, next) ∧ next.dhsPublicKey.length = 32 ∧
      ∃ kyberCiphertext, S.decapsulate kyberCiphertext b.kyberSecretKey = some h.kyberShared := by
  have hpk : (a.handshakeParams b).senderDilithiumPublicKey =
    S.dilithiumPublicKey a.dilithiumSecretKey := rfl
  rcases h with ⟨header, p, random, -, rfl⟩ | ⟨ea, ct, p, random, hlength, hct, rfl⟩
  · rw [(decodeHandshakeEnvelope_ratchet (a.handshakeParams b)).choose_spec] at hd
    cases hd
  · rw [decodeHandshakeEnvelope_encode hS hlength hct hpk] at hd
    obtain ⟨r, hr, hd⟩ := Thrown.bind_eq_ok hd
    obtain ⟨received, hreceived, hd⟩ := Thrown.bind_eq_ok hd
    obtain ⟨rfl, -⟩ := openCiphertext_success hS (Except.ok.inj hd)
    replace hr : receiveHandshake a.userId b.userId ea ct b.x25519SecretKey b.kyberSecretKey newDhs =
      .ok r := hr
    have hopening : History.opening (.handshake a.userId b.userId ea ct b.x25519SecretKey
        b.kyberSecretKey newDhs) = some (mk, next) := by
      simp only [History.opening, hr, hreceived]
    obtain ⟨z, hz, hr⟩ := Thrown.bind_eq_ok hr
    obtain ⟨k, hk, hr⟩ := Thrown.bind_eq_ok hr
    have hz' := Thrown.ofOption_eq_ok hz
    have hk' := Thrown.ofOption_eq_ok hk
    refine ⟨_, ⟨z, k⟩, ?_, hopening, ?_, ct, hk'⟩
    · simp only [History.Action.secrets, hz', hk']
      rfl
    · refine length_dhsPublicKey hS r.toRatchetState ?_ hreceived
      rw [show r.toRatchetState.dhsPublicKey = r.dhsPublicKey from rfl, (dhRatchetStep_success hr).1]
      exact hS.x25519PublicKey r.dhsSecretKey

end SealedWith

namespace History
variable {s : History S} {a : Action S} {h : HandshakeSecrets S} {key : S.MessageKey}
  {state next : RatchetState S}

theorem reach_opening (hs : (machine S).Reach FreshHandshake s) (hfirst : s.handshakes = [])
    (hh : a.secrets = some h) (ho : opening a = some (key, next)) :
    (machine S).Reach FreshHandshake ⟨next :: s.stored, h :: s.handshakes, ⟨h, key⟩ :: s.used⟩ := by
  refine .step (a := a) hs (fun h' _ => ?_) (by simp only [machine, step, hh, ho, Option.map_some])
  rw [hfirst]
  exact List.not_mem_nil

theorem reach_continuing (hs : (machine S).Reach FreshHandshake s) (hh : a.secrets = none)
    (hstate : s.stored.head? = some state) (hhandshake : s.handshakes.head? = some h)
    (hc : continuing state a = some (key, next)) :
    (machine S).Reach FreshHandshake ⟨next :: s.stored, s.handshakes, ⟨h, key⟩ :: s.used⟩ := by
  obtain ⟨rest, hstored⟩ := List.head?_eq_some_iff.mp hstate
  obtain ⟨hs', hhandshakes⟩ := List.head?_eq_some_iff.mp hhandshake
  refine .step (a := a) hs (by rw [FreshHandshake, hh]; rintro h' ⟨⟩) ?_
  simp only [machine, step, hh, hstored, hhandshakes, hc, Option.map_some]

end History

theorem Party.eq_or_other (p q : Party) : q = p ∨ q = p.other := by
  cases p <;> cases q <;> simp [Party.other]

namespace TwoParty

/-- The first send opens a history. -/
theorem initiate_opening (hS : S.Ideal) {a b : Identity S} {ea : S.X25519Secret}
    {kemRandom plaintext : Bytes} {random : EncodeRandom} {next : RatchetState S} {m : Sent}
    (h : initiate a b ea kemRandom plaintext random = .ok (next, m)) :
    ∃ action h mk, History.Action.secrets action = some h ∧
      History.opening action = some (mk, next) ∧ next.dhsPublicKey.length = 32 ∧
      SealedWith a b mk m.envelope ∧
      ∃ kyberCiphertext, S.decapsulate kyberCiphertext b.kyberSecretKey = some h.kyberShared := by
  obtain ⟨opened, hopened, h⟩ := Thrown.bind_eq_ok h
  obtain ⟨sending, hsending, h⟩ := Thrown.bind_eq_ok h
  cases h
  have hopening : History.opening (.initiate b.userId a.userId b.bundle ea kemRandom) =
      some (sending.messageKey, sending.nextState) := by
    simp only [History.opening, hopened, hsending]
  obtain ⟨z, hz, hopened⟩ := Thrown.bind_eq_ok hopened
  obtain ⟨⟨ct, k⟩, hk, hopened⟩ := Thrown.bind_eq_ok hopened
  cases hopened
  have hz' := Thrown.ofOption_eq_ok hz
  have hk' := Thrown.ofOption_eq_ok hk
  refine ⟨_, ⟨z, k⟩, _, ?_, hopening, ?_, .inr ⟨_, ct, plaintext, random,
    hS.x25519PublicKey ea, hS.kyberCiphertext hk', rfl⟩, ct, hS.decapsulate_encapsulate hk'⟩
  · simp only [History.Action.secrets, hz', hk']
    rfl
  · rw [deriveNextSendingMessageKey_of_some rfl] at hsending
    cases hsending
    exact hS.x25519PublicKey ea

/-- Every later send goes on in it. -/
theorem sendOn_continuing {a b : Identity S} {state next : RatchetState S} {plaintext : Bytes}
    {random : EncodeRandom} {m : Sent} (hstate : state.dhsPublicKey.length = 32)
    (h : sendOn a b state plaintext random = .ok (next, m)) :
    ∃ mk, History.continuing state .send = some (mk, next) ∧ next.dhsPublicKey.length = 32 ∧
      SealedWith a b mk m.envelope := by
  obtain ⟨sending, hsending, h⟩ := Thrown.bind_eq_ok h
  cases h
  have hheader : sending.header.dhPublicKey = state.dhsPublicKey ∧
      sending.nextState.dhsPublicKey = state.dhsPublicKey := by
    unfold deriveNextSendingMessageKey at hsending
    split at hsending
    · cases hsending
    · cases hsending
      exact ⟨rfl, rfl⟩
  refine ⟨sending.messageKey, ?_, ?_, .inl ⟨sending.header, plaintext, random, ?_, rfl⟩⟩
  · simp only [History.continuing, hsending]
  · rw [hheader.2, hstate]
  · rw [hheader.1, hstate]

end TwoParty

/-- One device of a conversation. -/
structure Correspondent (S : Suite) where
  session : Option (RatchetState S)
  /-- the envelopes that were handed to the transport -/
  sent : List Bytes
  /-- the positions of the peer's envelopes that were accepted -/
  accepted : List ℕ

abbrev Exchange (S : Suite) := Party → Correspondent S

namespace Exchange

inductive Action (S : Suite) where
  | send (p : Party) (plaintext : Bytes) (random : SendRandom S)
  | deliver (p : Party) (index : ℕ) (newDhs : S.X25519Secret)

def start : Exchange S := fun _ => ⟨none, [], []⟩

variable (who : Party → Identity S) (entropy : Party → Bytes)

/-- The bundle that a device has of the other one. -/
def bundle (p : Party) : ContactKeyBundle := (who p.other).keyBundle (entropy p.other)

/-- A send, or the decoding of an envelope of the other device. The state that comes out is stored
before the device does anything else; what throws or is refused changes nothing. -/
def step (s : Exchange S) : Action S → Option (Exchange S)
  | .send p plaintext random =>
    match sendEnvelope (who p) (who p.other).userId (bundle who entropy p) plaintext (s p).session
        random with
    | .ok (some (envelope, next)) =>
      some (Function.update s p ⟨some next, (s p).sent ++ [envelope], (s p).accepted⟩)
    | _ => some s
  | .deliver p index newDhs =>
    match (s p.other).sent[index]? with
    | none => none
    | some envelope =>
      match decodeFrame (Messenger.context who entropy p) (bundle who entropy p) (who p.other).userId
          envelope (s p).session newDhs with
      | .ok (some (.success _ next)) =>
        some (Function.update s p ⟨some next, (s p).sent, (s p).accepted ++ [index]⟩)
      | _ => some s

def machine : Machine (Exchange S) (Action S) where
  init s := s = start
  step := step who entropy

/-- A handshake comes only to a device that has no session. A device that has one would accept it
all the same, and give the session up for the one it makes. -/
def FirstContact (s : Exchange S) : Action S → Prop
  | .send _ _ _ => True
  | .deliver p index _ => ∀ envelope ∈ (s p.other).sent[index]?,
    envelope.head? = some handshakeEnvelopeVersion → (s p).session = none

variable {who entropy} {s t : Exchange S}

/-- What a step does, when it does anything. -/
theorem step_send {p : Party} {plaintext : Bytes} {random : SendRandom S}
    (he : step who entropy s (.send p plaintext random) = some t) : t = s ∨ ∃ envelope next,
      sendEnvelope (who p) (who p.other).userId (bundle who entropy p) plaintext (s p).session
        random = .ok (some (envelope, next)) ∧
      t = Function.update s p ⟨some next, (s p).sent ++ [envelope], (s p).accepted⟩ := by
  simp only [step] at he
  split at he
  · rename_i envelope next hsend
    exact .inr ⟨envelope, next, hsend, (Option.some.inj he).symm⟩
  · exact .inl (Option.some.inj he).symm

theorem step_deliver {p : Party} {index : ℕ} {newDhs : S.X25519Secret}
    (he : step who entropy s (.deliver p index newDhs) = some t) :
    t = s ∨ ∃ envelope plaintext next, (s p.other).sent[index]? = some envelope ∧
      decodeFrame (Messenger.context who entropy p) (bundle who entropy p) (who p.other).userId
        envelope (s p).session newDhs = .ok (some (.success plaintext next)) ∧
      t = Function.update s p ⟨some next, (s p).sent, (s p).accepted ++ [index]⟩ := by
  simp only [step] at he
  split at he
  · cases he
  · rename_i envelope hindex
    split at he
    · rename_i plaintext next hdecode
      exact .inr ⟨envelope, plaintext, next, hindex, hdecode, (Option.some.inj he).symm⟩
    · exact .inl (Option.some.inj he).symm

theorem send_enabled {p : Party} {plaintext envelope : Bytes} {random : SendRandom S}
    {session : Option (RatchetState S)} {next : RatchetState S} (hsession : (s p).session = session)
    (h : sendEnvelope (who p) (who p.other).userId (bundle who entropy p) plaintext session
      random = .ok (some (envelope, next))) :
    step who entropy s (.send p plaintext random) =
      some (Function.update s p ⟨some next, (s p).sent ++ [envelope], (s p).accepted⟩) := by
  simp only [step, hsession, h]

theorem deliver_enabled {p : Party} {i : ℕ} {newDhs : S.X25519Secret}
    {envelope plaintext : Bytes} {session : Option (RatchetState S)} {next : RatchetState S}
    (hindex : (s p.other).sent[i]? = some envelope) (hsession : (s p).session = session)
    (h : decodeFrame (Messenger.context who entropy p) (bundle who entropy p) (who p.other).userId
      envelope session newDhs = .ok (some (.success plaintext next))) :
    step who entropy s (.deliver p i newDhs) =
      some (Function.update s p ⟨some next, (s p).sent, (s p).accepted ++ [i]⟩) := by
  simp only [step, hindex, hsession, h]

/-- One of the devices and the history it follows. -/
structure Follows (who : Party → Identity S) (s : Exchange S) (hist : Party → History S)
    (p : Party) : Prop where
  reach : (History.machine S).Reach History.FreshHandshake (hist p)
  session : (hist p).stored.head? = (s p).session
  untouched : (s p).session = none → (hist p).handshakes = []
  publicKey : ∀ state ∈ (s p).session, state.dhsPublicKey.length = 32
  sent : ∀ envelope ∈ (s p).sent, ∃ u ∈ (hist p).used,
    SealedWith (who p) (who p.other) u.messageKey envelope
  accepted : ∀ i ∈ (s p).accepted, ∃ envelope, (s p.other).sent[i]? = some envelope ∧
    ∃ u ∈ (hist p).used, ∃ v ∈ (hist p.other).used, u.messageKey = v.messageKey ∧
      SealedWith (who p.other) (who p) v.messageKey envelope
  /-- each handshake was answered with the KEM key of one of the two -/
  answered : ∀ h ∈ (hist p).handshakes, ∃ q kyberCiphertext,
    S.decapsulate kyberCiphertext (who q).kyberSecretKey = some h.kyberShared

section follows
variable {hist : Party → History S} {p : Party} {next : History S} {mk : S.MessageKey}
  {state : RatchetState S}

/-- A device makes a step of its history: it stores a state, and sends or accepts a message. -/
theorem Follows.advance (hf : ∀ q, Follows who s hist q) {c : Correspondent S}
    (hreach : (History.machine S).Reach History.FreshHandshake next)
    (hstored : next.stored.head? = some state) (hused : ∃ h, next.used = ⟨h, mk⟩ :: (hist p).used)
    (hanswered : ∀ h ∈ next.handshakes, ∃ q kyberCiphertext,
      S.decapsulate kyberCiphertext (who q).kyberSecretKey = some h.kyberShared)
    (hsession : c.session = some state) (hpublic : state.dhsPublicKey.length = 32)
    (hsent : c.sent = (s p).sent ∨ ∃ envelope, c.sent = (s p).sent ++ [envelope] ∧
      SealedWith (who p) (who p.other) mk envelope)
    (haccepted : ∀ i ∈ c.accepted, i ∈ (s p).accepted ∨
      ∃ envelope, (s p.other).sent[i]? = some envelope ∧
        ∃ v ∈ (hist p.other).used, mk = v.messageKey ∧
          SealedWith (who p.other) (who p) v.messageKey envelope) :
    ∀ q, Follows who (Function.update s p c) (Function.update hist p next) q := by
  obtain ⟨h, hused⟩ := hused
  have hkept : ∀ u ∈ (hist p).used, u ∈ next.used := fun u hu => by
    rw [hused]
    exact List.mem_cons_of_mem _ hu
  have hnew : UsedKey.mk h mk ∈ next.used := by
    rw [hused]
    exact List.mem_cons_self
  have hmono (i : ℕ) (envelope : Bytes) (hi : (s p).sent[i]? = some envelope) :
      c.sent[i]? = some envelope := by
    rcases hsent with he | ⟨x, he, -⟩
    · rwa [he]
    · rw [he]
      exact (List.getElem?_append_left (List.getElem?_eq_some_iff.mp hi).1).trans hi
  intro q
  rcases Party.eq_or_other p q with rfl | rfl
  · refine ⟨?_, ?_, ?_, ?_, ?_, ?_, ?_⟩ <;>
      simp only [Function.update_self, Function.update_of_ne (Party.other_ne q)]
    · exact hreach
    · rw [hstored, hsession]
    · rw [hsession]
      rintro ⟨⟩
    · rw [hsession]
      rintro _ ⟨⟩
      exact hpublic
    · intro envelope hm
      have hold : ∀ envelope ∈ (s q).sent, ∃ u ∈ next.used,
          SealedWith (who q) (who q.other) u.messageKey envelope := fun envelope hm => by
        obtain ⟨u, hu, hseal⟩ := (hf q).sent envelope hm
        exact ⟨u, hkept u hu, hseal⟩
      rcases hsent with he | ⟨x, he, hseal⟩
      · exact hold envelope (he ▸ hm)
      · rw [he] at hm
        rcases List.mem_append.mp hm with hm | hm
        · exact hold envelope hm
        · rw [List.mem_singleton.mp hm]
          exact ⟨_, hnew, hseal⟩
    · intro i hi
      rcases haccepted i hi with hi | ⟨envelope, hm, v, hv, rfl, hseal⟩
      · obtain ⟨envelope, hm, u, hu, hrest⟩ := (hf q).accepted i hi
        exact ⟨envelope, hm, u, hkept u hu, hrest⟩
      · exact ⟨envelope, hm, _, hnew, v, hv, rfl, hseal⟩
    · exact hanswered
  · have hother := hf p.other
    refine ⟨?_, ?_, ?_, ?_, ?_, ?_, ?_⟩ <;>
      simp only [Party.other_other, Function.update_self, Function.update_of_ne (Party.other_ne p)]
    · exact hother.reach
    · exact hother.session
    · exact hother.untouched
    · exact hother.publicKey
    · simpa only [Party.other_other] using hother.sent
    · intro i hi
      obtain ⟨envelope, hm, u, hu, v, hv, hrest⟩ := hother.accepted i hi
      rw [Party.other_other] at hm hv hrest
      exact ⟨envelope, hmono i envelope hm, u, hu, v, hkept v hv, hrest⟩
    · exact hother.answered

end follows

/-- A send opens a history, or goes on in it. -/
theorem follows_send (hS : S.OneWay) {hist : Party → History S} (hf : ∀ q, Follows who s hist q)
    {p : Party} {plaintext envelope : Bytes} {random : SendRandom S} {next : RatchetState S}
    (hsend : sendEnvelope (who p) (who p.other).userId (bundle who entropy p) plaintext (s p).session
      random = .ok (some (envelope, next))) :
    ∃ hist', ∀ q, Follows who
      (Function.update s p ⟨some next, (s p).sent ++ [envelope], (s p).accepted⟩) hist' q := by
  cases hsession : (s p).session with
  | none =>
    rw [hsession, bundle, sendEnvelope_none hS.toIdeal] at hsend
    obtain ⟨⟨next', m⟩, hinit, heq⟩ := Thrown.map_eq_ok hsend
    cases heq
    obtain ⟨action, h, mk, hsecrets, hopening, hpublic, hseal, hanswered⟩ :=
      TwoParty.initiate_opening hS.toIdeal hinit
    have hfirst := (hf p).untouched hsession
    refine ⟨_, Follows.advance hf (History.reach_opening (hf p).reach hfirst hsecrets hopening) rfl
      ⟨h, rfl⟩ ?_ rfl hpublic (.inr ⟨_, rfl, hseal⟩) fun i hi => .inl hi⟩
    intro h' hh'
    rw [hfirst] at hh'
    rw [List.mem_singleton.mp hh']
    exact ⟨p.other, hanswered⟩
  | some state =>
    rw [hsession, sendEnvelope_some] at hsend
    obtain ⟨⟨next', m⟩, hon, heq⟩ := Thrown.map_eq_ok hsend
    cases heq
    obtain ⟨mk, hc, hpublic, hseal⟩ :=
      TwoParty.sendOn_continuing ((hf p).publicKey state hsession) hon
    have hhead : (hist p).stored.head? = some state := (hf p).session.trans hsession
    obtain ⟨h, hh, -⟩ := (History.recorded hS (hf p).reach).current state hhead
    exact ⟨_, Follows.advance hf
      (History.reach_continuing (hf p).reach (a := .send) rfl hhead hh hc) rfl ⟨h, rfl⟩
      (hf p).answered rfl hpublic (.inr ⟨_, rfl, hseal⟩) fun i hi => .inl hi⟩

/-- So does the acceptance of an envelope. -/
theorem follows_deliver (hS : S.OneWay) {hist : Party → History S}
    (hf : ∀ q, Follows who s hist q) {p : Party} {index : ℕ} {newDhs : S.X25519Secret}
    {envelope plaintext : Bytes} {next : RatchetState S}
    (hindex : (s p.other).sent[index]? = some envelope)
    (hfirst : envelope.head? = some handshakeEnvelopeVersion → (s p).session = none)
    (hdecode : decodeFrame (Messenger.context who entropy p) (bundle who entropy p)
      (who p.other).userId envelope (s p).session newDhs = .ok (some (.success plaintext next))) :
    ∃ hist', ∀ q, Follows who
      (Function.update s p ⟨some next, (s p).sent, (s p).accepted ++ [index]⟩) hist' q := by
  obtain ⟨v, hv, hseal⟩ := (hf p.other).sent envelope (List.mem_of_getElem? hindex)
  rw [Party.other_other] at hseal
  have haccepted : ∀ i ∈ (s p).accepted ++ [index], i ∈ (s p).accepted ∨
      ∃ envelope, (s p.other).sent[i]? = some envelope ∧
        ∃ w ∈ (hist p.other).used, v.messageKey = w.messageKey ∧
          SealedWith (who p.other) (who p) w.messageKey envelope := by
    intro i hi
    rcases List.mem_append.mp hi with hi | hi
    · exact .inl hi
    · rw [List.mem_singleton.mp hi]
      exact .inr ⟨envelope, hindex, v, hv, rfl, hseal⟩
  rcases decodeFrame_success hdecode with ⟨hhead, hd⟩ | ⟨-, state, hsession, hd⟩
  · obtain ⟨action, h, hsecrets, hopening, hpublic, hdecapsulate⟩ :=
      hseal.decode_handshake hS.toIdeal hd
    have hnone := (hf p).untouched (hfirst hhead)
    refine ⟨_, Follows.advance hf (History.reach_opening (hf p).reach hnone hsecrets hopening) rfl
      ⟨h, rfl⟩ ?_ rfl hpublic (.inl rfl) haccepted⟩
    intro h' hh'
    rw [hnone] at hh'
    rw [List.mem_singleton.mp hh']
    exact ⟨p, hdecapsulate⟩
  · obtain ⟨q, n, hk⟩ := hseal.decode_ratchet hS.toIdeal hd
    have hc : History.continuing state (.receive q n newDhs) = some (v.messageKey, next) := by
      simp only [History.continuing, hk]
    have hpublic := length_dhsPublicKey hS.toIdeal _ ((hf p).publicKey state hsession) hk
    have hhead : (hist p).stored.head? = some state := (hf p).session.trans hsession
    obtain ⟨h, hh, -⟩ := (History.recorded hS (hf p).reach).current state hhead
    exact ⟨_, Follows.advance hf
      (History.reach_continuing (hf p).reach (a := .receive q n newDhs) rfl hhead hh hc) rfl
      ⟨h, rfl⟩ (hf p).answered rfl hpublic (.inl rfl) haccepted⟩

theorem exists_follows (hS : S.OneWay) (hs : (machine who entropy).Reach FirstContact s) :
    ∃ hist, ∀ q, Follows who s hist q := by
  refine hs.invariant (I := fun s => ∃ hist, ∀ q, Follows who s hist q) ?_ ?_
  · rintro _ rfl
    refine ⟨fun _ => ⟨[], [], []⟩, fun q => ⟨.init rfl, rfl, fun _ => rfl, ?_, ?_, ?_, ?_⟩⟩
    · rintro _ ⟨⟩
    · rintro _ ⟨⟩
    · rintro _ ⟨⟩
    · rintro h ⟨⟩
  · rintro s a t ⟨hist, hf⟩ hguard he
    cases a with
    | send p plaintext random =>
      rcases step_send he with rfl | ⟨envelope, next, hsend, rfl⟩
      · exact ⟨hist, hf⟩
      · exact follows_send hS hf hsend
    | deliver p index newDhs =>
      rcases step_deliver he with rfl | ⟨envelope, plaintext, next, hindex, hdecode, rfl⟩
      · exact ⟨hist, hf⟩
      · exact follows_deliver hS hf hindex (hguard envelope hindex) hdecode

/-- Two histories that used one message key have it from the same handshake. -/
theorem usedKey_ext (hS : S.OneWay) {x y : History S} (hx : History.Recorded x)
    (hy : History.Recorded y) {u v : UsedKey S} (hu : u ∈ x.used) (hv : v ∈ y.used)
    (he : u.messageKey = v.messageKey) : u = v := by
  obtain ⟨-, p, n, hp, hroot⟩ := hx.used u hu
  obtain ⟨-, q, m, hq, hroot'⟩ := hy.used v hv
  have hpq := ChainPoint.messageKey_injective hS (hp.symm.trans (he.trans hq))
  rw [← hpq] at hroot'
  cases u
  cases v
  cases he
  cases (hroot.unique hS hroot').1
  rfl

variable (who entropy) in
/-- However the network delays, repeats, reorders and drops what the devices send, as long as
handshakes come only to a device without a session: what the one has sent and the other accepted
cannot be read with the sessions that both hold now and any key material, unless an output of
their KEM keys can be computed from it. -/
theorem delivered_secret (hS : S.OneWay) (hs : (machine who entropy).Reach FirstContact s)
    {p : Party} {i : ℕ} {envelope : Bytes} (hsent : (s p).sent[i]? = some envelope)
    (haccepted : i ∈ (s p.other).accepted) {known : Set (Hidden S)}
    (hknown : ∀ x ∈ known, x.IsMaterial)
    (hkem : ∀ q ct k, S.decapsulate ct (who q).kyberSecretKey = some k →
      ¬Computes known (.kyberShared k)) :
    ∃ mk, SealedWith (who p) (who p.other) mk envelope ∧
      ¬Computes (known ∪ {x | ∃ q, ∃ state ∈ (s q).session, x ∈ state.derivedKeys})
        (.messageKey mk) := by
  obtain ⟨hist, hf⟩ := exists_follows hS hs
  have hrecorded (q : Party) := History.recorded hS (hf q).reach
  obtain ⟨envelope', hsent', u, hu, v, hv, he, hseal⟩ := (hf p.other).accepted i haccepted
  rw [Party.other_other] at hsent' hv hseal
  cases hsent.symm.trans hsent'
  cases usedKey_ext hS (hrecorded p.other) (hrecorded p) hu hv he
  have hall (q : Party) : u ∈ (hist q).used := by
    rcases Party.eq_or_other p q with rfl | rfl
    · exact hv
    · exact hu
  obtain ⟨q, ct, hct⟩ := (hf p).answered u.secrets ((hrecorded p).used u (hall p)).1
  refine ⟨u.messageKey, hseal, ?_⟩
  have hnonempty : (Set.range hist).Nonempty := ⟨hist .alice, .alice, rfl⟩
  have hused : ∀ x ∈ Set.range hist, History.Recorded x ∧ u ∈ x.used := by
    rintro x ⟨q, rfl⟩
    exact ⟨hrecorded q, hall q⟩
  have hsecret := History.Recorded.not_computes hS hknown
    (.inr (hkem q ct u.secrets.kyberShared hct)) hnonempty hused
  refine fun hc => hsecret (hc.mono (Set.union_subset_union_right known ?_))
  rintro x ⟨q, state, hstate, hx⟩
  exact ⟨hist q, ⟨q, rfl⟩, state, (hf q).session ▸ hstate, hx⟩

/-- Two messages of Alice have arrived at Bob. Both devices are taken then, and every X25519 secret
there is. -/
theorem delivered_secret_first : ∃ (s : Exchange Symbolic.suite) (envelope : Bytes)
    (mk : Symbolic.Key), (s .alice).sent[1]? = some envelope ∧ (s .bob).accepted = [0, 1] ∧
    SealedWith (TwoParty.someone .alice) (TwoParty.someone .bob) mk envelope ∧
      ¬Computes ({x | ∃ a, x = .x25519Secret a} ∪
        {x | ∃ q, ∃ state ∈ (s q).session, x ∈ state.derivedKeys}) (.messageKey mk) := by
  have hS := Symbolic.suite_ideal
  let who := TwoParty.someone
  let entropy : Party → Bytes := fun _ => []
  let random := Messenger.randomOf 2 (by decide)
  obtain ⟨c, kct, -, hfirst, hinit⟩ := initiate_eq hS (who .alice) (who .bob) random.ea
    random.kemRandom [] random.encode
  obtain ⟨m, hon, -, hm, -⟩ := sendOn_eq (a := who .alice) (b := who .bob)
    (x := sentOn (openedOn c) c) (e := c) (n := 1) ⟨rfl, rfl, rfl, rfl⟩ [] random.encode
  obtain ⟨f, -, -, -, hd⟩ := decode_handshake hS hfirst [] random.encode ⟨3, by decide⟩
  generalize henvelope : encodeHandshakeEnvelope _ _ _ _ _ _ _ _ = envelope at hd hinit
  have hsend : sendEnvelope (who .alice) (who .bob).userId (bundle who entropy .alice) [] none random =
      .ok (some (envelope, sentOn (openedOn c) c)) := by
    exact (sendEnvelope_none hS [] [] random).trans (congrArg (Except.map _) hinit)
  have hsend' : sendEnvelope (who .alice) (who .bob).userId (bundle who entropy .alice) []
      (some (sentOn (openedOn c) c)) random =
        .ok (some (m.envelope, sentOn (sentOn (openedOn c) c) c)) := by
    exact (sendEnvelope_some _ [] _ random).trans (congrArg (Except.map _) hon)
  have hdecode : decodeFrame (Messenger.context who entropy .bob) (bundle who entropy .bob)
      (who .alice).userId envelope none ⟨3, by decide⟩ =
        .ok (some (.success [] (ratchetedTo c.publicKey c f 0))) :=
    decodeFrame_of_accepts (p := .bob) rfl hd
  have hdecode' : decodeFrame (Messenger.context who entropy .bob) (bundle who entropy .bob)
      (who .alice).userId m.envelope (some (ratchetedTo c.publicKey c f 0)) ⟨4, by decide⟩ =
        .ok (some (.success m.plaintext { ratchetedTo c.publicKey c f 0 with
          receivingChainKey := some (c.key 2)
          receiveMessageNumber := 2 })) :=
    decodeFrame_of_accepts (p := .bob) rfl (decode_next hS hm rfl rfl rfl (by decide))
  have hhead : m.envelope.head? ≠ some handshakeEnvelopeVersion := by
    obtain ⟨-, pcl, encode, he⟩ := hm
    rw [he]
    rintro ⟨⟩
  let s₁ : Exchange Symbolic.suite :=
    Function.update start .alice ⟨some (sentOn (openedOn c) c), [envelope], []⟩
  let s₂ := Function.update s₁ .alice
    ⟨some (sentOn (sentOn (openedOn c) c) c), [envelope, m.envelope], []⟩
  let s₃ := Function.update s₂ .bob ⟨some (ratchetedTo c.publicKey c f 0), [], [0]⟩
  let next : RatchetState Symbolic.suite := { ratchetedTo c.publicKey c f 0 with
    receivingChainKey := some (c.key 2)
    receiveMessageNumber := 2 }
  let s₄ := Function.update s₃ .bob ⟨some next, [], [0, 1]⟩
  have h₁ : (machine who entropy).step start (.send .alice [] random) = some s₁ :=
    send_enabled (p := .alice) rfl hsend
  have h₂ : (machine who entropy).step s₁ (.send .alice [] random) = some s₂ :=
    send_enabled (s := s₁) (p := .alice) rfl hsend'
  have h₃ : (machine who entropy).step s₂ (.deliver .bob 0 ⟨3, by decide⟩) = some s₃ :=
    deliver_enabled (s := s₂) (p := .bob) (i := 0) rfl rfl hdecode
  have h₄ : (machine who entropy).step s₃ (.deliver .bob 1 ⟨4, by decide⟩) = some s₄ :=
    deliver_enabled (s := s₃) (p := .bob) (i := 1) rfl rfl hdecode'
  have hfirst : FirstContact s₂ (.deliver .bob 0 ⟨3, by decide⟩) := fun _ _ _ => rfl
  have hlater : FirstContact s₃ (.deliver .bob 1 ⟨4, by decide⟩) := by
    rintro _ ⟨⟩ hopening
    exact absurd hopening hhead
  have hs₂ : (machine who entropy).Reach FirstContact s₂ :=
    ((Machine.Reach.init rfl).step (a := .send .alice [] random) trivial h₁).step
      (a := .send .alice [] random) trivial h₂
  have hs : (machine who entropy).Reach FirstContact s₄ := (hs₂.step hfirst h₃).step hlater h₄
  obtain ⟨mk, hseal, hsecret⟩ := delivered_secret who entropy Symbolic.suite_oneWay hs
    (p := .alice) (i := 1) rfl (List.mem_cons_of_mem 0 (List.mem_singleton_self 1))
    (by rintro x ⟨a, rfl⟩; trivial) fun _ ct k _ => Symbolic.not_computes_kyberShared k
  exact ⟨_, _, mk, rfl, rfl, hseal, hsecret⟩

end Exchange

end Epistl
