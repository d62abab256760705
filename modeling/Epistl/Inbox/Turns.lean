import Epistl.Inbox.Binding
import Epistl.Inbox.Replay

/-! # What one step does to a conversation

A step of the network changes the stored session of a device with a contact in two ways: the
device writes to the contact, or it accepts a frame under the contact's id. Both are described
here once, with the chains that the session stands on before and after.
-/
namespace Epistl
variable {S : Suite} {a : Identity S} {c : Chain S} {n : ℕ} {envelope plaintext : Bytes}
  {newDhs : S.X25519Secret} {next : RatchetState S}

/-- The chains an accepted envelope with a new ratchet key leaves, with both their secrets. -/
theorem MadeRatchet.ratcheted (hS : S.Ideal) (h : MadeRatchet a c n envelope)
    {params : DecodeRatchetParams S} (hp : params.state.dhrPublicKey ≠ some c.publicKey)
    (hd : decodeRatchetEnvelope envelope params newDhs = .ok (.success plaintext next)) :
    ∃ g f : Chain S, g.secret = params.state.dhsSecretKey ∧ g.peer = c.secret ∧
      f.secret = newDhs ∧ f.peer = c.secret ∧ c.messageKey n = g.messageKey 0 ∧
      next = ratchetedTo c.publicKey g f params.state.sendMessageNumber := by
  have hpk := (h.accepted hS hd).1
  obtain ⟨_, pcl, p, random, rfl⟩ := h
  rw [decodeRatchetEnvelope_encode hS (c.length_publicKey hS) params hpk] at hd
  obtain ⟨g, f, hg1, hg2, -, hf1, hf2, -, hderive⟩ := derive_new hS (n % 2 ^ 32) newDhs hp
  rw [hderive] at hd
  have hopen := (openCiphertext_success hS (Except.ok.inj hd)).1
  obtain ⟨hk, hnext⟩ := ReceivingKey.mk.inj (Option.some.inj hopen)
  exact ⟨g, f, hg1, hg2, hf1, hf2, hk.symm, hnext.symm⟩

theorem MadeHandshake.ratcheted (hS : S.Ideal) (h : MadeHandshake a c envelope)
    {params : DecodeHandshakeParams S}
    (hd : decodeHandshakeEnvelope envelope params newDhs = .ok (.success plaintext next)) :
    ∃ g f : Chain S, g.secret = params.selfX25519SecretKey ∧ g.peer = c.secret ∧
      f.secret = newDhs ∧ f.peer = c.secret ∧ c.messageKey 0 = g.messageKey 0 ∧
      next = ratchetedTo c.publicKey g f 0 := by
  have hpk := (h.accepted hS hd).1
  obtain ⟨_, kct, p, random, hk, rfl⟩ := h
  rw [decodeHandshakeEnvelope_encode hS (c.length_publicKey hS) hk hpk, ← bind_assoc] at hd
  obtain ⟨z, hz⟩ := hS.shared_exists params.selfX25519SecretKey c.secret
  cases hdec : S.decapsulate kct params.selfKyberSecretKey with
  | none =>
    have hz : S.x25519SharedSecret params.selfX25519SecretKey c.publicKey = some z := hz
    simp [receiveHandshake, hz, hdec, Thrown.ofOption, bind, Except.bind] at hd
  | some k =>
    let g : Chain S := ⟨params.selfX25519SecretKey, c.secret, S.hkdfHandshake z k
      (rootKeyInfoBytes params.contactUserId params.selfUserId), z, hz⟩
    obtain ⟨f, rfl, hpeer, hroot⟩ := Chain.exists_of_secrets hS newDhs g.peer g.nextRoot
    have hreceive := receiveHandshake_eq (g := g) (f := f) _ _ hdec rfl hpeer hroot
    have hd := (congrArg (· >>= _) hreceive).symm.trans hd
    have hopen := (openCiphertext_success hS (Except.ok.inj hd)).1
    obtain ⟨hk, hnext⟩ := ReceivingKey.mk.inj (Option.some.inj hopen)
    exact ⟨g, f, rfl, rfl, rfl, hpeer, hk.symm, hnext.symm⟩

namespace Network
variable {ι : Type} {dir : Directory S ι} {a b p q r : ι} {s t : Network S ι}
  {userId : JsString}

/-- Two chains with a key in common, one of each device, join the same secrets. -/
theorem Inv.joins (hS : S.Ideal) (h : Inv dir s) (hne : a ≠ b) {c g : Chain S} {i j : ℕ}
    (hkey : c.messageKey i = g.messageKey j) (hc : c.secret ∈ s.used b) (hg : g.secret ∈ s.used a) :
    c.secret = g.peer ∧ c.peer = g.secret := by
  rcases Chain.secrets_of_messageKey hS hkey with ⟨heq, -⟩ | hcross
  · exact absurd (h.disjoint hg (heq ▸ hc)) hne
  · exact hcross

/-- A body of a device that rested is an old one, or for someone else. -/
theorem mem_of_rest {userId : JsString} {body : JsString}
    (h : t.produced a = s.produced a ∨ ∃ body userId', userId' ≠ userId ∧
      EncodedFor (dir.who a) userId' (Base64.base64ToBytes body) ∧
      t.produced a = s.produced a ++ [body]) (hbody : body ∈ t.produced a) :
    body ∈ s.produced a ∨ ∃ userId', userId' ≠ userId ∧
      EncodedFor (dir.who a) userId' (Base64.base64ToBytes body) := by
  rcases h with h | ⟨body', userId', hne, hfor, h⟩
  · exact .inl (h ▸ hbody)
  · rw [h, List.mem_append, List.mem_singleton] at hbody
    rcases hbody with hbody | rfl
    · exact .inl hbody
    · exact .inr ⟨userId', hne, hfor⟩

variable [DecidableEq ι]

/-- The stored sessions after one of them was written. -/
def Writes (s t : Network S ι) (p : ι) (userId : JsString) (next : RatchetState S) : Prop :=
  ∀ r v, (t.device r).loadSession v =
    if r = p ∧ v = userId then some next else (s.device r).loadSession v

/-- A send that has produced a body. -/
structure Wrote (dir : Directory S ι) (s t : Network S ι) (p : ι) (userId text : JsString)
    (random : SendRandom S) (q : ι) (envelope : Bytes) (next : RatchetState S) : Prop where
  contact : dir.contact p userId = some q
  encoded : sendEnvelope (dir.who p) userId ((dir.who q).keyBundle (dir.entropy q))
    (JsString.utf8Bytes text) ((s.device p).loadSession userId) random = .ok (some (envelope, next))
  writes : Writes s t p userId next
  produced : t.produced =
    Function.update s.produced p (s.produced p ++ [Base64.bytesToBase64 envelope])
  used : t.used = Function.update s.used p (random.ea :: s.used p)
  accepted : t.accepted = s.accepted

/-- A frame that was accepted. -/
structure Took (dir : Directory S ι) (s t : Network S ι) (p : ι) (frame : Frame)
    (newDhs : S.X25519Secret) (q : ι) (plaintext : Bytes) (next : RatchetState S) : Prop where
  contact : dir.contact p frame.sender = some q
  decoded : decodeFrame (dir.context p) ((dir.who q).keyBundle (dir.entropy q)) frame.sender
    (Base64.base64ToBytes frame.bodyB64) ((s.device p).loadSession frame.sender) newDhs =
      .ok (some (.success plaintext next))
  writes : Writes s t p frame.sender next
  produced : t.produced = s.produced
  used : t.used = Function.update s.used p (newDhs :: s.used p)
  accepted : t.accepted = Function.update s.accepted p (Function.update (s.accepted p) frame.sender
    (s.accepted p frame.sender ++ [Base64.base64ToBytes frame.bodyB64]))

theorem step_wrote {draft createdAt : JsString} {connected : Bool} {random : SendRandom S}
    (ht : step dir s (.send p userId connected draft createdAt random) = some t) :
    t = s ∨ ∃ q envelope next,
      Wrote dir s t p userId (JsString.trim draft) random q envelope next := by
  simp only [step] at ht
  split at ht
  · exact .inl (Option.some.inj ht).symm
  · rename_i device body hsend
    cases ht
    obtain ⟨contact, envelope, next, hcontact, henv, rfl, rfl⟩ := handleSend_some hsend
    obtain ⟨q, hq, rfl⟩ := Option.map_eq_some_iff.mp hcontact
    refine .inr ⟨q, envelope, next, hq, henv, fun r v => ?_, rfl, rfl, rfl⟩
    by_cases hr : r = p
    · subst hr
      by_cases hv : v = userId
      · subst hv
        simp [Device.loadSession, Device.saveMessage, Device.saveSession]
      · simp [Device.loadSession, Device.saveMessage, Device.saveSession, hv]
    · simp [hr]

theorem step_took {frame : Frame} {createdAt : JsString}
    (ht : step dir s (.present p frame createdAt newDhs) = some t) :
    t.produced = s.produced ∧ t.used = Function.update s.used p (newDhs :: s.used p) ∧
      ((t.accepted = s.accepted ∧ ∀ r v, (t.device r).loadSession v = (s.device r).loadSession v) ∨
        ∃ q plaintext next, Took dir s t p frame newDhs q plaintext next) := by
  have ht := (Option.some.inj ht).symm
  cases haccepts : acceptsFrame (dir.context p) frame newDhs (s.device p) with
  | false =>
    obtain ⟨hsessions, -, -⟩ := acceptsFrame_false haccepts createdAt
    simp only [haccepts, Bool.false_eq_true, if_false] at ht
    subst ht
    refine ⟨rfl, rfl, .inl ⟨rfl, fun r v => ?_⟩⟩
    by_cases hr : r = p
    · subst hr
      simp only [Function.update_self, Device.loadSession, hsessions]
    · simp only [Function.update_of_ne hr]
  | true =>
    obtain ⟨bundle, plaintext, next, hbundle, hd, hdevice⟩ := acceptsFrame_true haccepts createdAt
    obtain ⟨q, hq, rfl⟩ := Option.map_eq_some_iff.mp hbundle
    simp only [haccepts, if_true, hdevice] at ht
    subst ht
    refine ⟨rfl, rfl, .inr ⟨q, plaintext, next, hq, hd, fun r v => ?_, rfl, rfl, rfl⟩⟩
    by_cases hr : r = p
    · subst hr
      simp only [Function.update_self, loadSession_accept, true_and]
    · simp only [Function.update_of_ne hr, hr, false_and, if_false]

/-- What a device that sends encodes, and the session it stores. -/
theorem Wrote.made (hS : S.Ideal) {text : JsString} {random : SendRandom S}
    (h : Wrote dir s t p userId text random q envelope next) :
    ((s.device p).loadSession userId = none ∧ ∃ c : Chain S, c.secret = random.ea ∧
        c.peer = (dir.who q).x25519SecretKey ∧ MadeHandshake (dir.who p) c envelope ∧
        EncodedFor (dir.who p) userId envelope ∧ next = sentOn (openedOn c) c) ∨
      ∃ y, (s.device p).loadSession userId = some y ∧ ∀ e n, Sends y e n →
        MadeRatchet (dir.who p) e n envelope ∧ EncodedFor (dir.who p) userId envelope ∧
          next = sentOn y e ∧ Sends next e (n + 1) := by
  have henv := h.encoded
  obtain rfl := dir.contact_userId h.contact
  cases hsession : (s.device p).loadSession (dir.who q).userId with
  | none =>
    rw [hsession] at henv
    obtain ⟨c, kct, hc, hfirst, hinit⟩ := initiate_eq hS (dir.who p) (dir.who q) random.ea
      random.kemRandom (JsString.utf8Bytes text) random.encode
    have hopen := henv.symm.trans (sendEnvelope_none hS (dir.entropy q) _ random)
    rw [hinit] at hopen
    cases hopen
    exact .inl ⟨rfl, c, hc, hfirst.peer, ⟨_, kct, _, _, hfirst.length, rfl⟩,
      .handshake _ _ _ (c.length_publicKey hS) hfirst.length, rfl⟩
  | some y =>
    rw [hsession] at henv
    refine .inr ⟨y, rfl, fun e n hsends => ?_⟩
    obtain ⟨m, hon, -, ⟨-, pcl, encode, hm⟩, hsends'⟩ := sendOn_eq (a := dir.who p)
      (b := dir.who q) hsends (JsString.utf8Bytes text) random.encode
    have hratchet := henv.symm.trans (sendEnvelope_some _ _ y random)
    rw [hon] at hratchet
    cases hratchet
    refine ⟨⟨_, pcl, _, encode, hm⟩, ?_, rfl, hsends'⟩
    rw [hm]
    exact .ratchet _ _ _ (e.length_publicKey hS)

theorem Wrote.encodedFor (hS : S.Ideal) (hinv : Inv dir s) {userId text : JsString}
    {random : SendRandom S} (h : Wrote dir s t a userId text random q envelope next) :
    EncodedFor (dir.who a) userId envelope := by
  rcases h.made hS with ⟨-, c, -, -, -, hfor, -⟩ | ⟨y, hy, hon⟩
  · exact hfor
  · obtain ⟨e, n, hsends⟩ := ((hinv.tracked h.contact).ready y hy).sends
    exact (hon e n hsends).2.1

section took
variable {frame : Frame} (hS : S.Ideal) (h : Took dir s t p frame newDhs q plaintext next)
include hS h

/-- The session that an accepted handshake leaves. -/
theorem Took.handshake (hm : MadeHandshake (dir.who q) c (Base64.base64ToBytes frame.bodyB64)) :
    ∃ g f : Chain S, g.secret = (dir.who p).x25519SecretKey ∧ g.peer = c.secret ∧
      f.secret = newDhs ∧ f.peer = c.secret ∧ next = ratchetedTo c.publicKey g f 0 := by
  rcases decodeFrame_success h.decoded with ⟨-, hd⟩ | ⟨hv, -⟩
  · obtain ⟨g, f, hg1, hg2, hf1, hf2, -, hnext⟩ := hm.ratcheted hS hd
    exact ⟨g, f, hg1, hg2, hf1, hf2, hnext⟩
  · cases hm.head.symm.trans hv

/-- How the session goes on with an accepted ratchet envelope. -/
theorem Took.ratchet (hm : MadeRatchet (dir.who q) c n (Base64.base64ToBytes frame.bodyB64)) :
    ∃ y, (s.device p).loadSession frame.sender = some y ∧
      ((∃ ck, y.receivingChainKey = some ck ∧ c.messageKey n = messageKeyOf ck ∧ next = { y with
          receivingChainKey := some (nextChainKey ck)
          receiveMessageNumber := y.receiveMessageNumber + 1 }) ∨
        ∃ g f : Chain S, g.secret = y.dhsSecretKey ∧ g.peer = c.secret ∧ f.secret = newDhs ∧
          f.peer = c.secret ∧ c.messageKey n = g.messageKey 0 ∧
          next = ratchetedTo c.publicKey g f y.sendMessageNumber) := by
  rcases decodeFrame_success h.decoded with ⟨hv, -⟩ | ⟨-, y, hy, hd⟩
  · cases hm.head.symm.trans hv
  · refine ⟨y, hy, ?_⟩
    obtain ⟨-, ⟨ck, -, hck, hkey, hnext⟩ | ⟨-, -, hp, -⟩⟩ := hm.accepted hS hd
    · exact .inl ⟨ck, hck, hkey, hnext⟩
    · exact .inr (hm.ratcheted hS hp hd)

/-- An envelope for somebody else is not accepted. -/
theorem Took.not_encodedFor {userId : JsString}
    (hfor : EncodedFor (dir.who q) userId (Base64.base64ToBytes frame.bodyB64)) :
    userId = (dir.who p).userId := by
  obtain ⟨key, nonce, text, hct⟩ := hfor.ciphertext hS
  obtain ⟨k, n, hk⟩ := decodeFrame_opens h.decoded
  rw [hct, ← dir.contact_userId h.contact] at hk
  exact (directionAad_inj rfl (hS.decrypt_only hk).2.2).2.symm

end took

/-- What was produced stays. -/
theorem step_produced {action : Action S ι} (he : step dir s action = some t) (r : ι) :
    s.produced r <+: t.produced r := by
  cases action with
  | send p userId connected draft createdAt random =>
    rcases step_wrote he with rfl | ⟨q, envelope, next, h⟩
    · exact List.prefix_rfl
    · rw [h.produced, Function.update_apply]
      split
      · rename_i hr
        rw [hr]
        exact List.prefix_append _ _
      · exact List.prefix_rfl
  | present p frame createdAt newDhs => rw [(step_took he).1]

/-- The newest secret stands first. -/
theorem step_suffix {action : Action S ι} (he : step dir s action = some t) (r : ι) :
    s.used r <:+ t.used r := by
  have hcons (p : ι) (a : S.X25519Secret) :
      s.used r <:+ Function.update s.used p (a :: s.used p) r := by
    by_cases hr : r = p
    · subst hr
      rw [Function.update_self]
      exact List.suffix_cons _ _
    · rw [Function.update_of_ne hr]
  cases action with
  | send p userId connected draft createdAt random =>
    rcases step_wrote he with rfl | ⟨q, envelope, next, h⟩
    · exact List.suffix_rfl
    · rw [h.used]
      exact hcons p random.ea
  | present p frame createdAt newDhs =>
    rw [(step_took he).2.1]
    exact hcons p newDhs

theorem step_used {action : Action S ι} (he : step dir s action = some t) (r : ι) :
    s.used r ⊆ t.used r :=
  (step_suffix he r).subset

/-- What a step does to the conversation of `a` with `b`, on the side of `a`. -/
inductive Turn (dir : Directory S ι) (s t : Network S ι) (a b : ι) : Action S ι → Prop where
  /-- Nothing, but `a` may have written to someone else. -/
  | rest {action : Action S ι}
      (session : (t.device a).loadSession (dir.who b).userId =
        (s.device a).loadSession (dir.who b).userId)
      (produced : t.produced a = s.produced a ∨ ∃ body userId,
        userId ≠ (dir.who b).userId ∧ EncodedFor (dir.who a) userId (Base64.base64ToBytes body) ∧
          t.produced a = s.produced a ++ [body])
      (accepted : t.accepted a (dir.who b).userId = s.accepted a (dir.who b).userId) :
      Turn dir s t a b action
  | wrote {connected : Bool} {draft createdAt : JsString} {random : SendRandom S}
      {envelope : Bytes} {next : RatchetState S}
      (h : Wrote dir s t a (dir.who b).userId (JsString.trim draft) random b envelope next) :
      Turn dir s t a b (.send a (dir.who b).userId connected draft createdAt random)
  | took {bodyB64 createdAt : JsString} {newDhs : S.X25519Secret} {plaintext : Bytes}
      {next : RatchetState S}
      (h : Took dir s t a ⟨(dir.who b).userId, bodyB64⟩ newDhs b plaintext next) :
      Turn dir s t a b (.present a ⟨(dir.who b).userId, bodyB64⟩ createdAt newDhs)

theorem step_turn (hS : S.Ideal) (hinv : Inv dir s)
    (hcontact : dir.contact a (dir.who b).userId = some b) {action : Action S ι}
    (he : step dir s action = some t) : Turn dir s t a b action := by
  cases action with
  | send p userId connected draft createdAt random =>
    rcases step_wrote he with rfl | ⟨q, envelope, next, h⟩
    · exact .rest rfl (.inl rfl) rfl
    by_cases hp : a = p
    · subst hp
      by_cases hto : (dir.who b).userId = userId
      · subst hto
        cases h.contact.symm.trans hcontact
        exact .wrote h
      · refine .rest ?_ (.inr
          ⟨Base64.bytesToBase64 envelope, userId, Ne.symm hto, ?_, ?_⟩) (by rw [h.accepted])
        · rw [h.writes, if_neg fun hpv => hto hpv.2]
        · rw [Base64.base64ToBytes_bytesToBase64]
          exact h.encodedFor hS hinv
        · rw [h.produced, Function.update_self]
    · refine .rest ?_ (.inl ?_) (by rw [h.accepted])
      · rw [h.writes, if_neg fun hpv => hp hpv.1]
      · rw [h.produced, Function.update_of_ne hp]
  | present p frame createdAt newDhs =>
    obtain ⟨hproduced, -, ⟨haccepted, hsessions⟩ | ⟨q, plaintext, next, h⟩⟩ := step_took he
    · exact .rest (hsessions a _) (.inl (by rw [hproduced])) (by rw [haccepted])
    by_cases hpv : a = p ∧ (dir.who b).userId = frame.sender
    · obtain ⟨rfl, hsender⟩ := hpv
      obtain ⟨sender, bodyB64⟩ := frame
      cases hsender
      cases h.contact.symm.trans hcontact
      exact .took h
    · refine .rest ?_ (.inl (by rw [hproduced])) ?_
      · rw [h.writes, if_neg hpv]
      · rw [h.accepted, Function.update_apply]
        split
        · rename_i hp
          rw [Function.update_of_ne fun hsender => hpv ⟨hp, hsender⟩, hp]
        · rfl

end Network
end Epistl
