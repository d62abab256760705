import Epistl.Inbox.Binding
import Epistl.Inbox.Forgery
import Epistl.Runs.Matched

/-! # What is stored as received was sent

Each message a device has stored as coming from a contact is one that the contact's device
has stored as sent to it. While no signed handshake is accepted twice, no two of them are
the same one.
-/
namespace Epistl
variable {S : Suite}

/-- The messages the device has sent, in order. -/
def Device.outgoing (dev : Device S) : List StoredMessage :=
  dev.messages.filter fun m => decide (m.direction = .outgoing)

/-- The texts the device has sent to a contact. -/
def Device.sentTo (dev : Device S) (contactUserId : JsString) : List JsString :=
  (dev.outgoing.filter fun m => decide (m.contactUserId = contactUserId)).map StoredMessage.body

def Device.incoming (dev : Device S) (contactUserId : JsString) : List StoredMessage :=
  dev.messages.filter fun m => decide (m.direction = .incoming ∧ m.contactUserId = contactUserId)

/-- The texts the device has stored as received from a contact. -/
def Device.receivedFrom (dev : Device S) (contactUserId : JsString) : List JsString :=
  (dev.incoming contactUserId).map StoredMessage.body

namespace Device
variable (dev : Device S) (contactUserId userId text createdAt : JsString) (state : RatchetState S)
  (plaintext : Bytes)

theorem outgoing_sent : ((dev.saveSession contactUserId state).saveMessage
    ⟨contactUserId, .outgoing, text, createdAt⟩).outgoing =
      dev.outgoing ++ [⟨contactUserId, .outgoing, text, createdAt⟩] := by
  simp [outgoing, saveMessage, saveSession]

theorem receivedFrom_sent : ((dev.saveSession contactUserId state).saveMessage
    ⟨contactUserId, .outgoing, text, createdAt⟩).receivedFrom userId = dev.receivedFrom userId := by
  simp [receivedFrom, incoming, saveMessage, saveSession]

theorem outgoing_accept :
    (dev.accept contactUserId createdAt plaintext state).outgoing = dev.outgoing := by
  simp [outgoing, accept, saveMessage, saveSession, emit, incomingMessage]

theorem receivedFrom_accept :
    (dev.accept contactUserId createdAt plaintext state).receivedFrom contactUserId =
      dev.receivedFrom contactUserId ++ [JsString.decodeUtf8Bytes plaintext] := by
  simp [receivedFrom, incoming, accept, saveMessage, saveSession, emit, incomingMessage]

variable {contactUserId userId}

theorem receivedFrom_accept_ne (hne : userId ≠ contactUserId) :
    (dev.accept contactUserId createdAt plaintext state).receivedFrom userId =
      dev.receivedFrom userId := by
  simp [receivedFrom, incoming, accept, saveMessage, saveSession, emit, incomingMessage, hne.symm]

end Device

theorem ciphertextOf_encodeHandshake (hS : S.Ideal) {a : Identity S} {recipientUserId : JsString}
    {ea kyberCiphertext : Bytes} (hea : ea.length = x25519PublicKeyLength)
    (hk : kyberCiphertext.length = kyberCiphertextLength) (messageKey : S.MessageKey)
    (plaintext : Bytes) (random : EncodeRandom) :
    ciphertextOf (encodeHandshakeEnvelope ea kyberCiphertext messageKey plaintext a.userId
        recipientUserId a.dilithiumSecretKey random) =
      S.aeadEncrypt messageKey random.nonce.val (directionAad a.userId recipientUserId)
        plaintext := by
  have hn := random.nonce.property
  have hs := hS.signature (handshakeSignedPortion ea kyberCiphertext random.nonce.val
    (S.aeadEncrypt messageKey random.nonce.val (directionAad a.userId recipientUserId) plaintext))
    a.dilithiumSecretKey random.entropy
  obtain ⟨-, -, -, -, -, hct⟩ := slices_handshake (S.aeadEncrypt messageKey random.nonce.val
    (directionAad a.userId recipientUserId) plaintext) (S.sign (handshakeSignedPortion _ _ _ _)
      a.dilithiumSecretKey random.entropy) hea hk hn
  obtain ⟨hlen, -, -⟩ := slices_signature (length_handshakeSignedPortion _ hea hk hn) hs
  unfold ciphertextOf
  rw [encodeHandshakeEnvelope, hlen]
  exact hct

theorem ciphertextOf_encodeRatchet (hS : S.Ideal) {a : Identity S} {recipientUserId : JsString}
    {header : Header} (hdh : header.dhPublicKey.length = x25519PublicKeyLength)
    (messageKey : S.MessageKey) (plaintext : Bytes) (random : EncodeRandom) :
    ciphertextOf (encodeRatchetEnvelope header messageKey plaintext a.userId recipientUserId
        a.dilithiumSecretKey random) =
      S.aeadEncrypt messageKey random.nonce.val (directionAad a.userId recipientUserId)
        plaintext := by
  have hn := random.nonce.property
  have hs := hS.signature (ratchetSignedPortion header random.nonce.val
    (S.aeadEncrypt messageKey random.nonce.val (directionAad a.userId recipientUserId) plaintext))
    a.dilithiumSecretKey random.entropy
  obtain ⟨-, -, -, -, hct⟩ := slices_ratchet header (S.aeadEncrypt messageKey random.nonce.val
    (directionAad a.userId recipientUserId) plaintext) (S.sign (ratchetSignedPortion _ _ _)
      a.dilithiumSecretKey random.entropy) hdh hn
  obtain ⟨hlen, -, -⟩ := slices_signature (length_ratchetSignedPortion _ hdh hn) hs
  unfold ciphertextOf
  rw [encodeRatchetEnvelope, hlen]
  exact hct

namespace Network
variable {ι : Type} {dir : Directory S ι} {p q : ι} {s t : Network S ι} {envelope plaintext : Bytes}
  {newDhs : S.X25519Secret} {next : RatchetState S} {userId : JsString}

/-- The envelope has the text of the message inside, under the ids of its conversation. -/
def Carries (dir : Directory S ι) (q : ι) (m : StoredMessage) (envelope : Bytes) : Prop :=
  ∃ key nonce, ciphertextOf envelope = S.aeadEncrypt key nonce
    (directionAad (dir.who q).userId m.contactUserId) (JsString.utf8Bytes m.body)

/-- What opens the envelope of a contact is its recipient, and finds the text that was sent. -/
theorem Carries.opened (hS : S.Ideal) {m : StoredMessage} (h : Carries dir q m envelope)
    {ctx : Context S} {bundle : ContactKeyBundle} {session : Option (RatchetState S)}
    (hd : decodeFrame ctx bundle (dir.who q).userId envelope session newDhs =
      .ok (some (.success plaintext next))) :
    m.contactUserId = ctx.identity.userId ∧ m.body = JsString.decodeUtf8Bytes plaintext := by
  obtain ⟨key, nonce, hct⟩ := h
  obtain ⟨k, n, hk⟩ := decodeFrame_opens hd
  rw [hct] at hk
  obtain ⟨rfl, rfl, haad⟩ := hS.decrypt_only hk
  rw [haad, hS.decrypt_encrypt] at hk
  refine ⟨(directionAad_inj rfl haad).2.symm, ?_⟩
  rw [← Option.some.inj hk, JsString.decodeUtf8Bytes_utf8Bytes]

/-- A send produces an envelope with the text it stores. -/
theorem sendEnvelope_carries (hS : S.Ideal) {used : ι → List S.X25519Secret} {log : List Bytes}
    {session : Option (RatchetState S)} (htracked : Tracked dir used p q log session)
    {text createdAt : JsString} {random : SendRandom S}
    (hsend : sendEnvelope (dir.who p) (dir.who q).userId ((dir.who q).keyBundle (dir.entropy q))
      (JsString.utf8Bytes text) session random = .ok (some (envelope, next))) :
    Carries dir p ⟨(dir.who q).userId, .outgoing, text, createdAt⟩ envelope := by
  cases session with
  | none =>
    obtain ⟨c, kct, -, hfirst, hinit⟩ := initiate_eq hS (dir.who p) (dir.who q) random.ea
      random.kemRandom (JsString.utf8Bytes text) random.encode
    have hopen := hsend.symm.trans (sendEnvelope_none hS (dir.entropy q) _ random)
    rw [hinit] at hopen
    cases hopen
    exact ⟨_, _, ciphertextOf_encodeHandshake hS (c.length_publicKey hS) hfirst.length _ _ _⟩
  | some y =>
    obtain ⟨e, n, hsends⟩ := (htracked.ready y rfl).sends
    obtain ⟨m, hon, htext, ⟨-, pcl, encode, hm⟩, -⟩ := sendOn_eq (a := dir.who p) (b := dir.who q)
      hsends (JsString.utf8Bytes text) random.encode
    have hratchet := hsend.symm.trans (sendEnvelope_some _ _ y random)
    rw [hon] at hratchet
    cases hratchet
    rw [htext] at hm
    exact ⟨_, _, hm ▸ ciphertextOf_encodeRatchet hS (e.length_publicKey hS) _ _ _⟩

/-- The bytes that were signed for body number `i`. -/
def portionAt (produced : List JsString) (i : ℕ) : Option Bytes :=
  produced[i]?.map fun body => signedPortionOf (Base64.base64ToBytes body)

/-- What the devices have stored, against what they have produced and accepted. -/
structure Texts (dir : Directory S ι) (s : Network S ι) : Prop where
  produced (q : ι) : List.Forall₂ (fun m body => Carries dir q m (Base64.base64ToBytes body))
    (s.device q).outgoing (s.produced q)
  accepted {p q : ι} {userId : JsString} : dir.contact p userId = some q → ∃ rows,
    rows.map StoredMessage.body = (s.device p).receivedFrom userId ∧
      (∀ m ∈ rows, m.contactUserId = (dir.who p).userId) ∧
      List.Forall₂ (Stems (s.device q).outgoing (portionAt (s.produced q)) fun e => some (signedPortionOf e))
        rows (s.accepted p userId)

theorem texts_start (dir : Directory S ι) : Texts dir (start dir) where
  produced q := .nil
  accepted _ := ⟨[], rfl, by simp, .nil⟩

/-- The matching of a contact's rows with its messages survives another message. -/
theorem Texts.grown (h : Texts dir s) {rows : List StoredMessage} {log : List Bytes}
    (hrows : List.Forall₂ (Stems (s.device q).outgoing (portionAt (s.produced q)) fun e =>
      some (signedPortionOf e)) rows log) {m : StoredMessage} {body : JsString}
    (houtgoing : (t.device q).outgoing = (s.device q).outgoing ++ [m])
    (hproduced : t.produced q = s.produced q ++ [body]) :
    List.Forall₂ (Stems (t.device q).outgoing (portionAt (t.produced q)) fun e =>
      some (signedPortionOf e)) rows log := by
  rw [houtgoing]
  refine hrows.imp fun m e hstems => hstems.append _ fun i hi => ?_
  rw [(h.produced q).length_eq] at hi
  rw [portionAt, portionAt, hproduced, List.getElem?_append_left hi]

variable [DecidableEq ι]

theorem Texts.send (hS : S.Ideal) (h : Texts dir s) (hshadow : Shadows dir s t)
    {draft createdAt : JsString} {connected : Bool} {random : SendRandom S} {s' : Network S ι}
    (hs : step dir s (.send p userId connected draft createdAt random) = some s') :
    Texts dir s' := by
  simp only [step] at hs
  split at hs
  · cases hs
    exact h
  · rename_i device body hsend
    cases hs
    obtain ⟨contact, envelope, next, hcontact, henv, rfl, rfl⟩ := handleSend_some hsend
    obtain ⟨q, hq, rfl⟩ := Option.map_eq_some_iff.mp hcontact
    obtain rfl := dir.contact_userId hq
    have htracked := (inv_of_reach hS hshadow.reach).tracked hq
    rw [(hshadow.storage p).loadSession] at htracked
    have hcarries : Carries dir p ⟨(dir.who q).userId, .outgoing, JsString.trim draft, createdAt⟩
        envelope := sendEnvelope_carries hS htracked henv
    refine ⟨fun r => ?_, fun {p' q' userId'} hc => ?_⟩
    · by_cases hr : r = p
      · subst hr
        simp only [Function.update_self, Device.outgoing_sent]
        refine List.rel_append (h.produced r) (.cons ?_ .nil)
        rwa [Base64.base64ToBytes_bytesToBase64]
      · simpa only [Function.update_of_ne hr] using h.produced r
    · obtain ⟨rows, hbody, hto, hrows⟩ := h.accepted hc
      refine ⟨rows, ?_, hto, ?_⟩
      · by_cases hp : p' = p
        · subst hp
          simpa only [Function.update_self, Device.receivedFrom_sent] using hbody
        · simpa only [Function.update_of_ne hp] using hbody
      · by_cases hr : q' = p
        · subst hr
          refine h.grown hrows (m := ⟨(dir.who q).userId, .outgoing, JsString.trim draft, createdAt⟩)
            ?_ (Function.update_self ..)
          simp only [Function.update_self, Device.outgoing_sent]
        · simpa only [Function.update_of_ne hr] using hrows

theorem Texts.present (hS : S.Ideal) (h : Texts dir s) (hshadow : Shadows dir s t) {frame : Frame}
    {createdAt : JsString} (hguard : Unforged dir s (.present p frame createdAt newDhs))
    {s' : Network S ι} (hs : step dir s (.present p frame createdAt newDhs) = some s') :
    Texts dir s' := by
  have hs := (Option.some.inj hs).symm
  cases haccepts : acceptsFrame (dir.context p) frame newDhs (s.device p) with
  | false =>
    obtain ⟨-, -, hmessages⟩ := acceptsFrame_false haccepts createdAt
    simp only [haccepts, Bool.false_eq_true, if_false] at hs
    subst hs
    have hsame (r : ι) : (Function.update s.device p (processMessageFrame (dir.context p) frame
        createdAt newDhs (s.device p)) r).messages = (s.device r).messages := by
      by_cases hr : r = p
      · subst hr
        rw [Function.update_self, hmessages]
      · rw [Function.update_of_ne hr]
    refine ⟨fun r => ?_, fun {p' q' userId} hc => ?_⟩
    · simpa only [Device.outgoing, hsame] using h.produced r
    · obtain ⟨rows, hbody, hto, hrows⟩ := h.accepted hc
      refine ⟨rows, ?_, hto, ?_⟩
      · simpa only [Device.receivedFrom, Device.incoming, hsame] using hbody
      · simpa only [Device.outgoing, hsame] using hrows
  | true =>
    obtain ⟨bundle, plaintext, next, hbundle, hd, hdevice⟩ := acceptsFrame_true haccepts createdAt
    obtain ⟨q, hq, rfl⟩ := Option.map_eq_some_iff.mp hbundle
    obtain ⟨⟨body, hmem, hportion⟩, hresigned⟩ := hshadow.frame hS hguard hd
    obtain ⟨i, hi⟩ := List.mem_iff_getElem?.mp hmem
    obtain ⟨m, hm, hcarries⟩ := exists_getElem? (h.produced q) hi
    have hsender := dir.contact_userId hq
    have hd' := hresigned body hmem hportion
    rw [← hsender] at hd'
    obtain ⟨hto, htext⟩ := hcarries.opened hS hd'
    simp only [haccepts, if_true, hdevice] at hs
    subst hs
    have hsame (r : ι) : (Function.update s.device p ((s.device p).accept frame.sender createdAt
        plaintext next) r).outgoing = (s.device r).outgoing := by
      by_cases hr : r = p
      · subst hr
        rw [Function.update_self, Device.outgoing_accept]
      · rw [Function.update_of_ne hr]
    refine ⟨fun r => ?_, fun {p' q' userId} hc => ?_⟩
    · rw [hsame]
      exact h.produced r
    · obtain ⟨rows, hbody, hrecipient, hrows⟩ := h.accepted hc
      rw [hsame]
      by_cases hp : p' = p
      · subst hp
        by_cases hu : userId = frame.sender
        · subst hu
          cases hq.symm.trans hc
          refine ⟨rows ++ [m], ?_, fun n hn => ?_, ?_⟩
          · rw [List.map_append, hbody, List.map_singleton, htext]
            simp only [Function.update_self, Device.receivedFrom_accept]
          · rcases List.mem_append.mp hn with hn | hn
            · exact hrecipient n hn
            · exact List.mem_singleton.mp hn ▸ hto
          · simp only [Function.update_self]
            refine List.rel_append hrows (.cons ⟨i, hm, ?_⟩ .nil)
            rw [portionAt, hi, Option.map_some, hportion]
        · refine ⟨rows, ?_, hrecipient, ?_⟩
          · simp only [Function.update_self, Device.receivedFrom_accept_ne _ _ _ _ hu]
            exact hbody
          · simp only [Function.update_self, Function.update_of_ne hu]
            exact hrows
      · refine ⟨rows, ?_, hrecipient, ?_⟩
        · simp only [Function.update_of_ne hp]
          exact hbody
        · simp only [Function.update_of_ne hp]
          exact hrows

theorem texts_of_reach (hS : S.Ideal) (h : (machine dir).Reach (Unforged dir) s) : Texts dir s := by
  refine h.invariant_of (fun _ hr => shadow_of_reach hS hr) ?_ ?_
  · rintro _ rfl
    exact texts_start dir
  · rintro s a s' ⟨t, hshadow⟩ hi hguard he
    cases a with
    | send p userId connected draft createdAt random => exact hi.send hS hshadow he
    | present p frame createdAt newDhs => exact hi.present hS hshadow hguard he

/-- Every row that matches is one of the messages the contact has sent to the device. -/
theorem sentTo_of_rows {dev : Device S} {rows : List StoredMessage} (hsub : rows ⊆ dev.outgoing)
    (hto : ∀ m ∈ rows, m.contactUserId = userId) :
    rows.map StoredMessage.body ⊆ dev.sentTo userId := by
  intro text htext
  obtain ⟨m, hm, rfl⟩ := List.mem_map.mp htext
  exact List.mem_map_of_mem (List.mem_filter.mpr ⟨hsub hm, decide_eq_true (hto m hm)⟩)

/-- Against a relay that presents whatever it likes under any sender, but forges no signature, a
device stores as received from a contact only what that contact's device has stored as sent to
it; and each of these at most once, while no signed handshake of theirs is accepted twice. -/
theorem genuine (hS : S.Ideal) (h : (machine dir).Reach (Unforged dir) s)
    (hq : dir.contact p userId = some q) :
    (s.device p).receivedFrom userId ⊆ (s.device q).sentTo (dir.who p).userId ∧
      ((((s.accepted p userId).filter Opening).map signedPortionOf).Nodup →
        ((s.device p).receivedFrom userId).Subperm ((s.device q).sentTo (dir.who p).userId)) := by
  obtain ⟨rows, hbody, hto, hrows⟩ := (texts_of_reach hS h).accepted hq
  obtain ⟨t, hshadow⟩ := shadow_of_reach hS h
  rw [← hbody]
  refine ⟨sentTo_of_rows ?_ hto, fun hresets => ?_⟩
  · intro m hm
    obtain ⟨i, hi⟩ := List.mem_iff_getElem?.mp hm
    obtain ⟨e, -, j, hj, -⟩ := exists_getElem? hrows.flip hi
    exact List.mem_of_getElem? hj
  · have hkeys : ((s.accepted p userId).map fun e => some (signedPortionOf e)).Nodup := by
      have hnodup := (hshadow.nodup hS hq hresets).map (Option.some_injective _)
      rwa [List.map_map] at hnodup
    have hsub := (subperm_of_stems hrows hkeys).filter
      fun m => decide (m.contactUserId = (dir.who p).userId)
    rw [List.filter_eq_self.mpr fun m hm => decide_eq_true (hto m hm)] at hsub
    obtain ⟨chosen, hperm, hsublist⟩ := hsub
    exact ⟨_, hperm.map _, hsublist.map _⟩

/-- Alice's first message, which Bob accepts whatever he has stored. -/
theorem alice_writes : ∃ (envelope : Bytes) (device : Device Symbolic.suite),
    handleSend (neighbours.context .alice) (TwoParty.someone .bob).userId true Messenger.hello []
      (Messenger.randomOf 2 (by decide)) .empty =
        (device, some (Base64.bytesToBase64 envelope)) ∧
    ∀ dev newDhs, acceptsFrame (neighbours.context .bob) ⟨(TwoParty.someone .alice).userId,
      Base64.bytesToBase64 envelope⟩ newDhs dev = true := by
  have hS := Symbolic.suite_ideal
  have htext : JsString.trim Messenger.hello ≠ [] := by decide
  let random : SendRandom Symbolic.suite := Messenger.randomOf 2 (by decide)
  obtain ⟨c, kct, -, hfirst, hinit⟩ := initiate_eq hS (TwoParty.someone .alice)
    (TwoParty.someone .bob) random.ea random.kemRandom
    (JsString.utf8Bytes (JsString.trim Messenger.hello)) random.encode
  have hsend := sendEnvelope_none (a := TwoParty.someone .alice) (b := TwoParty.someone .bob) hS []
    (JsString.utf8Bytes (JsString.trim Messenger.hello)) random
  rw [hinit] at hsend
  have hhandle : handleSend (neighbours.context .alice) (TwoParty.someone .bob).userId true
      Messenger.hello [] random .empty = _ := handleSend_eq [] htext rfl hsend
  exact ⟨_, _, hhandle, fun dev newDhs =>
    accepts_handshake neighbours (p := Party.bob) (q := Party.alice) hS rfl hfirst _ dev⟩

theorem used_start : ∀ r, ∀ a ∈ (start neighbours).used r, a.val < 2 := by
  intro r
  cases r <;> simp [start, neighbours, TwoParty.someone]

/-- Alice's first message, presented to Bob. -/
theorem presented_first :
    ∃ s envelope, (machine neighbours).Reach Replays s ∧
      s.accepted .bob (TwoParty.someone .alice).userId = [envelope] := by
  obtain ⟨envelope, device, hhandle, haccepts⟩ := alice_writes
  obtain ⟨s1, h1, hbody, hused1, hlog1⟩ := sends_body (s := start neighbours) hhandle
  have hlt1 := lt_of_used used_start rfl hused1
  have hreach1 := reach_step (G := Replays) (.init rfl) h1
    fun r => Symbolic.not_mem_of_val (used_start r) rfl
  obtain ⟨s2, h2, -, -, hlog2⟩ := accepts_present (s := s1) (haccepts _ ⟨3, by decide⟩) []
  have hreach2 := reach_step hreach1 h2
    ⟨fun r => Symbolic.not_mem_of_val (hlt1 r) rfl, .alice, _, hbody, rfl⟩
  refine ⟨s2, envelope, hreach2, ?_⟩
  rw [hlog2, hlog1, Base64.base64ToBytes_bytesToBase64]
  rfl

theorem genuine_first : ∃ s : Network Symbolic.suite Party,
    ((s.device .bob).receivedFrom (TwoParty.someone .alice).userId).length = 1 ∧
      ((s.device .bob).receivedFrom (TwoParty.someone .alice).userId).Subperm
        ((s.device .alice).sentTo (TwoParty.someone .bob).userId) := by
  obtain ⟨s, envelope, hs, hlog⟩ := presented_first
  have hunforged := unforged_of_replays Symbolic.suite_ideal hs
  have hcontact : neighbours.contact .bob (TwoParty.someone .alice).userId = some .alice := rfl
  obtain ⟨rows, hbody, -, hrows⟩ := (texts_of_reach Symbolic.suite_ideal hunforged).accepted hcontact
  refine ⟨s, ?_, (genuine Symbolic.suite_ideal hunforged hcontact).2 ?_⟩
  · rw [← hbody, List.length_map, hrows.length_eq, hlog]
    rfl
  · rw [hlog]
    exact ((List.nodup_singleton envelope).filter _).map_on fun a ha b hb _ =>
      (List.mem_singleton.mp (List.mem_of_mem_filter ha)).trans
        (List.mem_singleton.mp (List.mem_of_mem_filter hb)).symm

end Network
end Epistl
