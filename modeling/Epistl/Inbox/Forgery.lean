import Epistl.Crypto.Resigned
import Epistl.Inbox.Replay
import Epistl.Inbox.Signatures

/-! # A relay that makes up its frames

The relay may present any bytes under any sender, but it cannot sign for a user. What a
device accepts then has the signed portion of something the contact produced, so the run is
matched by one in which the relay only replays.
-/
namespace Epistl
variable {S : Suite}

section frames
variable {ctx : Context S} {bundle : ContactKeyBundle} {contactUserId : JsString}
  {session : Option (RatchetState S)} {envelope signature plaintext : Bytes}
  {newDhs : S.X25519Secret} {next : RatchetState S}

theorem decodeFrame_handshake (hv : envelope.head? = some handshakeEnvelopeVersion) :
    decodeFrame ctx bundle contactUserId envelope session newDhs = (decodeHandshakeEnvelope envelope {
      contactUserId := contactUserId
      selfUserId := ctx.identity.userId
      selfX25519SecretKey := ctx.identity.x25519SecretKey
      selfKyberSecretKey := ctx.identity.kyberSecretKey
      senderDilithiumPublicKey := bundle.dilithiumPublicKey } newDhs).map some := if_pos hv

theorem decodeFrame_ratchet (hv : envelope.head? = some ratchetEnvelopeVersion)
    (state : RatchetState S) :
    decodeFrame ctx bundle contactUserId envelope (some state) newDhs = (decodeRatchetEnvelope envelope {
      state := state
      senderDilithiumPublicKey := bundle.dilithiumPublicKey
      selfUserId := ctx.identity.userId
      contactUserId := contactUserId } newDhs).map some := by
  have hne : envelope.head? ≠ some handshakeEnvelopeVersion := by
    rw [hv]
    decide
  exact (if_neg hne).trans (if_pos hv)

/-- An accepted frame has passed the signature check, over bytes that begin with its version
and are no prekey. -/
theorem decodeFrame_verified (h : decodeFrame ctx bundle contactUserId envelope session newDhs =
      .ok (some (.success plaintext next))) :
    verifySignature S (signatureOf envelope) (signedPortionOf envelope) bundle.dilithiumPublicKey =
      true ∧ (signedPortionOf envelope).head? = envelope.head? ∧
      ∀ x25519PublicKey kyberPublicKey,
        signedPortionOf envelope ≠ prekeyMessage x25519PublicKey kyberPublicKey := by
  rcases decodeFrame_success h with ⟨hversion, hd⟩ | ⟨hversion, state, -, hd⟩
  · obtain ⟨hchecks, hv⟩ := decodeHandshakeEnvelope_verified hd (by simp) (by simp) (by simp)
    rw [handshakeFields_signature, handshakeFields_signedPortion] at hv
    have hhead := head_signedPortionOf_handshake hchecks
    refine ⟨hv, hhead.trans hversion.symm, fun x k heq => ?_⟩
    rw [heq, head_prekeyMessage] at hhead
    cases hhead
  · obtain ⟨hchecks, hv⟩ := decodeRatchetEnvelope_verified hd (by simp) (by simp) (by simp)
    rw [ratchetFields_signature, ratchetFields_signedPortion] at hv
    have hhead := head_signedPortionOf_ratchet hchecks
    refine ⟨hv, hhead.trans hversion.symm, fun x k heq => ?_⟩
    rw [heq, head_prekeyMessage] at hhead
    cases hhead

/-- An accepted frame is accepted, with the same result, under any other signature that
verifies. -/
theorem decodeFrame_resigned (h : decodeFrame ctx bundle contactUserId envelope session newDhs =
      .ok (some (.success plaintext next))) (hs : signature.length = mlDsa65SignatureLength)
    (hv : verifySignature S signature (signedPortionOf envelope) bundle.dilithiumPublicKey = true) :
    decodeFrame ctx bundle contactUserId (signedPortionOf envelope ++ signature) session newDhs =
      .ok (some (.success plaintext next)) := by
  rcases decodeFrame_success h with ⟨-, hd⟩ | ⟨-, state, rfl, hd⟩
  · have hd := decodeHandshakeEnvelope_resigned hd hs hv
    rw [decodeFrame_handshake (head_of_decodeHandshake hd), hd]
    rfl
  · have hd := decodeRatchetEnvelope_resigned hd hs hv
    rw [decodeFrame_ratchet (head_of_decodeRatchet hd), hd]
    rfl

end frames

namespace Network
variable {ι : Type} {dir : Directory S ι} {used : ι → List S.X25519Secret} {p q : ι}
  {s t : Network S ι} {envelope plaintext : Bytes} {newDhs : S.X25519Secret} {next : RatchetState S}

/-- What a user has signed: the registered prekey, and the portions of what was sent. -/
def HasSigned (dir : Directory S ι) (s : Network S ι) (q : ι) (message : Bytes) : Prop :=
  message = prekeyMessage (dir.who q).bundle.x25519PublicKey (dir.who q).bundle.kyberPublicKey ∨
    ∃ body ∈ s.produced q, signedPortionOf (Base64.base64ToBytes body) = message

/-- Key generation is fresh, and the relay forges no signature. The frames it presents are
otherwise its own. -/
def Unforged (dir : Directory S ι) (s : Network S ι) : Action S ι → Prop
  | .send _ _ _ _ _ random => ∀ q, random.ea ∉ s.used q
  | .present _ frame _ newDhs => (∀ q, newDhs ∉ s.used q) ∧ ∀ q,
      verifySignature S (signatureOf (Base64.base64ToBytes frame.bodyB64))
          (signedPortionOf (Base64.base64ToBytes frame.bodyB64))
          (S.dilithiumPublicKey (dir.who q).dilithiumSecretKey) = true →
        HasSigned dir s q (signedPortionOf (Base64.base64ToBytes frame.bodyB64))

/-- What a user produces is a portion with the user's signature. -/
theorem Made.signed (hS : S.Ideal) (h : Made dir used q envelope) :
    (signedPortionOf envelope).head? = envelope.head? ∧ ∃ entropy,
      envelope = signedPortionOf envelope ++
        S.sign (signedPortionOf envelope) (dir.who q).dilithiumSecretKey entropy := by
  obtain ⟨c, -, ⟨n, contactUserId, pcl, text, random, rfl⟩ |
    ⟨contactUserId, kct, text, random, -, rfl⟩⟩ := h
  · have hs := hS.signature (ratchetSignedPortion ⟨c.publicKey, pcl, n⟩ random.nonce.val
      (S.aeadEncrypt (c.messageKey n) random.nonce.val
        (directionAad (dir.who q).userId contactUserId) text)) (dir.who q).dilithiumSecretKey
      random.entropy
    rw [encodeRatchetEnvelope, signedPortionOf_append _ hs]
    exact ⟨rfl, _, rfl⟩
  · have hs := hS.signature (handshakeSignedPortion c.publicKey kct random.nonce.val
      (S.aeadEncrypt (c.messageKey 0) random.nonce.val
        (directionAad (dir.who q).userId contactUserId) text)) (dir.who q).dilithiumSecretKey
      random.entropy
    rw [encodeHandshakeEnvelope, signedPortionOf_append _ hs]
    exact ⟨rfl, _, rfl⟩

/-- The first envelope produced with this signed portion. -/
def original (produced : List JsString) (portion : Bytes) : Bytes :=
  ((produced.map Base64.base64ToBytes).find? fun e => decide (signedPortionOf e = portion)).getD []

section original
variable {produced : List JsString} {portion : Bytes}
  (h : ∃ body ∈ produced, signedPortionOf (Base64.base64ToBytes body) = portion)
include h

theorem find_original : (produced.map Base64.base64ToBytes).find?
    (fun e => decide (signedPortionOf e = portion)) = some (original produced portion) := by
  obtain ⟨body, hbody, hportion⟩ := h
  have hfound : ((produced.map Base64.base64ToBytes).find?
      fun e => decide (signedPortionOf e = portion)).isSome = true := by
    rw [List.find?_isSome]
    exact ⟨_, List.mem_map_of_mem hbody, decide_eq_true hportion⟩
  obtain ⟨e, he⟩ := Option.isSome_iff_exists.mp hfound
  rw [original, he]
  rfl

theorem signedPortionOf_original : signedPortionOf (original produced portion) = portion := by
  have hfound : decide (signedPortionOf (original produced portion) = portion) = true :=
    List.find?_some (p := fun e => decide (signedPortionOf e = portion)) (find_original h)
  exact of_decide_eq_true hfound

theorem original_mem : ∃ body ∈ produced, Base64.base64ToBytes body = original produced portion :=
  List.mem_map.mp (List.mem_of_find?_eq_some (find_original h))

theorem original_append (more : List JsString) :
    original (produced ++ more) portion = original produced portion := by
  rw [original, List.map_append, List.find?_append, find_original h]
  rfl

end original

section storage
variable {dev dev' : Device S} {ctx : Context S}

theorem SameStorage.loadSession (h : SameStorage dev dev') (userId : JsString) :
    dev'.loadSession userId = dev.loadSession userId := congrFun h.1 userId

theorem SameStorage.saveSession (h : SameStorage dev dev') (userId : JsString)
    (state : RatchetState S) : SameStorage (dev.saveSession userId state)
      (dev'.saveSession userId state) := by
  obtain ⟨hsessions, hindex, hmessages⟩ := h
  simp only [SameStorage, Device.saveSession, hsessions, hindex, hmessages, and_self]

theorem SameStorage.saveMessage (h : SameStorage dev dev') (message : StoredMessage) :
    SameStorage (dev.saveMessage message) (dev'.saveMessage message) :=
  ⟨h.1, h.2.1, congrArg (· ++ [message]) h.2.2⟩

theorem SameStorage.accept (h : SameStorage dev dev') (userId createdAt : JsString)
    (plaintext : Bytes) (state : RatchetState S) :
    SameStorage (dev.accept userId createdAt plaintext state)
      (dev'.accept userId createdAt plaintext state) :=
  (h.saveSession userId state).saveMessage (incomingMessage userId createdAt plaintext)

/-- A send reads nothing but what is stored. -/
theorem SameStorage.handleSend (h : SameStorage dev dev') {userId draft createdAt body : JsString}
    {connected : Bool} {random : SendRandom S} {device : Device S}
    (hsend : handleSend ctx userId connected draft createdAt random dev = (device, some body)) :
    ∃ device', Epistl.handleSend ctx userId connected draft createdAt random dev' =
      (device', some body) ∧ SameStorage device device' := by
  obtain ⟨contact, envelope, next, hcontact, henv, rfl, rfl⟩ := handleSend_some hsend
  have hguard : ¬ (JsString.trim draft = [] ∨ connected = false) := by
    intro hguard
    simp only [Epistl.handleSend, if_pos hguard] at hsend
    cases congrArg Prod.snd hsend
  refine ⟨_, ?_, (h.saveSession userId next).saveMessage _⟩
  simp only [Epistl.handleSend, if_neg hguard, hcontact, h.loadSession, henv]

end storage

/-- The second run replays what the first one accepts. -/
structure Shadows (dir : Directory S ι) [DecidableEq ι] (s t : Network S ι) : Prop where
  reach : (machine dir).Reach Replays t
  storage (p : ι) : SameStorage (s.device p) (t.device p)
  produced : t.produced = s.produced
  used (q : ι) : t.used q ⊆ s.used q
  known {p : ι} {userId : JsString} : ∀ e ∈ s.accepted p userId,
    (signedPortionOf e).head? = e.head? ∧ ∃ q, dir.contact p userId = some q ∧
      ∃ body ∈ s.produced q, signedPortionOf (Base64.base64ToBytes body) = signedPortionOf e
  accepted {p q : ι} {userId : JsString} : dir.contact p userId = some q →
    t.accepted p userId = (s.accepted p userId).map fun e =>
      original (s.produced q) (signedPortionOf e)

variable [DecidableEq ι]

theorem Shadows.start : Shadows dir (start dir) (start dir) where
  reach := .init rfl
  storage _ := ⟨rfl, rfl, rfl⟩
  produced := rfl
  used _ := List.Subset.refl _
  known e h := by simp [Network.start] at h
  accepted _ := rfl

theorem Shadows.send (h : Shadows dir s t) {userId draft createdAt : JsString} {connected : Bool}
    {random : SendRandom S} (hfresh : ∀ r, random.ea ∉ s.used r) {s' : Network S ι}
    (hs : step dir s (.send p userId connected draft createdAt random) = some s') :
    ∃ t', Shadows dir s' t' := by
  simp only [step] at hs
  split at hs
  · cases hs
    exact ⟨t, h⟩
  · rename_i device body hsend
    cases hs
    obtain ⟨device', hsend', hsame⟩ := (h.storage p).handleSend hsend
    have ht : step dir t (.send p userId connected draft createdAt random) = some { t with
        device := Function.update t.device p device'
        produced := Function.update t.produced p (t.produced p ++ [body])
        used := Function.update t.used p (random.ea :: t.used p) } := by
      simp only [step, hsend']
    refine ⟨_, h.reach.step (a := .send p userId connected draft createdAt random)
      (fun r hr => hfresh r (h.used r hr)) ht, fun r => ?_, ?_, fun r => ?_, fun e he => ?_,
      fun {p' q' userId'} hc => ?_⟩
    · by_cases hr : r = p
      · subst hr
        simpa only [Function.update_self] using hsame
      · simpa only [Function.update_of_ne hr] using h.storage r
    · simp only [h.produced]
    · by_cases hr : r = p
      · subst hr
        simpa only [Function.update_self] using List.cons_subset_cons _ (h.used r)
      · simpa only [Function.update_of_ne hr] using h.used r
    · obtain ⟨hhead, q, hq, b, hb, hportion⟩ := h.known e he
      refine ⟨hhead, q, hq, b, ?_, hportion⟩
      by_cases hr : q = p
      · subst hr
        simpa only [Function.update_self] using List.mem_append_left _ hb
      · simpa only [Function.update_of_ne hr] using hb
    · rw [h.accepted hc]
      refine List.map_congr_left fun e he => ?_
      by_cases hr : q' = p
      · subst hr
        obtain ⟨-, q, hq, hb⟩ := h.known e he
        cases hc.symm.trans hq
        simp only [Function.update_self, original_append hb]
      · simp only [Function.update_of_ne hr]

/-- What is accepted comes from the contact: an envelope it produced, with the same portion, is
accepted with the same result. -/
theorem Shadows.frame (hS : S.Ideal) (h : Shadows dir s t) {frame : Frame} {createdAt : JsString}
    (hguard : Unforged dir s (.present p frame createdAt newDhs))
    {session : Option (RatchetState S)}
    (hd : decodeFrame (dir.context p) ((dir.who q).keyBundle (dir.entropy q)) frame.sender
      (Base64.base64ToBytes frame.bodyB64) session newDhs = .ok (some (.success plaintext next))) :
    (∃ body ∈ s.produced q, signedPortionOf (Base64.base64ToBytes body) =
        signedPortionOf (Base64.base64ToBytes frame.bodyB64)) ∧
      ∀ body ∈ s.produced q, signedPortionOf (Base64.base64ToBytes body) =
        signedPortionOf (Base64.base64ToBytes frame.bodyB64) →
        decodeFrame (dir.context p) ((dir.who q).keyBundle (dir.entropy q)) frame.sender
          (Base64.base64ToBytes body) session newDhs = .ok (some (.success plaintext next)) := by
  obtain ⟨hv, -, hprekey⟩ := decodeFrame_verified hd
  -- what was signed is no prekey, so it is part of what the contact produced
  refine ⟨(hguard.2 q hv).resolve_left (hprekey _ _), fun body hmem hportion => ?_⟩
  obtain ⟨-, entropy, he⟩ :=
    ((inv_of_reach hS h.reach).made q body (h.produced ▸ hmem)).signed hS
  rw [he, hportion]
  refine decodeFrame_resigned hd (hS.signature _ _ _) ?_
  exact congrArg (Option.getD · false) (hS.verify_sign _ _ entropy)

theorem Shadows.present (hS : S.Ideal) (h : Shadows dir s t) {frame : Frame} {createdAt : JsString}
    (hguard : Unforged dir s (.present p frame createdAt newDhs)) {s' : Network S ι}
    (hs : step dir s (.present p frame createdAt newDhs) = some s') :
    ∃ t', Shadows dir s' t' := by
  have hfresh := hguard.1
  have hs := (Option.some.inj hs).symm
  have hsub := subset_used s p newDhs
  cases haccepts : acceptsFrame (dir.context p) frame newDhs (s.device p) with
  | false =>
    obtain ⟨hsessions, hindex, hmessages⟩ := acceptsFrame_false haccepts createdAt
    simp only [haccepts, Bool.false_eq_true, if_false] at hs
    subst hs
    refine ⟨t, h.reach, fun r => ?_, h.produced, fun r => List.Subset.trans (h.used r) (hsub r), h.known,
      h.accepted⟩
    obtain ⟨hsessions', hindex', hmessages'⟩ := h.storage r
    by_cases hr : r = p
    · subst hr
      simp only [Function.update_self]
      exact ⟨hsessions'.trans hsessions.symm, hindex'.trans hindex.symm,
        hmessages'.trans hmessages.symm⟩
    · simpa only [Function.update_of_ne hr] using h.storage r
  | true =>
    obtain ⟨bundle, plaintext, next, hbundle, hd, hdevice⟩ := acceptsFrame_true haccepts createdAt
    obtain ⟨q, hq, rfl⟩ := Option.map_eq_some_iff.mp hbundle
    obtain ⟨hbody, hsame⟩ := h.frame hS hguard hd
    obtain ⟨body, hmem, hbytes⟩ := original_mem hbody
    have hd' := hsame body hmem (hbytes ▸ signedPortionOf_original hbody)
    rw [← (h.storage p).loadSession] at hd'
    have haccepts' : acceptsFrame (dir.context p) ⟨frame.sender, body⟩ newDhs (t.device p) = true := by
      simp only [acceptsFrame, hbundle, hd']
    have hdevice' : processMessageFrame (dir.context p) ⟨frame.sender, body⟩ createdAt newDhs
        (t.device p) = (t.device p).accept frame.sender createdAt plaintext next :=
      processMessageFrame_success createdAt hbundle hd'
    have ht : step dir t (.present p ⟨frame.sender, body⟩ createdAt newDhs) = some { t with
        device := Function.update t.device p
          ((t.device p).accept frame.sender createdAt plaintext next)
        used := Function.update t.used p (newDhs :: t.used p)
        accepted := Function.update t.accepted p (Function.update (t.accepted p) frame.sender
          (t.accepted p frame.sender ++ [Base64.base64ToBytes body])) } := by
      simp only [step, haccepts', if_true, hdevice']
    simp only [haccepts, if_true, hdevice] at hs
    subst hs
    refine ⟨_, h.reach.step (a := .present p ⟨frame.sender, body⟩ createdAt newDhs)
      ⟨fun r hr => hfresh r (h.used r hr), q, body, h.produced ▸ hmem, rfl⟩ ht, fun r => ?_,
      h.produced, fun r => ?_, fun {p' userId} e hlog => ?_, fun {p' q' userId} hc => ?_⟩
    · by_cases hr : r = p
      · subst hr
        simpa only [Function.update_self] using (h.storage r).accept _ _ _ _
      · simpa only [Function.update_of_ne hr] using h.storage r
    · by_cases hr : r = p
      · subst hr
        simpa only [Function.update_self] using List.cons_subset_cons _ (h.used r)
      · simpa only [Function.update_of_ne hr] using h.used r
    · by_cases hp : p' = p
      · subst hp
        by_cases hu : userId = frame.sender
        · subst hu
          simp only [Function.update_self, List.mem_append, List.mem_singleton] at hlog
          rcases hlog with hlog | rfl
          · exact h.known e hlog
          · exact ⟨(decodeFrame_verified hd).2.1, q, hq, hbody⟩
        · simp only [Function.update_self, Function.update_of_ne hu] at hlog
          exact h.known e hlog
      · simp only [Function.update_of_ne hp] at hlog
        exact h.known e hlog
    · by_cases hp : p' = p
      · subst hp
        by_cases hu : userId = frame.sender
        · subst hu
          cases hq.symm.trans hc
          simp only [Function.update_self, h.accepted hc, List.map_append, List.map_singleton, hbytes]
        · simp only [Function.update_self, Function.update_of_ne hu]
          exact h.accepted hc
      · simp only [Function.update_of_ne hp]
        exact h.accepted hc

/-- A relay that only replays forges no signature. -/
theorem unforged_of_replays (hS : S.Ideal) (h : (machine dir).Reach Replays s) :
    (machine dir).Reach (Unforged dir) s := by
  induction h with
  | init h => exact .init h
  | @step s t a hr hg he ih =>
    refine .step ih ?_ he
    cases a with
    | send p userId connected draft createdAt random => exact hg
    | present p frame createdAt newDhs =>
      obtain ⟨hfresh, r, body, hbody, he⟩ := hg
      refine ⟨hfresh, fun q hv => .inr ⟨body, ?_, by rw [he]⟩⟩
      obtain ⟨-, entropy, hsigned⟩ := ((inv_of_reach hS hr).made r body hbody).signed hS
      rw [he, hsigned, signedPortionOf_append _ (hS.signature _ _ _),
        signatureOf_append _ (hS.signature _ _ _), verifySignature] at hv
      cases hb : S.verify _ _ _ with
      | none =>
        rw [hb] at hv
        cases hv
      | some b =>
        rw [hb] at hv
        obtain rfl : b = true := hv
        exact dir.signing_injective (hS.verify_only hb) ▸ hbody

/-- Every run without forged signatures has a run of replays beside it. -/
theorem shadow_of_reach (hS : S.Ideal) (h : (machine dir).Reach (Unforged dir) s) :
    ∃ t, Shadows dir s t := by
  refine h.invariant (I := fun s => ∃ t, Shadows dir s t) ?_ ?_
  · rintro _ rfl
    exact ⟨_, .start⟩
  · rintro s a s' ⟨t, ht⟩ hguard he
    cases a with
    | send p userId connected draft createdAt random => exact ht.send hguard he
    | present p frame createdAt newDhs => exact ht.present hS hguard he

/-- The original of what was accepted. -/
theorem Shadows.original (h : Shadows dir s t) {userId : JsString} {e : Bytes}
    (hq : dir.contact p userId = some q) (he : e ∈ s.accepted p userId) :
    ∃ body ∈ s.produced q, signedPortionOf (Base64.base64ToBytes body) = signedPortionOf e := by
  obtain ⟨-, q', hq', hbody⟩ := h.known e he
  cases hq.symm.trans hq'
  exact hbody

theorem Shadows.opening (hS : S.Ideal) (h : Shadows dir s t) {userId : JsString} {e : Bytes}
    (hq : dir.contact p userId = some q) (he : e ∈ s.accepted p userId) :
    Opening (Network.original (s.produced q) (signedPortionOf e)) ↔ Opening e := by
  have hbody := h.original hq he
  obtain ⟨body, hmem, hbytes⟩ := original_mem hbody
  obtain ⟨hhead, -⟩ := ((inv_of_reach hS h.reach).made q body (h.produced ▸ hmem)).signed hS
  rw [hbytes, signedPortionOf_original hbody, (h.known e he).1] at hhead
  rw [Opening, Opening, hhead]

/-- While no signed handshake is accepted twice, no signed portion is. -/
theorem Shadows.nodup (hS : S.Ideal) (h : Shadows dir s t) {userId : JsString}
    (hq : dir.contact p userId = some q)
    (hresets : (((s.accepted p userId).filter Opening).map signedPortionOf).Nodup) :
    ((s.accepted p userId).map signedPortionOf).Nodup := by
  let shadow (e : Bytes) : Bytes := Network.original (s.produced q) (signedPortionOf e)
  have hlog : t.accepted p userId = (s.accepted p userId).map shadow := h.accepted hq
  have hportion : ∀ e ∈ s.accepted p userId, signedPortionOf (shadow e) = signedPortionOf e :=
    fun e he => signedPortionOf_original (h.original hq he)
  have hopening : ∀ e ∈ s.accepted p userId, decide (Opening (shadow e)) = decide (Opening e) :=
    fun e he => decide_eq_decide.mpr (h.opening hS hq he)
  have honce : ((t.accepted p userId).filter Opening).Nodup := by
    refine List.Nodup.of_map signedPortionOf ?_
    rw [hlog, List.filter_map, List.map_map]
    have hfilter : (s.accepted p userId).filter ((fun e => decide (Opening e)) ∘ shadow) =
        (s.accepted p userId).filter fun e => decide (Opening e) := List.filter_congr hopening
    have hmap : ((s.accepted p userId).filter Opening).map (signedPortionOf ∘ shadow) =
        ((s.accepted p userId).filter Opening).map signedPortionOf := by
      refine List.map_congr_left fun e he => ?_
      rw [Function.comp_apply]
      exact hportion e (List.mem_of_mem_filter he)
    rw [hfilter, hmap]
    exact hresets
  have hnodup := ((inv_of_reach hS h.reach).once p userId).nodup honce
  rw [hlog] at hnodup
  have hsplit : (s.accepted p userId).map shadow =
      ((s.accepted p userId).map signedPortionOf).map (Network.original (s.produced q)) := by
    rw [List.map_map]
    rfl
  rw [hsplit] at hnodup
  exact hnodup.of_map

end Network
end Epistl
