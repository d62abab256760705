import Epistl.Inbox.Tracked

/-! # At most once acceptance against a replaying relay

Ratchet envelopes are spent with their keys. A handshake envelope carries no state of
its own, so the relay can have it accepted again, and with it its first chain.
-/
namespace Epistl.Network
variable {S : Suite} {ι : Type} {dir : Directory S ι} {used used' : ι → List S.X25519Secret}
  {p q : ι} {s t : Network S ι} {envelope plaintext : Bytes} {newDhs : S.X25519Secret}
  {next : RatchetState S}

/-- An envelope of `q`, on a chain whose secret `q` generated. -/
def Made (dir : Directory S ι) (used : ι → List S.X25519Secret) (q : ι) (envelope : Bytes) : Prop :=
  ∃ c : Chain S, c.secret ∈ used q ∧
    ((∃ n, MadeRatchet (dir.who q) c n envelope) ∨ MadeHandshake (dir.who q) c envelope)

theorem slice_madeRatchet (hS : S.Ideal) {a : Identity S} {c : Chain S} {n : ℕ}
    (h : MadeRatchet a c n envelope) : slice envelope 1 33 = c.publicKey := by
  obtain ⟨_, pcl, _, random, rfl⟩ := h
  exact (slices_ratchet ⟨c.publicKey, pcl, n⟩ _ _ (c.length_publicKey hS) random.nonce.property).2.1

theorem slice_madeHandshake (hS : S.Ideal) {a : Identity S} {c : Chain S}
    (h : MadeHandshake a c envelope) : slice envelope 1 33 = c.publicKey := by
  obtain ⟨_, _, _, random, hk, rfl⟩ := h
  exact (slices_handshake _ _ (c.length_publicKey hS) hk random.nonce.property).2.1

theorem Made.secret (hS : S.Ideal) (h : Made dir used q envelope) :
    ∃ a ∈ used q, slice envelope 1 33 = S.x25519PublicKey a := by
  obtain ⟨c, hc, ⟨n, hm⟩ | hm⟩ := h
  · exact ⟨c.secret, hc, slice_madeRatchet hS hm⟩
  · exact ⟨c.secret, hc, slice_madeHandshake hS hm⟩

theorem Opens.slice (hS : S.Ideal) {a : S.X25519Secret} (h : Opens dir q a envelope) :
    slice envelope 1 33 = S.x25519PublicKey a := by
  obtain ⟨c, rfl, hm⟩ := h
  exact slice_madeHandshake hS hm

theorem Made.mono (h : Made dir used q envelope) (hsub : ∀ r, used r ⊆ used' r) :
    Made dir used' q envelope := by
  obtain ⟨c, hc, hm⟩ := h
  exact ⟨c, hsub q hc, hm⟩

/-- What holds in every state the relay can bring about. -/
structure Inv (dir : Directory S ι) (s : Network S ι) : Prop where
  disjoint {a : S.X25519Secret} {p q : ι} : a ∈ s.used p → a ∈ s.used q → p = q
  identity (p : ι) : (dir.who p).x25519SecretKey ∈ s.used p
  made (q : ι) : ∀ body ∈ s.produced q, Made dir s.used q (Base64.base64ToBytes body)
  opens {q : ι} {a : S.X25519Secret} {body body' : JsString} : body ∈ s.produced q →
    body' ∈ s.produced q → Opens dir q a (Base64.base64ToBytes body) →
    Opens dir q a (Base64.base64ToBytes body') →
    Base64.base64ToBytes body = Base64.base64ToBytes body'
  tracked {p q : ι} {userId : JsString} : dir.contact p userId = some q →
    Tracked dir s.used p q (s.accepted p userId) ((s.device p).loadSession userId)
  known {p : ι} {userId : JsString} : ∀ e ∈ s.accepted p userId,
    ∃ q, dir.contact p userId = some q ∧ ∃ body ∈ s.produced q, Base64.base64ToBytes body = e

theorem inv_start (dir : Directory S ι) : Inv dir (start dir) where
  disjoint {a p q} hp hq := by
    simp only [start, List.mem_singleton] at hp hq
    exact dir.identity_injective (hp.symm.trans hq)
  identity p := by simp [start]
  made q body h := by simp [start] at h
  opens h := by simp [start] at h
  tracked _ := Tracked.empty _ _ _ _
  known e h := by simp [start] at h

/-- An accepted frame was made by the contact it is presented under. -/
theorem sender_eq (hS : S.Ideal) {frame : Frame} {r : ι}
    (hmade : Made dir s.used r (Base64.base64ToBytes frame.bodyB64))
    (hd : decodeFrame (dir.context p) ((dir.who q).keyBundle (dir.entropy q)) frame.sender
      (Base64.base64ToBytes frame.bodyB64) ((s.device p).loadSession frame.sender) newDhs =
        .ok (some (.success plaintext next))) : r = q := by
  obtain ⟨c, -, ⟨n, hm⟩ | hm⟩ := hmade
  · rcases decodeFrame_success hd with ⟨hv, -⟩ | ⟨-, state, -, hd⟩
    · cases hm.head.symm.trans hv
    · exact (dir.signing_injective (hm.accepted hS hd).1).symm
  · rcases decodeFrame_success hd with ⟨-, hd⟩ | ⟨hv, -⟩
    · exact (dir.signing_injective (hm.accepted hS hd).1).symm
    · cases hm.head.symm.trans hv

/-- The session an accepted frame leaves, against the log with its envelope. -/
theorem Inv.accept (hS : S.Ideal) (h : Inv dir s) {frame : Frame}
    (hcontact : dir.contact p frame.sender = some q) {body : JsString} (hbody : body ∈ s.produced q)
    (he : Base64.base64ToBytes frame.bodyB64 = Base64.base64ToBytes body)
    (hsub : ∀ r, s.used r ⊆ used' r) (hnew : newDhs ∉ s.used p) (hmem : newDhs ∈ used' p)
    (hd : decodeFrame (dir.context p) ((dir.who q).keyBundle (dir.entropy q)) frame.sender
      (Base64.base64ToBytes frame.bodyB64) ((s.device p).loadSession frame.sender) newDhs =
        .ok (some (.success plaintext next))) :
    Tracked dir used' p q (s.accepted p frame.sender ++ [Base64.base64ToBytes frame.bodyB64])
      (some next) := by
  have htracked := h.tracked hcontact
  have hdisjoint : ∀ a, a ∈ s.used p → a ∉ s.used q :=
    fun a hp hq => dir.contact_ne hcontact (h.disjoint hp hq).symm
  have hmade := h.made q body hbody
  rw [← he] at hmade
  obtain ⟨c, hc, ⟨n, hm⟩ | hm⟩ := hmade
  · rcases decodeFrame_success hd with ⟨hv, -⟩ | ⟨-, state, hstate, hd⟩
    · cases hm.head.symm.trans hv
    have hsealed := hm.sealed hS
    rw [hstate] at htracked
    obtain ⟨-, ⟨ck, -, hck, hkey, rfl⟩ | ⟨g, f, -, hg1, hg2, hf, hkey, rfl⟩⟩ := hm.accepted hS hd
    · rw [hkey] at hsealed
      exact (htracked.acceptNext hS hck hsealed).mono hsub
    · rw [hkey] at hsealed
      exact htracked.acceptNew hS hsub (h.identity p) hdisjoint hnew hmem hg1 (hg2 ▸ hc) hf hsealed _ _
  · rcases decodeFrame_success hd with ⟨-, hd⟩ | ⟨hv, -⟩
    · have hsealed := hm.sealed hS
      obtain ⟨-, g, f, hg1, hg2, hf, hkey, rfl⟩ := hm.accepted hS hd
      rw [hkey] at hsealed
      have hopens : Opens dir q g.peer (Base64.base64ToBytes frame.bodyB64) := ⟨c, hg2.symm, hm⟩
      refine htracked.acceptHandshake hS hsub (h.identity p) hdisjoint hnew hmem hg1 (hg2 ▸ hc) hf
        hm.head hopens (fun e hlog ho => ?_) hsealed _ _
      obtain ⟨q', hq', body', hbody', rfl⟩ := h.known e hlog
      cases hcontact.symm.trans hq'
      rw [he] at hopens ⊢
      exact h.opens hbody' hbody ho hopens
    · cases hm.head.symm.trans hv

/-- An envelope is accepted under its maker's user id only. -/
theorem Inv.contact_unique (hS : S.Ideal) (h : Inv dir s) {userId userId' : JsString}
    (he : envelope ∈ s.accepted p userId) (he' : envelope ∈ s.accepted p userId') :
    userId = userId' := by
  obtain ⟨q, hq, body, hbody, rfl⟩ := h.known _ he
  obtain ⟨q', hq', body', hbody', heq⟩ := h.known _ he'
  obtain ⟨a, ha, hs⟩ := (h.made q body hbody).secret hS
  obtain ⟨a', ha', hs'⟩ := (h.made q' body' hbody').secret hS
  rw [heq] at hs'
  have hsecret := hS.x25519PublicKey_injective (hs.symm.trans hs')
  obtain rfl := h.disjoint ha (hsecret ▸ ha')
  rw [← dir.contact_userId hq, dir.contact_userId hq']

theorem Inv.once (h : Inv dir s) (p : ι) (userId : JsString) :
    OncePerReset Opening (s.accepted p userId) := by
  cases hq : dir.contact p userId with
  | some q => exact (h.tracked hq).once
  | none =>
    have hempty : s.accepted p userId = [] := by
      refine List.eq_nil_iff_forall_not_mem.mpr fun e he => ?_
      obtain ⟨q, hq', -⟩ := h.known e he
      cases hq.symm.trans hq'
    rw [hempty]
    exact OncePerReset.nil

/-- A handshake for the device is accepted whatever the device has stored. -/
theorem accepts_handshake (dir : Directory S ι) (hS : S.Ideal) (hq : dir.contact p (dir.who q).userId = some q)
    {c : Chain S} {kct : Bytes} (hc : FirstChain (dir.who q) (dir.who p) c kct)
    (encode : EncodeRandom) (dev : Device S) :
    acceptsFrame (dir.context p) ⟨(dir.who q).userId, Base64.bytesToBase64 (encodeHandshakeEnvelope
      c.publicKey kct (c.messageKey 0) plaintext (dir.who q).userId (dir.who p).userId
      (dir.who q).dilithiumSecretKey encode)⟩ newDhs dev = true := by
  obtain ⟨f, -, -, -, hd⟩ := decode_handshake hS hc plaintext encode newDhs
  have hbundle : (dir.context p).findContactBundle (dir.who q).userId =
      some ((dir.who q).keyBundle (dir.entropy q)) := by simp only [Directory.context, hq, Option.map_some]
  have hframe : decodeFrame (dir.context p) ((dir.who q).keyBundle (dir.entropy q))
      (dir.who q).userId (encodeHandshakeEnvelope c.publicKey kct (c.messageKey 0) plaintext
        (dir.who q).userId (dir.who p).userId (dir.who q).dilithiumSecretKey encode)
      (dev.loadSession (dir.who q).userId) newDhs =
      .ok (some (.success plaintext (ratchetedTo c.publicKey c f 0))) := by
    simp only [decodeFrame, head_of_decodeHandshake hd, if_true]
    exact congrArg (Except.map some) hd
  simp only [acceptsFrame, hbundle, Base64.base64ToBytes_bytesToBase64, hframe]

variable [DecidableEq ι]

theorem subset_used (s : Network S ι) (p : ι) (a : S.X25519Secret) (r : ι) :
    s.used r ⊆ Function.update s.used p (a :: s.used p) r := by
  by_cases hr : r = p
  · subst hr
    simp
  · simp [hr]

theorem disjoint_used (h : Inv dir s) (hfresh : ∀ r, newDhs ∉ s.used r) {a : S.X25519Secret}
    {p' q' : ι} (hp : a ∈ Function.update s.used p (newDhs :: s.used p) p')
    (hq : a ∈ Function.update s.used p (newDhs :: s.used p) q') : p' = q' := by
  have hcases {r : ι} (hr : a ∈ Function.update s.used p (newDhs :: s.used p) r) :
      a ∈ s.used r ∨ r = p ∧ a = newDhs := by
    by_cases hrp : r = p
    · subst hrp
      rw [Function.update_self, List.mem_cons] at hr
      exact hr.symm.imp id fun h => ⟨rfl, h⟩
    · rw [Function.update_of_ne hrp] at hr
      exact .inl hr
  rcases hcases hp with hp | ⟨rfl, rfl⟩
  · rcases hcases hq with hq | ⟨-, ha⟩
    · exact h.disjoint hp hq
    · exact absurd (ha ▸ hp) (hfresh _)
  · rcases hcases hq with hq | ⟨rfl, -⟩
    · exact absurd hq (hfresh _)
    · rfl

theorem loadSession_accept (dev : Device S) (contactUserId createdAt userId : JsString) :
    (dev.accept contactUserId createdAt plaintext next).loadSession userId =
      if userId = contactUserId then some next else dev.loadSession userId := by
  simp only [Device.loadSession, Device.accept, Device.emit, Device.saveMessage, Device.saveSession,
    Function.update_apply]

theorem Inv.present (hS : S.Ideal) (h : Inv dir s) {frame : Frame} {createdAt : JsString}
    (hguard : Replays s (.present p frame createdAt newDhs))
    (ht : step dir s (.present p frame createdAt newDhs) = some t) : Inv dir t := by
  obtain ⟨hfresh, r, body, hbody, he⟩ := hguard
  have hsub := subset_used s p newDhs
  have hmem : newDhs ∈ Function.update s.used p (newDhs :: s.used p) p := by simp
  simp only [step, Option.some.injEq] at ht
  cases haccepts : acceptsFrame (dir.context p) frame newDhs (s.device p) with
  | false =>
    obtain ⟨hsessions, -, -⟩ := acceptsFrame_false haccepts createdAt
    simp only [haccepts, Bool.false_eq_true, if_false] at ht
    subst ht
    refine ⟨fun ha => disjoint_used h hfresh ha, fun p' => hsub p' (h.identity p'),
      fun q' b hb => (h.made q' b hb).mono hsub, h.opens, fun {p' q' userId} hc => ?_, h.known⟩
    have htracked := (h.tracked hc).mono hsub
    by_cases hp : p' = p
    · subst hp
      simpa only [Device.loadSession, Function.update_self, hsessions] using htracked
    · simpa only [Function.update_of_ne hp] using htracked
  | true =>
    obtain ⟨bundle, plaintext, next, hbundle, hd, hdevice⟩ := acceptsFrame_true haccepts createdAt
    obtain ⟨q, hq, rfl⟩ := Option.map_eq_some_iff.mp hbundle
    have hmade := h.made r body hbody
    rw [← he] at hmade
    obtain rfl := sender_eq hS hmade hd
    have haccept := h.accept hS hq hbody he hsub (hfresh p) hmem hd
    simp only [haccepts, if_true, hdevice] at ht
    subst ht
    refine ⟨fun ha => disjoint_used h hfresh ha, fun p' => hsub p' (h.identity p'),
      fun q' b hb => (h.made q' b hb).mono hsub, h.opens, fun {p' q' userId} hc => ?_,
      fun {p' userId} e hmem' => ?_⟩
    · have htracked := (h.tracked hc).mono hsub
      by_cases hp : p' = p
      · subst hp
        by_cases hu : userId = frame.sender
        · subst hu
          cases hq.symm.trans hc
          simpa only [Function.update_self, loadSession_accept, if_true] using haccept
        · simpa only [Function.update_self, Function.update_of_ne hu, loadSession_accept, if_neg hu]
            using htracked
      · simpa only [Function.update_of_ne hp] using htracked
    · by_cases hp : p' = p
      · subst hp
        by_cases hu : userId = frame.sender
        · subst hu
          simp only [Function.update_self, List.mem_append, List.mem_singleton] at hmem'
          rcases hmem' with hmem' | rfl
          · exact h.known e hmem'
          · exact ⟨_, hq, body, hbody, he.symm⟩
        · simp only [Function.update_self, Function.update_of_ne hu] at hmem'
          exact h.known e hmem'
      · simp only [Function.update_of_ne hp] at hmem'
        exact h.known e hmem'

/-- A device hands out a body it made itself, and stores the session behind it. -/
theorem Inv.push (hS : S.Ideal) (h : Inv dir s) {userId : JsString}
    (hq : dir.contact p userId = some q) {random : SendRandom S}
    (hfresh : ∀ r, random.ea ∉ s.used r) {device : Device S}
    (hdevice : device.sessions = Function.update (s.device p).sessions userId (some next))
    (hmade : Made dir (Function.update s.used p (random.ea :: s.used p)) p envelope)
    (hopens : ∀ a, Opens dir p a envelope → a ∉ s.used p)
    (htracked : Tracked dir (Function.update s.used p (random.ea :: s.used p)) p q
      (s.accepted p userId) (some next)) :
    Inv dir { s with
      device := Function.update s.device p device
      produced := Function.update s.produced p (s.produced p ++ [Base64.bytesToBase64 envelope])
      used := Function.update s.used p (random.ea :: s.used p) } := by
  have hsub := subset_used s p random.ea
  have hproduced {r : ι} {b : JsString} (hb : b ∈ s.produced r) :
      b ∈ Function.update s.produced p (s.produced p ++ [Base64.bytesToBase64 envelope]) r := by
    by_cases hr : r = p
    · subst hr
      rw [Function.update_self]
      exact List.mem_append_left _ hb
    · rwa [Function.update_of_ne hr]
  have hcases {r : ι} {b : JsString}
      (hb : b ∈ Function.update s.produced p (s.produced p ++ [Base64.bytesToBase64 envelope]) r) :
      b ∈ s.produced r ∨ r = p ∧ Base64.base64ToBytes b = envelope := by
    by_cases hr : r = p
    · subst hr
      rw [Function.update_self, List.mem_append, List.mem_singleton] at hb
      exact hb.imp id fun heq => ⟨rfl, by rw [heq, Base64.base64ToBytes_bytesToBase64]⟩
    · rw [Function.update_of_ne hr] at hb
      exact .inl hb
  have hold {r : ι} {b : JsString} (hb : b ∈ s.produced r) {a : S.X25519Secret}
      (ho : Opens dir r a (Base64.base64ToBytes b)) : a ∈ s.used r := by
    obtain ⟨a', ha', hs⟩ := (h.made r b hb).secret hS
    exact hS.x25519PublicKey_injective (hs.symm.trans (ho.slice hS)) ▸ ha'
  refine ⟨fun ha => disjoint_used h hfresh ha, fun p' => hsub p' (h.identity p'),
    fun r b hb => ?_, fun {r a b b'} hb hb' ho ho' => ?_, fun {p' q' userId'} hc => ?_,
    fun e he => ?_⟩
  · rcases hcases hb with hb | ⟨rfl, he⟩
    · exact (h.made r b hb).mono hsub
    · exact he ▸ hmade
  · rcases hcases hb with hold1 | ⟨rfl, he⟩
    · rcases hcases hb' with hold2 | ⟨rfl, he'⟩
      · exact h.opens hold1 hold2 ho ho'
      · exact absurd (hold hold1 ho) (hopens a (he' ▸ ho'))
    · rcases hcases hb' with hold2 | ⟨-, he'⟩
      · exact absurd (hold hold2 ho') (hopens a (he ▸ ho))
      · exact he.trans he'.symm
  · have hmono := (h.tracked hc).mono hsub
    by_cases hp : p' = p
    · subst hp
      by_cases hu : userId' = userId
      · subst hu
        cases hq.symm.trans hc
        simpa only [Device.loadSession, Function.update_self, hdevice] using htracked
      · simpa only [Device.loadSession, Function.update_self, hdevice, Function.update_of_ne hu]
          using hmono
    · simpa only [Function.update_of_ne hp] using hmono
  · obtain ⟨r, hr, body, hbody, hb⟩ := h.known e he
    exact ⟨r, hr, body, hproduced hbody, hb⟩

theorem Inv.send (hS : S.Ideal) (h : Inv dir s) {userId draft createdAt : JsString}
    {connected : Bool} {random : SendRandom S} (hfresh : ∀ r, random.ea ∉ s.used r)
    (ht : step dir s (.send p userId connected draft createdAt random) = some t) : Inv dir t := by
  simp only [step] at ht
  split at ht
  · cases ht
    exact h
  · rename_i device body hsend
    cases ht
    obtain ⟨contact, envelope, next, hcontact, henv, rfl, rfl⟩ := handleSend_some hsend
    obtain ⟨q, hq, rfl⟩ := Option.map_eq_some_iff.mp hcontact
    obtain rfl := dir.contact_userId hq
    have htracked := h.tracked hq
    have hsub := subset_used s p random.ea
    have hmem : random.ea ∈ Function.update s.used p (random.ea :: s.used p) p := by simp
    cases hsession : (s.device p).loadSession (dir.who q).userId with
    | none =>
      rw [hsession] at henv htracked
      obtain ⟨c, kct, hc, hfirst, hinit⟩ := initiate_eq hS (dir.who p) (dir.who q) random.ea
        random.kemRandom (JsString.utf8Bytes (JsString.trim draft)) random.encode
      have hopen := henv.symm.trans (sendEnvelope_none hS (dir.entropy q) _ random)
      rw [show (dir.context p).identity = dir.who p from rfl, hinit] at hopen
      cases hopen
      have hmade : MadeHandshake (dir.who p) c (encodeHandshakeEnvelope c.publicKey kct
          (c.messageKey 0) (JsString.utf8Bytes (JsString.trim draft)) (dir.who p).userId
          (dir.who q).userId (dir.who p).dilithiumSecretKey random.encode) :=
        ⟨_, kct, _, _, hfirst.length, rfl⟩
      refine h.push hS hq hfresh rfl ⟨c, hc ▸ hmem, .inr hmade⟩ (fun a ha => ?_)
        (htracked.open hsub (h.identity p) (hfresh p) hmem hc)
      have := (ha.slice hS).symm.trans (slice_madeHandshake hS hmade)
      rw [hS.x25519PublicKey_injective this, hc]
      exact hfresh p
    | some y =>
      rw [hsession] at henv htracked
      have hready := htracked.ready y rfl
      obtain ⟨e, n, hsends⟩ := hready.sends
      obtain ⟨m, hon, -, ⟨-, pcl, encode, hm⟩, -⟩ := sendOn_eq (a := dir.who p) (b := dir.who q)
        hsends (JsString.utf8Bytes (JsString.trim draft)) random.encode
      have hratchet := henv.symm.trans (sendEnvelope_some _ _ y random)
      rw [show (dir.context p).identity = dir.who p from rfl, hon] at hratchet
      cases hratchet
      have hmade : MadeRatchet (dir.who p) e n m.envelope := ⟨_, pcl, _, encode, hm⟩
      refine h.push hS hq hfresh rfl
        ⟨e, hsub p (hsends.secret ▸ hready.dhs), .inl ⟨n, hmade⟩⟩ (fun a ha => ?_)
        ((htracked.send hsends).mono hsub)
      obtain ⟨c, -, ho⟩ := ha
      cases hmade.head.symm.trans ho.head

theorem inv_of_reach (hS : S.Ideal) (h : (machine dir).Reach Replays s) : Inv dir s := by
  refine h.invariant ?_ ?_
  · rintro _ rfl
    exact inv_start dir
  · rintro s a t hinv hguard ht
    cases a with
    | send p userId connected draft createdAt random => exact hinv.send hS hguard ht
    | present p frame createdAt newDhs => exact hinv.present hS hguard ht

/-- Against a relay that replays, a ratchet envelope is accepted at most once for every
acceptance of its session's handshake, and a repeated one changes nothing stored. -/
theorem accepted_once (hS : S.Ideal) (h : (machine dir).Reach Replays s) : AtMostOnce dir s where
  ratchet := (inv_of_reach hS h).once
  contact := (inv_of_reach hS h).contact_unique hS
  nodup p userId hresets := ((inv_of_reach hS h).once p userId).nodup hresets
  unchanged {p userId before after frame createdAt newDhs} hlog ho hreset hguard := by
    cases haccepts : acceptsFrame (dir.context p) frame newDhs (s.device p) with
    | false => exact acceptsFrame_false haccepts createdAt
    | true =>
      exfalso
      have hinv := inv_of_reach hS (h.step (a := .present p frame createdAt newDhs) hguard rfl)
      have hold : Base64.base64ToBytes frame.bodyB64 ∈ s.accepted p userId := by rw [hlog]; simp
      have hsender : userId = frame.sender := by
        refine hinv.contact_unique hS (p := p)
          (?_ : Base64.base64ToBytes frame.bodyB64 ∈ _) ?_
        · by_cases hu : userId = frame.sender
          · simp [haccepts, hu]
          · simpa [haccepts, hu] using hold
        · simp [haccepts]
      subst hsender
      have honce := hinv.once p frame.sender
      simp only [haccepts, if_true, Function.update_self, hlog] at honce
      obtain ⟨x, hx, hreset', hbefore⟩ := honce before (Base64.base64ToBytes frame.bodyB64) after []
        (by simp) ho
      exact hreset x hx hreset' hbefore

/-- The two users of the concrete runs, who know each other. -/
def neighbours : Directory Symbolic.suite Party where
  who := TwoParty.someone
  entropy _ := []
  contact p userId := if userId = (TwoParty.someone p.other).userId then some p.other else none
  contact_userId h := by
    split at h
    · cases h
      exact Eq.symm ‹_›
    · cases h
  contact_ne h := by
    split at h
    · cases h
      exact Party.other_ne _
    · cases h
  signing_injective {p q} h := by
    have h0 := congrArg List.head? h
    cases p <;> cases q <;> first | rfl | cases h0
  identity_injective {p q} h := by
    have h0 := congrArg Symbolic.Secret.val h
    cases p <;> cases q <;> first | rfl | cases h0

theorem reach_step {G : Network S ι → Action S ι → Prop} {a : Action S ι}
    (h : (machine dir).Reach G s) (ht : step dir s a = some t) (hG : G s a) :
    (machine dir).Reach G t :=
  .step h hG ht

theorem sends_body {userId draft createdAt body : JsString} {connected : Bool}
    {random : SendRandom S} {device : Device S} (h : handleSend (dir.context p) userId connected draft
      createdAt random (s.device p) = (device, some body)) :
    ∃ t, step dir s (.send p userId connected draft createdAt random) = some t ∧
      body ∈ t.produced p ∧ t.used = Function.update s.used p (random.ea :: s.used p) ∧
      t.accepted = s.accepted := by
  refine ⟨{ s with
    device := Function.update s.device p device
    produced := Function.update s.produced p (s.produced p ++ [body])
    used := Function.update s.used p (random.ea :: s.used p) }, ?_, ?_, rfl, rfl⟩
  · simp only [step, h]
  · simp

theorem accepts_present {frame : Frame}
    (h : acceptsFrame (dir.context p) frame newDhs (s.device p) = true) (createdAt : JsString) :
    ∃ t, step dir s (.present p frame createdAt newDhs) = some t ∧ t.produced = s.produced ∧
      t.used = Function.update s.used p (newDhs :: s.used p) ∧
      t.accepted p frame.sender =
        s.accepted p frame.sender ++ [Base64.base64ToBytes frame.bodyB64] := by
  refine ⟨_, rfl, rfl, rfl, ?_⟩
  simp [h]

theorem lt_of_used {used used' : Party → List Symbolic.Secret} {n : ℕ} {p : Party}
    {a : Symbolic.Secret} (h : ∀ r, ∀ b ∈ used r, b.val < n) (ha : a.val = n)
    (hused : used' = Function.update used p (a :: used p)) : ∀ r, ∀ b ∈ used' r, b.val < n + 1 := by
  subst hused
  intro r b hb
  by_cases hr : r = p
  · subst hr
    rw [Function.update_self] at hb
    rcases List.mem_cons.mp hb with rfl | hb
    · omega
    · exact Nat.lt_succ_of_lt (h r b hb)
  · rw [Function.update_of_ne hr] at hb
    exact Nat.lt_succ_of_lt (h r b hb)

/-- Alice's first message, presented to Bob twice. -/
theorem presented_twice :
    ∃ s envelope, (machine neighbours).Reach Replays s ∧ Opening envelope ∧
      s.accepted .bob (TwoParty.someone .alice).userId = [envelope, envelope] := by
  have hS := Symbolic.suite_ideal
  have htext : JsString.trim Messenger.hello ≠ [] := by decide
  let random : SendRandom Symbolic.suite := Messenger.randomOf 2 (by decide)
  obtain ⟨c, kct, -, hfirst, hinit⟩ := initiate_eq hS (TwoParty.someone .alice)
    (TwoParty.someone .bob) random.ea random.kemRandom
    (JsString.utf8Bytes (JsString.trim Messenger.hello)) random.encode
  have hsend := sendEnvelope_none (a := TwoParty.someone .alice) (b := TwoParty.someone .bob) hS []
    (JsString.utf8Bytes (JsString.trim Messenger.hello)) random
  rw [hinit] at hsend
  have hhandle : handleSend (neighbours.context .alice) (TwoParty.someone .bob).userId true
      Messenger.hello [] random .empty = _ := handleSend_eq [] htext rfl hsend
  generalize henvelope : encodeHandshakeEnvelope _ _ _ _ _ _ _ _ = envelope at hhandle
  have haccepts (dev : Device Symbolic.suite) (newDhs : Symbolic.suite.X25519Secret) :
      acceptsFrame (neighbours.context .bob) ⟨(TwoParty.someone .alice).userId,
        Base64.bytesToBase64 envelope⟩ newDhs dev = true :=
    henvelope ▸ accepts_handshake neighbours (p := Party.bob) (q := Party.alice) hS rfl hfirst _ dev
  obtain ⟨s1, h1, hbody, hused1, hlog1⟩ := sends_body (s := start neighbours) hhandle
  have hlt0 : ∀ r, ∀ a ∈ (start neighbours).used r, a.val < 2 := by
    intro r
    cases r <;> simp [start, neighbours, TwoParty.someone]
  have hlt1 := lt_of_used hlt0 rfl hused1
  have hreach1 := reach_step (G := Replays) (.init rfl) h1
    fun r => Symbolic.not_mem_of_val (hlt0 r) rfl
  obtain ⟨s2, h2, hbody2, hused2, hlog2⟩ := accepts_present (s := s1) (haccepts _ ⟨3, by decide⟩) []
  have hlt2 := lt_of_used hlt1 rfl hused2
  have hreach2 := reach_step hreach1 h2
    ⟨fun r => Symbolic.not_mem_of_val (hlt1 r) rfl, .alice, _, hbody, rfl⟩
  obtain ⟨s3, h3, -, -, hlog3⟩ := accepts_present (s := s2) (haccepts _ ⟨4, by decide⟩) []
  have hreach3 := reach_step hreach2 h3
    ⟨fun r => Symbolic.not_mem_of_val (hlt2 r) rfl, .alice, _, hbody2 ▸ hbody, rfl⟩
  refine ⟨s3, envelope, hreach3, henvelope ▸ rfl, ?_⟩
  rw [hlog3, hlog2, hlog1, Base64.base64ToBytes_bytesToBase64]
  rfl

/-- The theorem at a state in which the relay has replayed a handshake. -/
theorem accepted_once_replayed :
    ∃ s, (s.accepted .bob (TwoParty.someone .alice).userId).length = 2 ∧ AtMostOnce neighbours s := by
  obtain ⟨s, envelope, hs, -, hlog⟩ := presented_twice
  exact ⟨s, by rw [hlog]; rfl, accepted_once Symbolic.suite_ideal hs⟩

theorem replayed_handshake :
    ¬ ∀ s, (machine neighbours).Reach Replays s → ∀ p userId, (s.accepted p userId).Nodup := by
  intro hall
  obtain ⟨s, envelope, hs, -, hlog⟩ := presented_twice
  have := hall s hs .bob (TwoParty.someone .alice).userId
  simp [hlog] at this

end Epistl.Network
