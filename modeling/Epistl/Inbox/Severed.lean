import Epistl.Inbox.Aimed
import Epistl.Inbox.Deaf

/-! # A handshake that comes too late

A device accepts a handshake whatever session it has. When the contact no longer sends on
the secret of that handshake, the two sessions it leaves have no secret in common, and no
step brings them together again: both devices have a session, so neither opens a new one.
-/
namespace Epistl.Network
variable {S : Suite} {ι : Type} {dir : Directory S ι} {p q : ι} {s t u : Network S ι}
  {plaintext : Bytes} {newDhs : S.X25519Secret} {next : RatchetState S}

/-- A secret that a device has opened a session on. -/
def Opened (dir : Directory S ι) (s : Network S ι) (q : ι) (a : S.X25519Secret) : Prop :=
  ∃ body ∈ s.produced q, Opens dir q a (Base64.base64ToBytes body)

theorem Opened.mem_used (hS : S.Ideal) (hinv : Inv dir s) {x : S.X25519Secret}
    (h : Opened dir s q x) : x ∈ s.used q := by
  obtain ⟨body, hbody, hopens⟩ := h
  obtain ⟨a, ha, hslice⟩ := (hinv.made q body hbody).secret hS
  exact hS.x25519PublicKey_injective ((hopens.slice hS).symm.trans hslice) ▸ ha

/-- What `q` made goes to secrets of `p`, or to those of others. -/
theorem Aimed.peer (hS : S.Ideal) (hinv : Inv dir s) (h : Aimed dir s) {body : JsString}
    (hbody : body ∈ s.produced q) :
    (∃ c : Chain S, c.secret ∈ s.used q ∧
      MadeHandshake (dir.who q) c (Base64.base64ToBytes body)) ∨
    ∃ (e : Chain S) (n : ℕ), e.secret ∈ s.used q ∧
      MadeRatchet (dir.who q) e n (Base64.base64ToBytes body) ∧
      (dir.contact q (dir.who p).userId = some p ∧ Aware dir s q p e.peer ∨
        ∃ r, r ≠ p ∧ e.peer ∈ s.used r) := by
  rcases h.made q body hbody with ⟨c, hc, hm⟩ | ⟨e, n, r, he, hr, hpeer, hm⟩
  · exact .inl ⟨c, hc, hm⟩
  · refine .inr ⟨e, n, he, hm, ?_⟩
    by_cases hrp : r = p
    · subst hrp
      exact .inl ⟨hr, hpeer⟩
    · exact .inr ⟨r, hrp, hpeer.mem_used hS hinv hr⟩

variable [DecidableEq ι]

section accepted
variable {bodyB64 : JsString} {x : RatchetState S} (hS : S.Ideal) (hinv : Inv dir s)
  (haimed : Aimed dir s)
  (h : Took dir s t p ⟨(dir.who q).userId, bodyB64⟩ newDhs q plaintext next)
  (hsub : ∀ r, s.used r ⊆ t.used r) (hfresh : newDhs ∉ s.used p) {c : Chain S}
  (hm : MadeHandshake (dir.who q) c (Base64.base64ToBytes bodyB64)) (hc : Opened dir s q c.secret)
  (hx : (s.device q).loadSession (dir.who p).userId = some x)
  (hcontact : dir.contact q (dir.who p).userId = some p) (hmoved : ¬ Opened dir s q x.dhsSecretKey)
include hS hinv haimed h hsub hfresh hm hc hx hcontact hmoved

/-- The device that accepted the handshake does not hear the other. -/
theorem deaf_receiver : Deaf dir p q (· ∈ s.used p) (Opened dir s q) (fun _ _ => False)
    (s.produced q) (t.accepted p (dir.who q).userId) t := by
  have hne : q ≠ p := dir.contact_ne h.contact
  obtain ⟨e, n, hsends, hpeer⟩ := (haimed.session hcontact hx).sends
  have hdhs := ((hinv.tracked hcontact).ready x hx).dhs
  obtain ⟨g, f, hg1, hg2, hf1, hf2, rfl⟩ := h.handshake hS hm
  have hown : newDhs ∈ t.used p := by
    rw [h.used, Function.update_self]
    exact List.mem_cons_self
  refine ⟨hsub p, fun a ha => hsub q (ha.mem_used hS hinv), ⟨ratchetedTo c.publicKey g f 0, ?_, ?_⟩,
    ⟨x, ?_, e, n, hsends, ?_, ?_⟩, fun body hbody _ => ?_, fun body hbody _ => ?_,
    fun body hbody => .inl (h.produced ▸ hbody), [], ?_, ?_⟩
  · rw [h.writes, if_pos ⟨rfl, rfl⟩]
  · refine ⟨⟨f, 0, ⟨rfl, rfl, rfl, rfl⟩, hf1 ▸ hown, hf1 ▸ hfresh, hf2 ▸ hc⟩, fun ck hck => ?_⟩
    exact ⟨g, 1, (Option.some.inj hck).symm, hg1 ▸ hsub p (hinv.identity p), hg2 ▸ hc⟩
  · rw [h.writes, if_neg fun hpv => hne hpv.1]
    exact hx
  · exact hsends.secret ▸ hsub q hdhs
  · exact ⟨hsends.secret ▸ hmoved, .inl (hpeer.mem_used hS hinv hcontact)⟩
  · rw [h.produced] at hbody
    rcases haimed.made p body hbody with ⟨c, hc, hm⟩ | ⟨e, n, r, he, -, -, hm⟩
    · exact .inr (.inl ⟨c, hm, hc⟩)
    · exact .inr (.inr ⟨e, n, hm, hsub p he, .inl he⟩)
  · rcases haimed.peer (p := p) hS hinv hbody with ⟨c, hc, hm⟩ |
      ⟨e, n, he, hm, ⟨-, hpeer⟩ | ⟨r, hr, hpeer⟩⟩
    · exact .inl ⟨c, hm, body, hbody, c, rfl, hm⟩
    · exact .inr ⟨e, n, hm, hsub q he, .inr (.inl (hpeer.mem_used hS hinv hcontact))⟩
    · exact .inr ⟨e, n, hm, hsub q he, .inr (.inr (.inr ⟨r, hr, hsub r hpeer⟩))⟩
  · rw [List.append_nil]
  · simp

/-- The other one does not hear it. -/
theorem deaf_sender : Deaf dir q p (Opened dir s q) (· ∈ s.used p) (fun _ _ => False)
    (s.produced p) (t.accepted q (dir.who p).userId) t := by
  have hne : q ≠ p := dir.contact_ne h.contact
  obtain ⟨⟨e, n, hsends, hpeer⟩, hreceives⟩ := haimed.session hcontact hx
  have hdhs := ((hinv.tracked hcontact).ready x hx).dhs
  obtain ⟨g, f, -, -, hf1, hf2, rfl⟩ := h.handshake hS hm
  have hown : newDhs ∈ t.used p := by
    rw [h.used, Function.update_self]
    exact List.mem_cons_self
  refine ⟨fun a ha => hsub q (ha.mem_used hS hinv), hsub p, ⟨x, ?_, ?_⟩,
    ⟨ratchetedTo c.publicKey g f 0, ?_, f, 0, ⟨rfl, rfl, rfl, rfl⟩, hf1 ▸ hown, ?_⟩,
    fun body hbody _ => ?_, fun body hbody _ => ?_,
    fun body hbody => .inl (h.produced ▸ hbody), [], ?_, ?_⟩
  · rw [h.writes, if_neg fun hpv => hne hpv.1]
    exact hx
  · refine ⟨⟨e, n, hsends, hsends.secret ▸ hsub q hdhs, hsends.secret ▸ hmoved,
      hpeer.mem_used hS hinv hcontact⟩, fun ck hck => ?_⟩
    obtain ⟨r, k, rfl, hr, hrpeer⟩ := hreceives ck hck
    exact ⟨r, k, rfl, hsub q hr, hrpeer.mem_used hS hinv hcontact⟩
  · rw [h.writes, if_pos ⟨rfl, rfl⟩]
  · exact ⟨hf1 ▸ hfresh, .inl (hf2 ▸ hc)⟩
  · rw [h.produced] at hbody
    rcases haimed.peer (p := p) hS hinv hbody with ⟨c, hc, hm⟩ |
      ⟨e, n, he, hm, ⟨-, hpeer⟩ | ⟨r, hr, hpeer⟩⟩
    · exact .inr (.inl ⟨c, hm, body, hbody, c, rfl, hm⟩)
    · exact .inr (.inr ⟨e, n, hm, hsub q he, .inr (.inl (hpeer.mem_used hS hinv hcontact))⟩)
    · exact .inr (.inr ⟨e, n, hm, hsub q he, .inr (.inr ⟨r, hr, hsub r hpeer⟩)⟩)
  · rcases haimed.made p body hbody with ⟨c, hc, hm⟩ | ⟨e, n, r, he, -, -, hm⟩
    · exact .inl ⟨c, hm, hc⟩
    · exact .inr ⟨e, n, hm, hsub p he, .inl he⟩
  · rw [List.append_nil]
  · simp

end accepted

/-- Since `t`, `p` has accepted from `q` only what was `old` then, and it has a session to go on
with. -/
structure Stuck (dir : Directory S ι) (old : List JsString) (t u : Network S ι) (p q : ι) :
    Prop where
  session : ∃ y, (u.device p).loadSession (dir.who q).userId = some y
  accepted : ∃ more, u.accepted p (dir.who q).userId = t.accepted p (dir.who q).userId ++ more ∧
    ∀ e ∈ more, ∃ body ∈ old, Base64.base64ToBytes body = e

omit [DecidableEq ι] in
theorem Deaf.stuck {stale heard : S.X25519Secret → Prop} {withheld : ι → Bytes → Prop}
    {old : List JsString}
    (h : Deaf dir p q stale heard withheld old (t.accepted p (dir.who q).userId) u) :
    Stuck dir old t u p q := by
  obtain ⟨y, hy, -⟩ := h.listens
  exact ⟨⟨y, hy⟩, h.accepted⟩

omit [DecidableEq ι] in
theorem withholds_of_replays {action : Action S ι} (h : Replays s action) :
    Withholds (fun _ _ => False) s action :=
  ⟨h, fun _ _ _ _ _ => id⟩

section opening
variable {bodyB64 createdAt : JsString} (hS : S.Ideal) (hs : (machine dir).Reach Replays s)
  (hpq : dir.contact p (dir.who q).userId = some q)
  (hopening : Opening (Base64.base64ToBytes bodyB64))
  (hguard : Replays s (.present p ⟨(dir.who q).userId, bodyB64⟩ createdAt newDhs))
  (haccepts : acceptsFrame (dir.context p) ⟨(dir.who q).userId, bodyB64⟩ newDhs (s.device p) = true)
  (ht : step dir s (.present p ⟨(dir.who q).userId, bodyB64⟩ createdAt newDhs) = some t)
include hS hs hpq hopening hguard haccepts ht

theorem took_of_opening : ∃ plaintext next, ∃ c : Chain S,
    Took dir s t p ⟨(dir.who q).userId, bodyB64⟩ newDhs q plaintext next ∧
      MadeHandshake (dir.who q) c (Base64.base64ToBytes bodyB64) ∧ Opened dir s q c.secret := by
  have hinv := inv_of_reach hS hs
  obtain ⟨-, r, body, hbody, he⟩ := hguard
  obtain ⟨-, -, ⟨haccepted, -⟩ | ⟨q', plaintext, next, htook⟩⟩ := step_took ht
  · obtain ⟨t', ht', -, -, hlog⟩ := accepts_present haccepts createdAt
    cases ht.symm.trans ht'
    rw [haccepted] at hlog
    simp at hlog
  · cases htook.contact.symm.trans hpq
    have hmade := hinv.made r body hbody
    rw [← he] at hmade
    obtain rfl := sender_eq hS hmade htook.decoded
    obtain ⟨c, -, ⟨n, hm⟩ | hm⟩ := hmade
    · cases hm.head.symm.trans hopening
    · exact ⟨plaintext, next, c, htook, hm, body, hbody, c, rfl, he ▸ hm⟩

/-- A device that accepts a handshake goes on with a secret on which it made none. -/
theorem moved_of_opening : ∃ x, (t.device p).loadSession (dir.who q).userId = some x ∧
    ∀ body ∈ t.produced p, ¬ Opens dir p x.dhsSecretKey (Base64.base64ToBytes body) := by
  obtain ⟨plaintext, next, c, htook, hm, -⟩ :=
    took_of_opening hS hs hpq hopening hguard haccepts ht
  obtain ⟨g, f, -, -, hf, -, rfl⟩ := htook.handshake hS hm
  refine ⟨_, by rw [htook.writes, if_pos ⟨rfl, rfl⟩], fun body hbody hopens => ?_⟩
  rw [htook.produced] at hbody
  have hopened : Opened dir s p f.secret := ⟨body, hbody, hopens⟩
  exact hguard.1 p (hf ▸ hopened.mem_used hS (inv_of_reach hS hs))

/-- Once a device accepts a handshake of a contact whose own session has moved on from every
handshake it made, nothing that either of the two produces is accepted by the other, however
the run goes on. -/
theorem severed (hqp : dir.contact q (dir.who p).userId = some p) {x : RatchetState S}
    (hx : (s.device q).loadSession (dir.who p).userId = some x)
    (hmoved : ∀ body ∈ s.produced q, ¬ Opens dir q x.dhsSecretKey (Base64.base64ToBytes body))
    (hu : (machine dir).Leads Replays t u) :
    Stuck dir (s.produced q) t u p q ∧ Stuck dir (s.produced p) t u q p := by
  have hinv := inv_of_reach hS hs
  have haimed := aimed_of_reach hS hs
  have hsub := step_used ht
  obtain ⟨plaintext, next, c, htook, hm, hc⟩ :=
    took_of_opening hS hs hpq hopening hguard haccepts ht
  have hmoved : ¬ Opened dir s q x.dhsSecretKey :=
    fun ⟨body, hbody, hopens⟩ => hmoved body hbody hopens
  have hp := deaf_receiver hS hinv haimed htook hsub (hguard.1 p) hm hc hx hqp hmoved
  have hq := deaf_sender hS hinv haimed htook hsub (hguard.1 p) hm hc hx hqp hmoved
  have ht := hs.step hguard ht
  have hu : (machine dir).Leads (Withholds fun _ _ => False) t u :=
    hu.mono fun _ _ => withholds_of_replays
  exact ⟨(hp.leads hS ht hpq hqp hu).stuck, (hq.leads hS ht hqp hpq hu).stuck⟩

end opening

/-- A first message between the neighbours, which the other one accepts at any time. -/
theorem opens_first (p : Party) {s : Network Symbolic.suite Party}
    (hnone : (s.device p).loadSession (TwoParty.someone p.other).userId = none)
    (random : SendRandom Symbolic.suite) : ∃ t body,
      step neighbours s (.send p (TwoParty.someone p.other).userId true Messenger.hello [] random) =
        some t ∧ body ∈ t.produced p ∧ (∀ r, s.produced r ⊆ t.produced r) ∧
      t.used = Function.update s.used p (random.ea :: s.used p) ∧
      (∀ r, r ≠ p → t.device r = s.device r) ∧ Opening (Base64.base64ToBytes body) ∧
      ∀ dev newDhs, acceptsFrame (neighbours.context p.other)
        ⟨(TwoParty.someone p).userId, body⟩ newDhs dev = true := by
  have hS := Symbolic.suite_ideal
  have htext : JsString.trim Messenger.hello ≠ [] := by decide
  have hcontact : neighbours.contact p.other (TwoParty.someone p).userId = some p := by
    cases p <;> rfl
  obtain ⟨c, kct, -, hfirst, hinit⟩ := initiate_eq hS (TwoParty.someone p)
    (TwoParty.someone p.other) random.ea random.kemRandom
    (JsString.utf8Bytes (JsString.trim Messenger.hello)) random.encode
  have hsend := sendEnvelope_none (a := TwoParty.someone p) (b := TwoParty.someone p.other) hS []
    (JsString.utf8Bytes (JsString.trim Messenger.hello)) random
  rw [hinit, ← hnone] at hsend
  have hhandle : handleSend (neighbours.context p) (TwoParty.someone p.other).userId true
      Messenger.hello [] random (s.device p) = _ := handleSend_eq [] htext (by
        simp [Directory.context, neighbours]) hsend
  generalize henvelope : encodeHandshakeEnvelope _ _ _ _ _ _ _ _ = envelope at hhandle
  obtain ⟨t, ht, hbody, hused, -⟩ := sends_body hhandle
  refine ⟨t, Base64.bytesToBase64 envelope, ht, hbody, ?_, hused, ?_, ?_, fun dev newDhs => ?_⟩
  · intro r
    simp only [step, hhandle] at ht
    cases ht
    by_cases hr : r = p
    · subst hr
      simp
    · simp [hr]
  · intro r hr
    simp only [step, hhandle] at ht
    cases ht
    simp [hr]
  · rw [Base64.base64ToBytes_bytesToBase64]
    exact henvelope ▸ rfl
  · exact henvelope ▸ accepts_handshake neighbours hS hcontact hfirst _ dev

/-- A later message between the neighbours. -/
theorem sends_on {p : Party} {s : Network Symbolic.suite Party} {y : RatchetState Symbolic.suite}
    (hy : (s.device p).loadSession (TwoParty.someone p.other).userId = some y)
    {c : Chain Symbolic.suite} {n : ℕ} (hsends : Sends y c n) (random : SendRandom Symbolic.suite) :
    ∃ t next body, step neighbours s
        (.send p (TwoParty.someone p.other).userId true Messenger.hello [] random) = some t ∧
      body ∈ t.produced p ∧ t.used = Function.update s.used p (random.ea :: s.used p) ∧
      t.accepted = s.accepted ∧ (∀ r, r ≠ p → t.device r = s.device r) ∧
      (t.device p).loadSession (TwoParty.someone p.other).userId = some next ∧
      Sends next c (n + 1) ∧ MadeRatchet (TwoParty.someone p) c n (Base64.base64ToBytes body) := by
  have htext : JsString.trim Messenger.hello ≠ [] := by decide
  obtain ⟨m, hon, -, ⟨-, pcl, encode, he⟩, hnext⟩ := sendOn_eq (a := TwoParty.someone p)
    (b := TwoParty.someone p.other) hsends
    (JsString.utf8Bytes (JsString.trim Messenger.hello)) random.encode
  have hsend := sendEnvelope_some (a := TwoParty.someone p) (b := TwoParty.someone p.other)
    ((TwoParty.someone p.other).keyBundle [])
    (JsString.utf8Bytes (JsString.trim Messenger.hello)) y random
  rw [hon, ← hy] at hsend
  have hhandle : handleSend (neighbours.context p) (TwoParty.someone p.other).userId true
      Messenger.hello [] random (s.device p) = _ := handleSend_eq [] htext (by
        simp [Directory.context, neighbours]) hsend
  obtain ⟨t, ht, hbody, hused, haccepted⟩ := sends_body hhandle
  refine ⟨t, sentOn y c, _, ht, hbody, hused, haccepted, fun r hr => ?_, ?_, hnext, ?_⟩
  · simp only [step, hhandle] at ht
    cases ht
    simp [hr]
  · simp only [step, hhandle] at ht
    cases ht
    simp [Device.loadSession, Device.saveMessage, Device.saveSession]
  · rw [Base64.base64ToBytes_bytesToBase64]
    exact ⟨_, pcl, _, encode, he⟩

theorem step_present (s : Network S ι) (p : ι) (frame : Frame) (createdAt : JsString)
    (newDhs : S.X25519Secret) : ∃ t, step dir s (.present p frame createdAt newDhs) = some t ∧
      t.produced = s.produced :=
  ⟨_, rfl, rfl⟩

/-- The next message of `p`, and its delivery. -/
def goesOn (p : Party) (body : JsString) (random : SendRandom Symbolic.suite)
    (newDhs : Symbolic.Secret) : List (Action Symbolic.suite Party) :=
  [.send p (TwoParty.someone p.other).userId true Messenger.hello [] random,
    .present p.other ⟨(TwoParty.someone p).userId, body⟩ [] newDhs]

/-- Both open a session before either hears of the other, and both accept. Bob writes again, and
Alice is presented what he wrote. -/
theorem severed_crossed : ∃ (s t u : Network Symbolic.suite Party) (body : JsString)
    (random : SendRandom Symbolic.suite) (newDhs : Symbolic.Secret),
    (machine neighbours).Reach Replays t ∧ body ∈ u.produced .bob ∧
      (machine neighbours).exec t (goesOn .bob body random newDhs) = some u ∧
      Stuck neighbours (s.produced .alice) t u .bob .alice ∧
      Stuck neighbours (s.produced .bob) t u .alice .bob := by
  have hS := Symbolic.suite_ideal
  have hlt0 : ∀ r, ∀ a ∈ (start neighbours).used r, a.val < 2 := by
    intro r
    cases r <;> simp [start, neighbours, TwoParty.someone]
  obtain ⟨s1, body1, h1, hbody1, -, hused1, hdevice1, hopening1, haccepts1⟩ :=
    opens_first .alice (s := start neighbours) rfl (Messenger.randomOf 2 (by decide))
  have hlt1 := lt_of_used hlt0 rfl hused1
  have hreach1 := reach_step (G := Replays) (.init rfl) h1
    fun r => Symbolic.not_mem_of_val (hlt0 r) rfl
  have hnone : (s1.device .bob).loadSession (TwoParty.someone .alice).userId = none := by
    rw [hdevice1 .bob (by decide)]
    rfl
  obtain ⟨s2, body2, h2, hbody2, hsub2, hused2, -, hopening2, haccepts2⟩ :=
    opens_first .bob hnone (Messenger.randomOf 3 (by decide))
  have hlt2 := lt_of_used hlt1 rfl hused2
  have hreach2 := reach_step hreach1 h2 fun r => Symbolic.not_mem_of_val (hlt1 r) rfl
  have hguard3 : Replays s2 (.present .alice ⟨(TwoParty.someone .bob).userId, body2⟩ []
      (⟨4, by decide⟩ : Symbolic.Secret)) :=
    ⟨fun r => Symbolic.not_mem_of_val (hlt2 r) rfl, .bob, body2, hbody2, rfl⟩
  obtain ⟨s3, h3, hproduced3, hused3, -⟩ :=
    accepts_present (haccepts2 (s2.device .alice) ⟨4, by decide⟩) []
  have hlt3 := lt_of_used hlt2 rfl hused3
  have hreach3 := reach_step hreach2 h3 hguard3
  obtain ⟨x, hx, hmoved⟩ :=
    moved_of_opening hS hreach2 rfl hopening2 hguard3 (haccepts2 _ _) h3
  have hguard4 : Replays s3 (.present .bob ⟨(TwoParty.someone .alice).userId, body1⟩ []
      (⟨5, by decide⟩ : Symbolic.Secret)) :=
    ⟨fun r => Symbolic.not_mem_of_val (hlt3 r) rfl, .alice, body1,
      hproduced3 ▸ hsub2 .alice hbody1, rfl⟩
  obtain ⟨s4, h4, -, hused4, -⟩ :=
    accepts_present (haccepts1 (s3.device .bob) ⟨5, by decide⟩) []
  have hlt4 := lt_of_used hlt3 rfl hused4
  have hreach4 := reach_step hreach3 h4 hguard4
  obtain ⟨plaintext, y, c, htook, -, -⟩ :=
    took_of_opening hS hreach3 rfl hopening1 hguard4 (haccepts1 _ _) h4
  have hy : (s4.device .bob).loadSession (TwoParty.someone .alice).userId = some y := by
    rw [htook.writes, if_pos ⟨rfl, rfl⟩]
  obtain ⟨f, n, hsends⟩ := (((inv_of_reach hS hreach4).tracked rfl).ready y hy).sends
  let random := Messenger.randomOf 6 (by decide)
  obtain ⟨s5, -, body, h5, hbody5, hused5, -⟩ := sends_on hy hsends random
  have hlt5 := lt_of_used hlt4 rfl hused5
  have hguard5 : Replays s4 (.send .bob (TwoParty.someone .alice).userId true Messenger.hello []
      random) := fun r => Symbolic.not_mem_of_val (hlt4 r) rfl
  have hguard6 : Replays s5 (.present .alice ⟨(TwoParty.someone .bob).userId, body⟩ []
      (⟨7, by decide⟩ : Symbolic.Secret)) :=
    ⟨fun r => Symbolic.not_mem_of_val (hlt5 r) rfl, .bob, body, hbody5, rfl⟩
  obtain ⟨s6, h6, hproduced6⟩ := step_present s5 .alice
    ⟨(TwoParty.someone .bob).userId, body⟩ [] (⟨7, by decide⟩ : Symbolic.Secret)
  have hlead : (machine neighbours).Leads Replays s4 s6 :=
    (Machine.Leads.single hguard5 h5).trans (.single hguard6 h6)
  have hrun : (machine neighbours).exec s4 (goesOn .bob body random ⟨7, by decide⟩) = some s6 :=
    (congrArg (Option.bind · _) h5).trans (congrArg (Option.bind · _) h6)
  exact ⟨s3, s4, s6, body, random, ⟨7, by decide⟩, hreach4, hproduced6 ▸ hbody5, hrun,
    severed hS hreach3 rfl hopening1 hguard4 (haccepts1 _ _) h4 rfl hx hmoved hlead⟩

end Epistl.Network
