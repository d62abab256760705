import Epistl.Inbox.Aimed
import Epistl.Inbox.Numbered

/-! # What is accepted is in order

A contact only writes on its newest chain. A receiver skips no message, and the secret it listens
with is replaced with each chain it takes up, so the numbers it accepts only grow. Only a
handshake starts over.
-/
namespace Epistl.Network
variable {S : Suite} {ι : Type} {dir : Directory S ι} {p q : ι} {s t : Network S ι}
  {envelope e : Bytes} {c : Chain S}

/-- The envelope is for someone else than `p`. -/
def Elsewhere (dir : Directory S ι) (p q : ι) (envelope : Bytes) : Prop :=
  ∃ userId, userId ≠ (dir.who p).userId ∧ EncodedFor (dir.who q) userId envelope

/-- A chain of `q` to a secret of `p`. While `p` listens with that secret, the chain is newer
than all that was accepted. -/
structure Reaching (dir : Directory S ι) (s : Network S ι) (p q : ι) (c : Chain S) : Prop where
  secret : c.secret ∈ s.used q
  peer : c.peer ∈ s.used p
  newer {y : RatchetState S} : (s.device p).loadSession (dir.who q).userId = some y →
    y.dhsSecretKey = c.peer → ∀ e ∈ s.accepted p (dir.who q).userId,
      Beneath dir s q e c.secret 0

/-- What `q` writes to `p` is ordered. -/
structure Speaks (dir : Directory S ι) (s : Network S ι) (p q : ι) : Prop where
  sent : (s.produced q).Pairwise fun body body' =>
    Elsewhere dir p q (Base64.base64ToBytes body) ∨
      Elsewhere dir p q (Base64.base64ToBytes body') ∨
      Before dir s q (Base64.base64ToBytes body) (Base64.base64ToBytes body')
  made : ∀ body ∈ s.produced q, Elsewhere dir p q (Base64.base64ToBytes body) ∨
    ∃ c : Chain S, c.secret ∈ s.used q ∧
      (MadeHandshake (dir.who q) c (Base64.base64ToBytes body) ∨
        ∃ n, MadeRatchet (dir.who q) c n (Base64.base64ToBytes body) ∧ Reaching dir s p q c)
  sends {y : RatchetState S} : (s.device q).loadSession (dir.who p).userId = some y →
    ∃ c n, Sends y c n ∧ Reaching dir s p q c ∧ ∀ body ∈ s.produced q,
      Elsewhere dir p q (Base64.base64ToBytes body) ∨
        Beneath dir s q (Base64.base64ToBytes body) c.secret n

/-- What `p` accepts from `q` is ordered. -/
structure Hears (dir : Directory S ι) (s : Network S ι) (p q : ι) : Prop where
  log : (s.accepted p (dir.who q).userId).Pairwise (Before dir s q)
  known : ∀ e ∈ s.accepted p (dir.who q).userId, ¬ Elsewhere dir p q e
  receives {y : RatchetState S} {ck : S.ChainKey} :
    (s.device p).loadSession (dir.who q).userId = some y → y.receivingChainKey = some ck →
    ∃ r k, ck = Chain.key r k ∧ r.secret ∈ s.used p ∧ r.peer ∈ s.used q ∧
      (∃ e ∈ s.accepted p (dir.who q).userId, ∃ m, Numbered dir s q e r.peer m) ∧
      ∀ e ∈ s.accepted p (dir.who q).userId, Beneath dir s q e r.peer k

/-! ### One step -/

section kept
variable (hsuffix : ∀ r, s.used r <:+ t.used r)
include hsuffix

theorem Reaching.kept (h : Reaching dir s p q c)
    (haccepted : t.accepted p (dir.who q).userId = s.accepted p (dir.who q).userId)
    (hsession : ∀ y, (t.device p).loadSession (dir.who q).userId = some y →
      y.dhsSecretKey ∈ s.used p → ∃ y', (s.device p).loadSession (dir.who q).userId = some y' ∧
        y'.dhsSecretKey = y.dhsSecretKey) : Reaching dir t p q c where
  secret := (hsuffix q).subset h.secret
  peer := (hsuffix p).subset h.peer
  newer hy hdhs e he := by
    obtain ⟨y', hy', hsame⟩ := hsession _ hy (hdhs ▸ h.peer)
    exact (h.newer hy' (hsame.trans hdhs) e (haccepted ▸ he)).mono (hsuffix q) h.secret

theorem Speaks.sent_mono (h : Speaks dir s p q) : (s.produced q).Pairwise fun body body' =>
    Elsewhere dir p q (Base64.base64ToBytes body) ∨
      Elsewhere dir p q (Base64.base64ToBytes body') ∨
      Before dir t q (Base64.base64ToBytes body) (Base64.base64ToBytes body') :=
  h.sent.imp fun hor => hor.imp id (Or.imp id (Before.mono (hsuffix q)))

theorem Speaks.made_mono (h : Speaks dir s p q)
    (hreaching : ∀ c, Reaching dir s p q c → Reaching dir t p q c) {body : JsString}
    (hbody : body ∈ s.produced q) : Elsewhere dir p q (Base64.base64ToBytes body) ∨
      ∃ c : Chain S, c.secret ∈ t.used q ∧
        (MadeHandshake (dir.who q) c (Base64.base64ToBytes body) ∨
          ∃ n, MadeRatchet (dir.who q) c n (Base64.base64ToBytes body) ∧
            Reaching dir t p q c) := by
  refine (h.made body hbody).imp id ?_
  rintro ⟨c, hc, hm⟩
  refine ⟨c, (hsuffix q).subset hc, hm.imp id ?_⟩
  rintro ⟨n, hm, hreach⟩
  exact ⟨n, hm, hreaching c hreach⟩

theorem Speaks.kept (h : Speaks dir s p q)
    (hreaching : ∀ c, Reaching dir s p q c → Reaching dir t p q c)
    (hsession : (t.device q).loadSession (dir.who p).userId =
      (s.device q).loadSession (dir.who p).userId)
    (hproduced : t.produced q = s.produced q ∨ ∃ body userId, userId ≠ (dir.who p).userId ∧
      EncodedFor (dir.who q) userId (Base64.base64ToBytes body) ∧
      t.produced q = s.produced q ++ [body]) : Speaks dir t p q where
  sent := by
    rcases hproduced with hproduced | ⟨body, userId, hne, hfor, hproduced⟩
    · rw [hproduced]
      exact h.sent_mono hsuffix
    · rw [hproduced]
      refine List.pairwise_append.mpr ⟨h.sent_mono hsuffix, List.pairwise_singleton _ _, fun b _ b' hb' => ?_⟩
      cases List.mem_singleton.mp hb'
      exact .inr (.inl ⟨userId, hne, hfor⟩)
  made body hbody := by
    rcases mem_of_rest hproduced hbody with hbody | helse
    · exact h.made_mono hsuffix hreaching hbody
    · exact .inl helse
  sends hy := by
    obtain ⟨c, n, hsends, hreach, hbeneath⟩ := h.sends (hsession ▸ hy)
    refine ⟨c, n, hsends, hreaching c hreach, fun body hbody => ?_⟩
    rcases mem_of_rest hproduced hbody with hbody | helse
    · exact (hbeneath body hbody).imp id (Beneath.mono (hsuffix q) hreach.secret)
    · exact .inl helse

theorem Hears.kept (h : Hears dir s p q)
    (haccepted : t.accepted p (dir.who q).userId = s.accepted p (dir.who q).userId)
    (hsession : ∀ y ck, (t.device p).loadSession (dir.who q).userId = some y →
      y.receivingChainKey = some ck → ∃ y', (s.device p).loadSession (dir.who q).userId = some y' ∧
        y'.receivingChainKey = some ck) : Hears dir t p q where
  log := by
    rw [haccepted]
    exact h.log.imp (Before.mono (hsuffix q))
  known := haccepted ▸ h.known
  receives hy hck := by
    obtain ⟨y', hy', hck'⟩ := hsession _ _ hy hck
    obtain ⟨r, k, hr, hsecret, hpeer, ⟨e, he, m, hm⟩, hbeneath⟩ := h.receives hy' hck'
    rw [haccepted]
    exact ⟨r, k, hr, (hsuffix p).subset hsecret, (hsuffix q).subset hpeer,
      ⟨e, he, m, hm.mono (hsuffix q)⟩, fun e he => (hbeneath e he).mono (hsuffix q) hpeer⟩

end kept

theorem Speaks.numbered (h : Speaks dir s p q) {body : JsString} (hbody : body ∈ s.produced q) :
    Elsewhere dir p q (Base64.base64ToBytes body) ∨
      ∃ a n, Numbered dir s q (Base64.base64ToBytes body) a n := by
  refine (h.made body hbody).imp id ?_
  rintro ⟨c, hc, hm | ⟨n, hm, -⟩⟩
  · exact ⟨c.secret, 0, hc, c, rfl, .inl ⟨hm, rfl⟩⟩
  · exact ⟨c.secret, n, hc, c, rfl, .inr hm⟩

/-- All that is accepted is numbered. -/
theorem Speaks.accepted (h : Speaks dir s p q) (hinv : Inv dir s) (hears : Hears dir s p q)
    (hcontact : dir.contact p (dir.who q).userId = some q)
    (he : e ∈ s.accepted p (dir.who q).userId) : ∃ a n, Numbered dir s q e a n := by
  obtain ⟨q', hq', body, hbody, rfl⟩ := hinv.known e he
  cases hcontact.symm.trans hq'
  exact (h.numbered hbody).resolve_left (hears.known _ he)

/-- A chain on a new secret comes after everything. -/
theorem Speaks.fresh (h : Speaks dir s p q) (hinv : Inv dir s) (hears : Hears dir s p q)
    (hcontact : dir.contact p (dir.who q).userId = some q)
    (hused : t.used q = c.secret :: s.used q) (hfresh : c.secret ∉ s.used q)
    (hpeer : c.peer ∈ t.used p)
    (haccepted : t.accepted p (dir.who q).userId = s.accepted p (dir.who q).userId) :
    Reaching dir t p q c ∧ ∀ body ∈ s.produced q, ∀ n,
      Elsewhere dir p q (Base64.base64ToBytes body) ∨
        Beneath dir t q (Base64.base64ToBytes body) c.secret n := by
  refine ⟨⟨hused ▸ List.mem_cons_self, hpeer, fun _ _ e he => ?_⟩, fun body hbody n => ?_⟩
  · obtain ⟨a, n, hn⟩ := h.accepted hinv hears hcontact (haccepted ▸ he)
    exact hn.beneath_new hused hfresh 0
  · refine (h.numbered hbody).imp id ?_
    rintro ⟨a, m, hm⟩
    exact hm.beneath_new hused hfresh n

variable [DecidableEq ι] {random : SendRandom S}

section turns
variable (hS : S.Ideal) (hinv : Inv dir s) (hsuffix : ∀ r, s.used r <:+ t.used r)
include hS hinv hsuffix

/-- A send of the receiver changes nothing of what it listens with. -/
theorem Hears.wrote (h : Hears dir s p q) {text : JsString} {next : RatchetState S}
    (hfresh : random.ea ∉ s.used p)
    (hwrote : Wrote dir s t p (dir.who q).userId text random q envelope next) :
    Hears dir t p q ∧ ∀ c, Reaching dir s p q c → Reaching dir t p q c := by
  have haccepted : t.accepted p (dir.who q).userId = s.accepted p (dir.who q).userId := by
    rw [hwrote.accepted]
  have hnext : (t.device p).loadSession (dir.who q).userId = some next := by
    rw [hwrote.writes, if_pos ⟨rfl, rfl⟩]
  refine ⟨h.kept hsuffix haccepted fun y ck hy hck => ?_,
    fun c hc => hc.kept hsuffix haccepted fun y hy hdhs => ?_⟩
  all_goals
    cases hnext.symm.trans hy
    rcases hwrote.made hS with ⟨-, c', hc', -, -, -, rfl⟩ | ⟨y', hy', hon⟩
  · cases hck
  · obtain ⟨e, n, hsends⟩ := ((hinv.tracked hwrote.contact).ready y' hy').sends
    obtain ⟨-, -, rfl, -⟩ := hon e n hsends
    exact ⟨y', hy', hck⟩
  · exact absurd (hc' ▸ hdhs) hfresh
  · obtain ⟨e, n, hsends⟩ := ((hinv.tracked hwrote.contact).ready y' hy').sends
    obtain ⟨-, -, rfl, -⟩ := hon e n hsends
    exact ⟨y', hy', rfl⟩

section took
variable {bodyB64 : JsString} {newDhs : S.X25519Secret} {plaintext : Bytes}
  {next : RatchetState S} {createdAt : JsString} (hspeaks : Speaks dir s p q)
  (h : Hears dir s p q)
  (htook : Took dir s t p ⟨(dir.who q).userId, bodyB64⟩ newDhs q plaintext next)
  (hguard : Replays s (.present p ⟨(dir.who q).userId, bodyB64⟩ createdAt newDhs))
  (hopening : Opening (Base64.base64ToBytes bodyB64) →
    s.accepted p (dir.who q).userId = [])
include hspeaks h htook hguard hopening

omit hsuffix in
/-- What is accepted comes after all that was accepted, and the receiver goes on after it. -/
theorem Hears.follows : ¬ Elsewhere dir p q (Base64.base64ToBytes bodyB64) ∧ ∃ r k,
    Numbered dir s q (Base64.base64ToBytes bodyB64) (Chain.peer r) k ∧
      (∀ e ∈ s.accepted p (dir.who q).userId, Beneath dir s q e r.peer k) ∧
      r.secret ∈ s.used p ∧ next.receivingChainKey = some (r.key (k + 1)) ∧
      (next.dhsSecretKey = newDhs ∨
        (∃ y, (s.device p).loadSession (dir.who q).userId = some y ∧
          y.dhsSecretKey = next.dhsSecretKey) ∧
        ∃ e ∈ s.accepted p (dir.who q).userId, ∃ m, Numbered dir s q e r.peer m) := by
  have hne : p ≠ q := (dir.contact_ne htook.contact).symm
  obtain ⟨-, q', body, hbody, he⟩ := hguard
  have he : Base64.base64ToBytes bodyB64 = Base64.base64ToBytes body := he
  obtain rfl := sender_eq hS (he ▸ hinv.made q' body hbody) htook.decoded
  have helse : ¬ Elsewhere dir p q' (Base64.base64ToBytes bodyB64) := by
    rintro ⟨userId, hother, hfor⟩
    exact hother (htook.not_encodedFor hS hfor)
  refine ⟨helse, ?_⟩
  obtain ⟨c, hc, hm | ⟨n, hm, hreach⟩⟩ := (hspeaks.made body hbody).resolve_left (he ▸ helse)
  · rw [← he] at hm
    obtain ⟨g, f, hg1, hg2, hf1, hf2, rfl⟩ := htook.handshake hS hm
    have hempty := hopening hm.head
    refine ⟨g, 0, hg2 ▸ ⟨hc, c, rfl, .inl ⟨hm, rfl⟩⟩, ?_, hg1 ▸ hinv.identity p, rfl, .inl hf1⟩
    simp only [hempty, List.not_mem_nil, false_implies, implies_true]
  · rw [← he] at hm
    have hnumbered : Numbered dir s q' (Base64.base64ToBytes bodyB64) c.secret n :=
      ⟨hc, c, rfl, .inr hm⟩
    obtain ⟨y, hy, ⟨ck, hck, hkey, rfl⟩ | ⟨g, f, hg1, hg2, hf1, hf2, hkey, rfl⟩⟩ :=
      htook.ratchet hS hm
    -- the chain in hand goes on with its next number
    · obtain ⟨r, k, rfl, hr, hpeer, hheard, hbeneath⟩ := h.receives hy hck
      obtain ⟨rfl, -⟩ := Chain.messageKey_injective hS (e := r) (j := k) hkey
      obtain ⟨hsecret, -⟩ := hinv.joins hS hne (g := r) hkey hc hr
      rw [hsecret] at hnumbered
      exact ⟨r, n, hnumbered, hbeneath, hr, rfl, .inr ⟨⟨y, hy, rfl⟩, hheard⟩⟩
    -- a chain to the secret in hand is newer than all that was accepted
    · have hdhs : g.secret ∈ s.used p :=
        hg1 ▸ ((hinv.tracked htook.contact).ready y hy).dhs
      obtain ⟨hsecret, hpeer⟩ := hinv.joins hS hne hkey hc hdhs
      obtain ⟨rfl, -⟩ := Chain.messageKey_injective hS hkey
      rw [hsecret] at hnumbered
      refine ⟨g, 0, hnumbered, fun e hlog => ?_, hdhs, rfl, .inl hf1⟩
      exact hsecret ▸ hreach.newer hy (hg1.symm.trans hpeer.symm) e hlog

theorem Hears.took : Hears dir t p q ∧ ∀ c, Reaching dir s p q c → Reaching dir t p q c := by
  obtain ⟨helse, r, k, hnumbered, hbeneath, hr, hck, hdhs⟩ :=
    h.follows hS hinv hspeaks htook hguard hopening
  have hq := hsuffix q
  have hnext : (t.device p).loadSession (dir.who q).userId = some next := by
    rw [htook.writes, if_pos ⟨rfl, rfl⟩]
  have haccepted : t.accepted p (dir.who q).userId =
      s.accepted p (dir.who q).userId ++ [Base64.base64ToBytes bodyB64] := by
    rw [htook.accepted, Function.update_self, Function.update_self]
  have hcases {e : Bytes} (he : e ∈ t.accepted p (dir.who q).userId) :
      e ∈ s.accepted p (dir.who q).userId ∨ e = Base64.base64ToBytes bodyB64 := by
    rwa [haccepted, List.mem_append, List.mem_singleton] at he
  have hmem : Base64.base64ToBytes bodyB64 ∈ t.accepted p (dir.who q).userId := by
    rw [haccepted]
    exact List.mem_append_right _ (List.mem_singleton_self _)
  refine ⟨⟨?_, fun e he => ?_, fun {y ck} hy hck' => ?_⟩, fun c hc => ?_⟩
  · rw [haccepted]
    refine List.pairwise_append.mpr ⟨h.log.imp (Before.mono hq), List.pairwise_singleton _ _, ?_⟩
    intro e he e' he'
    cases List.mem_singleton.mp he'
    exact ⟨r.peer, k, hnumbered.mono hq, (hbeneath e he).mono hq hnumbered.1⟩
  · rcases hcases he with he | rfl
    · exact h.known e he
    · exact helse
  · cases hnext.symm.trans hy
    obtain rfl : ck = r.key (k + 1) := Option.some.inj (hck'.symm.trans hck)
    refine ⟨r, k + 1, rfl, (hsuffix p).subset hr, hq.subset hnumbered.1,
      ⟨_, hmem, k, hnumbered.mono hq⟩, fun e he => ?_⟩
    rcases hcases he with he | rfl
    · exact ((hbeneath e he).mono hq hnumbered.1).le k.le_succ
    · exact (hnumbered.mono hq).beneath_succ
  · refine ⟨hq.subset hc.secret, (hsuffix p).subset hc.peer, fun {y} hy hpeer e he => ?_⟩
    cases hnext.symm.trans hy
    rcases hdhs with hdhs | ⟨⟨y, hy, hsame⟩, e', he', m, hm⟩
    · exact absurd ((hpeer.symm.trans hdhs) ▸ hc.peer) (hguard.1 p)
    · have hnewer := hc.newer hy (hsame.trans hpeer)
      rcases hcases he with he | rfl
      · exact (hnewer e he).mono hq hc.secret
      · refine Beneath.mono hq hc.secret ⟨r.peer, k, hnumbered, .inl ?_⟩
        exact (hnewer e' he').older hS hm

end took

section speaker
variable (hspeaks : Speaks dir s p q) (h : Hears dir s p q)
  (hcontact : dir.contact p (dir.who q).userId = some q)
  (hsession : (t.device p).loadSession (dir.who q).userId =
    (s.device p).loadSession (dir.who q).userId)
  (haccepted : t.accepted p (dir.who q).userId = s.accepted p (dir.who q).userId)
include hspeaks h hcontact hsession haccepted

/-- What the contact writes comes after all it has written. -/
theorem Speaks.wrote {text : JsString} {next : RatchetState S} (hfresh : random.ea ∉ s.used q)
    (hwrote : Wrote dir s t q (dir.who p).userId text random p envelope next) :
    Speaks dir t p q := by
  have hq := hsuffix q
  have hreaching (c : Chain S) (hc : Reaching dir s p q c) : Reaching dir t p q c :=
    hc.kept hsuffix haccepted fun y hy _ => ⟨y, hsession ▸ hy, rfl⟩
  have hnext : (t.device q).loadSession (dir.who p).userId = some next := by
    rw [hwrote.writes, if_pos ⟨rfl, rfl⟩]
  have hproduced : t.produced q = s.produced q ++ [Base64.bytesToBase64 envelope] := by
    rw [hwrote.produced, Function.update_self]
  have hbytes : Base64.base64ToBytes (Base64.bytesToBase64 envelope) = envelope :=
    Base64.base64ToBytes_bytesToBase64 envelope
  -- the chain that the envelope is made on, and all that stands before it
  obtain ⟨c, n, hc, hm, hbeneath, hsends⟩ : ∃ c n, Reaching dir t p q c ∧
      (MadeHandshake (dir.who q) c envelope ∧ n = 0 ∨ MadeRatchet (dir.who q) c n envelope) ∧
      (∀ body ∈ s.produced q, Elsewhere dir p q (Base64.base64ToBytes body) ∨
        Beneath dir t q (Base64.base64ToBytes body) c.secret n) ∧ Sends next c (n + 1) := by
    rcases hwrote.made hS with ⟨-, c, hc, hpeer, hm, -, rfl⟩ | ⟨y, hy, hon⟩
    · have hused : t.used q = c.secret :: s.used q := by
        rw [hwrote.used, Function.update_self, hc]
      obtain ⟨hreach, hbeneath⟩ := hspeaks.fresh hinv h hcontact hused (hc ▸ hfresh)
        (hpeer ▸ (hsuffix p).subset (hinv.identity p)) haccepted
      exact ⟨c, 0, hreach, .inl ⟨hm, rfl⟩, fun body hbody => hbeneath body hbody 0,
        ⟨rfl, rfl, rfl, rfl⟩⟩
    · obtain ⟨e, n, hsends, hreach, hbeneath⟩ := hspeaks.sends hy
      obtain ⟨hm, -, -, hsends'⟩ := hon e n hsends
      exact ⟨e, n, hreaching e hreach, .inr hm,
        fun body hbody => (hbeneath body hbody).imp id (Beneath.mono hq hreach.secret), hsends'⟩
  have hnumbered : Numbered dir t q envelope c.secret n := ⟨hc.secret, c, rfl, hm⟩
  refine ⟨?_, fun body hbody => ?_, fun {y} hy => ?_⟩
  · rw [hproduced]
    refine List.pairwise_append.mpr ⟨hspeaks.sent_mono hsuffix, List.pairwise_singleton _ _,
      fun b hb b' hb' => ?_⟩
    cases List.mem_singleton.mp hb'
    rw [hbytes]
    exact (hbeneath b hb).imp id fun hlt => .inr ⟨c.secret, n, hnumbered, hlt⟩
  · rw [hproduced, List.mem_append, List.mem_singleton] at hbody
    rcases hbody with hbody | rfl
    · exact hspeaks.made_mono hsuffix hreaching hbody
    · rw [hbytes]
      exact .inr ⟨c, hc.secret, hm.imp And.left fun hm => ⟨n, hm, hc⟩⟩
  · cases hnext.symm.trans hy
    refine ⟨c, n + 1, hsends, hc, fun body hbody => ?_⟩
    rw [hproduced, List.mem_append, List.mem_singleton] at hbody
    rcases hbody with hbody | rfl
    · exact (hbeneath body hbody).imp id fun hlt => hlt.le n.le_succ
    · rw [hbytes]
      exact .inr hnumbered.beneath_succ

theorem Speaks.took {bodyB64 : JsString} {newDhs : S.X25519Secret} {plaintext : Bytes}
    {next : RatchetState S} {createdAt : JsString}
    (htook : Took dir s t q ⟨(dir.who p).userId, bodyB64⟩ newDhs p plaintext next)
    (hguard : Replays s (.present q ⟨(dir.who p).userId, bodyB64⟩ createdAt newDhs)) :
    Speaks dir t p q := by
  have hreaching (c : Chain S) (hc : Reaching dir s p q c) : Reaching dir t p q c :=
    hc.kept hsuffix haccepted fun y hy _ => ⟨y, hsession ▸ hy, rfl⟩
  have hnext : (t.device q).loadSession (dir.who p).userId = some next := by
    rw [htook.writes, if_pos ⟨rfl, rfl⟩]
  obtain ⟨hfresh, p', body, hbody, he⟩ := hguard
  have he : Base64.base64ToBytes bodyB64 = Base64.base64ToBytes body := he
  obtain rfl := sender_eq hS (he ▸ hinv.made p' body hbody) htook.decoded
  have hused : t.used q = newDhs :: s.used q := by rw [htook.used, Function.update_self]
  -- the next chain of the contact is the one it had, or one on its new secret
  have hchain : (∃ y, (s.device q).loadSession (dir.who p').userId = some y ∧
      ∀ c n, Sends y c n → Sends next c n) ∨ ∃ f : Chain S, f.secret = newDhs ∧
        f.peer ∈ s.used p' ∧ Sends next f 0 := by
    obtain ⟨c, hc, ⟨n, hm⟩ | hm⟩ := hinv.made p' body hbody
    · obtain ⟨y, hy, ⟨ck, -, -, rfl⟩ | ⟨g, f, -, -, hf1, hf2, -, rfl⟩⟩ :=
        htook.ratchet hS (he ▸ hm)
      · exact .inl ⟨y, hy, fun c n hsends => ⟨hsends.1, hsends.2, hsends.3, hsends.4⟩⟩
      · exact .inr ⟨f, hf1, hf2 ▸ hc, ⟨rfl, rfl, rfl, rfl⟩⟩
    · obtain ⟨g, f, -, -, hf1, hf2, rfl⟩ := htook.handshake hS (he ▸ hm)
      exact .inr ⟨f, hf1, hf2 ▸ hc, ⟨rfl, rfl, rfl, rfl⟩⟩
  have hproduced : t.produced q = s.produced q := by rw [htook.produced]
  refine ⟨?_, fun body hbody => ?_, fun {y} hy => ?_⟩
  · rw [hproduced]
    exact hspeaks.sent_mono hsuffix
  · exact hspeaks.made_mono hsuffix hreaching (hproduced ▸ hbody)
  · cases hnext.symm.trans hy
    rw [hproduced]
    rcases hchain with ⟨y, hy, hsame⟩ | ⟨f, hf, hpeer, hsends⟩
    · obtain ⟨c, n, hsends, hreach, hbeneath⟩ := hspeaks.sends hy
      exact ⟨c, n, hsame c n hsends, hreaching c hreach, fun body hbody =>
        (hbeneath body hbody).imp id (Beneath.mono (hsuffix q) hreach.secret)⟩
    · obtain ⟨hreach, hbeneath⟩ := hspeaks.fresh hinv h hcontact (hf ▸ hused)
        (hf ▸ hfresh q) ((hsuffix p').subset hpeer) haccepted
      exact ⟨f, 0, hsends, hreach, fun body hbody => hbeneath body hbody 0⟩

end speaker

end turns

/-! ### A whole run -/

omit [DecidableEq ι] in
theorem ordered_start : Speaks dir (start dir) p q ∧ Hears dir (start dir) p q where
  left := {
    sent := by simp [start]
    made body h := by simp [start] at h
    sends hy := by cases hy }
  right := {
    log := by simp [start]
    known e h := by simp [start] at h
    receives hy := by cases hy }

section run
variable (hS : S.Ideal) (hpq : dir.contact p (dir.who q).userId = some q)
  (hqp : dir.contact q (dir.who p).userId = some p)
include hS hpq hqp

theorem Hears.step (hinv : Inv dir s) (hspeaks : Speaks dir s p q) (h : Hears dir s p q)
    {action : Action S ι} (hguard : Replays s action) (he : step dir s action = some t)
    (hopening : ∀ e ∈ (t.accepted p (dir.who q).userId).tail, ¬ Opening e) :
    Speaks dir t p q ∧ Hears dir t p q := by
  have hsuffix := step_suffix he
  have hne : q ≠ p := dir.contact_ne hpq
  cases step_turn hS hinv hpq he with
  | rest session produced accepted =>
    have hears : Hears dir t p q := h.kept hsuffix accepted fun y ck hy hck => ⟨y, session ▸ hy, hck⟩
    refine ⟨?_, hears⟩
    cases step_turn hS hinv hqp he with
    | rest session' produced' accepted' =>
      refine hspeaks.kept hsuffix (fun c hc => ?_) session' produced'
      exact hc.kept hsuffix accepted fun y hy _ => ⟨y, session ▸ hy, rfl⟩
    | wrote hwrote =>
      exact hspeaks.wrote hS hinv hsuffix h hpq session accepted (hguard q) hwrote
    | took htook => exact hspeaks.took hS hinv hsuffix h hpq session accepted htook hguard
  | wrote hwrote =>
    obtain ⟨hears, hreaching⟩ := h.wrote hS hinv hsuffix (hguard p) hwrote
    refine ⟨hspeaks.kept hsuffix hreaching ?_ (.inl ?_), hears⟩
    · rw [hwrote.writes, if_neg fun hpv => hne hpv.1]
    · rw [hwrote.produced, Function.update_of_ne hne]
  | took htook =>
    rename_i bodyB64 createdAt newDhs plaintext next
    have hfirst : Opening (Base64.base64ToBytes bodyB64) →
        s.accepted p (dir.who q).userId = [] := by
      intro hopens
      by_contra hlog
      refine hopening (Base64.base64ToBytes bodyB64) ?_ hopens
      rw [htook.accepted, Function.update_self, Function.update_self,
        List.tail_append_of_ne_nil hlog]
      exact List.mem_append_right _ (List.mem_singleton_self _)
    obtain ⟨hears, hreaching⟩ := h.took hS hinv hsuffix hspeaks htook hguard hfirst
    refine ⟨hspeaks.kept hsuffix hreaching ?_ (.inl ?_), hears⟩
    · rw [htook.writes, if_neg fun hpv => hne hpv.1]
    · rw [htook.produced]

theorem ordered_of_reach (h : (machine dir).Reach Replays s)
    (hopening : ∀ e ∈ (s.accepted p (dir.who q).userId).tail, ¬ Opening e) :
    Speaks dir s p q ∧ Hears dir s p q := by
  have hall : (∀ e ∈ (s.accepted p (dir.who q).userId).tail, ¬ Opening e) →
      Speaks dir s p q ∧ Hears dir s p q := by
    refine h.invariant_of (I := fun s => (∀ e ∈ (s.accepted p (dir.who q).userId).tail,
      ¬ Opening e) → Speaks dir s p q ∧ Hears dir s p q) (fun _ hr => inv_of_reach hS hr) ?_ ?_
    · rintro _ rfl -
      exact ordered_start
    · intro s action t hinv hi hguard he hopening
      have htail : (s.accepted p (dir.who q).userId).tail ⊆
          (t.accepted p (dir.who q).userId).tail := by
        rw [← List.drop_one, ← List.drop_one]
        exact ((step_extends he p (dir.who q).userId).drop 1).subset
      obtain ⟨hspeaks, hears⟩ := hi fun e hmem => hopening e (htail hmem)
      exact hears.step hS hpq hqp hinv hspeaks hguard he hopening
  exact hall hopening

/-- What was accepted is a part of what the contact produced, in its order. -/
theorem accepted_sublist (h : (machine dir).Reach Replays s)
    (hopening : ∀ e ∈ (s.accepted p (dir.who q).userId).tail, ¬ Opening e) :
    (s.accepted p (dir.who q).userId).Sublist ((s.produced q).map Base64.base64ToBytes) := by
  classical
  obtain ⟨hspeaks, hears⟩ := ordered_of_reach hS hpq hqp h hopening
  let addressed := ((s.produced q).map Base64.base64ToBytes).filter fun e => ¬ Elsewhere dir p q e
  have hsorted : addressed.Pairwise (Before dir s q) := by
    refine List.pairwise_filter.mpr (List.pairwise_map.mpr (hspeaks.sent.imp fun hor hb hb' => ?_))
    exact (hor.resolve_left (of_decide_eq_true hb)).resolve_left (of_decide_eq_true hb')
  have hsub : s.accepted p (dir.who q).userId ⊆ addressed := by
    intro e he
    obtain ⟨q', hq', body, hbody, rfl⟩ := (inv_of_reach hS h).known e he
    cases hpq.symm.trans hq'
    exact List.mem_filter.mpr ⟨List.mem_map_of_mem hbody, decide_eq_true (hears.known _ he)⟩
  exact (sublist_of_pairwise (fun e e' => Before.asymm hS) hears.log hsorted hsub).trans
    List.filter_sublist

end run

end Epistl.Network
