import Epistl.Inbox.Turns
import Epistl.Runs.Progress

/-! # A device that can not hear another

One device may send on secrets that the other never heard of, to secrets that the other no
longer listens with. Neither then gets anywhere with what it can still do: the first never goes
back to a secret the other knows, and the second never learns a new one.
-/
namespace Epistl.Network
variable {S : Suite}

/-- The session of a device that listens with none of its `stale` secrets, and sends to and
receives from `heard` secrets of the other one only. -/
structure Listens (own : List S.X25519Secret) (stale heard : S.X25519Secret → Prop)
    (y : RatchetState S) : Prop where
  sends : ∃ e n, Sends y e n ∧ e.secret ∈ own ∧ ¬ stale e.secret ∧ heard e.peer
  receives (ck : S.ChainKey) : y.receivingChainKey = some ck →
    ∃ r k, ck = Chain.key r k ∧ r.secret ∈ own ∧ heard r.peer

theorem Listens.mono {own own' : List S.X25519Secret} {stale heard : S.X25519Secret → Prop}
    {y : RatchetState S} (h : Listens own stale heard y) (hsub : own ⊆ own') :
    Listens own' stale heard y where
  sends := by
    obtain ⟨e, n, hsends, he, hnew, hpeer⟩ := h.sends
    exact ⟨e, n, hsends, hsub he, hnew, hpeer⟩
  receives ck hck := by
    obtain ⟨r, k, hr, hsecret, hpeer⟩ := h.receives ck hck
    exact ⟨r, k, hr, hsub hsecret, hpeer⟩

/-- Message `n` of a chain that is not heard: the secret of the chain is not, and its peer is
stale, or the first message on it is over. -/
structure Misses (stale heard : S.X25519Secret → Prop) (c : Chain S) (n : ℕ) : Prop where
  secret : ¬ heard c.secret
  peer : stale c.peer ∨ 0 < n

theorem Misses.succ {stale heard : S.X25519Secret → Prop} {c : Chain S} {n : ℕ}
    (h : Misses stale heard c n) : Misses stale heard c (n + 1) :=
  ⟨h.secret, .inr n.succ_pos⟩

variable {ι : Type} {dir : Directory S ι} {a b : ι} {s t u : Network S ι}
  {used used' : ι → List S.X25519Secret} {stale heard : S.X25519Secret → Prop}
  {withheld : ι → Bytes → Prop} {old : List JsString} {log : List Bytes}
  {envelope plaintext : Bytes} {newDhs : S.X25519Secret} {next : RatchetState S}

/-- An envelope of `b` that leaves `a` deaf when it is accepted. -/
def Earlier (dir : Directory S ι) (used : ι → List S.X25519Secret) (a b : ι)
    (stale heard : S.X25519Secret → Prop) (envelope : Bytes) : Prop :=
  (∃ c : Chain S, MadeHandshake (dir.who b) c envelope ∧ heard c.secret) ∨
    ∃ (c : Chain S) (n : ℕ), MadeRatchet (dir.who b) c n envelope ∧ c.secret ∈ used b ∧
      (heard c.secret ∨ stale c.peer ∨ 0 < n ∨ ∃ r, r ≠ a ∧ c.peer ∈ used r)

/-- An envelope of `b` that `a` does not accept. -/
def Later (dir : Directory S ι) (used : ι → List S.X25519Secret) (a b : ι)
    (stale heard : S.X25519Secret → Prop) (envelope : Bytes) : Prop :=
  (∃ userId, userId ≠ (dir.who a).userId ∧ EncodedFor (dir.who b) userId envelope) ∨
    ∃ (c : Chain S) (n : ℕ), MadeRatchet (dir.who b) c n envelope ∧ c.secret ∈ used b ∧
      Misses stale heard c n

/-- An envelope of `a` after which `b` sends to a stale secret, if it is accepted at all. -/
def Answer (dir : Directory S ι) (used : ι → List S.X25519Secret) (a b : ι)
    (stale heard : S.X25519Secret → Prop) (envelope : Bytes) : Prop :=
  (∃ userId, userId ≠ (dir.who b).userId ∧ EncodedFor (dir.who a) userId envelope) ∨
    (∃ e : Chain S, MadeHandshake (dir.who a) e envelope ∧ stale e.secret) ∨
    ∃ (e : Chain S) (n : ℕ), MadeRatchet (dir.who a) e n envelope ∧ e.secret ∈ used a ∧
      (stale e.secret ∨ heard e.peer ∨ ∃ r, r ≠ b ∧ e.peer ∈ used r)

/-- `a` hears nothing of what `b` has produced beyond `old`. -/
structure Deaf (dir : Directory S ι) (a b : ι) (stale heard : S.X25519Secret → Prop)
    (withheld : ι → Bytes → Prop) (old : List JsString) (log : List Bytes) (s : Network S ι) :
    Prop where
  stale_used : ∀ x, stale x → x ∈ s.used a
  heard_used : ∀ x, heard x → x ∈ s.used b
  listens : ∃ y, (s.device a).loadSession (dir.who b).userId = some y ∧
    Listens (s.used a) stale heard y
  speaks : ∃ y, (s.device b).loadSession (dir.who a).userId = some y ∧
    ∃ c n, Sends y c n ∧ c.secret ∈ s.used b ∧ Misses stale heard c n
  answers : ∀ body ∈ s.produced a, ¬ withheld b (Base64.base64ToBytes body) →
    Answer dir s.used a b stale heard (Base64.base64ToBytes body)
  earlier : ∀ body ∈ old, ¬ withheld a (Base64.base64ToBytes body) →
    Earlier dir s.used a b stale heard (Base64.base64ToBytes body)
  later : ∀ body ∈ s.produced b, body ∈ old ∨
    Later dir s.used a b stale heard (Base64.base64ToBytes body)
  accepted : ∃ more, s.accepted a (dir.who b).userId = log ++ more ∧
    ∀ e ∈ more, ∃ body ∈ old, Base64.base64ToBytes body = e

theorem Earlier.mono (h : Earlier dir used a b stale heard envelope)
    (hsub : ∀ r, used r ⊆ used' r) : Earlier dir used' a b stale heard envelope := by
  rcases h with h | ⟨c, n, hm, hc, hcases⟩
  · exact .inl h
  · refine .inr ⟨c, n, hm, hsub b hc, hcases.imp id (Or.imp id (Or.imp id ?_))⟩
    rintro ⟨r, hr, hpeer⟩
    exact ⟨r, hr, hsub r hpeer⟩

theorem Later.mono (h : Later dir used a b stale heard envelope)
    (hsub : ∀ r, used r ⊆ used' r) : Later dir used' a b stale heard envelope := by
  rcases h with h | ⟨c, n, hm, hc, hmisses⟩
  · exact .inl h
  · exact .inr ⟨c, n, hm, hsub b hc, hmisses⟩

theorem Answer.mono (h : Answer dir used a b stale heard envelope)
    (hsub : ∀ r, used r ⊆ used' r) : Answer dir used' a b stale heard envelope := by
  rcases h with h | h | ⟨e, n, hm, he, hcases⟩
  · exact .inl h
  · exact .inr (.inl h)
  · refine .inr (.inr ⟨e, n, hm, hsub a he, hcases.imp id (Or.imp id ?_)⟩)
    rintro ⟨r, hr, hpeer⟩
    exact ⟨r, hr, hsub r hpeer⟩

variable [DecidableEq ι]

/-- The relay presents nothing that is withheld from a device. -/
def Withholds (withheld : ι → Bytes → Prop) (s : Network S ι) (action : Action S ι) : Prop :=
  Replays s action ∧ ∀ p frame createdAt newDhs, action = .present p frame createdAt newDhs →
    ¬ withheld p (Base64.base64ToBytes frame.bodyB64)

section took
variable {bodyB64 : JsString} (hS : S.Ideal) (hinv : Inv dir s)
include hS hinv

section listener
variable {y : RatchetState S} (h : Listens (s.used a) stale heard y)
  (hy : (s.device a).loadSession (dir.who b).userId = some y)
  (htook : Took dir s t a ⟨(dir.who b).userId, bodyB64⟩ newDhs b plaintext next)
include h hy htook

theorem Listens.not_later
    (hlater : Later dir s.used a b stale heard (Base64.base64ToBytes bodyB64)) : False := by
  have hne : a ≠ b := (dir.contact_ne htook.contact).symm
  rcases hlater with ⟨userId, hother, hfor⟩ | ⟨c, n, hm, hc, hmisses⟩
  · exact hother (htook.not_encodedFor hS hfor)
  · obtain ⟨y', hy', hcases⟩ := htook.ratchet hS hm
    cases hy'.symm.trans hy
    rcases hcases with ⟨ck, hck, hkey, -⟩ | ⟨g, f, hg1, hg2, -, -, hkey, -⟩
    · obtain ⟨r, k, rfl, hr, hheard⟩ := h.receives ck hck
      obtain ⟨hsecret, -⟩ := hinv.joins hS hne (g := r) (j := k) hkey hc hr
      exact hmisses.secret (hsecret ▸ hheard)
    · obtain ⟨e, m, hsends, hown, hlistens, -⟩ := h.sends
      have hsecret : g.secret = e.secret := hg1.trans hsends.secret
      obtain ⟨-, hpeer⟩ := hinv.joins hS hne hkey hc (hsecret ▸ hown)
      rcases hmisses.peer with hstale | hpos
      · exact hlistens (hsecret ▸ hpeer ▸ hstale)
      · obtain ⟨rfl, -⟩ := Chain.messageKey_injective hS hkey
        exact Nat.lt_irrefl 0 hpos

theorem Listens.took_earlier (hfresh : ¬ stale newDhs)
    (hearlier : Earlier dir s.used a b stale heard (Base64.base64ToBytes bodyB64)) :
    Listens (newDhs :: s.used a) stale heard next := by
  have hne : a ≠ b := (dir.contact_ne htook.contact).symm
  have hnew : newDhs ∈ newDhs :: s.used a := List.mem_cons_self
  have hsub : s.used a ⊆ newDhs :: s.used a := fun x => List.mem_cons_of_mem newDhs
  rcases hearlier with ⟨c, hm, hc⟩ | ⟨c, n, hm, hc, hjoin⟩
  · obtain ⟨g, f, hg1, hg2, hf1, hf2, rfl⟩ := htook.handshake hS hm
    have hsends : Sends (ratchetedTo c.publicKey g f 0) f 0 := ⟨rfl, rfl, rfl, rfl⟩
    refine ⟨⟨f, 0, hsends, hf1 ▸ hnew, hf1 ▸ hfresh, hf2 ▸ hc⟩, fun ck hck => ?_⟩
    exact ⟨g, 1, (Option.some.inj hck).symm, hg1 ▸ hsub (hinv.identity a), hg2 ▸ hc⟩
  · obtain ⟨e, m, hsends, hown, hlistens, hpeer⟩ := h.sends
    obtain ⟨y', hy', hcases⟩ := htook.ratchet hS hm
    cases hy'.symm.trans hy
    rcases hcases with ⟨ck, hck, -, rfl⟩ | ⟨g, f, hg1, hg2, hf1, hf2, hkey, rfl⟩
    · have hsends : Sends { y with
          receivingChainKey := some (nextChainKey ck)
          receiveMessageNumber := y.receiveMessageNumber + 1 } e m :=
        ⟨hsends.1, hsends.2, hsends.3, hsends.4⟩
      refine ⟨⟨e, m, hsends, hsub hown, hlistens, hpeer⟩, fun ck' hck' => ?_⟩
      obtain ⟨r, k, rfl, hr, hheard⟩ := h.receives ck hck
      exact ⟨r, k + 1, (Option.some.inj hck').symm, hsub hr, hheard⟩
    · have hsecret : g.secret = e.secret := hg1.trans hsends.secret
      obtain ⟨-, heq⟩ := hinv.joins hS hne hkey hc (hsecret ▸ hown)
      rw [hsecret] at heq
      have hheard : heard c.secret := by
        rcases hjoin with hjoin | hjoin | hjoin | ⟨r, hr, hjoin⟩
        · exact hjoin
        · exact absurd (heq ▸ hjoin) hlistens
        · obtain ⟨rfl, -⟩ := Chain.messageKey_injective hS hkey
          exact absurd hjoin (Nat.lt_irrefl 0)
        · exact absurd (hinv.disjoint hown (heq ▸ hjoin)).symm hr
      have hsends' : Sends (ratchetedTo c.publicKey g f y.sendMessageNumber) f 0 :=
        ⟨rfl, rfl, rfl, rfl⟩
      refine ⟨⟨f, 0, hsends', hf1 ▸ hnew, hf1 ▸ hfresh, hf2 ▸ hheard⟩, fun ck hck => ?_⟩
      exact ⟨g, 1, (Option.some.inj hck).symm, hsub (hsecret ▸ hown), hg2 ▸ hheard⟩

end listener

/-- The speaker goes on with a chain to a stale secret, or with the chain it has. -/
theorem Misses.took_answer {y : RatchetState S} {c : Chain S} {n : ℕ} (hsends : Sends y c n)
    (hown : c.secret ∈ s.used b) (h : Misses stale heard c n)
    (hy : (s.device b).loadSession (dir.who a).userId = some y)
    (htook : Took dir s t b ⟨(dir.who a).userId, bodyB64⟩ newDhs a plaintext next)
    (hfresh : ¬ heard newDhs)
    (hanswer : Answer dir s.used a b stale heard (Base64.base64ToBytes bodyB64)) :
    ∃ c n, Sends next c n ∧ c.secret ∈ newDhs :: s.used b ∧ Misses stale heard c n := by
  have hne : b ≠ a := (dir.contact_ne htook.contact).symm
  have hnew : newDhs ∈ newDhs :: s.used b := List.mem_cons_self
  rcases hanswer with ⟨userId, hother, hfor⟩ | ⟨e, hm, he⟩ | ⟨e, m, hm, he, hjoin⟩
  · exact absurd (htook.not_encodedFor hS hfor) hother
  · obtain ⟨g, f, -, -, hf1, hf2, rfl⟩ := htook.handshake hS hm
    exact ⟨f, 0, ⟨rfl, rfl, rfl, rfl⟩, hf1 ▸ hnew, hf1 ▸ hfresh, .inl (hf2 ▸ he)⟩
  · obtain ⟨y', hy', hcases⟩ := htook.ratchet hS hm
    cases hy'.symm.trans hy
    rcases hcases with ⟨ck, -, -, rfl⟩ | ⟨g, f, hg1, hg2, hf1, hf2, hkey, rfl⟩
    · exact ⟨c, n, ⟨hsends.1, hsends.2, hsends.3, hsends.4⟩, List.mem_cons_of_mem _ hown, h⟩
    · have hsecret : g.secret = c.secret := hg1.trans hsends.secret
      obtain ⟨-, heq⟩ := hinv.joins hS hne hkey he (hsecret ▸ hown)
      rw [hsecret] at heq
      have hstale : stale e.secret := by
        rcases hjoin with hjoin | hjoin | ⟨r, hr, hjoin⟩
        · exact hjoin
        · exact absurd (heq ▸ hjoin) h.secret
        · exact absurd (hinv.disjoint hown (heq ▸ hjoin)).symm hr
      exact ⟨f, 0, ⟨rfl, rfl, rfl, rfl⟩, hf1 ▸ hnew, hf1 ▸ hfresh, .inl (hf2 ▸ hstale)⟩

end took

section step
variable {action : Action S ι} (hS : S.Ideal) (hinv : Inv dir s)
  (h : Deaf dir a b stale heard withheld old log s) (hguard : Withholds withheld s action)
  (hsub : ∀ r, s.used r ⊆ t.used r)
include hS hinv h hguard hsub

/-- The side of the listener after a step. -/
theorem Deaf.listener (hturn : Turn dir s t a b action) :
    (∃ y, (t.device a).loadSession (dir.who b).userId = some y ∧
      Listens (t.used a) stale heard y) ∧
    (∀ body ∈ t.produced a, body ∈ s.produced a ∨
      Answer dir t.used a b stale heard (Base64.base64ToBytes body)) ∧
    ∃ more, t.accepted a (dir.who b).userId = log ++ more ∧
      ∀ e ∈ more, ∃ body ∈ old, Base64.base64ToBytes body = e := by
  obtain ⟨y, hy, hlistens⟩ := h.listens
  cases hturn with
  | rest session produced accepted =>
    refine ⟨⟨y, session.trans hy, hlistens.mono (hsub a)⟩, fun body hbody => ?_,
      accepted ▸ h.accepted⟩
    exact (mem_of_rest produced hbody).imp id .inl
  | wrote hwrote =>
    rename_i envelope next
    rcases hwrote.made hS with ⟨hnone, -⟩ | ⟨y', hy', hon⟩
    · cases hnone.symm.trans hy
    cases hy'.symm.trans hy
    obtain ⟨e, n, hsends, hown, hstale, hheard⟩ := hlistens.sends
    obtain ⟨hm, -, rfl, hsends'⟩ := hon e n hsends
    refine ⟨⟨sentOn y e, by rw [hwrote.writes, if_pos ⟨rfl, rfl⟩], ?_⟩, fun body hbody => ?_,
      hwrote.accepted ▸ h.accepted⟩
    · exact ⟨⟨e, n + 1, hsends', hsub a hown, hstale, hheard⟩,
        (hlistens.mono (hsub a)).receives⟩
    · rw [hwrote.produced, Function.update_self, List.mem_append, List.mem_singleton] at hbody
      rcases hbody with hbody | rfl
      · exact .inl hbody
      · rw [Base64.base64ToBytes_bytesToBase64]
        exact .inr (.inr (.inr ⟨e, n, hm, hsub a hown, .inr (.inl hheard)⟩))
  | took htook =>
    rename_i bodyB64 createdAt newDhs plaintext next
    obtain ⟨⟨hfresh, r, body, hbody, he⟩, hwithheld⟩ := hguard
    have hheld := hwithheld a _ createdAt newDhs rfl
    obtain rfl := sender_eq hS (he ▸ hinv.made r body hbody) htook.decoded
    rcases h.later body hbody with hold | hlater
    · have hearlier := h.earlier body hold (he ▸ hheld)
      have hown : t.used a = newDhs :: s.used a := by rw [htook.used, Function.update_self]
      refine ⟨⟨next, by rw [htook.writes, if_pos ⟨rfl, rfl⟩], hown ▸ ?_⟩,
        fun body hbody => .inl (htook.produced ▸ hbody), ?_⟩
      · exact hlistens.took_earlier hS hinv hy htook
          (fun hstale => hfresh a (h.stale_used newDhs hstale)) (he ▸ hearlier)
      · obtain ⟨more, hmore, hall⟩ := h.accepted
        refine ⟨more ++ [Base64.base64ToBytes bodyB64], ?_, fun e hmem => ?_⟩
        · rw [htook.accepted, Function.update_self, Function.update_self, hmore,
            List.append_assoc]
        · rcases List.mem_append.mp hmem with hmem | hmem
          · exact hall e hmem
          · cases List.mem_singleton.mp hmem
            exact ⟨body, hold, he.symm⟩
    · exact (hlistens.not_later hS hinv hy htook (he ▸ hlater)).elim

/-- The side of the speaker after a step. -/
theorem Deaf.speaker (hturn : Turn dir s t b a action) :
    (∃ y, (t.device b).loadSession (dir.who a).userId = some y ∧
      ∃ c n, Sends y c n ∧ c.secret ∈ t.used b ∧ Misses stale heard c n) ∧
    ∀ body ∈ t.produced b, body ∈ s.produced b ∨
      Later dir t.used a b stale heard (Base64.base64ToBytes body) := by
  obtain ⟨y, hy, c, n, hsends, hown, hmisses⟩ := h.speaks
  cases hturn with
  | rest session produced accepted =>
    refine ⟨⟨y, session.trans hy, c, n, hsends, hsub b hown, hmisses⟩, fun body hbody => ?_⟩
    exact (mem_of_rest produced hbody).imp id .inl
  | wrote hwrote =>
    rename_i envelope next
    rcases hwrote.made hS with ⟨hnone, -⟩ | ⟨y', hy', hon⟩
    · cases hnone.symm.trans hy
    cases hy'.symm.trans hy
    obtain ⟨hm, -, rfl, hsends'⟩ := hon c n hsends
    refine ⟨⟨sentOn y c, by rw [hwrote.writes, if_pos ⟨rfl, rfl⟩], c, n + 1, hsends',
      hsub b hown, hmisses.succ⟩, fun body hbody => ?_⟩
    rw [hwrote.produced, Function.update_self, List.mem_append, List.mem_singleton] at hbody
    rcases hbody with hbody | rfl
    · exact .inl hbody
    · rw [Base64.base64ToBytes_bytesToBase64]
      exact .inr (.inr ⟨c, n, hm, hsub b hown, hmisses⟩)
  | took htook =>
    rename_i bodyB64 createdAt newDhs plaintext next
    obtain ⟨⟨hfresh, r, body, hbody, he⟩, hwithheld⟩ := hguard
    have hheld := hwithheld b _ createdAt newDhs rfl
    obtain rfl := sender_eq hS (he ▸ hinv.made r body hbody) htook.decoded
    have hanswer := h.answers body hbody (he ▸ hheld)
    have hown' : t.used b = newDhs :: s.used b := by rw [htook.used, Function.update_self]
    refine ⟨⟨next, by rw [htook.writes, if_pos ⟨rfl, rfl⟩], hown' ▸ ?_⟩,
      fun body hbody => .inl (htook.produced ▸ hbody)⟩
    exact hmisses.took_answer hS hinv hsends hown hy htook
      (fun hheard => hfresh b (h.heard_used newDhs hheard)) (he ▸ hanswer)

theorem Deaf.step (hab : Turn dir s t a b action) (hba : Turn dir s t b a action) :
    Deaf dir a b stale heard withheld old log t := by
  obtain ⟨hlistens, hanswers, haccepted⟩ := h.listener hS hinv hguard hsub hab
  obtain ⟨hspeaks, hlater⟩ := h.speaker hS hinv hguard hsub hba
  refine ⟨fun x hx => hsub a (h.stale_used x hx), fun x hx => hsub b (h.heard_used x hx),
    hlistens, hspeaks, fun body hbody hheld => ?_,
    fun body hbody hheld => (h.earlier body hbody hheld).mono hsub, fun body hbody => ?_,
    haccepted⟩
  · rcases hanswers body hbody with hbody | hanswer
    · exact (h.answers body hbody hheld).mono hsub
    · exact hanswer
  · rcases hlater body hbody with hbody | hlater
    · exact (h.later body hbody).imp id fun hlater => hlater.mono hsub
    · exact .inr hlater

end step

theorem Deaf.leads (hS : S.Ideal) (ht : (machine dir).Reach Replays t)
    (h : Deaf dir a b stale heard withheld old log t)
    (hab : dir.contact a (dir.who b).userId = some b)
    (hba : dir.contact b (dir.who a).userId = some a)
    (hu : (machine dir).Leads (Withholds withheld) t u) :
    Deaf dir a b stale heard withheld old log u := by
  change ((machine dir).From t).Reach (Withholds withheld) u at hu
  induction hu with
  | init h' =>
    cases h'
    exact h
  | step hv hguard he ih =>
    have hinv := inv_of_reach hS (ht.leads (hv.mono fun _ _ hg => hg.1))
    exact ih.step hS hinv hguard (step_used he) (step_turn hS hinv hab he)
      (step_turn hS hinv hba he)

end Epistl.Network
