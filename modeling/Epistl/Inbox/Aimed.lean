import Epistl.Inbox.Turns

/-! # Which chains a device has with a contact

The chains of a session join secrets of the device to secrets of the contact that it has heard
of: the identity secret, and those of the envelopes it has accepted. So does every chain that
an envelope was made on.
-/
namespace Epistl.Network
variable {S : Suite} {ι : Type} {dir : Directory S ι} {p q : ι} {s t : Network S ι}
  {envelope : Bytes} {y : RatchetState S} {a : S.X25519Secret}

/-- A secret of `q` that `p` has heard of. -/
def Aware (dir : Directory S ι) (s : Network S ι) (p q : ι) (a : S.X25519Secret) : Prop :=
  a = (dir.who q).x25519SecretKey ∨
    ∃ e ∈ s.accepted p (dir.who q).userId, slice e 1 33 = S.x25519PublicKey a

structure Joined (dir : Directory S ι) (s : Network S ι) (p q : ι) (y : RatchetState S) :
    Prop where
  sends : ∃ e n, Sends y e n ∧ Aware dir s p q e.peer
  receives (ck : S.ChainKey) : y.receivingChainKey = some ck →
    ∃ r k, ck = Chain.key r k ∧ r.secret ∈ s.used p ∧ Aware dir s p q r.peer

/-- An envelope of `q` with the chain it was sent on. -/
def MadeOn (dir : Directory S ι) (s : Network S ι) (q : ι) (envelope : Bytes) : Prop :=
  (∃ c : Chain S, c.secret ∈ s.used q ∧ MadeHandshake (dir.who q) c envelope) ∨
    ∃ (e : Chain S) (n : ℕ) (r : ι), e.secret ∈ s.used q ∧
      dir.contact q (dir.who r).userId = some r ∧ Aware dir s q r e.peer ∧
      MadeRatchet (dir.who q) e n envelope

structure Aimed (dir : Directory S ι) (s : Network S ι) : Prop where
  session {p q : ι} {y : RatchetState S} : dir.contact p (dir.who q).userId = some q →
    (s.device p).loadSession (dir.who q).userId = some y → Joined dir s p q y
  made (q : ι) : ∀ body ∈ s.produced q, MadeOn dir s q (Base64.base64ToBytes body)

/-- What a device has heard of was generated by the contact. -/
theorem Aware.mem_used (hS : S.Ideal) (hinv : Inv dir s)
    (hcontact : dir.contact p (dir.who q).userId = some q) (h : Aware dir s p q a) :
    a ∈ s.used q := by
  rcases h with rfl | ⟨e, he, hslice⟩
  · exact hinv.identity q
  · obtain ⟨q', hq', body, hbody, rfl⟩ := hinv.known e he
    cases hcontact.symm.trans hq'
    obtain ⟨b, hb, hslice'⟩ := (hinv.made q body hbody).secret hS
    exact hS.x25519PublicKey_injective (hslice.symm.trans hslice') ▸ hb

theorem aimed_start : Aimed dir (start dir) where
  session _ hy := by cases hy
  made q body h := by simp [start] at h

section mono
variable (hused : ∀ r, s.used r ⊆ t.used r) (haccepted : ∀ r v, s.accepted r v ⊆ t.accepted r v)
include haccepted

theorem Aware.mono (h : Aware dir s p q a) : Aware dir t p q a := by
  rcases h with h | ⟨e, he, hslice⟩
  · exact .inl h
  · exact .inr ⟨e, haccepted _ _ he, hslice⟩

include hused

theorem Joined.mono (h : Joined dir s p q y) : Joined dir t p q y where
  sends := by
    obtain ⟨e, n, hsends, hpeer⟩ := h.sends
    exact ⟨e, n, hsends, hpeer.mono haccepted⟩
  receives ck hck := by
    obtain ⟨r, k, hr, hsecret, hpeer⟩ := h.receives ck hck
    exact ⟨r, k, hr, hused p hsecret, hpeer.mono haccepted⟩

theorem MadeOn.mono (h : MadeOn dir s q envelope) : MadeOn dir t q envelope := by
  rcases h with ⟨c, hc, hm⟩ | ⟨e, n, r, he, hcontact, hpeer, hm⟩
  · exact .inl ⟨c, hused q hc, hm⟩
  · exact .inr ⟨e, n, r, hused q he, hcontact, hpeer.mono haccepted, hm⟩

end mono

variable [DecidableEq ι]

theorem step_extends {action : Action S ι} (he : step dir s action = some t) (r : ι)
    (v : JsString) : s.accepted r v <+: t.accepted r v := by
  cases action with
  | send p userId connected draft createdAt random =>
    rcases step_wrote he with rfl | ⟨q, envelope, next, h⟩
    · exact List.prefix_rfl
    · rw [h.accepted]
  | present p frame createdAt newDhs =>
    obtain ⟨-, -, ⟨haccepted, -⟩ | ⟨q, plaintext, next, h⟩⟩ := step_took he
    · rw [haccepted]
    · rw [h.accepted, Function.update_apply]
      split
      · rename_i hr
        rw [Function.update_apply, hr]
        split
        · rename_i hv
          rw [hv]
          exact List.prefix_append _ _
        · exact List.prefix_rfl
      · exact List.prefix_rfl

theorem step_accepted {action : Action S ι} (he : step dir s action = some t) (r : ι)
    (v : JsString) : s.accepted r v ⊆ t.accepted r v :=
  (step_extends he r v).subset

section step
variable {action : Action S ι} (hS : S.Ideal) (hinv : Inv dir s) (h : Aimed dir s)
  (he : step dir s action = some t)
include hS hinv h he

/-- What a session of the contact was accepted on is heard of. -/
theorem Aimed.session_step (hguard : Replays s action)
    (hcontact : dir.contact p (dir.who q).userId = some q)
    (hy : (t.device p).loadSession (dir.who q).userId = some y) : Joined dir t p q y := by
  have hused := step_used he
  have haccepted := step_accepted he
  cases step_turn hS hinv hcontact he with
  | rest session produced accepted =>
    exact (h.session hcontact (session ▸ hy)).mono hused haccepted
  | wrote hwrote =>
    rename_i random envelope next
    rw [hwrote.writes, if_pos ⟨rfl, rfl⟩] at hy
    cases hy
    rcases hwrote.made hS with ⟨-, c, hc, hpeer, -, -, rfl⟩ | ⟨y, hy, hon⟩
    · exact ⟨⟨c, 1, ⟨rfl, rfl, rfl, rfl⟩, .inl hpeer⟩, fun ck hck => by cases hck⟩
    · obtain ⟨e, n, hsends, hpeer⟩ := (h.session hcontact hy).sends
      obtain ⟨-, -, rfl, hsends'⟩ := hon e n hsends
      have hjoined := (h.session hcontact hy).mono hused haccepted
      exact ⟨⟨e, n + 1, hsends', hpeer.mono haccepted⟩, hjoined.receives⟩
  | took htook =>
    rename_i bodyB64 createdAt newDhs plaintext next
    rw [htook.writes, if_pos ⟨rfl, rfl⟩] at hy
    cases hy
    have hmem : Base64.base64ToBytes bodyB64 ∈ t.accepted p (dir.who q).userId := by
      rw [htook.accepted, Function.update_self, Function.update_self]
      exact List.mem_append_right _ (List.mem_singleton_self _)
    obtain ⟨-, r, body, hbody, heq⟩ := hguard
    obtain ⟨c, hc, hmade⟩ := heq ▸ hinv.made r body hbody
    obtain rfl := sender_eq hS ⟨c, hc, hmade⟩ htook.decoded
    have hheard {a : S.X25519Secret} (ha : a = c.secret) : Aware dir t p r a := by
      refine .inr ⟨_, hmem, ?_⟩
      rw [ha]
      rcases hmade with ⟨n, hm⟩ | hm
      · exact slice_madeRatchet hS hm
      · exact slice_madeHandshake hS hm
    rcases hmade with ⟨n, hm⟩ | hm
    · obtain ⟨y, hy, ⟨ck, hck, -, rfl⟩ | ⟨g, f, hg1, hg2, -, hf2, -, rfl⟩⟩ := htook.ratchet hS hm
      · obtain ⟨⟨e, m, hsends, hpeer⟩, hreceives⟩ := h.session hcontact hy
        refine ⟨⟨e, m, ⟨hsends.1, hsends.2, hsends.3, hsends.4⟩, hpeer.mono haccepted⟩,
          fun ck' hck' => ?_⟩
        obtain ⟨g, k, rfl, hg, hgpeer⟩ := hreceives ck hck
        exact ⟨g, k + 1, (Option.some.inj hck').symm, hused p hg, hgpeer.mono haccepted⟩
      · have hdhs := ((hinv.tracked hcontact).ready y hy).dhs
        refine ⟨⟨f, 0, ⟨rfl, rfl, rfl, rfl⟩, hheard hf2⟩, fun ck hck => ?_⟩
        exact ⟨g, 1, (Option.some.inj hck).symm, hg1 ▸ hused p hdhs, hheard hg2⟩
    · obtain ⟨g, f, hg1, hg2, -, hf2, rfl⟩ := htook.handshake hS hm
      refine ⟨⟨f, 0, ⟨rfl, rfl, rfl, rfl⟩, hheard hf2⟩, fun ck hck => ?_⟩
      exact ⟨g, 1, (Option.some.inj hck).symm, hg1 ▸ hused p (hinv.identity p), hheard hg2⟩

theorem Aimed.made_step (q : ι) :
    ∀ body ∈ t.produced q, MadeOn dir t q (Base64.base64ToBytes body) := by
  have hused := step_used he
  have haccepted := step_accepted he
  have hold : ∀ body ∈ s.produced q, MadeOn dir t q (Base64.base64ToBytes body) :=
    fun body hbody => (h.made q body hbody).mono hused haccepted
  cases action with
  | present p frame createdAt newDhs => rwa [(step_took he).1]
  | send p userId connected draft createdAt random =>
    rcases step_wrote he with rfl | ⟨r, envelope, next, hwrote⟩
    · exact hold
    intro body hbody
    rw [hwrote.produced, Function.update_apply] at hbody
    split at hbody
    · rename_i hq
      subst hq
      rcases List.mem_append.mp hbody with hbody | hbody
      · exact hold body hbody
      · cases List.mem_singleton.mp hbody
        rw [Base64.base64ToBytes_bytesToBase64]
        obtain rfl := dir.contact_userId hwrote.contact
        rcases hwrote.made hS with ⟨-, c, hc, -, hm, -, -⟩ | ⟨y, hy, hon⟩
        · refine .inl ⟨c, ?_, hm⟩
          rw [hwrote.used, Function.update_self, hc]
          exact List.mem_cons_self
        · obtain ⟨e, n, hsends, hpeer⟩ := (h.session hwrote.contact hy).sends
          have hdhs := ((hinv.tracked hwrote.contact).ready y hy).dhs
          exact .inr ⟨e, n, r, hused q (hsends.secret ▸ hdhs), hwrote.contact,
            hpeer.mono haccepted, (hon e n hsends).1⟩
    · exact hold body hbody

end step

theorem aimed_of_reach (hS : S.Ideal) (h : (machine dir).Reach Replays s) : Aimed dir s := by
  refine h.invariant_of (fun _ hr => inv_of_reach hS hr) ?_ ?_
  · rintro _ rfl
    exact aimed_start
  · intro s action t hinv hi hguard he
    exact ⟨hi.session_step hS hinv he hguard, hi.made_step hS hinv he⟩

end Epistl.Network
