import Epistl.Inbox.Severed

/-! # The first message of a chain is lost

A receiver takes a new ratchet key with message 0 of its chain only. When that message is lost,
the receiver never answers on the new key, so the sender stays on the chain, and nothing that
it sends from then on is accepted.
-/
namespace Epistl.Network
variable {S : Suite} {ι : Type} {dir : Directory S ι} {p q : ι} {s t u : Network S ι}
  {x y : RatchetState S} {a : S.X25519Secret}

/-- The first message that `q` made on a secret. -/
def First (dir : Directory S ι) (q : ι) (a : S.X25519Secret) (envelope : Bytes) : Prop :=
  Opens dir q a envelope ∨ ∃ c : Chain S, c.secret = a ∧ MadeRatchet (dir.who q) c 0 envelope

/-- A later message of a chain is not its first. -/
theorem not_first_of_succ (hS : S.Ideal) {c : Chain S} {n : ℕ} {envelope : Bytes}
    (h : MadeRatchet (dir.who q) c (n + 1) envelope) : ¬First dir q a envelope := by
  rintro (⟨c', -, hm⟩ | ⟨c', -, hm⟩)
  · have hhead := h.head.symm.trans hm.head
    exact absurd hhead (by decide)
  · have hkey := (h.sealed hS).unique hS (hm.sealed hS)
    have hnumber := (Chain.messageKey_injective hS hkey).1
    omega

/-- What the first message on a session's secret is withheld for: that it is lost, and with it
the handshake of the other side, if this one still sends on the secret of its handshake. -/
def Lost (dir : Directory S ι) (p q : ι) (x y : RatchetState S) (r : ι) (envelope : Bytes) : Prop :=
  r = p ∧ First dir q y.dhsSecretKey envelope ∨ r = q ∧ Opens dir p x.dhsSecretKey envelope

variable [DecidableEq ι]

section unheard
variable (hS : S.Ideal) (hs : (machine dir).Reach Replays s)
  (hpq : dir.contact p (dir.who q).userId = some q)
  (hqp : dir.contact q (dir.who p).userId = some p)
  (hx : (s.device p).loadSession (dir.who q).userId = some x)
  (hy : (s.device q).loadSession (dir.who p).userId = some y)
  (hunheard : ∀ e ∈ s.accepted p (dir.who q).userId, slice e 1 33 ≠ y.dhsPublicKey)
include hS hs hpq hqp hy hunheard

/-- What `p` has heard of is not the present secret of `q`. -/
theorem Aware.heard (h : Aware dir s p q a) : a ∈ s.used q ∧ a ≠ y.dhsSecretKey := by
  have hinv := inv_of_reach hS hs
  refine ⟨h.mem_used hS hinv hpq, ?_⟩
  have hready := (hinv.tracked hqp).ready y hy
  obtain ⟨f, n, hsends⟩ := hready.sends
  rintro rfl
  rcases h with h | ⟨e, he, hslice⟩
  · exact hready.ne_identity h
  · refine hunheard e he (hslice.trans ?_)
    rw [hsends.publicKey, hsends.secret]
    rfl

include hx

theorem deaf_of_unheard (hsent : 0 < y.sendMessageNumber) :
    Deaf dir p q (fun a => a ∈ s.used p ∧ a ≠ x.dhsSecretKey)
      (fun a => a ∈ s.used q ∧ a ≠ y.dhsSecretKey) (Lost dir p q x y) (s.produced q)
      (s.accepted p (dir.who q).userId) s := by
  have hinv := inv_of_reach hS hs
  have haimed := aimed_of_reach hS hs
  have hheard {a : S.X25519Secret} (h : Aware dir s p q a) := h.heard hS hs hpq hqp hy hunheard
  obtain ⟨⟨e, m, hsends, hpeer⟩, hreceives⟩ := haimed.session hpq hx
  have hxdhs := ((hinv.tracked hpq).ready x hx).dhs
  have hready := (hinv.tracked hqp).ready y hy
  obtain ⟨f, n, hsends'⟩ := hready.sends
  refine ⟨fun _ h => h.1, fun _ h => h.1, ⟨x, hx, ?_⟩, ⟨y, hy, f, n, hsends', ?_, ?_⟩,
    fun body hbody hheld => ?_, fun body hbody hheld => ?_, fun _ hbody => .inl hbody, [], ?_, ?_⟩
  · refine ⟨⟨e, m, hsends, hsends.secret ▸ hxdhs, fun h => h.2 hsends.secret.symm, hheard hpeer⟩,
      fun ck hck => ?_⟩
    obtain ⟨r, k, rfl, hr, hrpeer⟩ := hreceives ck hck
    exact ⟨r, k, rfl, hr, hheard hrpeer⟩
  · exact hsends'.secret ▸ hready.dhs
  · exact ⟨fun h => h.2 hsends'.secret.symm, .inr (hsends'.number ▸ hsent)⟩
  · rcases haimed.peer (p := q) hS hinv hbody with ⟨c, hc, hm⟩ |
      ⟨e, n, he, hm, ⟨-, hpeer⟩ | hother⟩
    · refine .inr (.inl ⟨c, hm, hc, fun heq => hheld (.inr ⟨rfl, c, heq, hm⟩)⟩)
    · exact .inr (.inr ⟨e, n, hm, he, .inr (.inl (hheard hpeer))⟩)
    · exact .inr (.inr ⟨e, n, hm, he, .inr (.inr hother)⟩)
  · rcases haimed.made q body hbody with ⟨c, hc, hm⟩ | ⟨c, n, r, hc, -, -, hm⟩
    · exact .inl ⟨c, hm, hc, fun heq => hheld (.inl ⟨rfl, .inl ⟨c, heq, hm⟩⟩)⟩
    · refine .inr ⟨c, n, hm, hc, ?_⟩
      by_cases heq : c.secret = y.dhsSecretKey
      · refine .inr (.inr (.inl (Nat.pos_of_ne_zero ?_)))
        rintro rfl
        exact hheld (.inl ⟨rfl, .inr ⟨c, heq, hm⟩⟩)
      · exact .inl ⟨hc, heq⟩
  · rw [List.append_nil]
  · simp

/-- Once a device has sent on a new secret and the contact has not heard of it, the contact
accepts nothing that the device produces from then on, unless the first message on the secret
reaches it after all. -/
theorem unheard (hsent : 0 < y.sendMessageNumber)
    (hu : (machine dir).Leads (Withholds (Lost dir p q x y)) s u) :
    Stuck dir (s.produced q) s u p q := by
  have hdeaf := deaf_of_unheard hS hs hpq hqp hx hy hunheard hsent
  exact (hdeaf.leads hS hs hpq hqp hu).stuck

end unheard

/-- Bob's first reply is lost. He writes again, and Alice is presented what he wrote. -/
theorem unheard_reply : ∃ (s u : Network Symbolic.suite Party) (body : JsString)
    (random : SendRandom Symbolic.suite) (newDhs : Symbolic.Secret),
    (machine neighbours).Reach Replays s ∧ body ∈ u.produced .bob ∧
      (machine neighbours).exec s (goesOn .bob body random newDhs) = some u ∧
      Stuck neighbours (s.produced .bob) s u .alice .bob := by
  have hS := Symbolic.suite_ideal
  have hlt0 : ∀ r, ∀ a ∈ (start neighbours).used r, a.val < 2 := by
    intro r
    cases r <;> simp [start, neighbours, TwoParty.someone]
  obtain ⟨s1, body1, h1, hbody1, -, hused1, -, hopening1, haccepts1⟩ :=
    opens_first .alice (s := start neighbours) rfl (Messenger.randomOf 2 (by decide))
  have hlt1 := lt_of_used hlt0 rfl hused1
  have hreach1 := reach_step (G := Replays) (.init rfl) h1
    fun r => Symbolic.not_mem_of_val (hlt0 r) rfl
  obtain ⟨x, hx, haccepted1⟩ : ∃ x, (s1.device .alice).loadSession
      (TwoParty.someone .bob).userId = some x ∧ s1.accepted = (start neighbours).accepted := by
    rcases step_wrote h1 with rfl | ⟨q, envelope, next, hwrote⟩
    · cases hbody1
    · exact ⟨next, by rw [hwrote.writes, if_pos ⟨rfl, rfl⟩], hwrote.accepted⟩
  have hguard2 : Replays s1 (.present .bob ⟨(TwoParty.someone .alice).userId, body1⟩ []
      (⟨3, by decide⟩ : Symbolic.Secret)) :=
    ⟨fun r => Symbolic.not_mem_of_val (hlt1 r) rfl, .alice, body1, hbody1, rfl⟩
  obtain ⟨s2, h2, -, hused2, -⟩ := accepts_present (haccepts1 (s1.device .bob) ⟨3, by decide⟩) []
  have hlt2 := lt_of_used hlt1 rfl hused2
  have hreach2 := reach_step hreach1 h2 hguard2
  obtain ⟨plaintext, y2, c, htook, -, -⟩ :=
    took_of_opening hS hreach1 rfl hopening1 hguard2 (haccepts1 _ _) h2
  have hy2 : (s2.device .bob).loadSession (TwoParty.someone .alice).userId = some y2 := by
    rw [htook.writes, if_pos ⟨rfl, rfl⟩]
  obtain ⟨f, n, hsends⟩ := (((inv_of_reach hS hreach2).tracked rfl).ready y2 hy2).sends
  obtain ⟨s3, y3, -, h3, -, hused3, haccepted3, hdevice3, hy3, hsends3, -⟩ :=
    sends_on hy2 hsends (Messenger.randomOf 4 (by decide))
  have hlt3 := lt_of_used hlt2 rfl hused3
  have hreach3 := reach_step hreach2 h3 fun r => Symbolic.not_mem_of_val (hlt2 r) rfl
  have hx3 : (s3.device .alice).loadSession (TwoParty.someone .bob).userId = some x := by
    rw [hdevice3 .alice (by decide), htook.writes, if_neg fun hpv => by cases hpv.1]
    exact hx
  have hnone : s3.accepted .alice (neighbours.who .bob).userId = [] := by
    rw [haccepted3, htook.accepted, Function.update_of_ne (by decide), haccepted1]
    rfl
  let random := Messenger.randomOf 5 (by decide)
  obtain ⟨s4, -, body, h4, hbody4, hused4, -, -, -, -, hmade⟩ := sends_on hy3 hsends3 random
  have hlt4 := lt_of_used hlt3 rfl hused4
  obtain ⟨s5, h5, hproduced5⟩ := step_present s4 .alice ⟨(TwoParty.someone .bob).userId, body⟩ []
    (⟨6, by decide⟩ : Symbolic.Secret)
  have hguard4 : Withholds (Lost neighbours .alice .bob x y3) s3 (.send .bob
      (TwoParty.someone .alice).userId true Messenger.hello [] random) := by
    refine ⟨fun r => Symbolic.not_mem_of_val (hlt3 r) rfl, ?_⟩
    rintro _ _ _ _ ⟨⟩
  have hlater : ¬First neighbours .bob y3.dhsSecretKey (Base64.base64ToBytes body) :=
    not_first_of_succ hS hmade
  have hguard5 : Withholds (Lost neighbours .alice .bob x y3) s4 (.present .alice
      ⟨(TwoParty.someone .bob).userId, body⟩ [] (⟨6, by decide⟩ : Symbolic.Secret)) := by
    refine ⟨⟨fun r => Symbolic.not_mem_of_val (hlt4 r) rfl, .bob, body, hbody4, rfl⟩, ?_⟩
    rintro _ _ _ _ ⟨⟩ (⟨-, hfirst⟩ | ⟨hbob, -⟩)
    · exact hlater hfirst
    · cases hbob
  have hlead := (Machine.Leads.single (M := machine neighbours) hguard4 h4).trans (.single hguard5 h5)
  have hrun : (machine neighbours).exec s3 (goesOn .bob body random ⟨6, by decide⟩) = some s5 :=
    (congrArg (Option.bind · _) h4).trans (congrArg (Option.bind · _) h5)
  refine ⟨s3, s5, body, random, ⟨6, by decide⟩, hreach3, hproduced5 ▸ hbody4, hrun,
    unheard hS hreach3 rfl rfl hx3 hy3 ?_ ?_ hlead⟩
  · rw [hnone]
    exact fun e he => absurd he List.not_mem_nil
  · rw [hsends3.number]
    exact n.succ_pos

end Epistl.Network
