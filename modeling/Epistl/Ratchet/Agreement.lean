import Epistl.Crypto.Symbolic
import Epistl.Ratchet.Reachable

/-! # In order delivery: every envelope decodes

In the runs that deliver each direction in order, the next envelope is always next in
order for the receiver, so it decodes as long as its number fits the wire field.
-/
namespace Epistl.TwoParty
variable {S : Suite} {who : Party → Identity S} {s t : TwoParty S}

/-- No message is sent whose number does not fit the four byte field. -/
def CounterFits (s : TwoParty S) : Action S → Prop
  | .send p _ _ => ∀ state, (s.side p).session = some state → state.sendMessageNumber < 2 ^ 32
  | _ => True

def InOrderFitting (s : TwoParty S) (a : Action S) : Prop := InOrder s a ∧ CounterFits s a

/-- Every delivered envelope decoded to the plaintext that was sent. -/
def AllDecoded (s : TwoParty S) : Prop :=
  ∀ p, ∀ d ∈ (s.side p).deliveries, ∃ m, (s.side p.other).produced[d.index]? = some m ∧
    Accepts d.result m.plaintext

/-- The invariant of the in order runs. -/
structure InOrderInv (who : Party → Identity S) (s : TwoParty S) : Prop where
  inv : Inv who s
  accepted : ∀ p, (s.side p).accepted = List.range (s.side p).deliveries.length
  decoded : AllDecoded s
  fits : ∀ p, ∀ k < (s.side p).keys.length, rank (s.side p).keys k < 2 ^ 32

/-- A message joins the log of `p`. -/
theorem InOrderInv.push (h : InOrderInv who s) {p : Party} {next : RatchetState S} {m : Sent}
    {used : List S.X25519Secret}
    (hinv : Inv who ⟨Function.update s.side p ((s.side p).send next m), used⟩)
    (hrank : rank ((s.side p).send next m).keys (s.side p).produced.length < 2 ^ 32) :
    InOrderInv who ⟨Function.update s.side p ((s.side p).send next m), used⟩ where
  inv := hinv
  accepted := fun q => by
    rcases Party.eq_or_eq_other p q with rfl | rfl
    · simpa [Side.accepted, Side.send] using h.accepted q
    · simpa using h.accepted p.other
  decoded := fun q d hd => by
    rcases Party.eq_or_eq_other p q with rfl | rfl
    · obtain ⟨m', hm', ha⟩ := h.decoded q d (by simpa [Side.send] using hd)
      exact ⟨m', by simpa using hm', ha⟩
    · obtain ⟨m', hm', ha⟩ := h.decoded p.other d (by simpa using hd)
      rw [Party.other_other] at hm'
      refine ⟨m', ?_, ha⟩
      simp only [Party.other_other, Function.update_self, Side.send]
      rw [List.getElem?_append_left (List.getElem?_eq_some_iff.mp hm').1, hm']
  fits := fun q k hk => by
    rcases Party.eq_or_eq_other p q with rfl | rfl
    · simp only [Function.update_self] at hk ⊢
      by_cases hlast : k < (s.side q).keys.length
      · have hkeys : ((s.side q).send next m).keys = (s.side q).keys ++ [m.dhPublicKey] := by
          simp [Side.keys, Side.send]
        rw [hkeys, rank_grow hlast]
        exact h.fits q k hlast
      · have he : k = (s.side q).produced.length := by
          simp only [Side.keys, Side.send, List.length_map, List.length_append,
            List.length_singleton] at hk hlast
          omega
        rwa [he]
    · simpa using h.fits p.other k (by simpa using hk)

theorem InOrderInv.initiate (hS : S.Ideal) (h : InOrderInv who s) {ea : S.X25519Secret}
    {kemRandom plaintext : Bytes} {random : EncodeRandom}
    (hfresh : Fresh s (.initiate ea kemRandom plaintext random))
    (he : step who s (.initiate ea kemRandom plaintext random) = some t) : InOrderInv who t := by
  have ht := h.inv.initiate hS hfresh he
  obtain ⟨next, m, hnone, -, rfl⟩ := step_initiate he
  refine h.push ht ?_
  have hnil : (s.side .alice).produced = [] := by
    cases h.inv with
    | idle hs => rw [hs, start]
    | opened h => cases hnone.symm.trans h.session
    | established p h =>
      obtain ⟨x, y, hx, hy, -⟩ := h
      cases p with
      | alice => cases hnone.symm.trans hx
      | bob => cases hnone.symm.trans hy
  simp [hnil, rank]

theorem InOrderInv.send (hS : S.Ideal) (h : InOrderInv who s) {p : Party} {plaintext : Bytes}
    {random : EncodeRandom} (hfits : CounterFits s (.send p plaintext random))
    (he : step who s (.send p plaintext random) = some t) : InOrderInv who t := by
  obtain ⟨ht, state, next, m, hstate, rfl, -, hrank⟩ := h.inv.send hS he
  exact h.push ht (hrank ▸ hfits state hstate)

/-- After accepting the first `n` envelopes, the next one is next in order. -/
theorem nextInOrder_of_range {p : Party} {n : ℕ} {m : Sent}
    (ha : (s.side p).accepted = List.range n) (hm : (s.side p.other).produced[n]? = some m) :
    NextInOrder (s.side p.other).keys (s.side p).accepted n where
  lt_length := by
    rw [Side.keys, List.length_map]
    exact (List.getElem?_eq_some_iff.mp hm).1
  later := by simp [ha]
  previous := by simp +contextual [ha]

theorem InOrderInv.accepts (hS : S.Ideal) (h : InOrderInv who s) {p : Party} {m : Sent}
    {newDhs : S.X25519Secret} (hfresh : newDhs ∉ s.used)
    (hm : (s.side p.other).produced[(s.side p).deliveries.length]? = some m) :
    Accepts (decode who p (s.side p).session m.envelope newDhs) m.plaintext := by
  have hnext := nextInOrder_of_range (h.accepted p) hm
  cases hstate : (s.side p).session with
  | some state => exact (h.inv.next_iff hS hstate hm hnext).mpr (h.fits _ _ hnext.lt_length)
  | none =>
    cases h.inv with
    | idle hs =>
      subst hs
      simp [start] at hm
    | opened ho =>
      cases p with
      | alice => cases hstate.symm.trans ho.session
      | bob =>
        have hzero : (s.side .bob).deliveries.length = 0 := by
          have := h.accepted .bob
          rw [ho.accepted'] at this
          simpa using this.symm
        rw [hzero] at hm
        obtain ⟨next, m', hm', hd, -⟩ := ho.receive_handshake hS hfresh
        cases hm.symm.trans hm'
        exact ⟨next, hd⟩
    | established q hl =>
      obtain ⟨x, y, hx, hy, -⟩ := hl
      rcases Party.eq_or_eq_other q p with rfl | rfl
      · cases hstate.symm.trans hx
      · cases hstate.symm.trans hy

theorem InOrderInv.deliver (hS : S.Ideal) (h : InOrderInv who s) {p : Party}
    {newDhs : S.X25519Secret} (hfresh : newDhs ∉ s.used)
    (he : step who s (.deliver p (s.side p).deliveries.length newDhs) = some t) :
    InOrderInv who t := by
  have ht := h.inv.deliver hS hfresh he
  obtain ⟨m, hm, rfl⟩ := step_deliver he
  obtain ⟨next, hd⟩ := h.accepts hS hfresh hm
  rw [hd] at ht ⊢
  refine ⟨ht, fun q => ?_, fun q d hmem => ?_, fun q k hk => ?_⟩
  · rcases Party.eq_or_eq_other p q with rfl | rfl
    · have hlen (d : Delivery S) : ((s.side q).receive d).deliveries.length =
          (s.side q).deliveries.length + 1 := by simp [Side.receive]
      simp only [Function.update_self]
      rw [(Side.receive_success _ _).2, h.accepted q, hlen, List.range_succ]
    · simpa using h.accepted p.other
  · rcases Party.eq_or_eq_other p q with rfl | rfl
    · simp only [Function.update_self, Side.receive] at hmem
      rcases List.mem_append.mp hmem with hmem | hmem
      · obtain ⟨m', hm', ha⟩ := h.decoded q d hmem
        exact ⟨m', by simpa using hm', ha⟩
      · rw [List.mem_singleton.mp hmem]
        exact ⟨m, by simpa using hm, next, rfl⟩
    · obtain ⟨m', hm', ha⟩ := h.decoded p.other d (by simpa using hmem)
      exact ⟨m', by simpa [Side.receive] using hm', ha⟩
  · rcases Party.eq_or_eq_other p q with rfl | rfl
    · simpa [Side.keys, Side.receive] using h.fits q k (by simpa [Side.keys, Side.receive] using hk)
    · simpa using h.fits p.other k (by simpa using hk)

theorem inOrderInv_of_reach (hS : S.Ideal) (h : (machine who).Reach InOrderFitting s) :
    InOrderInv who s := by
  refine h.invariant (I := InOrderInv who) ?_ ?_
  · rintro _ rfl
    exact ⟨.idle rfl, fun p => rfl, fun p d hd => by simp [start] at hd,
      fun p k hk => by simp [start, Side.keys] at hk⟩
  · rintro s a t hi ⟨⟨hfresh, horder⟩, hfits⟩ he
    cases a with
    | initiate ea kemRandom plaintext random => exact hi.initiate hS hfresh he
    | send p plaintext random => exact hi.send hS hfits he
    | deliver p index newDhs =>
      have horder : index = (s.side p).deliveries.length := horder
      subst horder
      exact hi.deliver hS hfresh he

/-- In every run that delivers in order and sends no message beyond the counter, every
delivered envelope decodes to the plaintext that was sent. -/
theorem two_party_agreement (hS : S.Ideal) (h : (machine who).Reach InOrderFitting s) :
    AllDecoded s :=
  (inOrderInv_of_reach hS h).decoded

/-- A send advances the counter by one. -/
theorem sendOn_number {a b : Identity S} {state next : RatchetState S} {plaintext : Bytes}
    {random : EncodeRandom} {m : Sent} (h : sendOn a b state plaintext random = .ok (next, m)) :
    next.sendMessageNumber = state.sendMessageNumber + 1 := by
  cases hk : state.sendingChainKey with
  | none =>
    simp only [sendOn, deriveNextSendingMessageKey, hk, bind, Except.bind] at h
    cases h
  | some ck =>
    rw [sendOn, deriveNextSendingMessageKey_of_some hk] at h
    cases h
    rfl

section overflow
open Symbolic

/-- Two identities over the symbolic primitives. -/
def someone : Party → Identity Symbolic.suite
  | .alice => ⟨JsString.ofString "alice", ⟨0, by decide⟩, [0], ⟨0, by decide⟩⟩
  | .bob => ⟨JsString.ofString "bob", ⟨1, by decide⟩, [1], ⟨1, by decide⟩⟩

def someRandom : EncodeRandom := ⟨⟨List.replicate 24 0, rfl⟩, []⟩

/-- Alice has sent `n` messages on her first chain and Bob has received `k` of them. -/
structure OneSided (n k : ℕ) (s : TwoParty Symbolic.suite) : Prop where
  session : ∃ state, (s.side .alice).session = some state ∧ state.sendMessageNumber = n
  produced : (s.side .alice).produced.length = n
  deliveries : (s.side .bob).deliveries.length = k
  used : ∀ a ∈ s.used, a.val < k + 3

/-- Bob receives the next message, under the smallest unused secret. -/
theorem OneSided.deliver {n k : ℕ} {s : TwoParty Symbolic.suite} (h : OneSided n k s)
    (hk : k < n) (hlt : k + 3 < 256 ^ 32) :
    ∃ t m, InOrder s (.deliver .bob k ⟨k + 3, hlt⟩) ∧
      step someone s (.deliver .bob k ⟨k + 3, hlt⟩) = some t ∧ OneSided n (k + 1) t ∧
      t.side .alice = s.side .alice ∧ (s.side .alice).produced[k]? = some m ∧
      ⟨k, decode someone .bob (s.side .bob).session m.envelope ⟨k + 3, hlt⟩⟩ ∈
        (t.side .bob).deliveries := by
  have hlen : k < (s.side .alice).produced.length := by
    rw [h.produced]
    exact hk
  have hm := List.getElem?_eq_getElem hlen
  refine ⟨_, _, ⟨not_mem_of_lt h.used hlt, h.deliveries.symm⟩,
    deliver_enabled (p := .bob) _ hm, ⟨?_, ?_, ?_, ?_⟩, by simp, hm, by simp [Side.receive]⟩
  · simpa using h.session
  · simpa using h.produced
  · simp [Side.receive, h.deliveries]
  · intro a ha
    rcases List.mem_cons.mp ha with rfl | ha
    · exact Nat.lt_succ_self _
    · exact Nat.lt_succ_of_lt (h.used a ha)

/-- Alice's next message gets number `n`, whatever `n` is. -/
theorem OneSided.send {n k : ℕ} {s : TwoParty Symbolic.suite} (h : OneSided n k s)
    (hinv : Inv someone s) :
    ∃ t, step someone s (.send .alice [] someRandom) = some t ∧ OneSided (n + 1) k t ∧
      t.side .bob = s.side .bob ∧ rank (t.side .alice).keys n = n := by
  obtain ⟨state, hstate, hn⟩ := h.session
  obtain ⟨t, ht⟩ := hinv.can_send suite_ideal hstate [] someRandom
  obtain ⟨-, state', next, m, hstate', rfl, -, hrank⟩ := hinv.send suite_ideal ht
  cases hstate.symm.trans hstate'
  obtain ⟨_, next', m', hstate', hsend, heq⟩ := step_send ht
  cases hstate.symm.trans hstate'
  have hside := congrFun (congrArg TwoParty.side heq) .alice
  simp only [Function.update_self, Side.send, Side.mk.injEq, Option.some.injEq] at hside
  refine ⟨_, ht, ⟨⟨next, by simp [Side.send], ?_⟩, ?_, ?_, h.used⟩, by simp, ?_⟩
  · rw [hside.1, sendOn_number hsend, hn]
  · simp [Side.send, h.produced]
  · simpa using h.deliveries
  · rw [h.produced, hn] at hrank
    simpa using hrank

theorem oneSided_initiate :
    ∃ s, (machine someone).Reach InOrderFitting s ∧ OneSided 1 0 s := by
  obtain ⟨c, kct, hc, hfirst, hinit⟩ := initiate_eq suite_ideal (someone .alice) (someone .bob)
    ⟨2, by decide⟩ [] [] someRandom
  have hopen := initiate_enabled (s := start someone) rfl hinit
  have hused : ∀ a ∈ (start someone).used, a.val < 2 := by simp [start, someone]
  refine ⟨_, .step (a := .initiate ⟨2, by decide⟩ [] [] someRandom) (.init rfl)
    ⟨⟨not_mem_of_lt hused _, trivial⟩, trivial⟩ hopen, ⟨_, rfl, rfl⟩, rfl, rfl, ?_⟩
  simp [start, someone]

/-- Runs in which Alice alone sends reach every message number the field can hold. -/
theorem oneSided_reach (n : ℕ) (hn : n < 2 ^ 32) :
    ∃ s, (machine someone).Reach InOrderFitting s ∧ OneSided (n + 1) (n + 1) s := by
  have hlt (k : ℕ) (hk : k < 2 ^ 32) : k + 3 < 256 ^ 32 :=
    Nat.lt_of_lt_of_le (Nat.add_lt_add_right hk 3) (by decide)
  have hdeliver {k : ℕ} (hk : k < 2 ^ 32) {s : TwoParty Symbolic.suite}
      (hs : (machine someone).Reach InOrderFitting s) (h : OneSided (k + 1) k s) :
      ∃ t, (machine someone).Reach InOrderFitting t ∧ OneSided (k + 1) (k + 1) t := by
    obtain ⟨t, m, hg, ht, hone, -⟩ := h.deliver (Nat.lt_succ_self k) (hlt k hk)
    exact ⟨t, .step hs ⟨hg, trivial⟩ ht, hone⟩
  induction n with
  | zero =>
    obtain ⟨s, hs, h⟩ := oneSided_initiate
    exact hdeliver hn hs h
  | succ n ih =>
    obtain ⟨s, hs, h⟩ := ih (by omega)
    obtain ⟨t, ht, hone, -⟩ := h.send (inOrderInv_of_reach suite_ideal hs).inv
    refine hdeliver hn (.step (a := .send .alice [] someRandom) hs ⟨⟨trivial, trivial⟩, fun state hstate => ?_⟩ ht) hone
    obtain ⟨state', hstate', hnum⟩ := h.session
    cases hstate.symm.trans hstate'
    omega

/-- One more message after the last one that fits: next in order, and refused. -/
theorem oneSided_overflow :
    ∃ s m state, (machine someone).Reach InOrder s ∧ OneSided (2 ^ 32 + 1) (2 ^ 32) s ∧
      (s.side .alice).produced[2 ^ 32]? = some m ∧
      NextInOrder (s.side .alice).keys (s.side .bob).accepted (2 ^ 32) ∧
      (s.side .bob).session = some state ∧ ∀ newDhs,
        ¬ Accepts (decode someone .bob (some state) m.envelope newDhs) m.plaintext := by
  obtain ⟨s, hs, h⟩ := oneSided_reach (2 ^ 32 - 1) (by decide)
  have hinv := inOrderInv_of_reach suite_ideal hs
  have hall := hinv.accepted .bob
  rw [show 2 ^ 32 - 1 + 1 = 2 ^ 32 by decide] at h
  rw [h.deliveries] at hall
  obtain ⟨t, ht, hone, hbob, hrank⟩ := h.send hinv.inv
  have hreach : (machine someone).Reach InOrder t :=
    .step (a := .send .alice [] someRandom) (hs.mono fun _ _ hg => hg.1) ⟨trivial, trivial⟩ ht
  have htinv := inv_of_reach suite_ideal (hreach.mono fun _ _ hg => hg.1)
  have hstate : ∃ state, (t.side .bob).session = some state := by
    rw [hbob]
    cases hinv.inv with
    | idle hs =>
      obtain ⟨state, hstate, -⟩ := h.session
      subst hs
      cases hstate
    | opened ho =>
      rw [ho.accepted'] at hall
      exact absurd (congrArg List.length hall) (by rw [List.length_range]; decide)
    | established p hl =>
      obtain ⟨x, y, hx, hy, -⟩ := hl
      cases p with
      | alice => exact ⟨y, hy⟩
      | bob => exact ⟨x, hx⟩
  obtain ⟨state, hstate⟩ := hstate
  have hm : ∃ m, (t.side .alice).produced[2 ^ 32]? = some m :=
    ⟨_, List.getElem?_eq_getElem (by rw [hone.produced]; exact Nat.lt_succ_self _)⟩
  obtain ⟨m, hm⟩ := hm
  have hnext := nextInOrder_of_range (p := .bob) (by rw [hbob, hall]) hm
  refine ⟨t, m, state, hreach, hone, hm, hnext, hstate, fun newDhs ha => ?_⟩
  have hlt := (htinv.next_iff suite_ideal hstate hm hnext).mp ha
  have hrank : rank (t.side (Party.other .bob)).keys (2 ^ 32) = 2 ^ 32 := hrank
  rw [hrank] at hlt
  exact Nat.lt_irrefl _ hlt

/-- Two devices for which the unguarded statement fails. -/
theorem two_party_agreement_overflow :
    ¬ ∀ s, (machine someone).Reach InOrder s → AllDecoded s := by
  intro hall
  obtain ⟨s, m, state, hs, h, hm, -, hstate, hno⟩ := oneSided_overflow
  obtain ⟨t, m', hg, ht, -, halice, hm', hmem⟩ := h.deliver (Nat.lt_succ_self _) (by decide)
  cases hm.symm.trans hm'
  obtain ⟨m'', hm'', ha⟩ := hall t (.step hs hg ht) .bob _ hmem
  have hm'' : (t.side .alice).produced[2 ^ 32]? = some m'' := hm''
  rw [halice, hm] at hm''
  cases hm''
  rw [hstate] at ha
  exact hno _ ha

theorem two_party_agreement_first :
    ∃ s, (machine someone).Reach InOrderFitting s ∧ (s.side .bob).deliveries.length = 2 ∧
      AllDecoded s := by
  obtain ⟨s, hs, h⟩ := oneSided_reach 1 (by decide)
  exact ⟨s, hs, h.deliveries, two_party_agreement suite_ideal hs⟩

end overflow

end Epistl.TwoParty
