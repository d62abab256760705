import Epistl.Ratchet.Leads

/-! # The invariant of every reachable conversation

A conversation is idle, opened by Alice's handshake, or established with one side in
the lead. Whatever the network presents, a step keeps it in one of these phases.
-/
namespace Epistl
variable {S : Suite} {who : Party → Identity S}

theorem Party.eq_or_eq_other (p q : Party) : q = p ∨ q = p.other := by
  cases p <;> cases q <;> decide

namespace Side
variable {s : Side S} {i : ℕ}

theorem receive_failure (reason : FailureReason) :
    (s.receive ⟨i, .ok (.failure reason)⟩).session = s.session ∧
      (s.receive ⟨i, .ok (.failure reason)⟩).accepted = s.accepted := by
  exact ⟨rfl, by simp [accepted, receive, Delivery.accepted]⟩

theorem receive_success (plaintext : Bytes) (next : RatchetState S) :
    (s.receive ⟨i, .ok (.success plaintext next)⟩).session = some next ∧
      (s.receive ⟨i, .ok (.success plaintext next)⟩).accepted = s.accepted ++ [i] := by
  exact ⟨rfl, by simp [accepted, receive, Delivery.accepted]⟩

end Side

/-- Side `l` owns the newest ratchet key, side `r` has met all of its own peer's. -/
def Leads (d d' : Direction S) (used : List S.X25519Secret) (l r : Side S) : Prop :=
  ∃ x y, l.session = some x ∧ r.session = some y ∧ Ahead d used x y l.produced r.accepted ∧
    CaughtUp d' used y x r.produced l.accepted

/-- The conversation after Alice's first send and before Bob's first receive. -/
structure Opened (who : Party → Identity S) (used : List S.X25519Secret) (l r : Side S)
    (x : RatchetState S) (c : Chain S) (kyberCiphertext plaintext : Bytes) (random : EncodeRandom)
    (rest : List Sent) : Prop where
  session : l.session = some x
  produced : l.produced = ⟨encodeHandshakeEnvelope c.publicKey kyberCiphertext (c.messageKey 0)
    plaintext (who .alice).userId (who .bob).userId (who .alice).dilithiumSecretKey random,
    c.publicKey, plaintext⟩ :: rest
  deliveries : l.deliveries = []
  first : FirstChain (who .alice) (who .bob) c kyberCiphertext
  onRest : ∀ i m, rest[i]? = some m → IsRatchet ((who .alice).toward (who .bob)) c (i + 1) m
  sends : Sends x c (rest.length + 1)
  peerKey : x.dhrPublicKey = none
  root : x.rootKey = c.nextRoot
  within : c.Within used
  session' : r.session = none
  produced' : r.produced = []
  accepted' : r.accepted = []

inductive TwoParty.Inv (who : Party → Identity S) (s : TwoParty S) : Prop
  | idle : s = start who → Inv who s
  | opened {x c kyberCiphertext plaintext random rest} :
    Opened who s.used (s.side .alice) (s.side .bob) x c kyberCiphertext plaintext random rest →
    Inv who s
  | established (p : Party) :
    Leads ((who p).toward (who p.other)) ((who p.other).toward (who p)) s.used (s.side p)
      (s.side p.other) → Inv who s

namespace Leads
variable {a b : Identity S} {used : List S.X25519Secret} {l r : Side S} {newDhs : S.X25519Secret}
  {k : ℕ} {m : Sent}

theorem send_leader (hS : S.Ideal) (h : Leads (a.toward b) (b.toward a) used l r)
    {x : RatchetState S} (hx : l.session = some x) (plaintext : Bytes) (random : EncodeRandom) :
    ∃ next m, TwoParty.sendOn a b x plaintext random = .ok (next, m) ∧ m.plaintext = plaintext ∧
      rank (l.send next m).keys l.produced.length = x.sendMessageNumber ∧
      Leads (a.toward b) (b.toward a) used (l.send next m) r := by
  obtain ⟨x', y, hx', hy, hahead, hcaught⟩ := h
  cases hx.symm.trans hx'
  obtain ⟨e, m, hsend, hm, hrank, hahead⟩ := hahead.send hS plaintext random
  exact ⟨_, m, hsend, hm, hrank, _, y, rfl, hy, hahead, hcaught.sent_receiver e⟩

theorem send_follower (hS : S.Ideal) (h : Leads (a.toward b) (b.toward a) used l r)
    {y : RatchetState S} (hy : r.session = some y) (plaintext : Bytes) (random : EncodeRandom) :
    ∃ next m, TwoParty.sendOn b a y plaintext random = .ok (next, m) ∧ m.plaintext = plaintext ∧
      rank (r.send next m).keys r.produced.length = y.sendMessageNumber ∧
      Leads (a.toward b) (b.toward a) used l (r.send next m) := by
  obtain ⟨x, y', hx, hy', hahead, hcaught⟩ := h
  cases hy.symm.trans hy'
  obtain ⟨e, m, hsend, hm, hrank, hcaught⟩ := hcaught.send hS plaintext random
  exact ⟨_, m, hsend, hm, hrank, x, _, hx, rfl, hahead.sent_receiver e, hcaught⟩

/-- The leader receives: it stays in the lead. -/
theorem receive_leader (hS : S.Ideal) (h : Leads (a.toward b) (b.toward a) used l r)
    {x : RatchetState S} (hx : l.session = some x) (newDhs : S.X25519Secret)
    (hk : r.produced[k]? = some m) :
    Leads (a.toward b) (b.toward a) (newDhs :: used)
      (l.receive ⟨k, decodeRatchetEnvelope m.envelope ((b.toward a).params x) newDhs⟩) r := by
  obtain ⟨x', y, hx', hy, hahead, hcaught⟩ := h
  cases hx.symm.trans hx'
  rcases hcaught.receive hS newDhs hk with ⟨reason, hd⟩ | ⟨ck, n, hd, hcaught⟩
  · rw [hd]
    obtain ⟨hsession, haccepted⟩ := Side.receive_failure (s := l) (i := k) reason
    exact ⟨x, y, hsession.trans hx, hy, hahead.mono newDhs, haccepted ▸ hcaught.mono newDhs⟩
  · rw [hd]
    obtain ⟨hsession, haccepted⟩ := Side.receive_success (s := l) (i := k) m.plaintext _
    exact ⟨_, y, hsession, hy, (hahead.received_sender ck n).mono newDhs,
      haccepted ▸ hcaught.mono newDhs⟩

/-- The follower receives: it may ratchet and take the lead. -/
theorem receive_follower (hS : S.Ideal) (h : Leads (a.toward b) (b.toward a) used l r)
    {y : RatchetState S} (hy : r.session = some y) (hk : l.produced[k]? = some m)
    (hfresh : newDhs ∉ used) :
    let r' := r.receive ⟨k, decodeRatchetEnvelope m.envelope ((a.toward b).params y) newDhs⟩
    Leads (a.toward b) (b.toward a) (newDhs :: used) l r' ∨
      Leads (b.toward a) (a.toward b) (newDhs :: used) r' l := by
  obtain ⟨x, y', hx, hy', hahead, hcaught⟩ := h
  cases hy.symm.trans hy'
  rcases hahead.receive hS hk hfresh with ⟨reason, hd⟩ | ⟨ck, n, hd, hahead⟩ |
    ⟨p, e, f, n, hd, hf, hpeer, hroot, hahead⟩
  · simp only [hd]
    obtain ⟨hsession, haccepted⟩ := Side.receive_failure (s := r) (i := k) reason
    exact .inl ⟨x, y, hx, hsession.trans hy, haccepted ▸ hahead.mono newDhs, hcaught.mono newDhs⟩
  · simp only [hd]
    obtain ⟨hsession, haccepted⟩ := Side.receive_success (s := r) (i := k) m.plaintext _
    exact .inl ⟨x, _, hx, hsession, haccepted ▸ hahead.mono newDhs,
      (hcaught.received_sender ck n).mono newDhs⟩
  · simp only [hd]
    subst hf
    obtain ⟨hsession, haccepted⟩ := Side.receive_success (s := r) (i := k) m.plaintext _
    exact .inr ⟨_, x, hsession, hx, hcaught.openChain hfresh hpeer hroot, haccepted ▸ hahead⟩

end Leads

theorem initiate_eq (hS : S.Ideal) (a b : Identity S) (ea : S.X25519Secret)
    (kemRandom plaintext : Bytes) (random : EncodeRandom) :
    ∃ (c : Chain S) (kyberCiphertext : Bytes), c.secret = ea ∧ FirstChain a b c kyberCiphertext ∧
      TwoParty.initiate a b ea kemRandom plaintext random = .ok (sentOn (openedOn c) c,
        ⟨encodeHandshakeEnvelope c.publicKey kyberCiphertext (c.messageKey 0) plaintext a.userId
          b.userId a.dilithiumSecretKey random, c.publicKey, plaintext⟩) := by
  obtain ⟨c, kct, hc, hfirst, hinit⟩ := initiateSession_eq hS a b ea kemRandom
  refine ⟨c, kct, hc, hfirst, ?_⟩
  simp only [TwoParty.initiate, hinit]
  rfl

namespace Opened
variable {used : List S.X25519Secret} {l r : Side S} {x : RatchetState S} {c : Chain S}
  {kyberCiphertext plaintext : Bytes} {random : EncodeRandom} {rest : List Sent}
  {newDhs : S.X25519Secret} {k : ℕ} {m : Sent}

/-- Alice's first envelope is out. -/
theorem initial (hfirst : FirstChain (who .alice) (who .bob) c kyberCiphertext) (plaintext : Bytes)
    (random : EncodeRandom) :
    Opened who (c.secret :: (TwoParty.start who).used)
      (((TwoParty.start who).side .alice).send (sentOn (openedOn c) c)
        ⟨encodeHandshakeEnvelope c.publicKey kyberCiphertext (c.messageKey 0) plaintext
          (who .alice).userId (who .bob).userId (who .alice).dilithiumSecretKey random,
          c.publicKey, plaintext⟩)
      ((TwoParty.start who).side .bob) (sentOn (openedOn c) c) c kyberCiphertext plaintext random
      [] where
  session := by simp [Side.send]
  produced := by simp [Side.send, TwoParty.start]
  deliveries := by simp [Side.send, TwoParty.start]
  first := hfirst
  onRest := by simp
  sends := ⟨rfl, rfl, rfl, rfl⟩
  peerKey := rfl
  root := rfl
  within := ⟨List.mem_cons_self, by simp [hfirst.peer, TwoParty.start]⟩
  session' := by simp [TwoParty.start]
  produced' := by simp [TwoParty.start]
  accepted' := by simp [Side.accepted, TwoParty.start]

theorem keys_eq (h : Opened who used l r x c kyberCiphertext plaintext random rest) :
    ∀ m ∈ l.produced, m.dhPublicKey = c.publicKey := by
  rw [h.produced]
  intro m hm
  rcases List.mem_cons.mp hm with rfl | hm
  · rfl
  · obtain ⟨i, hi⟩ := List.mem_iff_getElem?.mp hm
    exact (h.onRest i m hi).1

theorem forall_keys (h : Opened who used l r x c kyberCiphertext plaintext random rest) :
    ∀ k ∈ l.keys, k = c.publicKey := by
  intro k hk
  obtain ⟨m, hm, rfl⟩ := List.mem_map.mp hk
  exact h.keys_eq m hm

theorem send (h : Opened who used l r x c kyberCiphertext plaintext random rest)
    (plaintext' : Bytes) (random' : EncodeRandom) :
    ∃ next m, TwoParty.sendOn (who .alice) (who .bob) x plaintext' random' = .ok (next, m) ∧
      m.plaintext = plaintext' ∧ rank (l.send next m).keys l.produced.length = x.sendMessageNumber ∧
      Opened who used (l.send next m) r next c kyberCiphertext plaintext random (rest ++ [m]) := by
  obtain ⟨m, hsend, hm, hratchet, hs⟩ := sendOn_eq (a := who .alice) (b := who .bob) h.sends
    plaintext' random'
  refine ⟨_, m, hsend, hm, ?_, rfl, ?_, h.deliveries, h.first, fun i m' hi => ?_, ?_, h.peerKey,
    h.root, h.within, h.session', h.produced', h.accepted'⟩
  · rw [Side.keys, Side.send, rank_keys, hratchet.1, countP_keys_all h.keys_eq, h.sends.number,
      h.produced, List.length_cons]
  · simp [Side.send, h.produced]
  · rcases Lane.getElem?_concat_cases hi with hi | ⟨rfl, rfl⟩
    · exact h.onRest i m' hi
    · exact hratchet
  · rwa [List.length_append, List.length_singleton]

/-- Bob's side of the handshake: he accepts the first envelope and takes the lead. -/
theorem receive_handshake (hS : S.Ideal)
    (h : Opened who used l r x c kyberCiphertext plaintext random rest) (hfresh : newDhs ∉ used) :
    ∃ next m, l.produced[0]? = some m ∧
      decodeHandshakeEnvelope m.envelope ((who .alice).handshakeParams (who .bob)) newDhs =
        .ok (.success m.plaintext next) ∧
      Leads ((who .bob).toward (who .alice)) ((who .alice).toward (who .bob)) (newDhs :: used)
        (r.receive ⟨0, .ok (.success m.plaintext next)⟩) l := by
  obtain ⟨f, hf, hpeer, hroot, hd⟩ := decode_handshake hS h.first plaintext random newDhs
  subst hf
  have hsecret := h.sends.secret
  have hwithin : x.dhsSecretKey ∈ f.secret :: used := by
    rw [hsecret]
    exact List.mem_cons_of_mem _ h.within.1
  refine ⟨_, _, by rw [h.produced]; rfl, hd, _, x, rfl, h.session, ?_, ?_⟩
  · -- towards Alice nothing was produced yet, and her peer key is still unset
    have hl : l.accepted = [] := by simp [Side.accepted, h.deliveries]
    refine ⟨[], [], [], [], none, f, by simp [Side.receive, h.produced'], ?_, ?_,
      ⟨rfl, rfl, rfl, rfl⟩, rfl⟩
    · exact {
        peerKey := h.peerKey
        chainKey := by simp
        number := by simp
        onChain := by simp
        onPending := by simp
        onNewest := by simp
        onOlder := by simp
        ahead := by
          rintro _ ⟨⟩
          exact ⟨by rw [hpeer, hsecret], by rw [hroot, h.root], by simp⟩
        within := by simp
        within' := by
          rintro _ ⟨⟩
          exact ⟨List.mem_cons_self, List.mem_cons_of_mem _ (hpeer ▸ h.within.1)⟩
        receiver := hwithin
        started := fun _ => rfl }
    · simp only [hl, Side.receive, h.produced', List.map_nil]
      exact ⟨.nil, by simp, by simp, by simp [Contiguous]⟩
  · have hacc := (Side.receive_success (s := r) (i := 0) plaintext
      (ratchetedTo c.publicKey c f 0)).2
    have hkeys := h.forall_keys
    have hpos : 0 < l.keys.length := by simp [Side.keys, h.produced]
    rw [hacc, h.accepted', h.produced]
    refine ⟨[], [_], rest, c, rfl, ?_, ?_, ?_⟩
    · exact {
        peerKey := rfl
        chainKey := by
          rintro _ ⟨⟩
          rfl
        number := by
          rintro _ ⟨⟩
          rfl
        onChain := fun i m hi => by
          cases i with
          | zero =>
            cases hi
            exact ⟨c, rfl, .inr ⟨rfl, rfl, kyberCiphertext, random, rfl⟩⟩
          | succ i => exact ⟨c, rfl, .inl (h.onRest i m hi)⟩
        onPending := fun i m hi => ⟨c, rfl, by
          rw [List.length_singleton, Nat.add_comm]
          exact h.onRest i m hi⟩
        onNewest := by simp
        onOlder := by simp
        ahead := by simp
        within := by
          rintro _ ⟨⟩
          exact h.within.mono _
        within' := by simp
        receiver := List.mem_cons_self
        started := by simp }
    · have hr : Received l.keys [] 0 0 :=
        ⟨.nil, by simp, by omega, .of_forall_eq hkeys⟩
      have hr' := hr.next hpos (by simp)
      rwa [Side.keys, h.produced] at hr'
    · rw [List.length_singleton, Nat.add_comm]
      exact h.sends

/-- Anything but the handshake leaves Bob without a session. -/
theorem receive_refused (h : Opened who used l r x c kyberCiphertext plaintext random rest)
    (newDhs : S.X25519Secret) (hk : l.produced[k + 1]? = some m) :
    ∃ reason, decodeHandshakeEnvelope m.envelope ((who .alice).handshakeParams (who .bob)) newDhs =
        .ok (.failure reason) ∧
      Opened who (newDhs :: used) l (r.receive ⟨k + 1, .ok (.failure reason)⟩) x c kyberCiphertext
        plaintext random rest := by
  rw [h.produced, List.getElem?_cons_succ] at hk
  obtain ⟨-, p, random', he⟩ := h.onRest k m hk
  have hrefused : ∃ reason, decodeHandshakeEnvelope m.envelope
      ((who .alice).handshakeParams (who .bob)) newDhs = .ok (.failure reason) := by
    rw [he]
    exact decodeHandshakeEnvelope_ratchet _
  obtain ⟨reason, hd⟩ := hrefused
  exact ⟨reason, hd, { h with
    within := h.within.mono _
    session' := h.session'
    produced' := h.produced'
    accepted' := (Side.receive_failure reason).2.trans h.accepted' }⟩

end Opened

namespace TwoParty
variable {s t : TwoParty S}

theorem Inv.of_opened {used : List S.X25519Secret} {l r : Side S} {x : RatchetState S} {c : Chain S}
    {kyberCiphertext plaintext : Bytes} {random : EncodeRandom} {rest : List Sent}
    (h : Opened who used l r x c kyberCiphertext plaintext random rest) (hu : t.used = used)
    (hl : t.side .alice = l) (hr : t.side .bob = r) : Inv who t := by
  subst hu hl hr
  exact .opened h

theorem Inv.of_leads (p : Party) {used : List S.X25519Secret} {l r : Side S}
    (h : Leads ((who p).toward (who p.other)) ((who p.other).toward (who p)) used l r)
    (hu : t.used = used) (hl : t.side p = l) (hr : t.side p.other = r) : Inv who t := by
  subst hu hl hr
  exact .established p h

theorem Inv.initiate (hS : S.Ideal) (h : Inv who s) {ea : S.X25519Secret} {kemRandom plaintext : Bytes}
    {random : EncodeRandom} (hfresh : Fresh s (.initiate ea kemRandom plaintext random))
    (he : step who s (.initiate ea kemRandom plaintext random) = some t) : Inv who t := by
  cases h with
  | idle hs =>
    subst hs
    obtain ⟨c, kct, hc, hfirst, hinit⟩ := initiate_eq hS (who .alice) (who .bob) ea kemRandom
      plaintext random
    obtain ⟨next, m, -, hinit', rfl⟩ := step_initiate he
    rw [hinit] at hinit'
    cases hinit'
    subst hc
    exact .of_opened (.initial hfirst plaintext random) rfl (by simp) (by simp)
  | opened h =>
    obtain ⟨_, _, hnone, -⟩ := step_initiate he
    cases hnone.symm.trans h.session
  | established p h =>
    obtain ⟨_, _, hnone, -⟩ := step_initiate he
    obtain ⟨x, y, hx, hy, -⟩ := h
    cases p with
    | alice => cases hnone.symm.trans hx
    | bob => cases hnone.symm.trans hy

theorem Inv.send (hS : S.Ideal) (h : Inv who s) {p : Party} {plaintext : Bytes}
    {random : EncodeRandom} (he : step who s (.send p plaintext random) = some t) :
    Inv who t ∧ ∃ state next m, (s.side p).session = some state ∧
      t = ⟨Function.update s.side p ((s.side p).send next m), s.used⟩ ∧ m.plaintext = plaintext ∧
      rank ((s.side p).send next m).keys (s.side p).produced.length = state.sendMessageNumber := by
  obtain ⟨state, next, m, hstate, hsend, rfl⟩ := step_send he
  cases h with
  | idle hs =>
    subst hs
    cases hstate
  | opened h =>
    cases p with
    | alice =>
      cases hstate.symm.trans h.session
      obtain ⟨next', m', hsend', hm, hrank, hopened⟩ := h.send plaintext random
      cases hsend.symm.trans hsend'
      exact ⟨.of_opened hopened rfl (by simp) (by simp), state, next, m, hstate, rfl, hm, hrank⟩
    | bob => cases hstate.symm.trans h.session'
  | established q h =>
    rcases Party.eq_or_eq_other q p with rfl | rfl
    · obtain ⟨next', m', hsend', hm, hrank, hleads⟩ := h.send_leader hS hstate plaintext random
      cases hsend.symm.trans hsend'
      exact ⟨.of_leads p hleads rfl (by simp) (by simp), state, next, m, hstate, rfl, hm, hrank⟩
    · obtain ⟨next', m', hsend', hm, hrank, hleads⟩ := h.send_follower hS hstate plaintext random
      rw [Party.other_other] at hsend
      cases hsend.symm.trans hsend'
      exact ⟨.of_leads q hleads rfl (by simp) (by simp), state, next, m, hstate, rfl, hm, hrank⟩

/-- A device with a session can send. -/
theorem Inv.can_send (hS : S.Ideal) (h : Inv who s) {p : Party} {state : RatchetState S}
    (hstate : (s.side p).session = some state) (plaintext : Bytes) (random : EncodeRandom) :
    ∃ t, step who s (.send p plaintext random) = some t := by
  have hsend : ∃ next m, sendOn (who p) (who p.other) state plaintext random = .ok (next, m) := by
    cases h with
    | idle hs =>
      subst hs
      cases hstate
    | opened h =>
      cases p with
      | alice =>
        cases hstate.symm.trans h.session
        obtain ⟨next, m, hsend, -⟩ := h.send plaintext random
        exact ⟨next, m, hsend⟩
      | bob => cases hstate.symm.trans h.session'
    | established q h =>
      rcases Party.eq_or_eq_other q p with rfl | rfl
      · obtain ⟨next, m, hsend, -⟩ := h.send_leader hS hstate plaintext random
        exact ⟨next, m, hsend⟩
      · obtain ⟨next, m, hsend, -⟩ := h.send_follower hS hstate plaintext random
        rw [Party.other_other]
        exact ⟨next, m, hsend⟩
  obtain ⟨next, m, hsend⟩ := hsend
  exact ⟨_, send_enabled hstate hsend⟩

theorem Inv.deliver (hS : S.Ideal) (h : Inv who s) {p : Party} {index : ℕ}
    {newDhs : S.X25519Secret} (hfresh : newDhs ∉ s.used)
    (he : step who s (.deliver p index newDhs) = some t) : Inv who t := by
  obtain ⟨m, hm, rfl⟩ := step_deliver he
  cases h with
  | idle hs =>
    subst hs
    simp [start] at hm
  | opened h =>
    cases p with
    | alice =>
      have hm : (s.side .bob).produced[index]? = some m := hm
      simp [h.produced'] at hm
    | bob =>
      have hm : (s.side .alice).produced[index]? = some m := hm
      simp only [TwoParty.decode, h.session']
      cases index with
      | zero =>
        obtain ⟨next, m', hm', hd, hleads⟩ := h.receive_handshake hS hfresh
        cases hm.symm.trans hm'
        exact .of_leads .bob hleads rfl (by simp [Party.other, hd]) (by simp [Party.other])
      | succ k =>
        obtain ⟨reason, hd, hopened⟩ := h.receive_refused newDhs hm
        exact .of_opened hopened rfl (by simp) (by simp [Party.other, hd])
  | established q h =>
    rcases Party.eq_or_eq_other q p with rfl | rfl
    · have hsession : ∃ x, (s.side p).session = some x := by
        obtain ⟨x, -, hx, -⟩ := h
        exact ⟨x, hx⟩
      obtain ⟨x, hx⟩ := hsession
      exact .of_leads p (h.receive_leader hS hx newDhs hm) rfl
        (by simp [TwoParty.decode, hx]) (by simp)
    · have hsession : ∃ y, (s.side q.other).session = some y := by
        obtain ⟨-, y, -, hy, -⟩ := h
        exact ⟨y, hy⟩
      obtain ⟨y, hy⟩ := hsession
      rw [Party.other_other] at hm
      rcases h.receive_follower hS hy hm hfresh with hleads | hleads
      · exact .of_leads q hleads rfl (by simp) (by simp [TwoParty.decode, hy])
      · exact .of_leads q.other (by rwa [Party.other_other]) rfl (by simp [TwoParty.decode, hy])
          (by simp)

theorem Inv.step (hS : S.Ideal) {a : Action S} (h : Inv who s) (hfresh : Fresh s a)
    (he : step who s a = some t) : Inv who t := by
  cases a with
  | initiate ea kemRandom plaintext random => exact h.initiate hS hfresh he
  | send p plaintext random => exact (h.send hS he).1
  | deliver p index newDhs => exact h.deliver hS hfresh he

/-- The invariant holds in every run with fresh keys, under any network. -/
theorem inv_of_reach (hS : S.Ideal) (h : (machine who).Reach Fresh s) : Inv who s :=
  h.invariant (fun _ hs => .idle hs) fun _ _ _ hi hg he => hi.step hS hg he

/-- What a side has accepted is taken in order from the log of its peer. -/
theorem Inv.received (h : Inv who s) (p : Party) :
    ∃ settled recent, Received (s.side p.other).keys (s.side p).accepted settled recent := by
  cases h with
  | idle hs =>
    subst hs
    exact ⟨0, 0, .nil, by simp [start, Side.accepted], by omega, by simp [start, Side.keys, Contiguous]⟩
  | opened h =>
    cases p with
    | alice =>
      refine ⟨0, 0, ?_⟩
      simp only [Side.accepted, h.deliveries, Party.other, Side.keys, h.produced', List.map_nil,
        List.filterMap_nil]
      exact ⟨.nil, by simp, by omega, by simp [Contiguous]⟩
    | bob =>
      refine ⟨0, 0, ?_⟩
      rw [h.accepted']
      exact ⟨.nil, by simp, by omega, .of_forall_eq h.forall_keys⟩
  | established q h =>
    obtain ⟨x, y, -, -, hahead, hcaught⟩ := h
    rcases Party.eq_or_eq_other q p with rfl | rfl
    · exact hcaught.received
    · rw [Party.other_other]
      exact hahead.received

/-- What a side that has a session and was sent something knows of the other one. -/
theorem Inv.receiver (h : Inv who s) {p : Party} {state : RatchetState S} {m : Sent} {k : ℕ}
    (hstate : (s.side p).session = some state) (hk : (s.side p.other).produced[k]? = some m) :
    ∃ x, CaughtUp ((who p.other).toward (who p)) s.used x state (s.side p.other).produced
        (s.side p).accepted ∨
      Ahead ((who p.other).toward (who p)) s.used x state (s.side p.other).produced
        (s.side p).accepted := by
  cases h with
  | idle hs =>
    subst hs
    cases hstate
  | opened h =>
    cases p with
    | alice => simp [Party.other, h.produced'] at hk
    | bob => cases hstate.symm.trans h.session'
  | established q h =>
    obtain ⟨x, y, hx, hy, hahead, hcaught⟩ := h
    rcases Party.eq_or_eq_other q p with rfl | rfl
    · cases hstate.symm.trans hx
      exact ⟨y, .inl hcaught⟩
    · cases hstate.symm.trans hy
      rw [Party.other_other]
      exact ⟨x, .inr hahead⟩

theorem Inv.plaintext_eq (hS : S.Ideal) (h : Inv who s) {p : Party} {state : RatchetState S}
    {m : Sent} {k : ℕ} {newDhs : S.X25519Secret} {plaintext : Bytes}
    (hstate : (s.side p).session = some state) (hk : (s.side p.other).produced[k]? = some m)
    (ha : Accepts (decode who p (some state) m.envelope newDhs) plaintext) :
    plaintext = m.plaintext := by
  obtain ⟨x, hcaught | hahead⟩ := h.receiver hstate hk
  · exact hcaught.plaintext_eq hS hk ha
  · exact hahead.plaintext_eq hS hk ha

/-- The envelope next in order decodes exactly while its number fits the wire field. -/
theorem Inv.next_iff (hS : S.Ideal) (h : Inv who s) {p : Party} {state : RatchetState S} {m : Sent}
    {k : ℕ} {newDhs : S.X25519Secret} (hstate : (s.side p).session = some state)
    (hk : (s.side p.other).produced[k]? = some m)
    (hnext : NextInOrder (s.side p.other).keys (s.side p).accepted k) :
    Accepts (decode who p (some state) m.envelope newDhs) m.plaintext ↔
      rank (s.side p.other).keys k < 2 ^ 32 := by
  obtain ⟨x, hcaught | hahead⟩ := h.receiver hstate hk
  · exact hcaught.next_iff hS hk hnext
  · exact hahead.next_iff hS hk hnext

end TwoParty

end Epistl
