import Epistl.Inbox.Messenger

/-! # Speaking in turn, every frame is saved

A run of two devices that speak in turn is matched, step by step, with an in order
run of the two party conversation whose initiator is the device that spoke first.
-/
namespace Epistl.Messenger
variable {S : Suite} {who : Party → Identity S} {entropy : Party → Bytes} {first : Party}
  {s : Messenger S} {t : TwoParty S}

/-- The part a device plays when `first` spoke first. -/
def role (first p : Party) : Party := if p = first then .alice else .bob

/-- The identities in the order of their parts. -/
def cast (who : Party → Identity S) (first : Party) : Party → Identity S
  | .alice => who first
  | .bob => who first.other

theorem role_other (first p : Party) : role first p.other = (role first p).other := by
  cases first <;> cases p <;> rfl

theorem role_self (first : Party) : role first first = .alice := by cases first <;> rfl

theorem cast_role (who : Party → Identity S) (first p : Party) :
    cast who first (role first p) = who p := by
  cases first <;> cases p <;> rfl

theorem decode_cast (p : Party) (session : Option (RatchetState S)) (envelope : Bytes)
    (newDhs : S.X25519Secret) :
    TwoParty.decode (cast who first) (role first p) session envelope newDhs =
      TwoParty.decode who p session envelope newDhs := by
  simp only [TwoParty.decode, ← role_other, cast_role]

/-- The conversation state a state of the two devices is matched with. -/
structure Matches (who : Party → Identity S) (first : Party) (s : Messenger S) (t : TwoParty S) :
    Prop where
  reach : (TwoParty.machine (cast who first)).Reach TwoParty.InOrderFitting t
  used : ∀ a ∈ t.used, a ∈ s.used
  sessions : ∀ p, session who s p = (t.side (role first p)).session
  inbound : ∀ p, s.inbound p = ((t.side (role first p.other)).produced.drop
    (t.side (role first p)).deliveries.length).map fun m => Base64.bytesToBase64 m.envelope
  texts : ∀ p, (t.side (role first p)).produced.map Sent.plaintext =
    (s.sent p).map JsString.utf8Bytes
  delivered : ∀ p, s.delivered p = (t.side (role first p)).deliveries.length
  allSaved : AllSaved s

theorem start_used (first : Party) :
    ∀ a ∈ (TwoParty.start (cast who first)).used, a ∈ (start who).used := by
  intro a ha
  cases first
  · exact ha
  · simp only [TwoParty.start, cast, Party.other, start, List.mem_cons, List.not_mem_nil,
      or_false] at ha ⊢
    exact ha.symm

theorem matches_start (first : Party) :
    Matches who first (start who) (TwoParty.start (cast who first)) where
  reach := .init rfl
  used := start_used first
  sessions _ := rfl
  inbound _ := rfl
  texts _ := rfl
  delivered _ := rfl
  allSaved := ⟨fun _ => rfl, fun _ => ⟨rfl, fun _ _ h => List.not_mem_nil h⟩⟩

/-- Before anyone has a session, either device may still become the first speaker. -/
theorem Matches.choose (hS : S.Ideal) (h : Matches who first s t) (p : Party)
    (hp : session who s p = none) (hq : session who s p.other = none) :
    Matches who p s (TwoParty.start (cast who p)) := by
  have hnone (q : Party) : (t.side q).session = none := by
    rw [h.sessions] at hp hq
    have hcases : q = role first p ∨ q = role first p.other := by
      cases first <;> cases p <;> cases q <;> decide
    rcases hcases with rfl | rfl
    · exact hp
    · exact hq
  have ht : t = TwoParty.start (cast who first) := by
    cases (TwoParty.inOrderInv_of_reach hS h.reach).inv with
    | idle ht => exact ht
    | opened ho => cases ho.session.symm.trans (hnone _)
    | established r hl =>
      obtain ⟨x, y, hx, -⟩ := hl
      cases hx.symm.trans (hnone _)
  subst ht
  refine ⟨.init rfl, fun a ha => h.used a ?_, fun q => h.sessions q, fun q => h.inbound q,
    fun q => h.texts q, fun q => h.delivered q, h.allSaved⟩
  cases first <;> cases p <;>
    simp only [TwoParty.start, cast, Party.other, List.mem_cons, List.not_mem_nil, or_false]
      at ha ⊢ <;> tauto

theorem Matches.inv (hS : S.Ideal) (h : Matches who first s t) :
    TwoParty.InOrderInv (cast who first) t :=
  TwoParty.inOrderInv_of_reach hS h.reach

theorem deliveries_le (h : TwoParty.InOrderInv (cast who first) t) (p : Party) :
    (t.side p).deliveries.length ≤ (t.side p.other).produced.length := by
  obtain ⟨_, _, hr⟩ := h.inv.received p
  rw [h.accepted p] at hr
  by_contra hlt
  have := hr.taken.lt_length (t.side p.other).produced.length (List.mem_range.mpr (by omega))
  rw [Side.keys, List.length_map] at this
  exact Nat.lt_irrefl _ this

/-- The device and the network after a send. -/
def pushed (who : Party → Identity S) (s : Messenger S) (p : Party) (text createdAt : JsString)
    (random : SendRandom S) (envelope : Bytes) (next : RatchetState S) : Messenger S where
  device := Function.update s.device p
    (((s.device p).saveSession (who p.other).userId next).saveMessage
      ⟨(who p.other).userId, .outgoing, text, createdAt⟩)
  inbound := Function.update s.inbound p.other
    (s.inbound p.other ++ [Base64.bytesToBase64 envelope])
  used := random.ea :: s.used
  sent := Function.update s.sent p (s.sent p ++ [text])
  delivered := s.delivered

theorem step_send_eq {p : Party} {draft createdAt : JsString} {random : SendRandom S}
    {envelope : Bytes} {next : RatchetState S} (htext : JsString.trim draft ≠ [])
    (h : sendEnvelope (who p) (who p.other).userId ((who p.other).keyBundle (entropy p.other))
      (JsString.utf8Bytes (JsString.trim draft)) (session who s p) random =
      .ok (some (envelope, next))) :
    step who entropy s (.send p true draft createdAt random) =
      some (pushed who s p (JsString.trim draft) createdAt random envelope next) := by
  have hsend : handleSend (context who entropy p) (who p.other).userId true draft createdAt random
      (s.device p) = _ := handleSend_eq createdAt htext (if_pos rfl) h
  simp only [step, hsend]
  rfl

/-- A message joins the conversation on both sides of the match. -/
theorem Matches.push (hS : S.Ideal) (h : Matches who first s t) {p : Party}
    {text createdAt : JsString} {random : SendRandom S} {next : RatchetState S} {m : Sent}
    (used : List S.X25519Secret) (hm : m.plaintext = JsString.utf8Bytes text)
    (hused : ∀ a ∈ used, a ∈ random.ea :: s.used)
    (hreach : (TwoParty.machine (cast who first)).Reach TwoParty.InOrderFitting
      ⟨Function.update t.side (role first p) ((t.side (role first p)).send next m), used⟩) :
    Matches who first (pushed who s p text createdAt random m.envelope next)
      ⟨Function.update t.side (role first p) ((t.side (role first p)).send next m), used⟩ where
  reach := hreach
  used := hused
  sessions q := by
    rcases Party.eq_or_eq_other p q with rfl | rfl
    · simp [session, pushed, Device.loadSession, Device.saveMessage, Device.saveSession, Side.send]
    · have hq := h.sessions p.other
      simpa [session, pushed, role_other] using hq
  inbound q := by
    have hle := deliveries_le (h.inv hS) (role first q)
    rcases Party.eq_or_eq_other p q with rfl | rfl
    · simpa [pushed, Side.send, role_other] using h.inbound q
    · rw [← role_other, Party.other_other] at hle
      have hq := h.inbound p.other
      rw [Party.other_other] at hq
      simp only [pushed, Function.update_self, Party.other_other, Side.send]
      rw [role_other, Function.update_of_ne (Party.other_ne _), List.drop_append_of_le_length
        (by rwa [← role_other]), List.map_append, hq, role_other]
      rfl
  texts q := by
    rcases Party.eq_or_eq_other p q with rfl | rfl
    · simp [pushed, Side.send, h.texts q, hm]
    · simpa [pushed, role_other] using h.texts p.other
  delivered q := by
    rcases Party.eq_or_eq_other p q with rfl | rfl
    · simpa [pushed, Side.send] using h.delivered q
    · simpa [pushed, role_other] using h.delivered p.other
  allSaved := by
    refine ⟨fun q => ?_, fun q => ?_⟩
    · have hq := h.allSaved.saved q
      rcases Party.eq_or_eq_other p q with rfl | rfl
      · simpa [pushed, incoming, Device.saveMessage, Device.saveSession] using hq
      · have hle := deliveries_le (h.inv hS) (role first p.other)
        have hlen := congrArg List.length (h.texts p)
        rw [← role_other, Party.other_other] at hle
        rw [List.length_map, List.length_map] at hlen
        rw [Party.other_other] at hq
        simp only [pushed, Party.other_other, Function.update_self]
        rw [List.take_append_of_le_length (by rw [h.delivered, ← hlen]; exact hle),
          Function.update_of_ne (Party.other_ne p)]
        exact hq
    · have hq := h.allSaved.events q
      rcases Party.eq_or_eq_other p q with rfl | rfl
      · simpa [pushed, Device.saveMessage, Device.saveSession] using hq
      · simpa [pushed] using hq

theorem sendOn_plaintext {a b : Identity S} {state next : RatchetState S} {plaintext : Bytes}
    {random : EncodeRandom} {m : Sent}
    (h : TwoParty.sendOn a b state plaintext random = .ok (next, m)) : m.plaintext = plaintext := by
  simp only [TwoParty.sendOn, bind, Except.bind] at h
  split at h
  · cases h
  · cases h
    rfl

/-- A send in turn is a send or the initiation of the conversation. -/
theorem Matches.send (hS : S.Ideal) (entropy : Party → Bytes) (h : Matches who first s t) {p : Party}
    {draft : JsString} (createdAt : JsString) {random : SendRandom S}
    (htext : JsString.trim draft ≠ []) (hfresh : random.ea ∉ s.used)
    (hturn : match session who s p with
      | none => session who s p.other = none
      | some state => state.sendMessageNumber < 2 ^ 32) :
    ∃ envelope next first' t', step who entropy s (.send p true draft createdAt random) =
        some (pushed who s p (JsString.trim draft) createdAt random envelope next) ∧
      Matches who first' (pushed who s p (JsString.trim draft) createdAt random envelope next) t' := by
  cases hsession : session who s p with
  | none =>
    rw [hsession] at hturn
    have hc := h.choose hS p hsession hturn
    obtain ⟨c, kct, -, -, hinit⟩ := initiate_eq hS (cast who p .alice) (cast who p .bob) random.ea
      random.kemRandom (JsString.utf8Bytes (JsString.trim draft)) random.encode
    have hused : random.ea ∉ (TwoParty.start (cast who p)).used := fun ha => hfresh (hc.used _ ha)
    have hreach := Machine.Reach.step (G := TwoParty.InOrderFitting) hc.reach
      (a := .initiate random.ea random.kemRandom (JsString.utf8Bytes (JsString.trim draft))
        random.encode) ⟨⟨hused, trivial⟩, trivial⟩ (TwoParty.initiate_enabled rfl hinit)
    have hsend := sendEnvelope_none (a := who p) (b := who p.other) hS (entropy p.other)
      (JsString.utf8Bytes (JsString.trim draft)) random
    have hinit' : TwoParty.initiate (who p) (who p.other) random.ea random.kemRandom
      (JsString.utf8Bytes (JsString.trim draft)) random.encode = _ := hinit
    rw [hinit', ← hsession] at hsend
    refine ⟨_, _, p, _, step_send_eq htext hsend, hc.push hS (random.ea ::
      (TwoParty.start (cast who p)).used) rfl ?_ ?_⟩
    · exact fun a ha => List.mem_cons.mpr ((List.mem_cons.mp ha).imp id (hc.used a))
    · rw [role_self]
      exact hreach
  | some state =>
    rw [hsession] at hturn
    have hstate : (t.side (role first p)).session = some state := by rw [← h.sessions, hsession]
    obtain ⟨t', ht'⟩ := (h.inv hS).inv.can_send hS hstate (JsString.utf8Bytes (JsString.trim draft))
      random.encode
    have hfits : TwoParty.CounterFits t (.send (role first p)
        (JsString.utf8Bytes (JsString.trim draft)) random.encode) := fun state' hstate' => by
      cases hstate.symm.trans hstate'
      exact hturn
    have hreach := Machine.Reach.step (G := TwoParty.InOrderFitting) h.reach
      (a := .send (role first p) (JsString.utf8Bytes (JsString.trim draft)) random.encode)
      ⟨⟨trivial, trivial⟩, hfits⟩ ht'
    obtain ⟨state', next, m, hstate', hon, rfl⟩ := TwoParty.step_send ht'
    cases hstate.symm.trans hstate'
    rw [← role_other, cast_role, cast_role] at hon
    have hsend := sendEnvelope_some (a := who p) (b := who p.other)
      ((who p.other).keyBundle (entropy p.other)) (JsString.utf8Bytes (JsString.trim draft)) state
      random
    rw [hon, ← hsession] at hsend
    exact ⟨_, _, first, _, step_send_eq htext hsend, h.push hS _ (sendOn_plaintext hon)
      (fun a ha => List.mem_cons_of_mem _ (h.used a ha)) hreach⟩

/-- The device and the network after a delivery that was accepted. -/
def accepted (who : Party → Identity S) (s : Messenger S) (p : Party) (rest : List JsString)
    (createdAt : JsString) (newDhs : S.X25519Secret) (plaintext : Bytes) (next : RatchetState S) :
    Messenger S where
  device := Function.update s.device p
    ((s.device p).accept (who p.other).userId createdAt plaintext next)
  inbound := Function.update s.inbound p rest
  used := newDhs :: s.used
  sent := s.sent
  delivered := Function.update s.delivered p (s.delivered p + 1)

theorem step_deliver_eq {p : Party} {body : JsString} {rest : List JsString} {createdAt : JsString}
    {newDhs : S.X25519Secret} {plaintext : Bytes} {next : RatchetState S}
    (hin : s.inbound p = body :: rest)
    (hd : decodeFrame (context who entropy p) ((who p.other).keyBundle (entropy p.other))
      (who p.other).userId (Base64.base64ToBytes body) (session who s p) newDhs =
      .ok (some (.success plaintext next))) :
    step who entropy s (.deliver p createdAt newDhs) =
      some (accepted who s p rest createdAt newDhs plaintext next) := by
  have hp : processMessageFrame (context who entropy p) ⟨(who p.other).userId, body⟩ createdAt newDhs
      (s.device p) = _ := processMessageFrame_success createdAt (if_pos rfl) hd
  simp only [step, hin, hp]
  rfl

/-- Every delivery is accepted, with the text at its place in the order of sending. -/
theorem Matches.deliver (hS : S.Ideal) (entropy : Party → Bytes) (h : Matches who first s t)
    {p : Party} {body : JsString} {rest : List JsString} (createdAt : JsString) {newDhs : S.X25519Secret}
    (hin : s.inbound p = body :: rest) (hfresh : newDhs ∉ s.used) :
    ∃ text next t', (s.sent p.other)[s.delivered p]? = some text ∧
      step who entropy s (.deliver p createdAt newDhs) =
        some (accepted who s p rest createdAt newDhs (JsString.utf8Bytes text) next) ∧
      Matches who first
        (accepted who s p rest createdAt newDhs (JsString.utf8Bytes text) next) t' := by
  have hdrop := h.inbound p
  rw [hin] at hdrop
  obtain ⟨m, ms, hms, hm, hrest⟩ := List.map_eq_cons_iff.mp hdrop.symm
  have hget : (t.side (role first p.other)).produced[(t.side (role first p)).deliveries.length]? =
      some m := by
    have := congrArg (fun l => l[0]?) hms
    simpa using this
  obtain ⟨text, htext, hplain⟩ : ∃ text, (s.sent p.other)[s.delivered p]? = some text ∧
      m.plaintext = JsString.utf8Bytes text := by
    have := congrArg (fun l => l[s.delivered p]?) (h.texts p.other)
    simp only [List.getElem?_map, h.delivered p, hget, Option.map_some] at this
    obtain ⟨text, htext, he⟩ := Option.map_eq_some_iff.mp this.symm
    exact ⟨text, by rw [h.delivered p, htext], he.symm⟩
  have hused : newDhs ∉ t.used := fun ha => hfresh (h.used _ ha)
  have hget' : (t.side (role first p).other).produced[(t.side (role first p)).deliveries.length]? =
      some m := by rwa [← role_other]
  obtain ⟨next, hd⟩ := (h.inv hS).accepts hS hused hget'
  have hdecode := hd
  rw [decode_cast, ← h.sessions, hplain, ← Base64.base64ToBytes_bytesToBase64 m.envelope, hm]
    at hdecode
  have hreach := Machine.Reach.step (G := TwoParty.InOrderFitting) h.reach
    (a := .deliver (role first p) (t.side (role first p)).deliveries.length newDhs)
    ⟨⟨hused, rfl⟩, trivial⟩ (TwoParty.deliver_enabled newDhs hget')
  rw [hd] at hreach
  refine ⟨text, next, _, htext, step_deliver_eq hin (decodeFrame_of_accepts rfl hdecode), hreach, ?_, ?_, ?_, ?_, ?_, ?_⟩
  · exact fun a ha => List.mem_cons.mpr ((List.mem_cons.mp ha).imp id (h.used a))
  · intro q
    rcases Party.eq_or_eq_other p q with rfl | rfl
    · simp [session, accepted, Device.loadSession, Device.accept, Device.emit, Device.saveMessage,
        Device.saveSession, Side.receive]
    · have hq := h.sessions p.other
      simpa [session, accepted, role_other] using hq
  · intro q
    rcases Party.eq_or_eq_other p q with rfl | rfl
    · have hlen : ∀ d : Delivery S, ((t.side (role first q)).receive d).deliveries.length =
          (t.side (role first q)).deliveries.length + 1 := by simp [Side.receive]
      simp only [accepted, Function.update_self, hlen]
      rw [role_other, Function.update_of_ne (Party.other_ne _), ← role_other, ← List.drop_drop, hms,
        ← hrest]
      rfl
    · have hq := h.inbound p.other
      simpa [accepted, role_other, Side.receive] using hq
  · intro q
    rcases Party.eq_or_eq_other p q with rfl | rfl
    · simpa [accepted, Side.receive] using h.texts q
    · simpa [accepted, role_other] using h.texts p.other
  · intro q
    rcases Party.eq_or_eq_other p q with rfl | rfl
    · simp [accepted, Side.receive, h.delivered q]
    · simpa [accepted, role_other] using h.delivered p.other
  · refine ⟨fun q => ?_, fun q => ?_⟩
    · have hq := h.allSaved.saved q
      rcases Party.eq_or_eq_other p q with rfl | rfl
      · simp only [accepted, Function.update_self, List.take_add_one, htext, Option.toList_some,
          List.map_append, ← hq]
        simp [incoming, Device.accept, Device.emit, Device.saveMessage, Device.saveSession,
          incomingMessage, received]
      · simpa [accepted] using hq
    · have hq := h.allSaved.events q
      rcases Party.eq_or_eq_other p q with rfl | rfl
      · simpa [accepted, Device.accept, Device.emit, Device.saveMessage, Device.saveSession] using hq
      · simpa [accepted] using hq

/-- The runs that speak in turn are matched by in order conversations. -/
theorem matches_of_reach (hS : S.Ideal) (h : (machine who entropy).Reach (Guard who) s) :
    ∃ first t, Matches who first s t := by
  refine h.invariant (I := fun s => ∃ first t, Matches who first s t) ?_ ?_
  · rintro _ rfl
    exact ⟨.alice, _, matches_start .alice⟩
  · rintro s a s' ⟨first, t, hm⟩ ⟨hfresh, hturn⟩ he
    cases a with
    | send p connected draft createdAt random =>
      by_cases hempty : JsString.trim draft = [] ∨ connected = false
      · have hnone : handleSend (context who entropy p) (who p.other).userId connected draft
            createdAt random (s.device p) = (s.device p, none) := if_pos hempty
        have he : step who entropy s (.send p connected draft createdAt random) = some s' := he
        simp only [step, hnone, Option.some.injEq] at he
        exact ⟨first, t, he ▸ hm⟩
      · have htext : JsString.trim draft ≠ [] := fun h => hempty (.inl h)
        have hconn : connected = true := by
          cases connected with
          | true => rfl
          | false => exact absurd (.inr rfl) hempty
        subst hconn
        have hturn : match session who s p with
            | none => session who s p.other = none
            | some state => state.sendMessageNumber < 2 ^ 32 := by
          rcases hturn with h | h | h
          · exact absurd h htext
          · cases h
          · exact h
        obtain ⟨envelope, next, first', t', hstep, hm'⟩ := hm.send hS entropy createdAt
          htext hfresh hturn
        cases hstep.symm.trans he
        exact ⟨first', t', hm'⟩
    | deliver p createdAt newDhs =>
      cases hin : s.inbound p with
      | nil =>
        have he : step who entropy s (.deliver p createdAt newDhs) = some s' := he
        simp [step, hin] at he
      | cons body rest =>
        obtain ⟨text, next, t', -, hstep, hm'⟩ := hm.deliver hS entropy createdAt hin
          hfresh
        cases hstep.symm.trans he
        exact ⟨first, t', hm'⟩

/-- With nothing in flight, everything sent was delivered. -/
theorem Matches.delivered_all (hS : S.Ideal) (h : Matches who first s t) {p : Party}
    (hempty : s.inbound p = []) : s.delivered p = (s.sent p.other).length := by
  have hin := h.inbound p
  rw [hempty, eq_comm, List.map_eq_nil_iff, List.drop_eq_nil_iff] at hin
  have hle := deliveries_le (h.inv hS) (role first p)
  have hlen := congrArg List.length (h.texts p.other)
  rw [List.length_map, List.length_map] at hlen
  rw [← role_other] at hle
  rw [h.delivered p]
  omega

/-- With nothing in flight, a session on one device implies one on the other. -/
theorem Matches.session_both (hS : S.Ideal) (h : Matches who first s t)
    (hempty : ∀ p, s.inbound p = []) (p : Party) :
    (session who s p).isSome = (session who s p.other).isSome := by
  have hboth : (t.side .alice).session.isSome = (t.side .bob).session.isSome := by
    cases (h.inv hS).inv with
    | idle ht =>
      subst ht
      rfl
    | opened ho =>
      have hall := (h.inv hS).accepted .bob
      rw [ho.accepted'] at hall
      have hin := h.inbound first.other
      rw [hempty, Party.other_other, role_self, role_other, role_self, eq_comm, List.map_eq_nil_iff,
        List.drop_eq_nil_iff, ho.produced] at hin
      have hzero : (t.side .bob).deliveries.length = 0 := by simpa using hall.symm
      simp [Party.other, hzero] at hin
    | established q hl =>
      obtain ⟨x, y, hx, hy, -⟩ := hl
      cases q with
      | alice =>
        have hy : (t.side .bob).session = some y := hy
        simp [hx, hy]
      | bob =>
        have hy : (t.side .alice).session = some y := hy
        simp [hx, hy]
  rw [h.sessions, h.sessions, role_other]
  cases role first p with
  | alice => exact hboth
  | bob => exact hboth.symm

/-- In every run of two devices that speak in turn, every delivered frame was decoded and
saved; and once nothing is in flight either both devices have a session or neither has,
and a device with one can reach the other. -/
theorem converges (hS : S.Ideal) (h : (machine who entropy).Reach (Guard who) s) :
    AllSaved s ∧ ((∀ p, s.inbound p = []) →
      (∀ p, (session who s p).isSome = (session who s p.other).isSome) ∧
      ∀ p state, session who s p = some state → state.sendMessageNumber < 2 ^ 32 →
        CanReach who entropy s p) := by
  obtain ⟨first, t, hm⟩ := matches_of_reach hS h
  refine ⟨hm.allSaved, fun hempty => ⟨fun p => ?_, fun p state hstate hfits => ?_⟩⟩
  · exact hm.session_both hS hempty p
  · intro draft createdAt createdAt' random newDhs htext hea hnew
    obtain ⟨envelope, next, first', t', hstep, hm'⟩ := hm.send hS entropy createdAt
      htext hea (by rw [hstate]; exact hfits)
    have hin : (pushed who s p (JsString.trim draft) createdAt random envelope next).inbound p.other =
        [Base64.bytesToBase64 envelope] := by simp [pushed, hempty p.other]
    obtain ⟨text, next', t'', htext', hstep', -⟩ := hm'.deliver hS entropy createdAt' hin
      hnew
    have htext' : text = JsString.trim draft := by
      have hall := hm.delivered_all hS (hempty p.other)
      rw [Party.other_other] at hall htext'
      simpa [pushed, hall] using htext'.symm
    refine ⟨_, _, hstep, hstep', ?_⟩
    subst htext'
    simp [accepted, pushed, Device.accept, Device.emit, Device.saveMessage, Device.saveSession,
      incomingMessage, received]

section crossing

/-- A device without a session opens one. -/
theorem opens (who : Party → Identity S) (hS : S.Ideal) (entropy : Party → Bytes) {p : Party}
    (hnone : session who s p = none) {draft : JsString} (htext : JsString.trim draft ≠ [])
    (createdAt : JsString) (random : SendRandom S) :
    ∃ c kct, c.secret = random.ea ∧ FirstChain (who p) (who p.other) c kct ∧
      step who entropy s (.send p true draft createdAt random) = some (pushed who s p
        (JsString.trim draft) createdAt random (encodeHandshakeEnvelope c.publicKey kct
          (c.messageKey 0) (JsString.utf8Bytes (JsString.trim draft)) (who p).userId
          (who p.other).userId (who p).dilithiumSecretKey random.encode)
        (sentOn (openedOn c) c)) := by
  obtain ⟨c, kct, hc, hfirst, hinit⟩ := initiate_eq hS (who p) (who p.other) random.ea
    random.kemRandom (JsString.utf8Bytes (JsString.trim draft)) random.encode
  refine ⟨c, kct, hc, hfirst, step_send_eq htext ?_⟩
  rw [hnone, sendEnvelope_none hS, hinit]
  rfl

/-- A handshake in flight replaces whatever session the device has. -/
theorem installs (who : Party → Identity S) (hS : S.Ideal) (entropy : Party → Bytes) {p : Party} {c : Chain S}
    {kct plaintext : Bytes} {random : EncodeRandom} (rest : List JsString)
    (hc : FirstChain (who p.other) (who p) c kct)
    (hin : s.inbound p = Base64.bytesToBase64 (encodeHandshakeEnvelope c.publicKey kct
      (c.messageKey 0) plaintext (who p.other).userId (who p).userId
      (who p.other).dilithiumSecretKey random) :: rest) (createdAt : JsString)
    (newDhs : S.X25519Secret) :
    ∃ f : Chain S, f.secret = newDhs ∧ f.peer = c.secret ∧ f.root = c.nextRoot ∧
      step who entropy s (.deliver p createdAt newDhs) =
        some (accepted who s p rest createdAt newDhs plaintext (ratchetedTo c.publicKey c f 0)) := by
  obtain ⟨f, hf1, hf2, hf3, hd⟩ := decode_handshake hS hc plaintext random newDhs
  refine ⟨f, hf1, hf2, hf3, step_deliver_eq hin ?_⟩
  rw [Base64.base64ToBytes_bytesToBase64]
  simp only [decodeFrame, head_of_decodeHandshake hd, if_true]
  exact congrArg (Except.map some) hd

/-- A ratchet envelope that is refused is reported. -/
theorem reports (entropy : Party → Bytes) {p : Party} {state : RatchetState S} {c : Chain S} {n : ℕ}
    {m : Sent} (hm : IsRatchet ((who p.other).toward (who p)) c n m)
    (hin : s.inbound p = [Base64.bytesToBase64 m.envelope]) (hstate : session who s p = some state)
    (createdAt : JsString) (newDhs : S.X25519Secret)
    (hno : ∃ reason, decodeRatchetEnvelope m.envelope
      (((who p.other).toward (who p)).params state) newDhs = .ok (.failure reason)) :
    ∃ t, step who entropy s (.deliver p createdAt newDhs) = some t ∧
      .unverifiable (who p.other).userId createdAt ∈ (t.device p).events := by
  obtain ⟨reason, hno⟩ := hno
  have hhead : m.envelope.head? = some ratchetEnvelopeVersion := by
    obtain ⟨-, pcl, random, he⟩ := hm
    rw [he]
    rfl
  have hv : some ratchetEnvelopeVersion ≠ some handshakeEnvelopeVersion := by decide
  have hd : decodeFrame (context who entropy p) ((who p.other).keyBundle (entropy p.other))
      (who p.other).userId (Base64.base64ToBytes (Base64.bytesToBase64 m.envelope))
      (session who s p) newDhs = .ok (some (.failure reason)) := by
    rw [Base64.base64ToBytes_bytesToBase64, hstate]
    simp only [decodeFrame, hhead, if_neg hv, if_true]
    exact congrArg (Except.map some) hno
  have hbundle : (context who entropy p).findContactBundle (who p.other).userId =
      some ((who p.other).keyBundle (entropy p.other)) := if_pos rfl
  have hp : processMessageFrame (context who entropy p) ⟨(who p.other).userId,
      Base64.bytesToBase64 m.envelope⟩ createdAt newDhs (s.device p) =
      (s.device p).emit (.unverifiable (who p.other).userId createdAt) := by
    simp only [processMessageFrame, hbundle]
    rw [show (s.device p).loadSession (who p.other).userId = session who s p from rfl, hd]
  exact ⟨_, by simp only [step, hin]; rfl, by simp [hp, Device.emit]⟩

theorem session_pushed (s : Messenger S) (p : Party) (text createdAt : JsString)
    (random : SendRandom S) (envelope : Bytes) (next : RatchetState S) :
    session who (pushed who s p text createdAt random envelope next) p = some next ∧
      session who (pushed who s p text createdAt random envelope next) p.other =
        session who s p.other := by
  simp [session, pushed, Device.loadSession, Device.saveMessage, Device.saveSession]

theorem session_accepted (s : Messenger S) (p : Party) (rest : List JsString)
    (createdAt : JsString) (newDhs : S.X25519Secret) (plaintext : Bytes) (next : RatchetState S) :
    session who (accepted who s p rest createdAt newDhs plaintext next) p = some next ∧
      session who (accepted who s p rest createdAt newDhs plaintext next) p.other =
        session who s p.other := by
  simp [session, accepted, Device.loadSession, Device.accept, Device.emit, Device.saveMessage,
    Device.saveSession]

theorem reach_step {G : Messenger S → Action S → Prop} {t : Messenger S} {a : Action S}
    (h : (machine who entropy).Reach G s) (ht : step who entropy s a = some t) (hG : G s a) :
    (machine who entropy).Reach G t :=
  .step h hG ht

/-- Both devices speak first, and each installs a session towards a chain that the
other one has dropped. -/
theorem crossed (entropy : Party → Bytes) :
    ∃ (s : Messenger Symbolic.suite) (cA cB fA fB : Chain Symbolic.suite),
      (machine TwoParty.someone entropy).Reach Fresh s ∧ (∀ p, s.inbound p = []) ∧
      (∀ a ∈ s.used, a.val < 6) ∧
      session TwoParty.someone s .alice = some (ratchetedTo cB.publicKey cB fB 0) ∧
      session TwoParty.someone s .bob = some (ratchetedTo cA.publicKey cA fA 0) ∧
      cA.secret.val = 2 ∧ fA.secret.val = 4 ∧ fB.secret.val = 5 ∧ fB.peer.val = 3 := by
  have hS := Symbolic.suite_ideal
  have htext : JsString.trim hello ≠ [] := by decide
  obtain ⟨cA, kctA, hcA, hfirstA, h1⟩ := opens TwoParty.someone
    (s := start TwoParty.someone) (p := .alice) hS entropy rfl htext [] (randomOf 2 (by decide))
  generalize hs1 : pushed _ _ _ _ _ _ _ _ = s1 at h1
  obtain ⟨cB, kctB, hcB, hfirstB, h2⟩ := opens TwoParty.someone (s := s1) (p := .bob) hS
    entropy (by rw [← hs1]; exact (session_pushed _ _ _ _ _ _ _).2) htext []
    (randomOf 3 (by decide))
  generalize hs2 : pushed _ _ _ _ _ _ _ _ = s2 at h2
  obtain ⟨fA, hfA, -, -, h3⟩ := installs TwoParty.someone (s := s2) (p := .bob) hS entropy []
    hfirstA (by rw [← hs2, ← hs1]; rfl) [] ⟨4, by decide⟩
  generalize hs3 : accepted _ _ _ _ _ _ _ _ = s3 at h3
  obtain ⟨fB, hfB, hfB', -, h4⟩ := installs TwoParty.someone (s := s3) (p := .alice) hS
    entropy [] hfirstB (by rw [← hs3, ← hs2, ← hs1]; rfl) [] ⟨5, by decide⟩
  generalize hs4 : accepted _ _ _ _ _ _ _ _ = s4 at h4
  have hused0 : ∀ a ∈ (start TwoParty.someone).used, a.val < 2 := by simp [start, TwoParty.someone]
  have hused {n k : ℕ} {l : List Symbolic.Secret} {a : Symbolic.Secret} (h : ∀ a ∈ l, a.val < n)
      (ha : a.val = k) (hk : n = k) : ∀ b ∈ a :: l, b.val < k + 1 := by
    intro b hb
    rcases List.mem_cons.mp hb with rfl | hb
    · omega
    · have := h b hb
      omega
  have hused1 : ∀ a ∈ s1.used, a.val < 3 := by
    rw [← hs1]
    exact hused hused0 rfl rfl
  have hused2 : ∀ a ∈ s2.used, a.val < 4 := by
    rw [← hs2]
    exact hused hused1 rfl rfl
  have hused3 : ∀ a ∈ s3.used, a.val < 5 := by
    rw [← hs3]
    exact hused hused2 rfl rfl
  have hused4 : ∀ a ∈ s4.used, a.val < 6 := by
    rw [← hs4]
    exact hused hused3 rfl rfl
  have hreach1 : (machine TwoParty.someone entropy).Reach Fresh s1 :=
    reach_step (.init rfl) h1 (Symbolic.not_mem_of_val hused0 rfl)
  have hreach2 : (machine TwoParty.someone entropy).Reach Fresh s2 :=
    reach_step hreach1 h2 (Symbolic.not_mem_of_val hused1 rfl)
  have hreach3 : (machine TwoParty.someone entropy).Reach Fresh s3 :=
    reach_step hreach2 h3 (Symbolic.not_mem_of_val hused2 rfl)
  have hreach : (machine TwoParty.someone entropy).Reach Fresh s4 :=
    reach_step hreach3 h4 (Symbolic.not_mem_of_val hused3 rfl)
  refine ⟨s4, cA, cB, fA, fB, hreach, ?_, hused4, ?_, ?_, ?_⟩
  · intro p
    rw [← hs4, ← hs3, ← hs2, ← hs1]
    cases p <;> rfl
  · rw [← hs4]
    exact (session_accepted _ _ _ _ _ _ _).1
  · rw [← hs4, ← hs3]
    exact (session_accepted _ .alice _ _ _ _ _).2.trans (session_accepted _ .bob _ _ _ _ _).1
  · rw [hcA, hfA, hfB, hfB', hcB]
    exact ⟨rfl, rfl, rfl, rfl⟩

/-- After a crossing the next frame is reported as unverifiable. -/
theorem crossing_unverifiable :
    ¬ ∀ s, (machine TwoParty.someone fun _ => []).Reach Fresh s → AllSaved s := by
  intro hall
  have hS := Symbolic.suite_ideal
  have htext : JsString.trim hello ≠ [] := by decide
  obtain ⟨s, cA, cB, fA, fB, hreach, hin, hused, halice, hbob, hcA, hfA, hfB, hpeer⟩ :=
    crossed fun _ => []
  obtain ⟨m, hon, -, hm, -⟩ := sendOn_eq (a := TwoParty.someone .alice) (b := TwoParty.someone .bob)
    (x := ratchetedTo cB.publicKey cB fB 0) (e := fB) (n := 0) ⟨rfl, rfl, rfl, rfl⟩
    (JsString.utf8Bytes (JsString.trim hello)) TwoParty.someRandom
  have hsend := sendEnvelope_some (a := TwoParty.someone .alice) (b := TwoParty.someone .bob)
    ((TwoParty.someone .bob).keyBundle []) (JsString.utf8Bytes (JsString.trim hello))
    (ratchetedTo cB.publicKey cB fB 0) (randomOf 6 (by decide))
  rw [show (randomOf 6 (by decide)).encode = TwoParty.someRandom from rfl, hon, ← halice] at hsend
  have h5 : step TwoParty.someone (fun _ => []) s
      (.send .alice true hello [] (randomOf 6 (by decide))) = _ := step_send_eq htext hsend
  generalize hs5 : pushed _ _ _ _ _ _ _ _ = s5 at h5
  have hused5 : ∀ a ∈ s5.used, a.val < 7 := by
    rw [← hs5]
    intro a ha
    rcases List.mem_cons.mp ha with rfl | ha
    · exact Nat.lt_succ_self 6
    · exact Nat.lt_succ_of_lt (hused a ha)
  have hbob5 : session TwoParty.someone s5 .bob = some (ratchetedTo cA.publicKey cA fA 0) := by
    rw [← hs5]
    exact (session_pushed s .alice _ _ _ _ _).2.trans hbob
  have hin5 : s5.inbound .bob = [Base64.bytesToBase64 m.envelope] := by
    rw [← hs5]
    simp [pushed, Party.other, hin]
  -- Alice answers on a chain towards the key Bob dropped when he took her handshake
  obtain ⟨t, h6, hmem⟩ := reports (fun _ => []) (p := .bob) hm hin5 hbob5 [] ⟨7, by decide⟩
    (decode_new_refused hS hm
      (fun hkey => by
        have := congrArg Symbolic.Secret.val (Chain.publicKey_injective hS (Option.some.inj hkey))
        omega)
      (fun hkey => by
        have := congrArg Symbolic.Secret.val hkey
        change fB.peer.val = fA.secret.val at this
        omega))
  have hreach5 := reach_step hreach h5 (Symbolic.not_mem_of_val hused rfl)
  have hreach6 := reach_step hreach5 h6 (Symbolic.not_mem_of_val hused5 rfl)
  exact ((hall t hreach6).events .bob).2 _ _ hmem

/-- The first message of a conversation, delivered. -/
theorem converges_first :
    ∃ s : Messenger Symbolic.suite, s.delivered .bob = 1 ∧ AllSaved s := by
  have hS := Symbolic.suite_ideal
  have htext : JsString.trim hello ≠ [] := by decide
  obtain ⟨c, kct, -, hfirst, h1⟩ := opens TwoParty.someone
    (s := start TwoParty.someone) (p := .alice) hS (fun _ => []) rfl htext []
    (randomOf 2 (by decide))
  generalize hs1 : pushed _ _ _ _ _ _ _ _ = s1 at h1
  obtain ⟨f, -, -, -, h2⟩ := installs TwoParty.someone (s := s1) (p := .bob) hS
    (fun _ => []) [] hfirst (by rw [← hs1]; rfl) [] ⟨3, by decide⟩
  have hused0 : ∀ a ∈ (start TwoParty.someone).used, a.val < 2 := by simp [start, TwoParty.someone]
  have hused1 : ∀ a ∈ s1.used, a.val < 3 := by
    rw [← hs1]
    intro a ha
    rcases List.mem_cons.mp ha with rfl | ha
    · exact Nat.lt_succ_self 2
    · exact Nat.lt_succ_of_lt (hused0 a ha)
  have hreach0 : (machine TwoParty.someone fun _ => []).Reach (Guard TwoParty.someone)
      (start TwoParty.someone) := .init rfl
  have hreach1 := reach_step hreach0 h1
    ⟨Symbolic.not_mem_of_val hused0 rfl, .inr (.inr rfl)⟩
  have hreach2 := reach_step hreach1 h2 ⟨Symbolic.not_mem_of_val hused1 rfl, trivial⟩
  refine ⟨_, ?_, (converges hS hreach2).1⟩
  rw [← hs1]
  rfl

end crossing

end Epistl.Messenger
