import Epistl.Deployment.Linked
import Epistl.Inbox.InOrder

/-! # Nothing is stored twice

A ratchet message that is delivered again is refused, so a text is stored twice only if a
handshake is processed twice. While the relay pushes no message twice, a device processes none
twice, neither a handshake nor a message that was drained and redelivered.
-/
namespace Epistl
variable {S : Suite} {ι : Type} [DecidableEq ι] {dir : Directory S ι} {p q : ι}

namespace Network
variable {s : Network S ι}

/-- Every handshake envelope of a device is a new one. -/
def Openings (s : Network S ι) (q : ι) : Prop :=
  (s.produced q).Pairwise fun body body' => Opening (Base64.base64ToBytes body) →
    Base64.base64ToBytes body ≠ Base64.base64ToBytes body'

theorem openings_of_reach (hS : S.Ideal) (h : (machine dir).Reach Replays s) (q : ι) :
    s.Openings q := by
  refine h.invariant_of (I := fun s => s.Openings q) (fun _ hr => inv_of_reach hS hr) ?_ ?_
  · rintro _ rfl
    exact List.Pairwise.nil
  · intro s action t hinv hi hguard he
    cases action with
    | present p frame createdAt newDhs =>
      rw [Openings, (step_took he).1]
      exact hi
    | send p userId connected draft createdAt random =>
      rcases step_wrote he with rfl | ⟨r, envelope, next, hwrote⟩
      · exact hi
      rw [Openings, hwrote.produced, Function.update_apply]
      split
      · rename_i hq
        subst hq
        refine List.pairwise_append.mpr ⟨hi, List.pairwise_singleton _ _, fun b hb b' hb' => ?_⟩
        cases List.mem_singleton.mp hb'
        rw [Base64.base64ToBytes_bytesToBase64]
        rintro hopening rfl
        obtain ⟨a, ha, hslice⟩ := (hinv.made q b hb).secret hS
        rcases hwrote.made hS with ⟨-, c, hc, -, hm, -⟩ | ⟨y, hy, hon⟩
        · have hsecret := hS.x25519PublicKey_injective
            (hslice.symm.trans (slice_madeHandshake hS hm))
          exact hguard q (hc ▸ hsecret ▸ ha)
        · obtain ⟨e, n, hsends⟩ := ((hinv.tracked hwrote.contact).ready y hy).sends
          cases hopening.symm.trans (hon e n hsends).1.head
      · exact hi

omit [DecidableEq ι] in
/-- A handshake envelope has one number. -/
theorem Openings.index {q : ι} (h : s.Openings q) {i j : ℕ} {body body' : JsString}
    (hi : (s.produced q)[i]? = some body) (hj : (s.produced q)[j]? = some body')
    (hopening : Opening (Base64.base64ToBytes body))
    (heq : Base64.base64ToBytes body = Base64.base64ToBytes body') : i = j := by
  obtain ⟨hilt, hi⟩ := List.getElem?_eq_some_iff.mp hi
  obtain ⟨hjlt, hj⟩ := List.getElem?_eq_some_iff.mp hj
  have hne := List.pairwise_iff_getElem.mp h
  rcases Nat.lt_trichotomy i j with hlt | heq' | hlt
  · have hno := hne i j hilt hjlt hlt
    rw [hi, hj] at hno
    exact absurd heq (hno hopening)
  · exact heq'
  · have hno := hne j i hjlt hilt hlt
    rw [hi, hj] at hno
    exact absurd heq.symm (hno (heq ▸ hopening))

end Network

namespace Deployment
variable {s t : Deployment S ι} {m : Relay.Message ι}

/-- Key generation is fresh, and the drains and the spawned tasks of a user keep out of each
other's way. -/
def Exclusive (s : Deployment S ι) (action : Action S ι) : Prop :=
  Fresh s action ∧ ∀ a k, action = .relay a k → s.relay.Exclusive a

omit [DecidableEq ι] in
theorem exclusive_write {contactUserId draft createdAt : JsString} {connected : Bool}
    {random : SendRandom S} (hfresh : ∀ q, random.ea ∉ s.network.used q) :
    Exclusive s (.write p contactUserId connected draft createdAt random) :=
  ⟨hfresh, fun _ _ h => by cases h⟩

omit [DecidableEq ι] in
theorem exclusive_process {i : ℕ} {createdAt : JsString} {newDhs : S.X25519Secret}
    (hfresh : ∀ q, newDhs ∉ s.network.used q) : Exclusive s (.process i createdAt newDhs) :=
  ⟨hfresh, fun _ _ h => by cases h⟩

theorem relay_of_reach (h : (machine dir).Reach Exclusive s) :
    Relay.Server.machine.Reach Relay.Server.Exclusive s.relay := by
  refine h.invariant (I := fun s : Deployment S ι =>
    Relay.Server.machine.Reach Relay.Server.Exclusive s.relay) ?_ ?_
  · rintro _ rfl
    exact .init rfl
  · intro s action t hs hguard he
    cases action with
    | write p contactUserId connected draft createdAt random =>
      obtain ⟨network, -, rfl⟩ := Option.map_eq_some_iff.mp he
      exact hs
    | relay a k =>
      obtain ⟨relay, hrelay, he⟩ := Option.bind_eq_some_iff.mp he
      have hnext : Relay.Server.machine.Reach Relay.Server.Exclusive relay :=
        hs.step (hguard.2 a k rfl) hrelay
      split at he
      · cases he
        exact hnext
      · split at he <;> cases he
        exact hnext
    | process i createdAt newDhs =>
      obtain ⟨g, -, he⟩ := Option.bind_eq_some_iff.mp he
      obtain ⟨frame, -, he⟩ := Option.bind_eq_some_iff.mp he
      split at he
      · cases he
        exact hs
      · obtain ⟨network, -, rfl⟩ := Option.map_eq_some_iff.mp he
        exact hs

/-- The messages among what was processed of connection `i`. -/
def done (s : Deployment S ι) (i : ℕ) : List (Relay.Message ι) :=
  ((s.relay.writtenTo i).take (s.read i)).filterMap Relay.Frame.message?

/-- What was processed was processed once, from where the relay had put it. -/
structure ShownOnce (s : Deployment S ι) : Prop where
  done (p : ι) : ∀ m ∈ s.shown p, ∃ i, m ∈ s.done i
  nodup (p : ι) : (s.shown p).Nodup

omit [DecidableEq ι] in
theorem done_subset (hwritten : ∀ i, s.relay.writtenTo i <+: t.relay.writtenTo i)
    (hread : ∀ i, s.read i ≤ t.read i) (i : ℕ) : s.done i ⊆ t.done i := by
  have htake : (s.relay.writtenTo i).take (s.read i) <+: (t.relay.writtenTo i).take (t.read i) :=
    ((hwritten i).take (s.read i)).trans (List.take_prefix_take_left (hread i))
  exact (htake.sublist.filterMap _).subset

omit [DecidableEq ι] in
/-- The next message of a connection was not processed before. -/
theorem done_fresh (hplaced : s.relay.Placed) {i j : ℕ} {frame : Relay.Frame ι}
    (hframe : (s.relay.writtenTo i)[s.read i]? = some frame) (hm : frame.message? = some m) :
    m ∉ s.done j := by
  have hwritten (k : ℕ) : ((s.relay.writtenTo k).filterMap Relay.Frame.message?).Sublist
      (s.relay.placed k) := by
    rw [Relay.Server.writtenTo, Relay.Server.placed]
    cases s.relay.channels[k]? with
    | none => exact List.Sublist.refl _
    | some c => exact (List.sublist_append_left c.written c.frames).filterMap _
  have hnext : (s.done i ++ [m]).Sublist (s.relay.placed i) := by
    refine List.Sublist.trans ?_ (hwritten i)
    have htake : (s.relay.writtenTo i).take (s.read i + 1) =
        (s.relay.writtenTo i).take (s.read i) ++ [frame] := by
      rw [List.take_add_one, hframe]
      rfl
    have hsub := (List.take_sublist (s.read i + 1) (s.relay.writtenTo i)).filterMap
      Relay.Frame.message?
    rw [htake, List.filterMap_append] at hsub
    simpa [done, hm] using hsub
  intro hdone
  have hj : m ∈ s.relay.placed j :=
    ((List.take_sublist _ _).filterMap _ |>.trans (hwritten j)).subset hdone
  have hi : m ∈ s.relay.placed i :=
    hnext.subset (List.mem_append_right _ (List.mem_singleton_self m))
  obtain rfl := hplaced.apart hi hj
  have hnodup := (hplaced.nodup i).sublist hnext
  exact List.disjoint_of_nodup_append hnodup hdone (List.mem_singleton_self m)

theorem ShownOnce.step {action : Action S ι} (h : ShownOnce s) (hledger : Relay.Ledger s.relay)
    (hplaced : s.relay.Placed) (he : step dir s action = some t) : ShownOnce t := by
  cases action with
  | write p contactUserId connected draft createdAt random =>
    obtain ⟨network, -, rfl⟩ := Option.map_eq_some_iff.mp he
    exact ⟨h.done, h.nodup⟩
  | relay a k =>
    obtain ⟨relay, hrelay, he⟩ := Option.bind_eq_some_iff.mp he
    obtain ⟨push, hmoves, -⟩ := Relay.Server.step_moves hledger hrelay
    have hkept : t.relay = relay → t.read = s.read → t.shown = s.shown → ShownOnce t := by
      intro hr hread hshown
      refine ⟨fun p m hm => ?_, fun p => hshown ▸ h.nodup p⟩
      obtain ⟨i, hi⟩ := h.done p m (hshown ▸ hm)
      exact ⟨i, done_subset (fun i => hr ▸ hmoves.written i) (fun i => (congrFun hread i).ge) i hi⟩
    split at he
    · cases he
      exact hkept rfl rfl rfl
    · split at he <;> cases he
      exact hkept rfl rfl rfl
  | process i createdAt newDhs =>
    obtain ⟨g, -, he⟩ := Option.bind_eq_some_iff.mp he
    obtain ⟨frame, hframe, he⟩ := Option.bind_eq_some_iff.mp he
    have hread (j : ℕ) : s.read j ≤ Function.update s.read i (s.read i + 1) j := by
      rw [Function.update_apply]
      split
      · rename_i hj
        rw [hj]
        exact Nat.le_succ _
      · exact Nat.le_refl _
    have hdone {u : Deployment S ι} (hrelay : u.relay = s.relay)
        (hu : u.read = Function.update s.read i (s.read i + 1)) (j : ℕ) : s.done j ⊆ u.done j :=
      done_subset (fun _ => hrelay ▸ List.prefix_rfl) (fun k => hu ▸ hread k) j
    split at he
    · cases he
      refine ⟨fun p m hm => ?_, h.nodup⟩
      obtain ⟨j, hj⟩ := h.done p m hm
      refine ⟨j, ?_⟩
      refine hdone ?_ ?_ j hj <;> rfl
    · rename_i m hm
      obtain ⟨network, -, rfl⟩ := Option.map_eq_some_iff.mp he
      have hfresh : m ∉ s.shown g.user := by
        intro hmem
        obtain ⟨j, hj⟩ := h.done g.user m hmem
        exact done_fresh hplaced hframe hm hj
      refine ⟨fun p n hn => ?_, fun p => ?_⟩
      · have hcases : n ∈ s.shown p ∨ n = m := by
          by_cases hp : p = g.user
          · subst hp
            simpa using hn
          · simp only [Function.update_of_ne hp] at hn
            exact .inl hn
        rcases hcases with hn | rfl
        · obtain ⟨j, hj⟩ := h.done p n hn
          refine ⟨j, ?_⟩
          refine hdone ?_ ?_ j hj <;> rfl
        · refine ⟨i, List.mem_filterMap.mpr ⟨frame, ?_, hm⟩⟩
          simp only [Function.update_self]
          rw [List.take_add_one, hframe]
          exact List.mem_append_right _ (List.mem_singleton_self frame)
      · by_cases hp : p = g.user
        · subst hp
          simp only [Function.update_self]
          refine List.nodup_append.mpr ⟨h.nodup g.user, List.nodup_singleton m, ?_⟩
          intro n hn n' hn' heq
          exact hfresh (List.mem_singleton.mp hn' ▸ heq ▸ hn)
        · simp only [Function.update_of_ne hp]
          exact h.nodup p

theorem shownOnce_of_reach (h : (machine dir).Reach Exclusive s) : ShownOnce s := by
  refine h.invariant_of (fun _ hr => relay_of_reach hr) ?_ ?_
  · rintro _ rfl
    exact ⟨fun p m hm => by simp [start] at hm, fun p => List.nodup_nil⟩
  · intro s action t hrelay hs _ he
    exact hs.step (Relay.ledger_of_reach hrelay) (Relay.Server.placed_of_reach hrelay) he

/-- The messages with a handshake envelope that a device has processed from another one. -/
def handshakes (s : Deployment S ι) (p q : ι) : List (Relay.Message ι) :=
  ((s.shown p).filter fun m => decide (m.sender = q)).filter fun m =>
    decide (Network.Opening (Base64.base64ToBytes m.body))

/-- A device that has processed no handshake of a contact twice has accepted no envelope twice. -/
theorem accepted_nodup (hS : S.Ideal) (h : (machine dir).Reach Fresh s) {userId : JsString}
    (hq : dir.contact p userId = some q) (honce : (s.handshakes p q).Nodup) :
    (s.network.accepted p userId).Nodup := by
  have hlinked := linked_of_reach hS (fun _ _ hg => hg) h
  have hopenings := Network.openings_of_reach hS hlinked.network q
  refine ((Network.inv_of_reach hS hlinked.network).once p userId).nodup ?_
  refine List.Nodup.sublist ((hlinked.accepted hq).filter fun e => decide (Network.Opening e)) ?_
  rw [List.filter_map]
  refine List.Nodup.map_on ?_ honce
  intro m hm n hn heq
  simp only [List.mem_filter, Function.comp_apply, decide_eq_true_eq] at hm hn
  obtain ⟨⟨hm, rfl⟩, hopening⟩ := hm
  obtain ⟨⟨hn, hsender⟩, -⟩ := hn
  obtain ⟨k, hk, hbody⟩ := (hlinked.shown p m hm).2
  obtain ⟨l, hl, hbody'⟩ := (hlinked.shown p n hn).2
  rw [hsender] at hbody'
  obtain rfl := hopenings.index hbody hbody' hopening heq
  -- one body was handed over once, so both are the same send
  have hhanded (x : Relay.Message ι) (hx : s.submitted[x.id]? = some (x, k)) :
      s.handed[x.id]? = some (x.sender, k) := by
    rw [handed, List.getElem?_map, hx]
    rfl
  have hm' := hhanded m hk
  have hn' := hhanded n hl
  rw [hsender] at hn'
  have hid : m.id = n.id := (List.getElem?_inj (List.getElem?_eq_some_iff.mp hm').1 hlinked.once).mp
    (hm'.trans hn'.symm)
  rw [hid] at hk
  exact congrArg Prod.fst (Option.some.inj (hk.symm.trans hl))

/-- Whatever the relay queues, drains and redelivers, however often it delivers a message, and
however the devices and the tasks of the relay interleave: a device that was delivered no
handshake of a contact twice stores each text at most once that the contact has sent to it, and
nothing else as from it. -/
theorem stored_once (hS : S.Ideal) (h : (machine dir).Reach Fresh s) {userId : JsString}
    (hq : dir.contact p userId = some q) (honce : (s.handshakes p q).Nodup) :
    ((s.network.device p).receivedFrom userId).Subperm
      ((s.network.device q).sentTo (dir.who p).userId) := by
  have hlinked := linked_of_reach hS (fun _ _ hg => hg) h
  exact Network.receivedFrom_subperm hS hlinked.network hq (accepted_nodup hS h hq honce)

/-- While the drains and the spawned tasks of a user keep apart, a device processes every message
at most once, and so stores every text at most once. -/
theorem processed_once (hS : S.Ideal) (h : (machine dir).Reach Exclusive s) (p : ι) :
    (s.shown p).Nodup ∧ ∀ {q : ι} {userId : JsString}, dir.contact p userId = some q →
      ((s.network.device p).receivedFrom userId).Subperm
        ((s.network.device q).sentTo (dir.who p).userId) := by
  have hnodup := (shownOnce_of_reach h).nodup p
  have hfresh : (machine dir).Reach Fresh s := h.mono fun _ _ hg => hg.1
  have hlinked := linked_of_reach hS (fun _ _ hg => hg) hfresh
  refine ⟨hnodup, fun {q userId} hq => ?_⟩
  have honce : (s.handshakes p q).Nodup := (hnodup.filter _).filter _
  exact Network.receivedFrom_subperm hS hlinked.network hq (accepted_nodup hS hfresh hq honce)

/-! ### A concrete run -/

section concrete

theorem reach_step {G : Deployment S ι → Action S ι → Prop} {action : Action S ι}
    (h : (machine dir).Reach G s) (he : step dir s action = some t) (hG : G s action) :
    (machine dir).Reach G t :=
  .step h hG he

/-- A step of the relay alone. -/
def Quiet (s : Relay.Server ι) (a : Relay.Action ι) : Prop :=
  s.Exclusive a ∧ s.begun a = none

instance (s : Relay.Server ι) (a : Relay.Action ι) : Decidable (Quiet s a) :=
  inferInstanceAs (Decidable (_ ∧ _))

theorem reach_relay {as : List (Relay.Action ι)} {relay : Relay.Server ι}
    (h : (machine dir).Reach Exclusive s)
    (he : Relay.Server.machine.execIf Quiet s.relay as = some relay) :
    (machine dir).Reach Exclusive { s with relay := relay } := by
  induction as generalizing s with
  | nil =>
    cases he
    exact h
  | cons a as ih =>
    simp only [Machine.execIf] at he
    split at he
    · rename_i hquiet
      obtain ⟨next, hnext, he⟩ := Option.bind_eq_some_iff.mp he
      have hstep : step dir s (.relay a 0) = some { s with relay := next } := by
        have hnext : s.relay.step a = some next := hnext
        simp only [step, hnext, Option.bind_some, hquiet.2]
      refine ih (s := { s with relay := next }) (.step h (a := Action.relay a 0) ?_ hstep) he
      refine ⟨trivial, fun b k hb => ?_⟩
      cases hb
      exact hquiet.1
    · cases he

/-- A text without surrogates is well formed. -/
theorem isWellFormed_of_forall {s : JsString} (h : ∀ c ∈ s,
    JsString.isHighSurrogate c = false ∧ JsString.isLowSurrogate c = false) :
    JsString.isWellFormed s = true := by
  induction s with
  | nil => rfl
  | cons c s ih =>
    obtain ⟨hhigh, hlow⟩ := h c List.mem_cons_self
    have hrest := ih fun d hd => h d (List.mem_cons_of_mem c hd)
    cases s with
    | nil => simp [JsString.isWellFormed, hhigh, hlow]
    | cons d s => simp [JsString.isWellFormed, hhigh, hlow, hrest]

/-- The characters of a base64 text. -/
theorem mem_bytesToBase64 (bytes : Bytes) :
    ∀ c ∈ Base64.bytesToBase64 bytes, c ∈ Base64.padding :: 0 :: Base64.base64Chars := by
  have hchar (v : ℕ) : Base64.charAt v ∈ 0 :: Base64.base64Chars := by
    rw [Base64.charAt, List.getD_eq_getElem?_getD]
    cases h : Base64.base64Chars[v]? with
    | none => exact List.mem_cons_self
    | some c => exact List.mem_cons_of_mem _ (List.mem_of_getElem? h)
  induction bytes using Base64.bytesToBase64.induct with
  | case1 => simp [Base64.bytesToBase64]
  | case2 b0 => simp [Base64.bytesToBase64, List.mem_cons.mp (hchar _)]
  | case3 b0 b1 => simp [Base64.bytesToBase64, List.mem_cons.mp (hchar _)]
  | case4 b0 b1 b2 rest ih =>
    rw [Base64.bytesToBase64]
    intro c hc
    simp only [List.mem_cons] at hc
    rcases hc with rfl | rfl | rfl | rfl | hc
    · exact List.mem_cons_of_mem _ (hchar _)
    · exact List.mem_cons_of_mem _ (hchar _)
    · exact List.mem_cons_of_mem _ (hchar _)
    · exact List.mem_cons_of_mem _ (hchar _)
    · exact ih c hc

/-- The base64 text of an envelope can be sent as a string. -/
theorem exists_bodyB64 (bytes : Bytes) :
    ∃ text : String, JsString.ofString text = Base64.bytesToBase64 bytes := by
  have hall : (Base64.padding :: 0 :: Base64.base64Chars).all (fun c =>
      !JsString.isHighSurrogate c && !JsString.isLowSurrogate c) = true := by decide
  refine JsString.exists_ofString (isWellFormed_of_forall fun c hc => ?_)
  simpa using List.all_eq_true.mp hall c (mem_bytesToBase64 bytes c hc)

/-- Both neighbours are connected, and their tasks read. -/
def connected : Relay.Server Party where
  handlers := [⟨.bob, .reading⟩, ⟨.alice, .reading⟩]
  channels := [⟨[], .running, []⟩, ⟨[], .running, []⟩]
  registry := Function.update (Function.update (fun _ => none) .bob (some 0)) .alice (some 1)
  queue := fun _ => []
  tasks := []
  sends := 0
  pushed := []
  published := []
  acked := []
  expired := []
  replaced := []

/-- What Alice's client sends when it has a text for Bob. -/
def hands (text : Option String) : Relay.Input Party where
  available := 0
  removed := true
  event := text.map fun text => .send (some .bob) (some text)
  isContact := true
  publish := .stored
  sentAt := ""

/-- The message goes live to Bob's connection, which writes it. -/
theorem relays (text : String) : ∃ sent relay : Relay.Server Party,
    connected.step (.run 1 (hands text)) = some sent ∧
      Relay.Server.machine.execIf Quiet sent
        [.run 1 (hands none), .run 1 (hands none), .forward 0 true] = some relay ∧
      relay.handlers[0]? = some ⟨.bob, .reading⟩ ∧
      relay.writtenTo 0 = [.text (.message ⟨0, .alice, .bob, text, ""⟩)] := by
  refine ⟨_, _, rfl, rfl, ?_, ?_⟩
  · rfl
  · rfl

theorem connects : Relay.Server.machine.execIf Quiet Relay.Server.start
    [.connect .bob, .run 0 (hands none), .run 0 (hands none), .run 0 (hands none),
      .connect .alice, .run 1 (hands none), .run 1 (hands none), .run 1 (hands none)] =
        some connected := rfl

/-- Alice writes to Bob, and Bob's device shows and saves the message. -/
theorem exists_deployed : ∃ s : Deployment Symbolic.suite Party,
    (machine Network.neighbours).Reach Exclusive s ∧ (∃ m, s.shown .bob = [m]) ∧
      ((s.network.device .bob).receivedFrom (TwoParty.someone .alice).userId).length = 1 := by
  have hS := Symbolic.suite_ideal
  have hcontact : Network.neighbours.contact .bob (TwoParty.someone .alice).userId =
      some .alice := rfl
  obtain ⟨envelope, device, hhandle, haccepts⟩ := Network.alice_writes
  obtain ⟨text, htext⟩ := exists_bodyB64 envelope
  obtain ⟨sent, relay, hsent, hrelay, hbob, hwritten⟩ := relays text
  let m : Relay.Message Party := ⟨0, .alice, .bob, text, ""⟩
  have hm : m.body = Base64.bytesToBase64 envelope := htext
  -- both connect, and Alice writes
  have hinit : (machine Network.neighbours).Reach Exclusive
      (start (S := Symbolic.suite) Network.neighbours) := .init rfl
  have h0 := reach_relay hinit connects
  let s0 : Deployment Symbolic.suite Party := { start Network.neighbours with relay := connected }
  let network : Network Symbolic.suite Party := { Network.start Network.neighbours with
    device := Function.update (fun _ => .empty) .alice device
    produced := Function.update (fun _ => []) .alice [m.body]
    used := Function.update (Network.start Network.neighbours).used .alice
      ((Messenger.randomOf 2 (by decide)).ea :: (Network.start Network.neighbours).used .alice) }
  have hlt (q : Party) (a : Symbolic.suite.X25519Secret) (ha : a ∈ network.used q) : a.val < 3 :=
    Network.lt_of_used Network.used_start rfl rfl q a ha
  have hwrite : step Network.neighbours s0
      (.write .alice (TwoParty.someone .bob).userId true Messenger.hello []
        (Messenger.randomOf 2 (by decide))) = some { s0 with network := network } := by
    simp only [step, Network.step, s0, start, Network.start, hhandle, ← hm]
    rfl
  have hfresh : ∀ q, (Messenger.randomOf 2 (by decide)).ea ∉ s0.network.used q :=
    fun q => Symbolic.not_mem_of_val (Network.used_start q) rfl
  have h1 := reach_step (s := s0) h0 hwrite (exclusive_write hfresh)
  -- her client sends it, and the relay writes it to Bob's connection
  let s2 : Deployment Symbolic.suite Party := { s0 with
    network := network
    relay := sent
    submitted := [(m, 0)] }
  have hsubmit : step Network.neighbours { s0 with network := network }
      (.relay (.run 1 (hands (some text))) 0) = some s2 := by
    have hbegun : connected.begun (.run 1 (hands (some text))) = some m := rfl
    have hproduced : (network.produced .alice)[0]? = some m.body := by
      simp only [network, Function.update_self]
      rfl
    simp only [step, s0, hsent, Option.bind_some, hbegun]
    rw [if_pos ⟨List.not_mem_nil, hproduced⟩]
    rfl
  have hexclusive : connected.Exclusive (.run 1 (hands (some text))) := by
    refine ⟨rfl, fun h hh hstage => ?_⟩
    cases hh
    cases hstage
  have h2 := reach_step h1 hsubmit ⟨trivial, fun a k ha => by cases ha; exact hexclusive⟩
  have h3 := reach_relay (s := s2) h2 hrelay
  -- Bob's device processes it
  have haccept : acceptsFrame (Network.neighbours.context .bob) (Network.neighbours.frame m)
      ⟨3, by decide⟩ (network.device .bob) = true := by
    rw [Directory.frame, hm]
    exact haccepts _ _
  obtain ⟨final, hpresent, -, -, hlog⟩ := Network.accepts_present (s := network) haccept []
  have hprocess : step Network.neighbours { s2 with relay := relay }
      (.process 0 [] ⟨3, by decide⟩) = some { s2 with
        relay := relay
        network := final
        read := Function.update (fun _ => 0) 0 1
        shown := Function.update (fun _ => []) .bob [m] } := by
    have hframe : (relay.writtenTo 0)[s2.read 0]? = some (.text (.message m)) := by
      rw [hwritten]
      rfl
    simp only [step, hbob, hframe, Option.bind_some]
    exact congrArg (Option.map _) hpresent
  have h4 := reach_step (s := { s2 with relay := relay }) h3 hprocess
    (exclusive_process fun q => Symbolic.not_mem_of_val (hlt q) rfl)
  have hfinal := (linked_of_reach hS (fun _ _ hg => hg.1) h4).network
  obtain ⟨rows, hbody, -, hrows⟩ :=
    (Network.texts_of_reach hS (Network.unforged_of_replays hS hfinal)).accepted hcontact
  refine ⟨_, h4, ⟨m, rfl⟩, ?_⟩
  rw [← hbody, List.length_map, hrows.length_eq]
  exact congrArg List.length hlog

theorem refines_first : ∃ s : Deployment Symbolic.suite Party, (∃ m, s.shown .bob = [m]) ∧
    (Network.machine Network.neighbours).Reach Network.Replays s.network ∧ s.handed.Nodup ∧
      ∀ p, ∀ m ∈ s.shown p, m.recipient = p ∧ s.Submitted m := by
  obtain ⟨s, h, hshown, -⟩ := exists_deployed
  exact ⟨s, hshown, refines Symbolic.suite_ideal (h.mono fun _ _ hg => hg.1)⟩

theorem stored_first : ∃ s : Deployment Symbolic.suite Party,
    ((s.network.device .bob).receivedFrom (TwoParty.someone .alice).userId).length = 1 ∧
      ((s.network.device .bob).receivedFrom (TwoParty.someone .alice).userId).Subperm
        ((s.network.device .alice).sentTo (TwoParty.someone .bob).userId) := by
  obtain ⟨s, h, ⟨m, hshown⟩, hreceived⟩ := exists_deployed
  have hcontact : Network.neighbours.contact .bob (TwoParty.someone .alice).userId =
      some .alice := rfl
  have honce : (s.handshakes .bob .alice).Nodup := by
    rw [handshakes, hshown]
    exact ((List.nodup_singleton m).filter _).filter _
  exact ⟨s, hreceived, stored_once Symbolic.suite_ideal (h.mono fun _ _ hg => hg.1) hcontact honce⟩

theorem processed_first : ∃ s : Deployment Symbolic.suite Party, (∃ m, s.shown .bob = [m]) ∧
    ((s.network.device .bob).receivedFrom (TwoParty.someone .alice).userId).length = 1 ∧
      (s.shown .bob).Nodup ∧
        ((s.network.device .bob).receivedFrom (TwoParty.someone .alice).userId).Subperm
          ((s.network.device .alice).sentTo (TwoParty.someone .bob).userId) := by
  obtain ⟨s, h, hshown, hreceived⟩ := exists_deployed
  have hcontact : Network.neighbours.contact .bob (TwoParty.someone .alice).userId =
      some .alice := rfl
  obtain ⟨hnodup, hstored⟩ := processed_once Symbolic.suite_ideal h .bob
  exact ⟨s, hshown, hreceived, hnodup, hstored hcontact⟩

end concrete

end Deployment
end Epistl
