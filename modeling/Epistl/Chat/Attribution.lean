import Epistl.Chat.Screen
import Epistl.Ratchet.Agreement
import Mathlib.Data.List.Nodup

/-! # Which message a failure is blamed on

`handleFrame` marks the newest send. That is the right one as long as the failure is the
reply to it and nothing is sent, and nothing else arrives, before the effect has run.
-/
namespace Epistl.Chat
variable {S : Suite}

def queueUnavailable : IncomingFrame := .error "queue_unavailable"

namespace Screen

/-- The message is in the list, marked as not delivered. -/
def Marked (s : Screen) (key : Key) : Prop :=
  ∃ item ∈ s.messages, item.key = key ∧ item.deliveryFailed = true

/-- The own reply of the message was that it could not be queued. -/
def Failed (s : Screen) (key : Key) : Prop := (key, queueUnavailable) ∈ s.replied

/-- The effect has not handled the newest frame yet, and it is a failure. -/
def waits (s : Screen) : Bool :=
  decide (s.processed < s.arrived.length) && decide (s.arrived.getLast? = some queueUnavailable)

/-- Whenever the effect has caught up with the store, the marked messages are those that
failed. -/
structure Attributed (s : Screen) : Prop where
  marked (key : Key) : s.processed = s.arrived.length → (s.Marked key ↔ s.Failed key)
  /-- Two messages of the list have two keys. -/
  keys : (s.messages.map ChatListItem.key).Nodup

variable (ctx : Context S) (contactUserId : JsString)

/-- A failure is the reply to the newest send, and until the effect has handled it nothing
arrives and nothing is sent. -/
def inTurn (s : Screen) : Action S → Bool
  | .reply frame => !s.waits && (decide (frame ≠ queueUnavailable) || decide (s.outstanding.length = 1))
  | .receive _ _ => !s.waits
  | .loaded i session _ random =>
    match s.sends[i]?, ctx.findContactBundle contactUserId with
    | some (some text), some contact =>
      match sendEnvelope ctx.identity contactUserId contact (JsString.utf8Bytes text) session random with
      | .ok (some _) => !s.waits
      | _ => true
    | _, _ => true
  | _ => true

/-- `k` is the failed message that is not marked yet. -/
structure Tracked (s : Screen) (pending : Option Key) : Prop where
  failed (key : Key) : s.Failed key ↔ s.Marked key ∨ pending = some key
  waits : s.waits = true ↔ pending.isSome = true
  newest (key : Key) : pending = some key → s.lastSentKey = some key ∧
    ∃ item ∈ s.messages, item.key = key

structure Inv (s : Screen) : Prop where
  tracked : ∃ pending, s.Tracked pending
  outstanding (key : Key) : s.outstanding.getLast? = some key → s.lastSentKey = some key
  listed (key : Key) : s.lastSentKey = some key → ∃ item ∈ s.messages, item.key = key
  processed : s.processed ≤ s.rendered
  rendered : s.rendered ≤ s.arrived.length
  /-- A failure that a render saw and the effect did not handle is the newest frame. -/
  failure : s.processed < s.rendered → s.renderedFrame = some queueUnavailable →
    s.rendered = s.arrived.length
  keys : (s.messages.map ChatListItem.key).Nodup
  fresh (n : ℕ) : .fresh n ∈ s.messages.map ChatListItem.key → n ≤ s.localKeySeq

variable {ctx : Context S} {contactUserId : JsString} {s t : Screen} {item : ChatListItem}
  {key : Key} {frame : IncomingFrame} {pending : Option Key}

/-- The part of the screen that the frames are about. -/
structure SameFrames (s t : Screen) : Prop where
  messages : t.messages = s.messages
  localKeySeq : t.localKeySeq = s.localKeySeq
  lastSentKey : t.lastSentKey = s.lastSentKey
  arrived : t.arrived = s.arrived
  rendered : t.rendered = s.rendered
  processed : t.processed = s.processed
  outstanding : t.outstanding = s.outstanding
  replied : t.replied = s.replied

theorem marked_append : (s.append item).Marked key ↔
    s.Marked key ∨ item.key = key ∧ item.deliveryFailed = true := by
  simp only [Marked, append, List.mem_append, List.mem_singleton]
  constructor
  · rintro ⟨other, hmem | rfl, hother⟩
    · exact .inl ⟨other, hmem, hother⟩
    · exact .inr hother
  · rintro (⟨other, hmem, hother⟩ | hitem)
    · exact ⟨other, .inl hmem, hother⟩
    · exact ⟨item, .inr rfl, hitem⟩

/-- What `handleFrame` makes of an item. -/
def failing (k : Key) (item : ChatListItem) : ChatListItem :=
  if item.key = k then { item with deliveryFailed := true } else item

theorem key_failing {k : Key} : (failing k item).key = item.key := by
  unfold failing
  split <;> rfl

theorem map_key_failing (k : Key) (messages : List ChatListItem) :
    (messages.map (failing k)).map ChatListItem.key = messages.map ChatListItem.key := by
  rw [List.map_map]
  apply List.map_congr_left
  intro item _
  exact key_failing

/-- A message of the list is marked, and no other. -/
theorem marked_map {k : Key} (hk : ∃ item ∈ s.messages, item.key = k) :
    Marked { s with processed := s.rendered, messages := s.messages.map (failing k) } key ↔
      s.Marked key ∨ k = key := by
  simp only [Marked, List.mem_map]
  constructor
  · rintro ⟨_, ⟨item, hitem, rfl⟩, hkey, hfailed⟩
    rw [key_failing] at hkey
    by_cases hk : item.key = k
    · exact .inr (hk.symm.trans hkey)
    · rw [failing, if_neg hk] at hfailed
      exact .inl ⟨item, hitem, hkey, hfailed⟩
  · rintro (⟨item, hitem, hkey, hfailed⟩ | rfl)
    · refine ⟨_, ⟨item, hitem, rfl⟩, key_failing.trans hkey, ?_⟩
      unfold failing
      split
      · rfl
      · exact hfailed
    · obtain ⟨item, hitem, hkey⟩ := hk
      refine ⟨_, ⟨item, hitem, rfl⟩, key_failing.trans hkey, ?_⟩
      rw [failing, if_pos hkey]

/-- A reply is to the oldest frame without one. -/
theorem reply_eq_some (h : s.step ctx contactUserId (.reply frame) = some t) :
    ∃ key rest, s.outstanding = key :: rest ∧
      t = { s.store frame with outstanding := rest, replied := s.replied ++ [(key, frame)] } := by
  cases frame with
  | message => cases h
  | ack | error =>
    simp only [step] at h
    split at h
    · cases h
    · rename_i key rest houtstanding
      cases h
      exact ⟨key, rest, houtstanding, rfl⟩

theorem handleFrame_of_ne (h : frame ≠ queueUnavailable) : s.handleFrame frame = s := by
  unfold handleFrame
  split
  · exact absurd rfl h
  · rfl

theorem renderedFrame_store (h : s.rendered ≤ s.arrived.length) :
    (s.store frame).renderedFrame = s.renderedFrame := by
  simp only [renderedFrame, store]
  rw [List.take_append_of_le_length h]

theorem renderedFrame_eq_last (h : s.rendered = s.arrived.length) :
    s.renderedFrame = s.arrived.getLast? := by
  rw [renderedFrame, h, List.take_length]

theorem waits_eq_true : s.waits = true ↔
    s.processed < s.arrived.length ∧ s.arrived.getLast? = some queueUnavailable := by
  simp [waits]

namespace Inv

theorem same (h : s.Inv) (hsame : SameFrames s t) : t.Inv := by
  obtain ⟨hm, hl, hk, ha, hr, hp, ho, hd⟩ := hsame
  obtain ⟨pending, htracked⟩ := h.tracked
  constructor
  · refine ⟨pending, fun key => ?_, ?_, fun key => ?_⟩
    · unfold Failed Marked
      rw [hd, hm]
      exact htracked.failed key
    · unfold waits
      rw [hp, ha]
      exact htracked.waits
    · rw [hk, hm]
      exact htracked.newest key
  · rw [ho, hk]
    exact h.outstanding
  · rw [hk, hm]
    exact h.listed
  · rw [hp, hr]
    exact h.processed
  · rw [hr, ha]
    exact h.rendered
  · unfold renderedFrame
    rw [hp, hr, ha]
    exact h.failure
  · rw [hm]
    exact h.keys
  · rw [hm, hl]
    exact h.fresh

theorem keys_append (h : s.Inv) (hitem : item.key = s.nextLocalKey) :
    ((s.append item).messages.map ChatListItem.key).Nodup := by
  simp only [append, List.map_append, List.map_cons, List.map_nil]
  rw [List.nodup_append]
  refine ⟨h.keys, List.nodup_singleton _, fun k hk k' hk' => ?_⟩
  rw [List.mem_singleton.mp hk', hitem]
  rintro rfl
  have hle := h.fresh _ hk
  omega

theorem fresh_append (h : s.Inv) (hitem : item.key = s.nextLocalKey) (n : ℕ)
    (hn : .fresh n ∈ (s.append item).messages.map ChatListItem.key) :
    n ≤ (s.append item).localKeySeq := by
  simp only [append, List.map_append, List.mem_append, List.map_cons, List.map_nil,
    List.mem_singleton] at hn
  obtain hn | hn := hn
  · exact Nat.le_succ_of_le (h.fresh n hn)
  · rw [hitem] at hn
    cases hn
    exact Nat.le_refl _

/-- A message that comes from the inbox. -/
theorem append (h : s.Inv) (hitem : item.key = s.nextLocalKey) (hfailed : item.deliveryFailed = false) :
    (s.append item).Inv := by
  obtain ⟨pending, htracked⟩ := h.tracked
  have hlisted {key : Key} (hkey : ∃ item ∈ s.messages, item.key = key) :
      ∃ other ∈ (s.append item).messages, other.key = key := by
    obtain ⟨other, hmem, hother⟩ := hkey
    exact ⟨other, List.mem_append_left _ hmem, hother⟩
  constructor
  · refine ⟨pending, fun key => ?_, htracked.waits, fun key hkey => ?_⟩
    · rw [marked_append, hfailed]
      exact (htracked.failed key).trans (by simp)
    · exact ⟨(htracked.newest key hkey).1, hlisted (htracked.newest key hkey).2⟩
  · exact h.outstanding
  · intro key hkey
    exact hlisted (h.listed key hkey)
  · exact h.processed
  · exact h.rendered
  · exact h.failure
  · exact h.keys_append hitem
  · exact h.fresh_append hitem

/-- While no failure waits to be handled, all are marked. -/
theorem settled (h : s.Inv) (hwaits : s.waits = false) : s.Tracked none := by
  obtain ⟨pending, htracked⟩ := h.tracked
  cases pending with
  | none => exact htracked
  | some key =>
    rw [htracked.waits.mpr rfl] at hwaits
    cases hwaits

/-- A send, while no failure waits to be handled. -/
theorem send (h : s.Inv) (hwaits : s.waits = false) (text createdAt : JsString) :
    (s.send text createdAt).Inv := by
  have htracked := h.settled hwaits
  let item : ChatListItem := ⟨s.nextLocalKey, .outgoing, some text, true, createdAt, false⟩
  have happend : (s.append item).Inv := h.append rfl rfl
  constructor
  · refine ⟨none, fun key => ?_, htracked.waits, fun key hkey => by cases hkey⟩
    have hmarked : (s.send text createdAt).Marked key ↔ s.Marked key := by
      exact marked_append.trans (by simp)
    rw [hmarked]
    exact htracked.failed key
  · intro key hkey
    simpa [Screen.send] using hkey
  · intro key hkey
    cases hkey
    exact ⟨_, List.mem_append_right _ (List.mem_singleton_self _), rfl⟩
  · exact h.processed
  · exact h.rendered
  · exact h.failure
  · exact happend.keys
  · exact happend.fresh

/-- A frame other than a failure, or the failure of the newest send, while no failure waits. -/
theorem store (h : s.Inv) (hwaits : s.waits = false) {outstanding : List Key}
    {replied : List (Key × IncomingFrame)}
    (houtstanding : ∀ key, outstanding.getLast? = some key → s.lastSentKey = some key)
    (hfailed : frame ≠ queueUnavailable → ∀ key,
      (key, queueUnavailable) ∈ replied ↔ (key, queueUnavailable) ∈ s.replied)
    (hfails : frame = queueUnavailable → ∃ k, s.lastSentKey = some k ∧
      ∀ key, (key, queueUnavailable) ∈ replied ↔ (key, queueUnavailable) ∈ s.replied ∨ k = key) :
    Inv { s.store frame with outstanding := outstanding, replied := replied } := by
  have htracked := h.settled hwaits
  have hlast : (s.arrived ++ [frame]).getLast? = some frame := List.getLast?_concat
  have hlt : s.processed < (s.arrived ++ [frame]).length := by
    have hp := h.processed
    have hr := h.rendered
    rw [List.length_append, List.length_singleton]
    omega
  constructor
  · by_cases hframe : frame = queueUnavailable
    · obtain ⟨k, hk, hreplied⟩ := hfails hframe
      refine ⟨some k, fun key => ?_, ?_, fun key hkey => ?_⟩
      · simp only [Failed, hreplied, Option.some.injEq]
        exact or_congr_left ((htracked.failed key).trans (by simp [Marked, Screen.store]))
      · rw [waits_eq_true]
        exact ⟨fun _ => rfl, fun _ => ⟨hlt, hlast.trans (congrArg some hframe)⟩⟩
      · cases hkey
        exact ⟨hk, h.listed k hk⟩
    · refine ⟨none, fun key => ?_, ?_, fun key hkey => by cases hkey⟩
      · simp only [Failed, hfailed hframe]
        exact htracked.failed key
      · rw [waits_eq_true]
        refine ⟨fun hw => ?_, fun h => by cases h⟩
        exact absurd (Option.some.inj (hlast.symm.trans hw.2)) hframe
  · exact houtstanding
  · exact h.listed
  · exact h.processed
  · have hr := h.rendered
    simp only [Screen.store, List.length_append, List.length_singleton]
    omega
  · intro hlt' hrendered
    have hbehind : s.processed < s.rendered := hlt'
    have hframe := (renderedFrame_store h.rendered).symm.trans hrendered
    have hold := h.failure hbehind hframe
    rw [hold] at hbehind
    rw [waits_eq_true.mpr ⟨hbehind, (renderedFrame_eq_last hold).symm.trans hframe⟩] at hwaits
    cases hwaits
  · exact h.keys
  · exact h.fresh

theorem render (h : s.Inv) : Inv { s with rendered := s.arrived.length } := by
  obtain ⟨pending, htracked⟩ := h.tracked
  constructor
  · exact ⟨pending, htracked.failed, htracked.waits, htracked.newest⟩
  · exact h.outstanding
  · exact h.listed
  · exact Nat.le_trans h.processed h.rendered
  · exact Nat.le_refl _
  · intro _ _
    rfl
  · exact h.keys
  · exact h.fresh

/-- The effect, on a frame that is no failure. -/
theorem skip (h : s.Inv) (hframe : s.renderedFrame ≠ some queueUnavailable) :
    Inv { s with processed := s.rendered } := by
  obtain ⟨pending, htracked⟩ := h.tracked
  have hwaits : waits { s with processed := s.rendered } = s.waits := by
    rw [Bool.eq_iff_iff, waits_eq_true, waits_eq_true]
    refine and_congr_left fun hlast => ?_
    have hne : s.rendered ≠ s.arrived.length := by
      intro heq
      exact hframe ((renderedFrame_eq_last heq).trans hlast)
    have hp := h.processed
    have hr := h.rendered
    change s.rendered < s.arrived.length ↔ s.processed < s.arrived.length
    omega
  constructor
  · refine ⟨pending, htracked.failed, ?_, htracked.newest⟩
    rw [hwaits]
    exact htracked.waits
  · exact h.outstanding
  · exact h.listed
  · exact Nat.le_refl _
  · exact h.rendered
  · intro hlt _
    exact absurd hlt (Nat.lt_irrefl _)
  · exact h.keys
  · exact h.fresh

/-- The effect, on a failure: it marks the newest send. -/
theorem mark (h : s.Inv) (hlt : s.processed < s.rendered)
    (hframe : s.renderedFrame = some queueUnavailable) :
    Inv ({ s with processed := s.rendered }.handleFrame queueUnavailable) := by
  have hnewest := h.failure hlt hframe
  have hwaits : s.waits = true := waits_eq_true.mpr
    ⟨Nat.lt_of_lt_of_eq hlt hnewest, (renderedFrame_eq_last hnewest).symm.trans hframe⟩
  obtain ⟨pending, htracked⟩ := h.tracked
  obtain ⟨k, rfl⟩ := Option.isSome_iff_exists.mp (htracked.waits.mp hwaits)
  obtain ⟨hk, item, hitem, hkey⟩ := htracked.newest k rfl
  have hhandled : { s with processed := s.rendered }.handleFrame queueUnavailable =
      { s with processed := s.rendered, messages := s.messages.map (failing k) } := by
    simp only [handleFrame, queueUnavailable, hk]
    rfl
  rw [hhandled]
  constructor
  · refine ⟨none, fun key => ?_, ?_, fun key hkey => by cases hkey⟩
    · rw [marked_map ⟨item, hitem, hkey⟩]
      exact (htracked.failed key).trans (by simp [Marked])
    · rw [waits_eq_true]
      refine ⟨fun hw => ?_, fun h => by cases h⟩
      exact absurd hw.1 (by simp [hnewest])
  · exact h.outstanding
  · intro key hkey
    obtain ⟨other, hmem, rfl⟩ := h.listed key hkey
    exact ⟨failing k other, List.mem_map_of_mem hmem, key_failing⟩
  · exact Nat.le_refl _
  · exact h.rendered
  · intro hlt _
    exact absurd hlt (Nat.lt_irrefl _)
  · simp only [map_key_failing]
    exact h.keys
  · simp only [map_key_failing]
    exact h.fresh

/-- The effect handles what the last render saw. -/
theorem lastFrameEffect (h : s.Inv) : s.lastFrameEffect.Inv := by
  unfold Screen.lastFrameEffect
  split
  · exact h
  · rename_i hne
    split
    · exact h
    · rename_i frame hframe
      by_cases hfailure : frame = queueUnavailable
      · subst hfailure
        have hp := h.processed
        exact h.mark (by omega) hframe
      · rw [handleFrame_of_ne hfailure]
        apply h.skip
        rw [hframe]
        simpa using hfailure

theorem handleInboxEvent (h : s.Inv) (event : InboxEvent) :
    (s.handleInboxEvent contactUserId event).Inv := by
  cases event with
  | unverifiable sender createdAt =>
    simp only [Screen.handleInboxEvent]
    split
    · exact h
    · exact h.append rfl rfl
  | saved sender createdAt text =>
    simp only [Screen.handleInboxEvent]
    split
    · exact h
    · exact h.append rfl rfl

theorem loaded {contact : ContactKeyBundle} {i : ℕ} {text createdAt : JsString}
    {session : Option (RatchetState S)} {random : SendRandom S} (h : s.Inv)
    (hguard : ∀ sent, sendEnvelope ctx.identity contactUserId contact (JsString.utf8Bytes text)
      session random = .ok (some sent) → s.waits = false) :
    (s.loaded ctx contactUserId contact i text session createdAt random).Inv := by
  have hset : Inv { s with sends := s.sends.set i none } := h.same ⟨rfl, rfl, rfl, rfl, rfl, rfl, rfl, rfl⟩
  unfold Screen.loaded
  dsimp only
  split
  · exact hset
  · exact hset.same ⟨rfl, rfl, rfl, rfl, rfl, rfl, rfl, rfl⟩
  · rename_i sent hsent
    exact hset.send (hguard sent hsent) text createdAt

theorem step {a : Action S} (h : s.Inv) (hguard : s.inTurn ctx contactUserId a = true)
    (ht : s.step ctx contactUserId a = some t) : t.Inv := by
  cases a with
  | setDraft draft =>
    cases ht
    exact h.same ⟨rfl, rfl, rfl, rfl, rfl, rfl, rfl, rfl⟩
  | setStatus connected =>
    cases ht
    exact h.same ⟨rfl, rfl, rfl, rfl, rfl, rfl, rfl, rfl⟩
  | handleSend =>
    cases ht
    unfold Screen.handleSend
    dsimp only
    split
    · exact h
    · split
      · exact h.same ⟨rfl, rfl, rfl, rfl, rfl, rfl, rfl, rfl⟩
      · exact h.same ⟨rfl, rfl, rfl, rfl, rfl, rfl, rfl, rfl⟩
  | loaded i session createdAt random =>
    simp only [Screen.step] at ht
    split at ht
    · rename_i text contact hsend hcontact
      cases ht
      apply h.loaded
      intro sent hsent
      simpa [inTurn, hsend, hcontact, hsent] using hguard
    · cases ht
  | loadFails i =>
    simp only [Screen.step] at ht
    split at ht
    · cases ht
      exact h.same ⟨rfl, rfl, rfl, rfl, rfl, rfl, rfl, rfl⟩
    · cases ht
  | reply frame =>
    simp only [inTurn, Bool.and_eq_true, Bool.not_eq_true', Bool.or_eq_true, decide_eq_true_eq] at hguard
    obtain ⟨hwaits, hframe⟩ := hguard
    obtain ⟨key, rest, houtstanding, rfl⟩ := reply_eq_some ht
    apply h.store hwaits
    · intro k hk
      apply h.outstanding
      rw [houtstanding, List.getLast?_cons, hk]
      rfl
    · intro hne k
      simp [hne.symm]
    · intro heq
      have hone : rest = [] := by
        simpa [heq, houtstanding] using hframe
      refine ⟨key, h.outstanding key (by rw [houtstanding, hone]; rfl), fun k => ?_⟩
      simp [heq, eq_comm]
  | receive sender bodyB64 =>
    cases ht
    apply h.store (by simpa [inTurn] using hguard) h.outstanding
    · intro _ key
      rfl
    · intro hframe
      cases hframe
  | render =>
    cases ht
    exact h.render
  | lastFrameEffect =>
    cases ht
    exact h.lastFrameEffect
  | inboxEvent event =>
    cases ht
    exact h.handleInboxEvent event

theorem init (h : s.Opened) : s.Inv := by
  have hnone (key : Key) : ¬s.Marked key := by
    rintro ⟨item, hitem, -, hfailed⟩
    rw [(h.stored item hitem).1] at hfailed
    cases hfailed
  constructor
  · refine ⟨none, fun key => ?_, ?_, fun key hkey => by cases hkey⟩
    · simp [Failed, h.replied, hnone]
    · rw [waits_eq_true, h.processed]
      simp
  · simp [h.outstanding]
  · simp [h.lastSentKey]
  · rw [h.processed, h.rendered]
  · rw [h.rendered]
  · intro _ _
    exact h.rendered
  · exact h.keys
  · intro n hn
    obtain ⟨item, hitem, hkey⟩ := List.mem_map.mp hn
    obtain ⟨id, hid⟩ := (h.stored item hitem).2
    cases hid.symm.trans hkey

end Inv

/-- Any number of sends in one chat, whatever arrives and whenever the screen renders. -/
theorem attributed (ctx : Context S) (contactUserId : JsString) (s : Screen)
    (hs : (machine ctx contactUserId).Reach (fun s a => s.inTurn ctx contactUserId a = true) s) :
    s.Attributed := by
  have h : s.Inv := by
    apply Machine.Reach.invariant _ _ hs
    · intro s h
      exact .init h
    · intro s a t h hguard ht
      exact h.step hguard ht
  refine ⟨fun key hcaught => ?_, h.keys⟩
  obtain ⟨pending, htracked⟩ := h.tracked
  cases pending with
  | none =>
    rw [htracked.failed key]
    simp
  | some k =>
    have hwaits := waits_eq_true.mp (htracked.waits.mpr rfl)
    omega

def someContext : Context Symbolic.suite where
  identity := TwoParty.someone .alice
  findContactBundle _ := some ((TwoParty.someone .bob).keyBundle [])

/-- A session that has a sending chain. -/
def someSession : RatchetState Symbolic.suite where
  rootKey := .handshake 0 0 [] []
  dhsPublicKey := []
  dhsSecretKey := ⟨2, by decide⟩
  dhrPublicKey := none
  sendingChainKey := some (.handshake 0 0 [] [])
  receivingChainKey := none
  sendMessageNumber := 0
  receiveMessageNumber := 0
  previousSendingChainLength := 0

/-- A chat without history, and a draft. -/
def someScreen : Screen where
  messages := []
  draft := [104, 105]
  sendError := none
  connected := true
  localKeySeq := 0
  lastSentKey := none
  arrived := []
  rendered := 0
  processed := 0
  sends := []
  outstanding := []
  replied := []

theorem opened_someScreen : someScreen.Opened :=
  ⟨by simp [someScreen], by simp [someScreen], rfl, rfl, rfl, rfl, rfl, rfl⟩

def loadedNow (i : ℕ) : Action Symbolic.suite :=
  .loaded i (some someSession) [] ⟨⟨2, by decide⟩, [], TwoParty.someRandom⟩

/-- A failure that is marked, and an ack. -/
theorem attributed_failure : ∃ s : Screen, s.processed = s.arrived.length ∧
    s.Marked (.fresh 1) ∧ s.Attributed := by
  obtain ⟨s, hs, hp⟩ := Machine.Reach.of_execIf (M := machine someContext [])
    (G := fun s a => s.inTurn someContext [] a = true)
    (p := fun s => decide (s.processed = s.arrived.length) &&
      s.messages.any fun item => decide (item.key = .fresh 1) && item.deliveryFailed)
    [.handleSend, .handleSend, loadedNow 0, .reply queueUnavailable, .render, .lastFrameEffect,
      loadedNow 1, .reply .ack, .render, .lastFrameEffect] opened_someScreen (by decide)
  rw [Bool.and_eq_true, decide_eq_true_eq, List.any_eq_true] at hp
  obtain ⟨item, hitem, hmarked⟩ := hp.2
  rw [Bool.and_eq_true, decide_eq_true_eq] at hmarked
  exact ⟨s, hp.1, ⟨item, hitem, hmarked⟩, attributed someContext [] s hs⟩

/-- The failure of the first of two sends is blamed on the second, and a failure that the next
frame covers before a render is blamed on nobody. -/
theorem misattributed :
    (∃ s : Screen, (machine someContext []).Reach Machine.anyStep s ∧
      s.processed = s.arrived.length ∧ s.replied = [(.fresh 1, queueUnavailable)] ∧
      s.messages.map (fun item => (item.key, item.deliveryFailed)) =
        [(.fresh 1, false), (.fresh 2, true)]) ∧
    ∃ s : Screen, (machine someContext []).Reach Machine.anyStep s ∧
      s.processed = s.arrived.length ∧ s.replied = [(.fresh 1, queueUnavailable)] ∧
      s.messages.map (fun item => (item.key, item.deliveryFailed)) = [(.fresh 1, false)] := by
  constructor
  · obtain ⟨s, hs, hp⟩ := Machine.Reach.of_execIf (M := machine someContext [])
      (G := Machine.anyStep) (p := fun s => decide (s.processed = s.arrived.length ∧
        s.replied = [(.fresh 1, queueUnavailable)] ∧
        s.messages.map (fun item => (item.key, item.deliveryFailed)) =
          [(.fresh 1, false), (.fresh 2, true)]))
      [.handleSend, .handleSend, loadedNow 0, loadedNow 1, .reply queueUnavailable, .render,
        .lastFrameEffect] opened_someScreen (by decide)
    exact ⟨s, hs, of_decide_eq_true hp⟩
  · obtain ⟨s, hs, hp⟩ := Machine.Reach.of_execIf (M := machine someContext [])
      (G := Machine.anyStep) (p := fun s => decide (s.processed = s.arrived.length ∧
        s.replied = [(.fresh 1, queueUnavailable)] ∧
        s.messages.map (fun item => (item.key, item.deliveryFailed)) = [(.fresh 1, false)]))
      [.handleSend, loadedNow 0, .reply queueUnavailable, .receive [] [], .render, .lastFrameEffect]
      opened_someScreen (by decide)
    exact ⟨s, hs, of_decide_eq_true hp⟩

end Screen

end Epistl.Chat
