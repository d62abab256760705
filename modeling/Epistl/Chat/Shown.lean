import Epistl.Chat.History
import Mathlib.Data.List.Perm.Basic

/-! # The screen shows the stored messages

A saved message is in flight until its event is handled or replaced. The screen is to show the
stored messages that were among the rows read or are no longer in flight, and it does as long
as the events are handled when they are ready and replaced only when they are spent.
-/
namespace Epistl.Chat.History
open Messages
variable {β : Type*} {c : JsString} {h h' : History} {e : Published} {m : Message}
  {f : Published → Option β}

/-- What the events that are published and not handled carry. -/
def carried (f : Published → Option β) (h : History) : List β :=
  (h.unread.bind f).toList ++ (h.unhandled.bind f).toList

def inflight (h : History) : List Message := h.saved ++ h.carried Published.message?

/-- The time of the contact's unverifiable event. -/
def ownUnverifiable (c : JsString) : Published → Option JsString
  | .saved .. => none
  | .unverifiable _ sender createdAt => if sender = c then some createdAt else none

/-- The events of the slots are in the order of their numbers. -/
structure Ordered (h : History) : Prop where
  lastEvent : ∀ e ∈ h.lastEvent, e.seq ≤ h.eventSeq
  lastInboxEvent : ∀ e ∈ h.lastInboxEvent, e.seq ≤ h.eventSeq
  published : h.lastEvent = none → h.lastInboxEvent = none
  rendered : h.lastInboxEvent = none → h.processedInboxEventRef = none

theorem lastInboxEvent_eq (ho : h.Ordered) (hu : h.unhandled = none) :
    h.lastInboxEvent = h.processedInboxEventRef := by
  unfold unhandled at hu
  split at hu
  · rename_i heq
    exact heq
  · rw [hu, ho.rendered hu]

/-- A step that leaves the slots alone. -/
theorem Ordered.of_eq (ho : h.Ordered) (hseq : h'.eventSeq = h.eventSeq)
    (hlast : h'.lastEvent = h.lastEvent) (hread : h'.lastInboxEvent = h.lastInboxEvent)
    (hprocessed : h'.processedInboxEventRef = h.processedInboxEventRef) : h'.Ordered where
  lastEvent := by
    rw [hseq, hlast]
    exact ho.lastEvent
  lastInboxEvent := by
    rw [hseq, hread]
    exact ho.lastInboxEvent
  published := by
    rw [hlast, hread]
    exact ho.published
  rendered := by
    rw [hread, hprocessed]
    exact ho.rendered

/-- A step that publishes an event. -/
structure Publishes (e : Published) (h h' : History) : Prop where
  seq : e.seq = h.eventSeq + 1
  eventSeq : h'.eventSeq = e.seq
  lastEvent : h'.lastEvent = some e
  lastInboxEvent : h'.lastInboxEvent = h.lastInboxEvent
  processed : h'.processedInboxEventRef = h.processedInboxEventRef
  table : h'.table = h.table
  setup : h'.setup = h.setup
  messages : h'.messages = h.messages

theorem Publishes.carried (hp : Publishes e h h') (ho : h.Ordered) :
    h'.carried f = (f e).toList ++ (h.unhandled.bind f).toList := by
  have hne : some e ≠ h.lastInboxEvent := by
    intro heq
    have hle := ho.lastInboxEvent e heq.symm
    have hseq := hp.seq
    omega
  unfold History.carried unread unhandled
  rw [hp.lastEvent, hp.lastInboxEvent, hp.processed, if_neg hne]
  rfl

theorem Publishes.ordered (hp : Publishes e h h') (ho : h.Ordered) : h'.Ordered where
  lastEvent := by
    rintro e' he'
    rw [hp.lastEvent] at he'
    cases he'
    exact hp.eventSeq.ge
  lastInboxEvent := by
    intro e' he'
    rw [hp.lastInboxEvent] at he'
    have hle := ho.lastInboxEvent e' he'
    rw [hp.eventSeq, hp.seq]
    omega
  published hnone := by
    rw [hp.lastEvent] at hnone
    cases hnone
  rendered hnone := by
    rw [hp.lastInboxEvent] at hnone
    rw [hp.processed]
    exact ho.rendered hnone

theorem carried_render (ho : h.Ordered) (hu : h.unhandled = none) :
    ({ h with lastInboxEvent := h.lastEvent } : History).carried f = h.carried f := by
  have hread := lastInboxEvent_eq ho hu
  unfold carried
  rw [hu]
  unfold unread unhandled
  dsimp only
  rw [if_pos rfl, hread]
  simp

theorem carried_effect (he : h.unhandled = some e) :
    h.carried f = ({ h with processedInboxEventRef := h.lastInboxEvent } : History).carried f ++
      (f e).toList := by
  unfold carried
  rw [he]
  unfold unread unhandled
  dsimp only
  rw [if_pos rfl]
  simp

/-- What is to be on the screen: the rows of the contact that were read or are no longer in
flight. -/
def dueOf (c : JsString) (rows read inflight : List Message) : List Message :=
  rows.filter fun m => own c m && (decide (m ∈ read) || decide (m ∉ inflight))

theorem mem_dueOf {rows read inflight : List Message} :
    m ∈ dueOf c rows read inflight ↔ m ∈ rows ∧ own c m = true ∧ (m ∈ read ∨ m ∉ inflight) := by
  simp [dueOf]

theorem nodup_dueOf {rows read inflight : List Message} (hrows : rows.Nodup) :
    (dueOf c rows read inflight).Nodup := hrows.filter _

section Due
variable {rows read inflight inflight' dropped : List Message}

/-- Messages leave the flight that were read. -/
theorem dueOf_drop (hperm : inflight.Perm (dropped ++ inflight'))
    (hdropped : ∀ m ∈ dropped, own c m = true → m ∈ read) :
    dueOf c rows read inflight' = dueOf c rows read inflight := by
  apply List.filter_congr
  intro m _
  have hmem : m ∈ inflight ↔ m ∈ dropped ∨ m ∈ inflight' := by
    rw [hperm.mem_iff, List.mem_append]
  rw [Bool.eq_iff_iff]
  simp only [Bool.and_eq_true, Bool.or_eq_true, decide_eq_true_eq, hmem, not_or]
  constructor
  · rintro ⟨hown, hread | hfree⟩
    · exact ⟨hown, .inl hread⟩
    · by_cases hd : m ∈ dropped
      · exact ⟨hown, .inl (hdropped m hd hown)⟩
      · exact ⟨hown, .inr ⟨hd, hfree⟩⟩
  · rintro ⟨hown, hread | hfree⟩
    · exact ⟨hown, .inl hread⟩
    · exact ⟨hown, .inr hfree.2⟩

/-- A message of the contact leaves the flight that was not read. -/
theorem dueOf_land (hrows : rows.Nodup) (hnodup : inflight.Nodup)
    (hperm : inflight.Perm (m :: inflight')) (hm : m ∈ rows) (hown : own c m = true)
    (hread : m ∉ read) : (dueOf c rows read inflight').Perm (m :: dueOf c rows read inflight) := by
  have hnodup' := hperm.nodup_iff.mp hnodup
  have hmem {n : Message} : n ∈ inflight ↔ n = m ∨ n ∈ inflight' := by
    rw [hperm.mem_iff, List.mem_cons]
  have hnot : m ∉ dueOf c rows read inflight := by
    intro hmem'
    rcases (mem_dueOf.mp hmem').2.2 with h | h
    · exact hread h
    · exact h (hmem.mpr (.inl rfl))
  rw [List.perm_ext_iff_of_nodup (nodup_dueOf hrows)
    (List.nodup_cons.mpr ⟨hnot, nodup_dueOf hrows⟩)]
  intro n
  rw [List.mem_cons, mem_dueOf, mem_dueOf, hmem, not_or]
  constructor
  · rintro ⟨hn, ho, hr | hf⟩
    · exact .inr ⟨hn, ho, .inl hr⟩
    · by_cases hnm : n = m
      · exact .inl hnm
      · exact .inr ⟨hn, ho, .inr ⟨hnm, hf⟩⟩
  · rintro (rfl | ⟨hn, ho, hr | hf⟩)
    · exact ⟨hm, hown, .inr (List.nodup_cons.mp hnodup').1⟩
    · exact ⟨hn, ho, .inl hr⟩
    · exact ⟨hn, ho, .inr hf.2⟩

/-- A message that is saved is in flight. -/
theorem dueOf_save (hm : m ∉ rows) (hread : ∀ n ∈ read, n ∈ rows)
    (hperm : inflight'.Perm (m :: inflight)) :
    dueOf c (rows ++ [m]) read inflight' = dueOf c rows read inflight := by
  have hmem {n : Message} : n ∈ inflight' ↔ n = m ∨ n ∈ inflight := by
    rw [hperm.mem_iff, List.mem_cons]
  rw [dueOf, List.filter_append, dueOf]
  have hlast : [m].filter (fun n => own c n && (decide (n ∈ read) || decide (n ∉ inflight'))) = [] := by
    have hnot : m ∉ read := fun h => hm (hread m h)
    simp [hnot, hmem]
  rw [hlast, List.append_nil]
  apply List.filter_congr
  intro n hn
  have hne : n ≠ m := fun h => hm (h ▸ hn)
  simp [hmem, hne]

end Due

def due (c : JsString) (h : History) : List Message :=
  dueOf c h.table.rows h.setup.rows h.inflight

def content (m : Message) : JsString × JsString := (m.body, m.createdAt)

/-- What the screen shows, or will show when the rows that were read are put on it. -/
def displayed (c : JsString) (h : History) : List (JsString × JsString) :=
  if h.setup.isLoaded then h.shown else (h.setup.rows.filter (own c)).map content

structure Sound (c : JsString) (h : History) : Prop where
  ordered : h.Ordered
  nodup : h.inflight.Nodup
  stored : ∀ m ∈ h.inflight, m ∈ h.table.rows ∧ m.direction = .incoming
  read : h.setup.rows.Nodup ∧ ∀ m ∈ h.setup.rows, m ∈ h.table.rows ∧ m.contactUserId = c
  displayed : h.setup.isReading = false → (h.displayed c).Perm ((h.due c).map content)
  placeholders : (h.placeholders ++ h.carried (ownUnverifiable c)).Perm h.unverified
  early : h.setup.isLoaded = false → h.placeholders = []

theorem sound_of_mounted (hm : h.Mounted) : h.Sound c := by
  have hunread : h.unread = none := by simp [unread, hm.lastInboxEvent]
  have hunhandled : h.unhandled = none := by simp [unhandled, hm.lastInboxEvent, hm.processed]
  have hcarried {β : Type _} {f : Published → Option β} : h.carried f = [] := by
    simp [carried, hunread, hunhandled]
  have hinflight : h.inflight = h.saved := by rw [inflight, hcarried, List.append_nil]
  refine ⟨⟨hm.eventSeq, hm.lastInboxEvent ▸ hm.eventSeq, ?_, ?_⟩, ?_, ?_, ?_, ?_, ?_, ?_⟩
  · exact fun hnone => hm.lastInboxEvent.trans hnone
  · exact fun hnone => hm.processed.trans (hm.lastInboxEvent ▸ hnone)
  · rw [hinflight]
    exact hm.nodup
  · rw [hinflight]
    exact hm.saved
  · simp [hm.setup, Setup.rows]
  · intro hreading
    rw [hm.setup] at hreading
    cases hreading
  · simp [History.placeholders, hm.messages, hcarried, hm.unverified]
  · intro _
    simp [History.placeholders, hm.messages]

theorem Sound.agrees (hs : h.Sound c) (hsettled : h.Settled) : h.Agrees c := by
  have hcarried {β : Type _} {f : Published → Option β} : h.carried f = [] := by
    simp [carried, hsettled.unread, hsettled.unhandled]
  have hinflight : h.inflight = [] := by rw [inflight, hcarried, hsettled.saved, List.append_nil]
  have hdue : h.due c = h.table.rows.filter (own c) := by
    unfold due dueOf
    apply List.filter_congr
    simp [hinflight]
  have hreading : h.setup.isReading = false := by
    have hloaded := hsettled.loaded
    cases hsetup : h.setup <;> simp_all [Setup.isReading, Setup.isLoaded]
  constructor
  · have hdisplayed := hs.displayed hreading
    rwa [History.displayed, if_pos hsettled.loaded, hdue] at hdisplayed
  · have hplaceholders := hs.placeholders
    rwa [hcarried, List.append_nil] at hplaceholders

/-! ### One step -/

/-- The rows of the contact, as `setMessages` puts them on the screen. -/
theorem shown_rows {rows : List Message} (hrows : ∀ m ∈ rows, m.contactUserId = c) :
    ({ h with setup := .loaded rows, messages := rows.map item } : History).shown =
      (rows.filter (own c)).map content := by
  unfold shown
  dsimp only
  rw [List.filterMap_map, ← List.filterMap_eq_map, List.filterMap_filter]
  apply List.filterMap_congr
  intro m hm
  have hcontact := hrows m hm
  cases hdirection : m.direction <;> simp [item, own, content, hcontact, hdirection]

theorem Sound.save (hs : h.Sound c) (input : StoredMessage) (hinput : input.direction = .incoming) :
    ({ h with table := h.table.insert input, saved := h.saved ++ [h.table.next input] } :
      History).Sound c := by
  set m := h.table.next input with hm
  set h' : History := { h with table := h.table.insert input, saved := h.saved ++ [m] } with hh'
  have hnew : m ∉ h.table.rows := Table.next_notMem
  have hrows : h'.table.rows = h.table.rows ++ [m] := rfl
  have hinflight : h'.inflight.Perm (m :: h.inflight) := by
    show ((h.saved ++ [m]) ++ h.carried Published.message?).Perm _
    rw [List.append_assoc]
    exact List.perm_middle
  have hdue : h'.due c = h.due c :=
    dueOf_save hnew (fun n hn => (hs.read.2 n hn).1) hinflight
  refine ⟨hs.ordered.of_eq rfl rfl rfl rfl, ?_, ?_, ⟨hs.read.1, ?_⟩, ?_, hs.placeholders, hs.early⟩
  · rw [hinflight.nodup_iff, List.nodup_cons]
    exact ⟨fun hmem => hnew (hs.stored m hmem).1, hs.nodup⟩
  · intro n hn
    rw [hrows, List.mem_append, List.mem_singleton]
    rcases List.mem_cons.mp (hinflight.mem_iff.mp hn) with rfl | hn
    · exact ⟨.inr rfl, hinput⟩
    · exact ⟨.inl (hs.stored n hn).1, (hs.stored n hn).2⟩
  · intro n hn
    rw [hrows, List.mem_append]
    exact ⟨.inl (hs.read.2 n hn).1, (hs.read.2 n hn).2⟩
  · intro hreading
    rw [hdue]
    exact hs.displayed hreading

/-- The event that no render has read leaves the flight. -/
theorem Publishes.inflight (hp : Publishes e h h') (ho : h.Ordered)
    (hsaved : h.saved.Perm (e.message?.toList ++ h'.saved)) :
    h.inflight.Perm ((h.unread.bind Published.message?).toList ++ h'.inflight) := by
  have hcarried : h'.inflight = h'.saved ++
      (e.message?.toList ++ (h.unhandled.bind Published.message?).toList) := by
    rw [History.inflight, hp.carried ho]
  rw [hcarried, History.inflight, History.carried, List.perm_iff_count]
  intro m
  have hcount := hsaved.count_eq m
  simp only [List.count_append] at hcount ⊢
  omega

/-- An own message that is spent has been read. -/
theorem read_of_spent (hfit : h.unread.all (Spent c h) = true) (hreading : h.setup.isReading = false)
    (hm : m ∈ (h.unread.bind Published.message?).toList) (hown : own c m = true) :
    m ∈ h.setup.rows := by
  cases hunread : h.unread with
  | none => simp [hunread] at hm
  | some e =>
    cases e with
    | saved seq m' =>
      simp only [hunread, Option.bind_some, Published.message?, Option.toList_some,
        List.mem_singleton] at hm
      subst hm
      have hcontact : m.contactUserId = c := by simpa using (Bool.and_eq_true_iff.mp hown).1
      simpa [hunread, Spent, hcontact, hreading] using hfit
    | unverifiable seq sender createdAt => simp [hunread, Published.message?] at hm

/-- No unverifiable event of the contact is spent. -/
theorem ownUnverifiable_of_spent (hfit : h.unread.all (Spent c h) = true) :
    h.unread.bind (ownUnverifiable c) = none := by
  cases hunread : h.unread with
  | none => rfl
  | some e =>
    cases e with
    | saved seq m => rfl
    | unverifiable seq sender createdAt =>
      have hsender : sender ≠ c := by simpa [hunread, Spent] using hfit
      exact if_neg hsender

theorem Sound.publish (hs : h.Sound c) (hp : Publishes e h h')
    (hsaved : h.saved.Perm (e.message?.toList ++ h'.saved))
    (hunverified : h'.unverified = h.unverified ++ (ownUnverifiable c e).toList)
    (hfit : h.unread.all (Spent c h) = true) : h'.Sound c := by
  have hinflight := hp.inflight hs.ordered hsaved
  refine ⟨hp.ordered hs.ordered, ?_, ?_, ?_, ?_, ?_, ?_⟩
  · exact (List.nodup_append.mp (hinflight.nodup_iff.mp hs.nodup)).2.1
  · intro m hm
    rw [hp.table]
    exact hs.stored m (hinflight.mem_iff.mpr (List.mem_append_right _ hm))
  · rw [hp.setup, hp.table]
    exact hs.read
  · intro hreading
    rw [hp.setup] at hreading
    have hdue : h'.due c = h.due c := by
      unfold due
      rw [hp.table, hp.setup]
      exact dueOf_drop hinflight fun m hm hown => read_of_spent hfit hreading hm hown
    have hshown : h'.displayed c = h.displayed c := by
      unfold History.displayed shown
      rw [hp.setup, hp.messages]
    rw [hdue, hshown]
    exact hs.displayed hreading
  · have hplaceholders := hs.placeholders
    rw [History.carried, ownUnverifiable_of_spent hfit] at hplaceholders
    rw [hp.carried hs.ordered, hunverified, History.placeholders, hp.messages]
    refine (List.Perm.append_left _ List.perm_append_comm).trans ?_
    rw [← List.append_assoc]
    exact hplaceholders.append_right _
  · intro hloaded
    rw [hp.setup] at hloaded
    rw [History.placeholders, hp.messages]
    exact hs.early hloaded

theorem Sound.render (hs : h.Sound c) (hu : h.unhandled = none) :
    ({ h with lastInboxEvent := h.lastEvent } : History).Sound c := by
  set h' : History := { h with lastInboxEvent := h.lastEvent } with hh'
  have hcarried {β : Type} (f : Published → Option β) : h'.carried f = h.carried f :=
    carried_render hs.ordered hu
  have hinflight : h'.inflight = h.inflight := by
    unfold inflight
    rw [hcarried]
  have hrendered : h'.lastInboxEvent = none → h'.processedInboxEventRef = none := fun hnone =>
    hs.ordered.rendered (hs.ordered.published hnone)
  refine ⟨⟨hs.ordered.lastEvent, hs.ordered.lastEvent, id, hrendered⟩, ?_, ?_, hs.read, ?_, ?_,
    hs.early⟩
  · rw [hinflight]
    exact hs.nodup
  · rw [hinflight]
    exact hs.stored
  · intro hreading
    have hdue : h'.due c = h.due c := by
      unfold due
      rw [hinflight]
    rw [hdue]
    exact hs.displayed hreading
  · rw [hcarried]
    exact hs.placeholders

/-- What the contact's saved event puts on the screen. -/
def ownSaved (c : JsString) : Published → Option (JsString × JsString)
  | .saved _ m => if m.contactUserId = c then some (content m) else none
  | .unverifiable .. => none

/-- A step that handles the event its render read. -/
structure Handles (c : JsString) (e : Published) (h h' : History) : Prop where
  eventSeq : h'.eventSeq = h.eventSeq
  lastEvent : h'.lastEvent = h.lastEvent
  lastInboxEvent : h'.lastInboxEvent = h.lastInboxEvent
  processed : h'.processedInboxEventRef = h.lastInboxEvent
  saved : h'.saved = h.saved
  table : h'.table = h.table
  setup : h'.setup = h.setup
  unverified : h'.unverified = h.unverified
  shown : h'.shown = h.shown ++ (ownSaved c e).toList
  placeholders : h'.placeholders = h.placeholders ++ (ownUnverifiable c e).toList

theorem handles (e : Published) :
    Handles c e h ({ h with processedInboxEventRef := h.lastInboxEvent }.handleInboxEvent c e.event) := by
  cases e with
  | saved seq m =>
    by_cases hm : m.contactUserId = c
    · constructor <;> simp [handleInboxEvent, Published.event, append, History.shown,
        History.placeholders, ownSaved, ownUnverifiable, content, hm]
    · constructor <;> simp [handleInboxEvent, Published.event, History.shown,
        History.placeholders, ownSaved, ownUnverifiable, hm]
  | unverifiable seq sender createdAt =>
    by_cases hsender : sender = c
    · constructor <;> simp [handleInboxEvent, Published.event, append, History.shown,
        History.placeholders, ownSaved, ownUnverifiable, hsender]
    · constructor <;> simp [handleInboxEvent, Published.event, History.shown,
        History.placeholders, ownSaved, ownUnverifiable, hsender]

theorem Handles.carried (hh : Handles c e h h') (he : h.unhandled = some e) :
    h.carried f = h'.carried f ++ (f e).toList := by
  rw [carried_effect he]
  unfold History.carried unread unhandled
  rw [hh.lastEvent, hh.lastInboxEvent, hh.processed]

theorem Handles.inflight (hh : Handles c e h h') (he : h.unhandled = some e) :
    h.inflight.Perm (e.message?.toList ++ h'.inflight) := by
  rw [History.inflight, hh.carried he, History.inflight, hh.saved, ← List.append_assoc]
  exact List.perm_append_comm

theorem Handles.ordered (hh : Handles c e h h') (ho : h.Ordered) : h'.Ordered where
  lastEvent := by
    rw [hh.lastEvent, hh.eventSeq]
    exact ho.lastEvent
  lastInboxEvent := by
    rw [hh.lastInboxEvent, hh.eventSeq]
    exact ho.lastInboxEvent
  published := by
    rw [hh.lastEvent, hh.lastInboxEvent]
    exact ho.published
  rendered hnone := by rwa [hh.processed, ← hh.lastInboxEvent]

/-- The screen goes on agreeing when the message of a ready event lands on it. -/
theorem Handles.displayed (hh : Handles c e h h') (hs : h.Sound c) (he : h.unhandled = some e)
    (hfit : Ready c h e = true) (hreading : h.setup.isReading = false) :
    (h'.displayed c).Perm ((h'.due c).map content) := by
  have hinflight := hh.inflight he
  have hold := hs.displayed hreading
  have hdrop (hdropped : ∀ m ∈ e.message?.toList, own c m = true → m ∈ h.setup.rows) :
      h'.due c = h.due c := by
    unfold due
    rw [hh.table, hh.setup]
    exact dueOf_drop hinflight hdropped
  have hkeep (hnone : ownSaved c e = none) (hdue : h'.due c = h.due c) :
      (h'.displayed c).Perm ((h'.due c).map content) := by
    rw [hdue, History.displayed, hh.setup, hh.shown, hnone, Option.toList_none, List.append_nil]
    exact hold
  cases e with
  | unverifiable seq sender createdAt => exact hkeep rfl (hdrop fun m hm => by cases hm)
  | saved seq m =>
    by_cases hcontact : m.contactUserId = c
    swap
    · refine hkeep (if_neg hcontact) (hdrop fun n hn hown => ?_)
      obtain rfl := List.mem_singleton.mp hn
      simp [own, hcontact] at hown
    have hm : m ∈ h.inflight := hinflight.mem_iff.mpr (List.mem_append_left _ List.mem_cons_self)
    have hown : own c m = true := by simp [own, hcontact, (hs.stored m hm).2]
    cases hsetup : h.setup with
    | reading => simp [hsetup, Setup.isReading] at hreading
    | read rows =>
      have hrow : m ∈ rows := by simpa [Ready, hsetup, hcontact] using hfit
      have hdue := hdrop fun n hn _ => by
        obtain rfl := List.mem_singleton.mp hn
        simpa [hsetup, Setup.rows] using hrow
      rw [hdue]
      simpa [History.displayed, hh.setup, hsetup, Setup.isLoaded] using hold
    | loaded rows =>
      have hrow : m ∉ h.setup.rows := by
        simpa [Ready, hsetup, hcontact, Setup.rows] using hfit
      have hland : (h'.due c).Perm (m :: h.due c) := by
        unfold due
        rw [hh.table, hh.setup]
        exact dueOf_land h.table.nodup_rows hs.nodup hinflight (hs.stored m hm).1 hown hrow
      have hshown : h'.displayed c = h.displayed c ++ [content m] := by
        simp [History.displayed, hh.setup, hsetup, Setup.isLoaded, hh.shown, ownSaved, hcontact]
      rw [hshown]
      refine List.Perm.trans ?_ (hland.map content).symm
      exact List.perm_append_comm.trans (hold.cons _)

theorem Sound.handle (hs : h.Sound c) (hh : Handles c e h h') (he : h.unhandled = some e)
    (hfit : Ready c h e = true) : h'.Sound c := by
  have hinflight := hh.inflight he
  have hearly (hloaded : h.setup.isLoaded = false) : ownUnverifiable c e = none := by
    cases e with
    | saved seq m => rfl
    | unverifiable seq sender createdAt =>
      have hsender : sender ≠ c := by simpa [Ready, hloaded] using hfit
      exact if_neg hsender
  refine ⟨hh.ordered hs.ordered, ?_, ?_, ?_, ?_, ?_, ?_⟩
  · exact (List.nodup_append.mp (hinflight.nodup_iff.mp hs.nodup)).2.1
  · intro m hm
    rw [hh.table]
    exact hs.stored m (hinflight.mem_iff.mpr (List.mem_append_right _ hm))
  · rw [hh.setup, hh.table]
    exact hs.read
  · intro hreading
    rw [hh.setup] at hreading
    exact hh.displayed hs he hfit hreading
  · have hplaceholders := hs.placeholders
    rw [hh.carried he] at hplaceholders
    rw [hh.placeholders, hh.unverified, List.append_assoc]
    exact (List.Perm.append_left _ List.perm_append_comm).trans hplaceholders
  · intro hloaded
    rw [hh.setup] at hloaded
    rw [hh.placeholders, hs.early hloaded, hearly hloaded]
    rfl

theorem Sound.getMessages (hs : h.Sound c) (hreading : h.setup.isReading = true) :
    ({ h with setup := .read (Messages.getMessages h.table c) } : History).Sound c := by
  set rows := Messages.getMessages h.table c with hrows
  have hmem {m : Message} : m ∈ rows ↔ m ∈ h.table.rows ∧ m.contactUserId = c := mem_getMessages
  have hnodup : rows.Nodup :=
    (List.perm_insertionSort _ _).nodup_iff.mpr (h.table.nodup_rows.filter _)
  have hloaded : h.setup.isLoaded = false := by
    cases hsetup : h.setup <;> simp_all [Setup.isReading, Setup.isLoaded]
  have hdue : (rows.filter (own c)).Perm (dueOf c h.table.rows rows h.inflight) := by
    rw [List.perm_ext_iff_of_nodup (hnodup.filter _) (nodup_dueOf h.table.nodup_rows)]
    intro m
    rw [List.mem_filter, mem_dueOf, hmem]
    constructor
    · rintro ⟨⟨hm, hcontact⟩, hown⟩
      exact ⟨hm, hown, .inl ⟨hm, hcontact⟩⟩
    · rintro ⟨hm, hown, -⟩
      have hcontact : m.contactUserId = c := by simpa using (Bool.and_eq_true_iff.mp hown).1
      exact ⟨⟨hm, hcontact⟩, hown⟩
  exact ⟨hs.ordered.of_eq rfl rfl rfl rfl, hs.nodup, hs.stored, ⟨hnodup, fun m hm => hmem.mp hm⟩,
    fun _ => hdue.map content, hs.placeholders, fun _ => hs.early hloaded⟩

theorem Sound.setMessages {rows : List Message} (hs : h.Sound c) (hsetup : h.setup = .read rows) :
    ({ h with setup := .loaded rows, messages := rows.map item } : History).Sound c := by
  set h' : History := { h with setup := .loaded rows, messages := rows.map item } with hh'
  have hread := hs.read
  rw [hsetup, Setup.rows] at hread
  have hplaceholders : h'.placeholders = [] := by
    unfold History.placeholders
    rw [hh']
    dsimp only
    rw [List.filterMap_map, List.filterMap_eq_nil_iff]
    intro m _
    cases hdirection : m.direction <;> simp [item, hdirection]
  refine ⟨hs.ordered.of_eq rfl rfl rfl rfl, hs.nodup, hs.stored, hread, fun _ => ?_, ?_, fun _ => hplaceholders⟩
  · have hdue : h'.due c = h.due c := by
      unfold due
      rw [hsetup]
      rfl
    have hshown : h'.displayed c = h.displayed c := by
      simp only [History.displayed, hsetup, Setup.isLoaded, Setup.rows]
      exact shown_rows fun m hm => (hread.2 m hm).2
    rw [hdue, hshown]
    exact hs.displayed (by simp [hsetup, Setup.isReading])
  · have hold := hs.placeholders
    rw [hs.early (by simp [hsetup, Setup.isLoaded])] at hold
    rw [hplaceholders]
    exact hold

theorem Sound.step {a : Action} (hs : h.Sound c) (hfit : Fit c h a)
    (hstep : History.step c h a = some h') : h'.Sound c := by
  cases a with
  | saveMessage sender body createdAt =>
    cases hstep
    exact hs.save _ rfl
  | emitSaved i =>
    obtain ⟨m, hm, rfl⟩ := Option.map_eq_some_iff.mp hstep
    obtain ⟨hi, rfl⟩ := List.getElem?_eq_some_iff.mp hm
    refine hs.publish (e := .saved (h.eventSeq + 1) h.saved[i]) ⟨rfl, rfl, rfl, rfl, rfl, rfl, rfl,
      rfl⟩ ?_ (List.append_nil _).symm hfit
    exact (List.getElem_cons_eraseIdx_perm hi).symm
  | emitUnverifiable sender createdAt =>
    cases hstep
    refine hs.publish (e := .unverifiable (h.eventSeq + 1) sender createdAt) ⟨rfl, rfl, rfl, rfl,
      rfl, rfl, rfl, rfl⟩ (List.Perm.refl _) ?_ hfit
    by_cases hsender : sender = c <;> simp [ownUnverifiable, hsender]
  | render =>
    simp only [History.step] at hstep
    split at hstep
    · rename_i hu
      cases hstep
      exact hs.render hu
    · cases hstep
  | inboxEffect =>
    obtain ⟨e, he, rfl⟩ := Option.map_eq_some_iff.mp hstep
    refine hs.handle (handles e) he ?_
    simpa [Fit, he] using hfit
  | getMessages =>
    simp only [History.step] at hstep
    split at hstep
    · rename_i hreading
      cases hstep
      exact hs.getMessages hreading
    · cases hstep
  | setMessages =>
    simp only [History.step] at hstep
    split at hstep
    · rename_i rows hsetup
      cases hstep
      exact hs.setMessages hsetup
    · cases hstep

/-- Over any run whose events are replaced and handled as `Fit` has it, a screen on which all
has settled shows the stored messages. -/
theorem agrees_of_fit (hr : (machine c).Reach (Fit c) h) (hsettled : h.Settled) : h.Agrees c :=
  (hr.invariant (I := Sound c) (fun _ hm => sound_of_mounted hm)
    fun _ _ _ hs hfit hstep => hs.step hfit hstep).agrees hsettled

/-- A device without messages. -/
def blank : History := ⟨.empty, [], 0, none, none, none, .reading, [], 0, []⟩

theorem blank_mounted : blank.Mounted where
  nodup := List.nodup_nil
  saved _ hm := (List.not_mem_nil hm).elim
  lastInboxEvent := rfl
  processed := rfl
  eventSeq _ he := by cases he
  setup := rfl
  messages := rfl
  unverified := rfl

instance decidableSettled (h : History) : Decidable h.Settled :=
  decidable_of_iff (h.setup.isLoaded = true ∧ h.saved = [] ∧ h.unread = none ∧ h.unhandled = none)
    ⟨fun ⟨a, b, c, d⟩ => ⟨a, b, c, d⟩, fun ⟨a, b, c, d⟩ => ⟨a, b, c, d⟩⟩

/-- A message from before the rows are read, whose event comes first, one that is published
after they are loaded, and an unverifiable event. -/
def onTime : List Action :=
  [.saveMessage [0x62] [0x31] [0x74], .emitSaved 0, .render, .inboxEffect, .getMessages,
    .saveMessage [0x62] [0x32] [0x75], .setMessages, .emitSaved 0, .render, .inboxEffect,
    .emitUnverifiable [0x62] [0x76], .render, .inboxEffect]

theorem agrees_of_fit_onTime : ∃ h, (machine [0x62]).Reach (Fit [0x62]) h ∧
    h.shown = [([0x31], [0x74]), ([0x32], [0x75])] ∧ h.Agrees [0x62] := by
  obtain ⟨h, hr, hp⟩ := Machine.Reach.of_execIf (M := machine [0x62]) (G := Fit [0x62]) onTime
    blank_mounted (p := fun h => decide (h.Settled ∧
      h.shown = [([0x31], [0x74]), ([0x32], [0x75])])) (by decide +kernel)
  obtain ⟨hsettled, hshown⟩ := of_decide_eq_true hp
  exact ⟨h, hr, hshown, agrees_of_fit hr hsettled⟩

/-- A message that the rows have is published after they are loaded. -/
def readAndPublished : List Action :=
  [.saveMessage [0x62] [0x31] [0x74], .getMessages, .setMessages, .emitSaved 0, .render,
    .inboxEffect]

/-- Two messages are published between two renders. -/
def publishedTogether : List Action :=
  [.getMessages, .setMessages, .saveMessage [0x62] [0x31] [0x74],
    .saveMessage [0x62] [0x32] [0x75], .emitSaved 0, .emitSaved 0, .render, .inboxEffect]

/-- A message is handled after the rows are read and before they are put on the screen. -/
def handledEarly : List Action :=
  [.getMessages, .saveMessage [0x62] [0x31] [0x74], .emitSaved 0, .render, .inboxEffect,
    .setMessages]

theorem not_agrees_of_length (hlength : h.shown.length ≠ (h.stored c).length) : ¬h.Agrees c :=
  fun hagrees => hlength hagrees.1.length_eq

/-- A message is shown twice, is left out when the next one is published before a render, and is
wiped by the rows read before it was saved. -/
theorem screen_disagrees : blank.Mounted ∧
    (∃ h, (machine [0x62]).exec blank readAndPublished = some h ∧ h.Settled ∧ ¬h.Agrees [0x62]) ∧
    (∃ h, (machine [0x62]).exec blank publishedTogether = some h ∧ h.Settled ∧ ¬h.Agrees [0x62]) ∧
    ∃ h, (machine [0x62]).exec blank handledEarly = some h ∧ h.Settled ∧ ¬h.Agrees [0x62] := by
  have hrun (as : List Action) (hrun : ((machine [0x62]).exec blank as).any (fun h =>
      decide (h.Settled ∧ h.shown.length ≠ (h.stored [0x62]).length)) = true) :
      ∃ h, (machine [0x62]).exec blank as = some h ∧ h.Settled ∧ ¬h.Agrees [0x62] := by
    obtain ⟨h, hexec, hp⟩ := (Option.any_eq_true _ _).mp hrun
    obtain ⟨hsettled, hlength⟩ := of_decide_eq_true hp
    exact ⟨h, hexec, hsettled, not_agrees_of_length hlength⟩
  exact ⟨blank_mounted, hrun readAndPublished (by decide +kernel),
    hrun publishedTogether (by decide +kernel), hrun handledEarly (by decide +kernel)⟩

end Epistl.Chat.History
