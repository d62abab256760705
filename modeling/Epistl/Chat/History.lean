import Epistl.Chat.Screen
import Epistl.Messages.Table
import Epistl.Runs.Machine

/-! # The history of a mounted chat screen

`apps/mobile/src/screens/ChatScreen.tsx` from its mount on, for the incoming messages: `setup`
reads the stored messages of the contact and later puts them on the screen in place of what
is there, while `processMessageFrame` of `apps/mobile/src/inbox/listener.ts` saves messages and
publishes each afterwards. `inboxStore` keeps only the last event it was given, a render reads
it, and the effect of that render appends what it read. React runs the effect of a render
before it renders again.
-/
namespace Epistl.Chat
open Messages

/-- A published event: a message that was saved, or one that could not be read. Events are told
apart by `seq`. -/
inductive Published
  | saved (seq : ℕ) (message : Message)
  | unverifiable (seq : ℕ) (contactUserId createdAt : JsString)
  deriving Repr, DecidableEq

namespace Published

def seq : Published → ℕ
  | saved seq _ => seq
  | unverifiable seq _ _ => seq

/-- What the screen reads of an event. -/
def event : Published → InboxEvent
  | saved _ m => .saved m.contactUserId m.createdAt m.body
  | unverifiable _ contactUserId createdAt => .unverifiable contactUserId createdAt

def message? : Published → Option Message
  | saved _ m => some m
  | unverifiable .. => none

end Published

/-- How far `setup` has come. -/
inductive Setup
  | reading
  /-- `getMessages` has returned the rows -/
  | read (rows : List Message)
  /-- the rows are on the screen -/
  | loaded (rows : List Message)
  deriving DecidableEq

namespace Setup

def rows : Setup → List Message
  | reading => []
  | read rows | loaded rows => rows

def isReading : Setup → Bool
  | reading => true
  | _ => false

def isLoaded : Setup → Bool
  | loaded _ => true
  | _ => false

end Setup

structure History where
  table : Table
  /-- the calls of `processMessageFrame` between `saveMessage` and `emitSaved` -/
  saved : List Message
  eventSeq : ℕ
  lastEvent : Option Published
  /-- `lastEvent` as the last render read it -/
  lastInboxEvent : Option Published
  processedInboxEventRef : Option Published
  setup : Setup
  messages : List ChatListItem
  localKeySeq : ℕ
  /-- the times of the contact's unverifiable events since the mount -/
  unverified : List JsString

namespace History

inductive Action
  | saveMessage (contactUserId body createdAt : JsString)
  | emitSaved (i : ℕ)
  | emitUnverifiable (contactUserId createdAt : JsString)
  | render
  | inboxEffect
  | getMessages
  | setMessages

def publish (h : History) (e : Published) : History :=
  { h with eventSeq := e.seq, lastEvent := some e }

def append (h : History) (item : ChatListItem) : History :=
  { h with messages := h.messages ++ [item], localKeySeq := h.localKeySeq + 1 }

def nextLocalKey (h : History) : Key := .fresh (h.localKeySeq + 1)

def handleInboxEvent (h : History) (contactUserId : JsString) : InboxEvent → History
  | .unverifiable sender createdAt =>
    if sender ≠ contactUserId then h
    else h.append ⟨h.nextLocalKey, .incoming, none, false, createdAt, false⟩
  | .saved sender createdAt text =>
    if sender ≠ contactUserId then h
    else h.append ⟨h.nextLocalKey, .incoming, some text, true, createdAt, false⟩

def item (m : Message) : ChatListItem :=
  ⟨.stored m.id, m.direction, some m.body, true, m.createdAt, false⟩

/-- The published event that no render has read. -/
def unread (h : History) : Option Published :=
  if h.lastEvent = h.lastInboxEvent then none else h.lastEvent

/-- The event a render read and its effect is still to handle. -/
def unhandled (h : History) : Option Published :=
  if h.lastInboxEvent = h.processedInboxEventRef then none else h.lastInboxEvent

variable (contactUserId : JsString)

def step (h : History) : Action → Option History
  | .saveMessage sender body createdAt =>
    let input : StoredMessage := ⟨sender, .incoming, body, createdAt⟩
    some { h with table := h.table.insert input, saved := h.saved ++ [h.table.next input] }
  | .emitSaved i =>
    h.saved[i]?.map fun m =>
      { h.publish (.saved (h.eventSeq + 1) m) with saved := h.saved.eraseIdx i }
  | .emitUnverifiable sender createdAt =>
    some { h.publish (.unverifiable (h.eventSeq + 1) sender createdAt) with
      unverified := if sender = contactUserId then h.unverified ++ [createdAt] else h.unverified }
  | .render =>
    if h.unhandled = none then some { h with lastInboxEvent := h.lastEvent } else none
  | .inboxEffect =>
    h.unhandled.map fun e =>
      { h with processedInboxEventRef := h.lastInboxEvent }.handleInboxEvent contactUserId e.event
  | .getMessages =>
    if h.setup.isReading then
      some { h with setup := .read (Messages.getMessages h.table contactUserId) }
    else none
  | .setMessages =>
    match h.setup with
    | .read rows => some { h with setup := .loaded rows, messages := rows.map item }
    | _ => none

/-- The mount of a screen: the listener may have saved messages it has not published yet. -/
structure Mounted (h : History) : Prop where
  nodup : h.saved.Nodup
  saved : ∀ m ∈ h.saved, m ∈ h.table.rows ∧ m.direction = .incoming
  lastInboxEvent : h.lastInboxEvent = h.lastEvent
  processed : h.processedInboxEventRef = h.lastEvent
  eventSeq : ∀ e ∈ h.lastEvent, e.seq ≤ h.eventSeq
  setup : h.setup = .reading
  messages : h.messages = []
  unverified : h.unverified = []

def machine : Machine History Action where
  init := Mounted
  step := step contactUserId

/-- The history is loaded, and everything that was saved is published and handled. -/
structure Settled (h : History) : Prop where
  loaded : h.setup.isLoaded = true
  saved : h.saved = []
  unread : h.unread = none
  unhandled : h.unhandled = none

/-- The incoming messages on the screen. -/
def shown (h : History) : List (JsString × JsString) :=
  h.messages.filterMap fun item =>
    match item.direction, item.text with
    | .incoming, some text => some (text, item.createdAt)
    | _, _ => none

/-- The incoming messages on the screen that could not be read. -/
def placeholders (h : History) : List JsString :=
  h.messages.filterMap fun item =>
    match item.direction, item.text with
    | .incoming, none => some item.createdAt
    | _, _ => none

/-- An incoming message of the contact. -/
def own (m : Message) : Bool := m.contactUserId = contactUserId && m.direction = .incoming

/-- The contact's stored incoming messages. -/
def stored (h : History) : List (JsString × JsString) :=
  (h.table.rows.filter (own contactUserId)).map fun m => (m.body, m.createdAt)

/-- The incoming messages on the screen are the stored ones, each once, and there is one
placeholder for each unverifiable event. -/
def Agrees (h : History) : Prop :=
  h.shown.Perm (h.stored contactUserId) ∧ h.placeholders.Perm h.unverified

/-- An event that the screen need not show. -/
def Spent (h : History) : Published → Bool
  | .saved _ m => m.contactUserId ≠ contactUserId || h.setup.isReading || decide (m ∈ h.setup.rows)
  | .unverifiable _ sender _ => sender ≠ contactUserId

/-- An event that the screen may handle now: of the contact's messages one that is not among
the rows already shown, or one that the rows still to be shown have. -/
def Ready (h : History) : Published → Bool
  | .saved _ m => m.contactUserId ≠ contactUserId ||
    match h.setup with
    | .reading => true
    | .read rows => m ∈ rows
    | .loaded rows => m ∉ rows
  | .unverifiable _ sender _ => sender ≠ contactUserId || h.setup.isLoaded

/-- An event that no render has read is replaced only when it need not be shown, and the effect
runs only on an event that is ready. -/
def Fit (h : History) : Action → Prop
  | .emitSaved _ | .emitUnverifiable _ _ => h.unread.all (Spent contactUserId h) = true
  | .inboxEffect => h.unhandled.all (Ready contactUserId h) = true
  | .saveMessage .. | .render | .getMessages | .setMessages => True

instance decidableFit (h : History) (a : Action) : Decidable (Fit contactUserId h a) := by
  cases a <;> unfold Fit <;> infer_instance

end History

end Epistl.Chat
