import Epistl.Inbox.Device
import Epistl.Runs.Machine

/-! # The chat screen

`apps/mobile/src/screens/ChatScreen.tsx` once its history is loaded: `handleSend`, which
suspends at `loadSession`, and the effects that handle frames and inbox events. The frames
of the transport store are told apart by their place in the order of arrival, as the
screen tells them apart by identity. Every frame sent gets one reply, in the order of the
sends.
-/
namespace Epistl.Chat
variable {S : Suite}

inductive IncomingFrame where
  | message (sender bodyB64 : JsString)
  | ack
  | error (code : String)
  deriving Repr, DecidableEq

/-- A row of the stored history, or a key of `nextLocalKey`. -/
inductive Key where
  | stored (id : ℕ)
  | fresh (n : ℕ)
  deriving Repr, DecidableEq

structure ChatListItem where
  key : Key
  direction : MessageDirection
  text : Option JsString
  verified : Bool
  createdAt : JsString
  deliveryFailed : Bool
  deriving Repr, DecidableEq

def cannotVerifyContactError : String := "Cannot verify this contact's keys"

/-- `arrived` has every `lastFrame` of the store, `rendered` counts those the last render had
seen and `processed` those the last frame the effect handled had come with. -/
structure Screen where
  messages : List ChatListItem
  draft : JsString
  sendError : Option String
  connected : Bool
  localKeySeq : ℕ
  lastSentKey : Option Key
  arrived : List IncomingFrame
  rendered : ℕ
  processed : ℕ
  /-- the calls of `handleSend`, with their text as long as they await `loadSession` -/
  sends : List (Option JsString)
  /-- the messages whose frames have no reply yet -/
  outstanding : List Key
  replied : List (Key × IncomingFrame)

namespace Screen

inductive Action (S : Suite) where
  | setDraft (draft : JsString)
  | setStatus (connected : Bool)
  | handleSend
  /-- `loadSession` returns to call `i` -/
  | loaded (i : ℕ) (session : Option (RatchetState S)) (createdAt : JsString) (random : SendRandom S)
  | loadFails (i : ℕ)
  /-- the reply to the oldest frame that has none -/
  | reply (frame : IncomingFrame)
  | receive (sender bodyB64 : JsString)
  | render
  | lastFrameEffect
  | inboxEvent (event : InboxEvent)

def append (s : Screen) (item : ChatListItem) : Screen :=
  { s with messages := s.messages ++ [item], localKeySeq := s.localKeySeq + 1 }

/-- What `nextLocalKey` returns. -/
def nextLocalKey (s : Screen) : Key := .fresh (s.localKeySeq + 1)

def handleFrame (s : Screen) : IncomingFrame → Screen
  | .error "queue_unavailable" =>
    match s.lastSentKey with
    | none => s
    | some failedKey => { s with messages := s.messages.map fun item =>
        if item.key = failedKey then { item with deliveryFailed := true } else item }
  | _ => s

def handleInboxEvent (s : Screen) (contactUserId : JsString) : InboxEvent → Screen
  | .unverifiable sender createdAt =>
    if sender ≠ contactUserId then s
    else s.append ⟨s.nextLocalKey, .incoming, none, false, createdAt, false⟩
  | .saved sender createdAt text =>
    if sender ≠ contactUserId then s
    else s.append ⟨s.nextLocalKey, .incoming, some text, true, createdAt, false⟩

/-- The frame a render saw. -/
def renderedFrame (s : Screen) : Option IncomingFrame := (s.arrived.take s.rendered).getLast?

def lastFrameEffect (s : Screen) : Screen :=
  if s.rendered = s.processed then s
  else
    match s.renderedFrame with
    | none => s
    | some frame => { s with processed := s.rendered }.handleFrame frame

/-- `handleSend` up to `loadSession`. -/
def handleSend (s : Screen) (contact : Option ContactKeyBundle) : Screen :=
  let text := JsString.trim s.draft
  if text = [] ∨ s.connected = false then s
  else
    match contact with
    | none => { s with sendError := some cannotVerifyContactError }
    | some _ => { s with sends := s.sends ++ [some text] }

/-- The frame is with the transport, and the message is in the list. -/
def send (s : Screen) (text createdAt : JsString) : Screen :=
  { s.append ⟨s.nextLocalKey, .outgoing, some text, true, createdAt, false⟩ with
    lastSentKey := some s.nextLocalKey
    sendError := none
    draft := []
    outstanding := s.outstanding ++ [s.nextLocalKey] }

def store (s : Screen) (frame : IncomingFrame) : Screen :=
  { s with arrived := s.arrived ++ [frame] }

variable (ctx : Context S) (contactUserId : JsString) (contact : ContactKeyBundle)

/-- `handleSend` from `loadSession` on. What it stores afterwards is not on the screen. -/
def loaded (s : Screen) (i : ℕ) (text : JsString) (session : Option (RatchetState S))
    (createdAt : JsString) (random : SendRandom S) : Screen :=
  let s := { s with sends := s.sends.set i none }
  match sendEnvelope ctx.identity contactUserId contact (JsString.utf8Bytes text) session random with
  | .error _ => s
  | .ok none => { s with sendError := some cannotVerifyContactError }
  | .ok (some _) => s.send text createdAt

def step (s : Screen) : Action S → Option Screen
  | .setDraft draft => some { s with draft := draft }
  | .setStatus connected => some { s with connected := connected }
  | .handleSend => some (s.handleSend (ctx.findContactBundle contactUserId))
  | .loaded i session createdAt random =>
    match s.sends[i]?, ctx.findContactBundle contactUserId with
    | some (some text), some contact =>
      some (s.loaded ctx contactUserId contact i text session createdAt random)
    | _, _ => none
  | .loadFails i =>
    match s.sends[i]? with
    | some (some _) => some { s with sends := s.sends.set i none }
    | _ => none
  | .reply (.message ..) => none
  | .reply frame =>
    match s.outstanding with
    | [] => none
    | key :: rest =>
      some { s.store frame with outstanding := rest, replied := s.replied ++ [(key, frame)] }
  | .receive sender bodyB64 => some (s.store (.message sender bodyB64))
  | .render => some { s with rendered := s.arrived.length }
  | .lastFrameEffect => some s.lastFrameEffect
  | .inboxEvent event => some (s.handleInboxEvent contactUserId event)

/-- A screen that shows its history, with no frame of its own sent yet. -/
structure Opened (s : Screen) : Prop where
  stored : ∀ item ∈ s.messages, item.deliveryFailed = false ∧ ∃ id, item.key = .stored id
  keys : (s.messages.map ChatListItem.key).Nodup
  lastSentKey : s.lastSentKey = none
  rendered : s.rendered = s.arrived.length
  processed : s.processed = s.arrived.length
  sends : s.sends = []
  outstanding : s.outstanding = []
  replied : s.replied = []

def machine : Machine Screen (Action S) where
  init := Opened
  step := step ctx contactUserId

end Screen

end Epistl.Chat
