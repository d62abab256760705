import Epistl.Runs.Machine
import Mathlib.Algebra.Group.Nat.Defs
import Mathlib.Logic.Function.Basic

/-! # The relay: connections, the registry, the offline queue

Every live connection has a task that reads its client's frames and a channel whose
forward task writes to the transport. The tasks share the registry and the offline
queue. A step is one task reaching its next await point or a push into a channel,
so a run is an interleaving of all tasks.
-/
namespace Epistl.Relay

/-- A send that passed its checks. `id` numbers the sends in the order in which they
passed, so that no two are equal. -/
structure Message (υ : Type) where
  id : ℕ
  sender : υ
  recipient : υ
  bodyB64 : String
  sentAt : String
  deriving Repr, DecidableEq

/-- An error frame. -/
structure Rejection where
  code : String
  message : String
  deriving Repr, DecidableEq

/-- The text frames the relay produces. -/
inductive Relayed (υ : Type)
  | message (m : Message υ)
  | ack (recipient : υ)
  | error (r : Rejection)
  deriving Repr, DecidableEq

inductive Frame (υ : Type)
  | text (body : Relayed υ)
  | close (code : ℕ) (reason : String)
  deriving Repr, DecidableEq

def closeReplaced : ℕ := 4002

def maxQueuedMessagesPerFetch : ℕ := 256

namespace Frame
variable {υ : Type}

def isClose : Frame υ → Bool
  | text _ => false
  | close _ _ => true

def isMessage : Frame υ → Bool
  | text (.message _) => true
  | _ => false

/-- What a connection is sent when another one of its user takes its place. -/
def replaced : Frame υ := .close closeReplaced "replaced by a new connection"

end Frame

/-- What a text frame of a client holds: the recipient `to` when it is a UUID string,
`body_b64` when it is valid base64. -/
inductive ClientFrame (υ : Type)
  | malformed
  | unknown
  | send (recipient : Option υ) (bodyB64 : Option String)
  deriving Repr, DecidableEq

/-- The checks of `handle_client_frame` and `handle_send`, in their order. -/
def checkFrame {υ : Type} (isContact : Bool) : ClientFrame υ → Except Rejection (υ × String)
  | .malformed => .error ⟨"invalid_payload", "malformed JSON frame"⟩
  | .unknown => .error ⟨"invalid_payload", "unknown or missing frame type"⟩
  | .send none _ => .error ⟨"invalid_payload", "\"to\" must be a UUID string"⟩
  | .send (some _) none => .error ⟨"invalid_payload", "\"body_b64\" must be valid base64"⟩
  | .send (some recipient) (some body) =>
    if isContact then .ok (recipient, body)
    else .error ⟨"not_a_contact", "recipient is not in your contacts"⟩

def queueUnavailable : Rejection :=
  ⟨"queue_unavailable", "message could not be queued for offline delivery"⟩

/-- Where the task of a connection stands. -/
inductive Stage (υ : Type)
  /-- `registry.insert` returned `previous` -/
  | inserted (previous : Option ℕ)
  /-- before the fetch of `deliver_queued_messages` -/
  | fetching
  /-- in its loop, with the messages still to come -/
  | draining (batch : List (Message υ))
  /-- `message.ack()`, after the push -/
  | acking (m : Message υ) (rest : List (Message υ))
  /-- the next frame of the client -/
  | reading
  /-- `registry.get`, in `handle_send` -/
  | looking (m : Message υ)
  /-- before the push into the recipient's channel -/
  | relaying (m : Message υ) (channel : ℕ)
  /-- `queue_for_offline_delivery` -/
  | publishing (m : Message υ)
  /-- before the `ack` frame -/
  | acknowledging (m : Message υ)
  /-- before an error frame -/
  | refusing (r : Rejection)
  /-- before `remove_if_current` -/
  | leaving
  /-- before `forward_task.abort()` -/
  | dropping
  | gone
  deriving Repr, DecidableEq

structure Handler (υ : Type) where
  user : υ
  stage : Stage υ
  deriving Repr, DecidableEq

/-- The forward task of a channel. A task that has left its loop still holds the
receiver until it is released. -/
inductive Forward
  | waiting
  | running
  | stopped
  | closed
  deriving Repr, DecidableEq

/-- The outbound channel of a connection, and what was written to its transport. -/
structure Channel (υ : Type) where
  frames : List (Frame υ)
  forward : Forward
  written : List (Frame υ)
  deriving Repr, DecidableEq

/-- A spawned `redeliver_if_now_connected`. -/
inductive Task (υ : Type)
  | looking (m : Message υ)
  | relaying (m : Message υ) (channel : ℕ)
  | deleting (m : Message υ)
  | done (m : Message υ)
  deriving Repr, DecidableEq

def Task.message {υ : Type} : Task υ → Message υ
  | looking m => m
  | relaying m _ => m
  | deleting m => m
  | done m => m

/-- The whole of the relay, with logs of what happened to messages. -/
structure Server (υ : Type) where
  handlers : List (Handler υ)
  channels : List (Channel υ)
  registry : υ → Option ℕ
  queue : υ → List (Message υ)
  tasks : List (Task υ)
  sends : ℕ
  /-- the message frames put into channels, in order -/
  pushed : List (Message υ)
  published : List (Message υ)
  /-- the messages whose sender was sent an `ack` frame -/
  acked : List (Message υ)
  expired : List (Message υ)
  /-- the connections that were sent a `Close` -/
  replaced : List ℕ

/-- How a publish ends: stored and reported, stored with its report lost, not stored. -/
inductive Publish
  | stored
  | unreported
  | failed
  deriving Repr, DecidableEq

/-- The send a task has not handed over yet. -/
def Stage.sending {υ : Type} : Stage υ → Option (Message υ)
  | looking m => some m
  | relaying m _ => some m
  | publishing m => some m
  | _ => none

/-- The messages of a drain that are not acked yet. -/
def Stage.fetched {υ : Type} : Stage υ → List (Message υ)
  | draining batch => batch
  | acking m rest => m :: rest
  | _ => []

/-- The messages of a drain that are not pushed yet. -/
def Stage.batch {υ : Type} : Stage υ → List (Message υ)
  | draining batch => batch
  | acking _ rest => rest
  | _ => []

/-- What the awaited operations come back with. -/
structure Input (υ : Type) where
  /-- how many messages the fetch yields -/
  available : ℕ
  /-- whether an ack takes effect -/
  removed : Bool
  /-- the client's next frame, `none` when the stream has ended -/
  event : Option (ClientFrame υ)
  isContact : Bool
  publish : Publish
  sentAt : String

inductive Action (υ : Type)
  | connect (user : υ)
  | run (i : ℕ) (input : Input υ)
  | forward (i : ℕ) (written : Bool)
  | release (i : ℕ)
  | redeliver (j : ℕ) (deleted : Bool)
  | expire (m : Message υ)

namespace Server
variable {υ : Type} [DecidableEq υ]

def start : Server υ where
  handlers := []
  channels := []
  registry := fun _ => none
  queue := fun _ => []
  tasks := []
  sends := 0
  pushed := []
  published := []
  acked := []
  expired := []
  replaced := []

/-- The task of connection `i` goes on to `stage`. -/
def enter (s : Server υ) (i : ℕ) (user : υ) (stage : Stage υ) : Server υ :=
  { s with handlers := s.handlers.set i ⟨user, stage⟩ }

/-- The receiver of the channel is alive, so that a push succeeds. -/
def accepts (s : Server υ) (i : ℕ) : Bool :=
  match s.channels[i]? with
  | some c => decide (c.forward ≠ .closed)
  | none => false

/-- A push; it has no effect on a channel without receiver. -/
def push (s : Server υ) (i : ℕ) (frame : Frame υ) : Server υ :=
  { s with channels := s.channels.modify i fun c =>
      if c.forward = .closed then c else { c with frames := c.frames ++ [frame] } }

/-- A message frame is pushed. -/
def deliver (s : Server υ) (i : ℕ) (m : Message υ) : Server υ :=
  { s.push i (.text (.message m)) with pushed := s.pushed ++ [m] }

/-- The message leaves the queue, acked by its consumer or deleted by its sequence number. -/
def remove (s : Server υ) (m : Message υ) : Server υ :=
  { s with
    queue := Function.update s.queue m.recipient
      ((s.queue m.recipient).filter fun q => decide (q ≠ m)) }

def store (s : Server υ) (m : Message υ) : Server υ :=
  { s with
    queue := Function.update s.queue m.recipient (s.queue m.recipient ++ [m])
    published := s.published ++ [m] }

def spawn (s : Server υ) (task : Task υ) : Server υ := { s with tasks := s.tasks ++ [task] }

/-- The forward task is spawned. -/
def startForward (s : Server υ) (i : ℕ) : Server υ :=
  { s with channels := s.channels.modify i fun c => { c with forward := .running } }

/-- `forward_task.abort()`. -/
def abort (s : Server υ) (i : ℕ) : Server υ :=
  { s with channels := s.channels.modify i fun c =>
      { c with forward := if c.forward = .closed then .closed else .stopped } }

/-- `remove_if_current`. -/
def removeIfCurrent (s : Server υ) (user : υ) (i : ℕ) : Server υ :=
  { s with registry := if s.registry user = some i then Function.update s.registry user none
      else s.registry }

/-- The `Close` for the connection that `insert` returned. -/
def closePrevious (s : Server υ) : Option ℕ → Server υ
  | none => s
  | some j => { s.push j .replaced with replaced := s.replaced ++ [j] }

/-- The task of connection `i` moves on. -/
def advance (s : Server υ) (i : ℕ) (user : υ) (input : Input υ) : Stage υ → Option (Server υ)
  | .inserted previous => some (((s.closePrevious previous).startForward i).enter i user .fetching)
  | .fetching => some (s.enter i user (.draining
      ((s.queue user).take (min input.available maxQueuedMessagesPerFetch))))
  | .draining [] => some (s.enter i user .reading)
  | .draining (m :: rest) =>
    if s.accepts i then some ((s.deliver i m).enter i user (.acking m rest))
    else some (s.enter i user .reading)
  | .acking m rest =>
    some ((if input.removed then s.remove m else s).enter i user (.draining rest))
  | .reading =>
    match input.event with
    | none => some (s.enter i user .leaving)
    | some frame =>
      match checkFrame input.isContact frame with
      | .error r => some (s.enter i user (.refusing r))
      | .ok (recipient, body) => some ({ s with sends := s.sends + 1 }.enter i user
          (.looking ⟨s.sends, user, recipient, body, input.sentAt⟩))
  | .looking m =>
    match s.registry m.recipient with
    | none => some (s.enter i user (.publishing m))
    | some j => some (s.enter i user (.relaying m j))
  | .relaying m j =>
    if s.accepts j then some ((s.deliver j m).enter i user (.acknowledging m))
    else some (s.enter i user (.publishing m))
  | .publishing m =>
    match input.publish with
    | .stored => some (((s.store m).spawn (.looking m)).enter i user (.acknowledging m))
    | .unreported => some ((s.store m).enter i user (.refusing queueUnavailable))
    | .failed => some (s.enter i user (.refusing queueUnavailable))
  | .acknowledging m =>
    if s.accepts i then
      some ({ s.push i (.text (.ack m.recipient)) with acked := s.acked ++ [m] }.enter i user .reading)
    else some (s.enter i user .leaving)
  | .refusing r =>
    if s.accepts i then some ((s.push i (.text (.error r))).enter i user .reading)
    else some (s.enter i user .leaving)
  | .leaving => some ((s.removeIfCurrent user i).enter i user .dropping)
  | .dropping => some ((s.abort i).enter i user .gone)
  | .gone => none

/-- Task `j` moves on. -/
def redeliver (s : Server υ) (j : ℕ) (deleted : Bool) : Task υ → Option (Server υ)
  | .looking m =>
    match s.registry m.recipient with
    | none => some { s with tasks := s.tasks.set j (.done m) }
    | some i => some { s with tasks := s.tasks.set j (.relaying m i) }
  | .relaying m i =>
    if s.accepts i then some { s.deliver i m with tasks := s.tasks.set j (.deleting m) }
    else some { s with tasks := s.tasks.set j (.done m) }
  | .deleting m =>
    some { (if deleted then s.remove m else s) with tasks := s.tasks.set j (.done m) }
  | .done _ => none

/-- The forward task takes a frame and writes it; a `Close` or a failed write ends it. -/
def forward (s : Server υ) (i : ℕ) (written : Bool) : Option (Server υ) :=
  match s.channels[i]? with
  | some ⟨frame :: frames, .running, out⟩ => some { s with
      channels := s.channels.set i {
        frames := frames
        forward := if written && !frame.isClose then .running else .stopped
        written := if written then out ++ [frame] else out } }
  | _ => none

/-- The receiver is dropped, and with it what it had not received. -/
def release (s : Server υ) (i : ℕ) : Option (Server υ) :=
  match s.channels[i]? with
  | some ⟨_, .stopped, out⟩ => some { s with channels := s.channels.set i ⟨[], .closed, out⟩ }
  | _ => none

def step (s : Server υ) : Action υ → Option (Server υ)
  | .connect user => some { s with
      handlers := s.handlers ++ [⟨user, .inserted (s.registry user)⟩]
      channels := s.channels ++ [⟨[], .waiting, []⟩]
      registry := Function.update s.registry user (some s.handlers.length) }
  | .run i input => s.handlers[i]?.bind fun h => s.advance i h.user input h.stage
  | .forward i written => s.forward i written
  | .release i => s.release i
  | .redeliver j deleted => s.tasks[j]?.bind fun task => s.redeliver j deleted task
  | .expire m =>
    if m ∈ s.queue m.recipient then some { s.remove m with expired := s.expired ++ [m] } else none

def machine : Machine (Server υ) (Action υ) where
  init s := s = start
  step := step

end Server

end Epistl.Relay
