import Epistl.Offline.Delivery

/-! # The frames of a client

`handle_client_frame` on a text of the client: its checks, the push into the recipient's
channel, the offline queue when there is none or it is gone, and the reply. Whatever the
text and the state, the call ends with one reply, and an ack stands for a message that was
put in exactly one place.
-/
namespace Epistl.Offline

/-- What the inbound path calls besides: `serde_json::from_str`, `Uuid::parse_str`, the
decoder of standard base64, how a payload is written, and the publish with its awaited ack. -/
structure Endpoint (σ κ υ : Type) extends Host σ κ υ where
  fromStr : String → Option Json
  parseUuid : String → Option υ
  decodeBase64 : String → Option Bytes
  toBytes : Json → Bytes
  publish : String → Bytes → σ → Option ℕ × σ

/-- The tasks that a publish spawns. -/
inductive Background (υ : Type)
  | redeliverIfNowConnected (recipient : υ) (sequence : ℕ) (relay : Json)
  | notifyPushTokens (recipient sender : υ)

/-- What the call reads and writes. A user's registered channel may be gone already. -/
structure Hub (σ υ : Type) where
  contacts : υ → υ → Bool
  registry : υ → Option ℕ
  channels : ℕ → Channel
  nats : σ
  spawned : List (Background υ)

/-- What the awaited calls come back with: whether the database answers, and the clock. -/
structure Awaited where
  database : Bool
  relayedAt : String
  queuedAt : String

/-- The frames that one push adds to a channel. -/
def framesAt (relayed : Option (ℕ × Json)) (i : ℕ) : List Json :=
  match relayed with
  | none => []
  | some (j, frame) => if j = i then [frame] else []

namespace Hub
variable {σ υ : Type}

/-- A push into a channel; it fails when the receiver is gone. -/
def push (s : Hub σ υ) (i : ℕ) (frame : Json) : Option (Hub σ υ) :=
  ((s.channels i).send frame).map fun tx => { s with channels := Function.update s.channels i tx }

/-- `tx.send(..).map_err(|_| ())`. -/
def reply (s : Hub σ υ) (tx : ℕ) (frame : Json) : Except Unit Unit × Hub σ υ :=
  match s.push tx frame with
  | some s => (.ok (), s)
  | none => (.error (), s)

/-- A publish that was acked, with the tasks it spawns. -/
def queued (s : Hub σ υ) (nats : σ) (tasks : List (Background υ)) : Hub σ υ :=
  { s with nats := nats, spawned := s.spawned ++ tasks }

/-- A publish that failed. -/
def unqueued (s : Hub σ υ) (nats : σ) : Hub σ υ := { s with nats := nats }

end Hub

def errorFrame (r : Relay.Rejection) : Json :=
  .object [("type", .string "error"), ("code", .string r.code), ("message", .string r.message)]

namespace Endpoint
variable {σ κ υ : Type} (E : Endpoint σ κ υ)

def ackFrame (recipient : υ) : Json :=
  .object [("type", .string "ack"), ("to", .string (E.uuid recipient))]

def payload (sender : υ) (bodyB64 sentAt : String) : Json :=
  .object [("from", .string (E.uuid sender)), ("body_b64", .string bodyB64),
    ("sent_at", .string sentAt)]

def messageFrame (sender : υ) (bodyB64 sentAt : String) : Json :=
  .object [("type", .string "message"), ("from", .string (E.uuid sender)),
    ("body_b64", .string bodyB64), ("sent_at", .string sentAt)]

def queueForOfflineDelivery (w : Awaited) (s : Hub σ υ) (sender recipient : υ) (bodyB64 : String)
    (tx : ℕ) : Except Unit Unit × Hub σ υ :=
  match E.publish (E.effectiveOfflineSubject recipient)
      (E.toBytes (E.payload sender bodyB64 w.queuedAt)) s.nats with
  | (some sequence, nats) =>
    (s.queued nats [
      .redeliverIfNowConnected recipient sequence (E.messageFrame sender bodyB64 w.queuedAt),
      .notifyPushTokens recipient sender]).reply tx (E.ackFrame recipient)
  | (none, nats) => (s.unqueued nats).reply tx (errorFrame Relay.queueUnavailable)

/-- The field `to`, when it is a UUID string. -/
def recipient (frame : Json) : Option υ := ((frame.get "to").bind Json.asStr).bind E.parseUuid

/-- The field `body_b64`, when it is valid base64. -/
def bodyB64 (frame : Json) : Option String :=
  ((frame.get "body_b64").bind Json.asStr).filter fun body => (E.decodeBase64 body).isSome

def handleSend (w : Awaited) (s : Hub σ υ) (sender : υ) (tx : ℕ) (frame : Json) :
    Except Unit Unit × Hub σ υ :=
  match E.recipient frame with
  | none => s.reply tx (errorFrame ⟨"invalid_payload", "\"to\" must be a UUID string"⟩)
  | some recipient =>
    match E.bodyB64 frame with
    | none => s.reply tx (errorFrame ⟨"invalid_payload", "\"body_b64\" must be valid base64"⟩)
    | some body =>
      -- an error of the database reads as `false`
      if w.database && s.contacts sender recipient then
        match s.registry recipient with
        | none => E.queueForOfflineDelivery w s sender recipient body tx
        | some i =>
          match s.push i (E.messageFrame sender body w.relayedAt) with
          | none => E.queueForOfflineDelivery w s sender recipient body tx
          | some s => s.reply tx (E.ackFrame recipient)
      else s.reply tx (errorFrame ⟨"not_a_contact", "recipient is not in your contacts"⟩)

def handleClientFrame (w : Awaited) (s : Hub σ υ) (sender : υ) (tx : ℕ) (text : String) :
    Except Unit Unit × Hub σ υ :=
  match E.fromStr text with
  | none => s.reply tx (errorFrame ⟨"invalid_payload", "malformed JSON frame"⟩)
  | some parsed =>
    if (parsed.get "type").bind Json.asStr = some "send" then
      E.handleSend w s sender tx parsed
    else s.reply tx (errorFrame ⟨"invalid_payload", "unknown or missing frame type"⟩)

/-- A publish stores its message at the end of the stream exactly when it reports a sequence
number. -/
structure Publishes (content : σ → Stream) : Prop where
  stored {subject : String} {payload : Bytes} {s t : σ} {n : ℕ} :
    E.publish subject payload s = (some n, t) →
      (content t).messages = (content s).messages ++ [⟨n, subject, payload⟩]
  refused {subject : String} {payload : Bytes} {s t : σ} :
    E.publish subject payload s = (none, t) → content t = content s

/-- The recipient and the body of a text that passes the checks of its shape. -/
def addressed (text : String) : Option (υ × String) :=
  (E.fromStr text).bind fun parsed =>
    if (parsed.get "type").bind Json.asStr = some "send" then
      (E.recipient parsed).bind fun recipient =>
        (E.bodyB64 parsed).map fun body => (recipient, body)
    else none

variable {E} {content : σ → Stream} {w : Awaited} {s t u : Hub σ υ} {sender recipient : υ}
  {body text : String} {i tx : ℕ} {frame : Json} {relayed : Option (ℕ × Json)}

end Endpoint

namespace Hub
variable {σ υ : Type} {s t : Hub σ υ} {i tx : ℕ} {frame : Json}

theorem push_some (h : s.push i frame = some t) :
    t.nats = s.nats ∧ ∀ j, (t.channels j).pushed = (s.channels j).pushed ++ framesAt (some (i, frame)) j := by
  obtain ⟨channel, hsend, rfl⟩ := Option.map_eq_some_iff.mp h
  refine ⟨rfl, fun j => ?_⟩
  by_cases hj : i = j
  · subst hj
    simpa [framesAt] using (Channel.send_pushed hsend).1
  · simp [framesAt, hj, Function.update_of_ne (Ne.symm hj)]

/-- Only a closed channel refuses a frame. -/
theorem push_none (h : s.push i frame = none) : (s.channels i).limit = some 0 := by
  rw [push, Option.map_eq_none_iff, Channel.send] at h
  split at h
  · cases h
  · assumption
  · cases h

theorem reply_spec (s : Hub σ υ) (tx : ℕ) (frame : Json) :
    (s.reply tx frame).2.nats = s.nats ∧
    (∀ j, ((s.reply tx frame).2.channels j).pushed = (s.channels j).pushed ++
      if (s.reply tx frame).1 = .ok () then framesAt (some (tx, frame)) j else []) ∧
    ((s.reply tx frame).1 = .error () → ((s.reply tx frame).2.channels tx).limit = some 0) := by
  unfold reply
  cases h : s.push tx frame with
  | some t =>
    obtain ⟨hnats, hpushed⟩ := push_some h
    exact ⟨hnats, by simpa using hpushed, by simp⟩
  | none => exact ⟨rfl, by simp, fun _ => push_none h⟩

end Hub

namespace Endpoint
variable {σ κ υ : Type} {E : Endpoint σ κ υ} {content : σ → Stream} {w : Awaited}
  {s u : Hub σ υ} {sender : υ} {text : String} {tx : ℕ} {parsed reply : Json}
  {relayed : Option (ℕ × Json)}

/-- What precedes the reply: the frame put into the recipient's channel, if any, and the
state it leaves. -/
inductive Handled (E : Endpoint σ κ υ) (w : Awaited) (s : Hub σ υ) (sender : υ) (text : String) :
    Json → Option (ℕ × Json) → Hub σ υ → Prop
  | refused (r : Relay.Rejection) : Handled E w s sender text (errorFrame r) none s
  | relayed {recipient : υ} {body : String} {i : ℕ} {u : Hub σ υ} :
    E.addressed text = some (recipient, body) → s.contacts sender recipient = true →
    s.registry recipient = some i → s.push i (E.messageFrame sender body w.relayedAt) = some u →
    Handled E w s sender text (E.ackFrame recipient)
      (some (i, E.messageFrame sender body w.relayedAt)) u
  | queued {recipient : υ} {body : String} {n : ℕ} {nats : σ} {tasks : List (Background υ)} :
    E.addressed text = some (recipient, body) → s.contacts sender recipient = true →
    E.publish (E.effectiveOfflineSubject recipient) (E.toBytes (E.payload sender body w.queuedAt))
      s.nats = (some n, nats) →
    Handled E w s sender text (E.ackFrame recipient) none (s.queued nats tasks)
  | unavailable {subject : String} {payload : Bytes} {nats : σ} :
    E.publish subject payload s.nats = (none, nats) →
    Handled E w s sender text (errorFrame Relay.queueUnavailable) none (s.unqueued nats)

theorem queueForOfflineDelivery_handled {recipient : υ} {body : String} (tx : ℕ)
    (ha : E.addressed text = some (recipient, body)) (hc : s.contacts sender recipient = true) :
    ∃ reply relayed u, E.Handled w s sender text reply relayed u ∧
      E.queueForOfflineDelivery w s sender recipient body tx = u.reply tx reply := by
  unfold queueForOfflineDelivery
  split
  · rename_i hpublish
    exact ⟨_, _, _, .queued ha hc hpublish, rfl⟩
  · rename_i hpublish
    exact ⟨_, _, _, .unavailable hpublish, rfl⟩

theorem handleSend_handled (tx : ℕ) (hparsed : E.fromStr text = some parsed)
    (htype : (parsed.get "type").bind Json.asStr = some "send") :
    ∃ reply relayed u, E.Handled w s sender text reply relayed u ∧
      E.handleSend w s sender tx parsed = u.reply tx reply := by
  have ha : E.addressed text = (E.recipient parsed).bind fun recipient =>
      (E.bodyB64 parsed).map fun body => (recipient, body) := by
    rw [addressed, hparsed, Option.bind_some, if_pos htype]
  unfold handleSend
  cases hto : E.recipient parsed with
  | none => exact ⟨_, _, _, .refused _, rfl⟩
  | some recipient =>
    cases hbody : E.bodyB64 parsed with
    | none => exact ⟨_, _, _, .refused _, rfl⟩
    | some body =>
      rw [hto, hbody] at ha
      simp only
      split
      · rename_i hcontact
        have hc := (Bool.and_eq_true_iff.mp hcontact).2
        cases hregistry : s.registry recipient with
        | none => exact queueForOfflineDelivery_handled tx ha hc
        | some i =>
          cases hpush : s.push i (E.messageFrame sender body w.relayedAt) with
          | none => simpa only [hpush] using queueForOfflineDelivery_handled tx ha hc
          | some u => exact ⟨_, _, _, .relayed ha hc hregistry hpush, by simp only [hpush]⟩
      · exact ⟨_, _, _, .refused _, rfl⟩

/-- Every call ends with one reply. -/
theorem handleClientFrame_handled (w : Awaited) (s : Hub σ υ) (sender : υ) (tx : ℕ) (text : String) :
    ∃ reply relayed u, E.Handled w s sender text reply relayed u ∧
      E.handleClientFrame w s sender tx text = u.reply tx reply := by
  unfold handleClientFrame
  cases hparsed : E.fromStr text with
  | none => exact ⟨_, _, _, .refused _, rfl⟩
  | some parsed =>
    simp only
    split
    · rename_i htype
      exact handleSend_handled tx hparsed htype
    · exact ⟨_, _, _, .refused _, rfl⟩

/-- The message is in the recipient's live channel, and nowhere else. -/
def PutLive (E : Endpoint σ κ υ) (content : σ → Stream) (s t : Hub σ υ) (sender recipient : υ)
    (body : String) (relayed : Option (ℕ × Json)) : Prop :=
  ∃ i sentAt, s.registry recipient = some i ∧
    relayed = some (i, E.messageFrame sender body sentAt) ∧ content t.nats = content s.nats

/-- The message is in the recipient's queue, and nowhere else. -/
def PutQueued (E : Endpoint σ κ υ) (content : σ → Stream) (s t : Hub σ υ) (sender recipient : υ)
    (body : String) (relayed : Option (ℕ × Json)) : Prop :=
  relayed = none ∧ ∃ n sentAt, (content t.nats).messages = (content s.nats).messages ++
    [⟨n, E.effectiveOfflineSubject recipient, E.toBytes (E.payload sender body sentAt)⟩]

/-- The call replied `reply` on the channel `own`, after putting at most `relayed` into a
recipient's channel. -/
structure Answered (E : Endpoint σ κ υ) (content : σ → Stream) (s : Hub σ υ) (sender : υ) (own : ℕ)
    (text : String) (reply : Json) (relayed : Option (ℕ × Json)) (result : Except Unit Unit)
    (t : Hub σ υ) : Prop where
  pushed (i : ℕ) : (t.channels i).pushed = (s.channels i).pushed ++ framesAt relayed i ++
    if result = .ok () then framesAt (some (own, reply)) i else []
  failed : result = .error () → (t.channels own).limit = some 0
  acked (recipient : υ) : reply = E.ackFrame recipient ↔ ∃ body,
    E.addressed text = some (recipient, body) ∧ s.contacts sender recipient = true ∧
      (E.PutLive content s t sender recipient body relayed ∨
        E.PutQueued content s t sender recipient body relayed)
  refused : (∀ recipient, reply ≠ E.ackFrame recipient) →
    (∃ r, reply = errorFrame r) ∧ relayed = none ∧ content t.nats = content s.nats
  own {frame : Json} : relayed = some (own, frame) → ∃ recipient body,
    E.addressed text = some (recipient, body) ∧ s.contacts sender recipient = true ∧
      s.registry recipient = some own

theorem errorFrame_ne_ackFrame (r : Relay.Rejection) (recipient : υ) :
    errorFrame r ≠ E.ackFrame recipient := by
  simp [errorFrame, ackFrame]

theorem ackFrame_inj (hinj : Function.Injective E.uuid) {a b : υ} :
    E.ackFrame a = E.ackFrame b ↔ a = b := by
  constructor
  · intro h
    simp only [ackFrame, Json.object.injEq, List.cons.injEq, Prod.mk.injEq, Json.string.injEq,
      true_and, and_true] at h
    exact hinj h
  · rintro rfl
    rfl

namespace Handled

theorem pushed (h : E.Handled w s sender text reply relayed u) (i : ℕ) :
    (u.channels i).pushed = (s.channels i).pushed ++ framesAt relayed i := by
  cases h with
  | relayed ha hc hregistry hpush => exact (Hub.push_some hpush).2 i
  | _ => simp [framesAt, Hub.queued, Hub.unqueued]

/-- Any other reply than an ack is an error and leaves everything as it was. -/
theorem refused_of_ne (hpublishes : E.Publishes content)
    (h : E.Handled w s sender text reply relayed u)
    (hreply : ∀ recipient, reply ≠ E.ackFrame recipient) :
    (∃ r, reply = errorFrame r) ∧ relayed = none ∧ content u.nats = content s.nats := by
  cases h with
  | refused r => exact ⟨⟨r, rfl⟩, rfl, rfl⟩
  | unavailable hpublish => exact ⟨⟨_, rfl⟩, rfl, hpublishes.refused hpublish⟩
  | relayed | queued => exact absurd rfl (hreply _)

theorem acked (hpublishes : E.Publishes content) (hinj : Function.Injective E.uuid)
    (h : E.Handled w s sender text reply relayed u) (recipient : υ) :
    reply = E.ackFrame recipient ↔ ∃ body, E.addressed text = some (recipient, body) ∧
      s.contacts sender recipient = true ∧
        (E.PutLive content s u sender recipient body relayed ∨
          E.PutQueued content s u sender recipient body relayed) := by
  constructor
  · intro hreply
    cases h with
    | refused => exact absurd hreply (errorFrame_ne_ackFrame _ _)
    | unavailable => exact absurd hreply (errorFrame_ne_ackFrame _ _)
    | relayed ha hc hregistry hpush =>
      obtain rfl := (ackFrame_inj hinj).mp hreply
      exact ⟨_, ha, hc, Or.inl ⟨_, _, hregistry, rfl, congrArg content (Hub.push_some hpush).1⟩⟩
    | queued ha hc hpublish =>
      obtain rfl := (ackFrame_inj hinj).mp hreply
      exact ⟨_, ha, hc, Or.inr ⟨rfl, _, _, hpublishes.stored hpublish⟩⟩
  · rintro ⟨body, ha, -, hput⟩
    by_cases hreply : ∀ recipient, reply ≠ E.ackFrame recipient
    · obtain ⟨-, rfl, hsame⟩ := h.refused_of_ne hpublishes hreply
      rcases hput with ⟨i, sentAt, -, hrelayed, -⟩ | ⟨-, n, sentAt, hstored⟩
      · cases hrelayed
      · rw [hsame] at hstored
        exact absurd (congrArg List.length hstored) (by simp)
    · cases h with
      | refused | unavailable => exact absurd (errorFrame_ne_ackFrame _) hreply
      | relayed ha' | queued ha' =>
        obtain ⟨rfl, rfl⟩ := Prod.mk.injEq .. ▸ Option.some.inj (ha'.symm.trans ha)
        rfl

theorem own {frame : Json} (h : E.Handled w s sender text reply (some (tx, frame)) u) :
    ∃ recipient body, E.addressed text = some (recipient, body) ∧
      s.contacts sender recipient = true ∧ s.registry recipient = some tx := by
  cases h with
  | relayed ha hc hregistry hpush => exact ⟨_, _, ha, hc, hregistry⟩

end Handled

/-- Unless the recipient's channel is the sender's own, the reply is the one frame there. -/
theorem Answered.one {own : ℕ} {t : Hub σ υ}
    (h : E.Answered content s sender own text reply relayed (.ok ()) t)
    (hown : ∀ recipient body, E.addressed text = some (recipient, body) →
      s.contacts sender recipient = true → s.registry recipient ≠ some own) :
    (t.channels own).pushed = (s.channels own).pushed ++ [reply] := by
  have hnone : framesAt relayed own = [] := by
    unfold framesAt
    split
    · rfl
    · apply if_neg
      rintro rfl
      obtain ⟨recipient, body, ha, hc, hregistry⟩ := h.own rfl
      exact hown recipient body ha hc hregistry
  rw [h.pushed own, hnone, List.append_nil, if_pos rfl, framesAt, if_pos rfl]

theorem answered (hpublishes : E.Publishes content) (hinj : Function.Injective E.uuid)
    (w : Awaited) (s : Hub σ υ) (sender : υ) (own : ℕ) (text : String) :
    ∃ reply relayed, E.Answered content s sender own text reply relayed
      (E.handleClientFrame w s sender own text).1 (E.handleClientFrame w s sender own text).2 := by
  obtain ⟨reply, relayed, u, h, hcall⟩ := handleClientFrame_handled w s sender own text (E := E)
  obtain ⟨hnats, hpushed, hfailed⟩ := u.reply_spec own reply
  rw [hcall]
  refine ⟨reply, relayed, fun i => ?_, hfailed, fun recipient => ?_, fun hreply => ?_, ?_⟩
  · rw [hpushed, h.pushed]
  · simpa only [PutLive, PutQueued, hnats] using h.acked hpublishes hinj recipient
  · simpa only [hnats] using h.refused_of_ne hpublishes hreply
  · rintro frame rfl
    exact h.own

/-- One truthful reply for every text. It is the only frame on the sender's own channel when the
recipient's live channel is another one. -/
theorem handleClientFrame_answered (hpublishes : E.Publishes content)
    (hinj : Function.Injective E.uuid) (w : Awaited) (s : Hub σ υ) (sender : υ) (own : ℕ)
    (text : String) :
    let call := E.handleClientFrame w s sender own text
    ∃ reply relayed, E.Answered content s sender own text reply relayed call.1 call.2 ∧
      (call.1 = .ok () → (∀ recipient body, E.addressed text = some (recipient, body) →
          s.contacts sender recipient = true → s.registry recipient ≠ some own) →
        (call.2.channels own).pushed = (s.channels own).pushed ++ [reply]) := by
  obtain ⟨reply, relayed, h⟩ := answered hpublishes hinj w s sender own text
  refine ⟨reply, relayed, h, fun hok hown => ?_⟩
  rw [hok] at h
  exact h.one hown

end Endpoint

namespace Stream

/-- The sequence number of the next message. -/
def nextSequence (s : Stream) : ℕ := (s.messages.map Stored.sequence).foldr max 0 + 1

theorem lt_nextSequence {s : Stream} {m : Stored} (hm : m ∈ s.messages) :
    m.sequence < s.nextSequence := by
  have hmax : ∀ l : List Stored, m ∈ l → m.sequence ≤ (l.map Stored.sequence).foldr max 0 := by
    intro l hl
    induction l with
    | nil => cases hl
    | cons n l ih =>
      rcases List.mem_cons.mp hl with rfl | hl
      · exact Nat.le_max_left _ _
      · exact Nat.le_trans (ih hl) (Nat.le_max_right _ _)
  exact Nat.lt_succ_of_le (hmax s.messages hm)

def store (s : Stream) (subject : String) (payload : Bytes) : Stream where
  messages := s.messages ++ [⟨s.nextSequence, subject, payload⟩]
  ordered := by
    rw [List.pairwise_append]
    refine ⟨s.ordered, List.pairwise_singleton _ _, fun m hm n hn => ?_⟩
    rw [List.mem_singleton.mp hn]
    exact lt_nextSequence hm

end Stream

/-- Two users with their ids. -/
def uuidOf (user : Bool) : String :=
  if user then "11111111-1111-4111-8111-111111111111" else "22222222-2222-4222-8222-222222222222"

/-- `{"type":"send","to":"...","body_b64":"AA=="}`. -/
def sendText (recipient : Bool) : String :=
  "\x7b\"type\":\"send\",\"to\":\"" ++ uuidOf recipient ++ "\",\"body_b64\":\"AA==\"\x7d"

def sendFrame (recipient : Bool) : Json :=
  .object [("type", .string "send"), ("to", .string (uuidOf recipient)),
    ("body_b64", .string "AA==")]

/-- Reads the two texts; its queue is in memory. -/
def desk : Endpoint Stream String Bool where
  jetstream := .memory
  fromSlice _ := none
  uuid := uuidOf
  worktreeSlug := none
  fromStr text :=
    if text = sendText true then some (sendFrame true)
    else if text = sendText false then some (sendFrame false) else none
  parseUuid text :=
    if text = uuidOf true then some true else if text = uuidOf false then some false else none
  decodeBase64 text := if text = "AA==" then some [0] else none
  toBytes
    | .object [("from", .string sender), ("body_b64", .string body), ("sent_at", .string sentAt)] =>
      ("\x7b\"body_b64\":\"" ++ body ++ "\",\"from\":\"" ++ sender ++ "\",\"sent_at\":\"" ++ sentAt ++
        "\"\x7d").toUTF8.toList
    | _ => []
  publish subject payload s := (some s.nextSequence, s.store subject payload)

theorem desk_publishes : desk.Publishes id where
  stored h := by
    cases h
    rfl
  refused h := by cases h

theorem uuidOf_injective : Function.Injective uuidOf := by
  intro a b h
  cases a <;> cases b <;> first | rfl | exact absurd h (by decide)

/-- Every contacts row there can be; `true` is connected on channel 0, `false` is not. -/
def hub : Hub Stream Bool where
  contacts _ _ := true
  registry user := if user then some 0 else none
  channels _ := .live
  nats := ⟨[], .nil⟩
  spawned := []

def answering : Awaited := ⟨true, "t0", "t1"⟩

/-- A message to the other user is queued, and its sender gets the ack alone. -/
theorem handleClientFrame_answered_queued :
    let call := desk.handleClientFrame answering hub true 0 (sendText false)
    ∃ reply relayed, desk.Answered id hub true 0 (sendText false) reply relayed call.1 call.2 ∧
      (call.1 = .ok () → (∀ recipient body,
          desk.addressed (sendText false) = some (recipient, body) →
          hub.contacts true recipient = true → hub.registry recipient ≠ some 0) →
        (call.2.channels 0).pushed = (hub.channels 0).pushed ++ [reply]) :=
  Endpoint.handleClientFrame_answered desk_publishes uuidOf_injective answering hub true 0
    (sendText false)

/-- Who is in their own contacts gets the message besides the ack. -/
theorem handleClientFrame_self :
    (desk.handleClientFrame answering hub true 0 (sendText true)).1 = .ok () ∧
      ((desk.handleClientFrame answering hub true 0 (sendText true)).2.channels 0).pushed =
        [desk.messageFrame true "AA==" "t0", desk.ackFrame true] := by
  refine ⟨rfl, rfl⟩

end Epistl.Offline
