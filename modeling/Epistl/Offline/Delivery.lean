import Epistl.Offline.Stream
import Epistl.Relay.Server
import Epistl.Text.Json

/-! # Peeking at and draining a queue

`get_queued` walks a subject with raw reads and looks for one sender; a connection that
comes up fetches the same subject through a consumer and pushes what it can parse. On one
content of the stream both see the same frames. Over any number of connections, cut off
wherever their channels close, the drains push the messages that parse once each, in
order, and keep everything else.
-/
namespace Epistl.Offline

/-- The sending half of a connection's channel, with the frames it accepted. `limit` is how
many more it takes before it closes, if it does. -/
structure Channel where
  pushed : List Json
  limit : Option ℕ

namespace Channel

def send (tx : Channel) (frame : Json) : Option Channel :=
  match tx.limit with
  | none => some { tx with pushed := tx.pushed ++ [frame] }
  | some 0 => none
  | some (n + 1) => some ⟨tx.pushed ++ [frame], some n⟩

/-- A channel that stays open. -/
def live : Channel := ⟨[], none⟩

theorem send_pushed {tx tx' : Channel} {frame : Json} (h : tx.send frame = some tx') :
    tx'.pushed = tx.pushed ++ [frame] ∧ (tx.limit = none → tx'.limit = none) := by
  cases hlimit : tx.limit with
  | none =>
    rw [send, hlimit] at h
    cases h
    exact ⟨rfl, fun _ => rfl⟩
  | some n =>
    rw [send, hlimit] at h
    cases n with
    | zero => cases h
    | succ n =>
      cases h
      exact ⟨rfl, fun hn => by cases hn⟩

theorem send_live {tx : Channel} {frame : Json} (h : tx.limit = none) :
    tx.send frame ≠ none := by
  rw [send, h]
  exact Option.some_ne_none _

end Channel

/-- What a route answers. -/
structure Response where
  status : ℕ
  body : Json

def internalError : Response := ⟨500, .object [("error", .string "internal_error")]⟩
def notFound : Response := ⟨404, .object [("error", .string "not_found")]⟩

/-- The answer to a peek, from what was queued. -/
def queued (payload : Json) : Response :=
  ⟨200, .object [
    ("from", .ofOption (payload.get "from")),
    ("body_b64", .ofOption (payload.get "body_b64")),
    ("sent_at", .ofOption (payload.get "sent_at"))]⟩

/-- The frame a connection is sent for what was queued. -/
def relay (payload : Json) : Json :=
  .object [
    ("type", .string "message"),
    ("from", .ofOption (payload.get "from")),
    ("body_b64", .ofOption (payload.get "body_b64")),
    ("sent_at", .ofOption (payload.get "sent_at"))]

/-- A peek answers with a message's own `null`s where fields are missing. -/
theorem queued_relay (payload : Json) : queued (relay payload) = queued payload := by
  rfl

/-- The cap of `messages.rs`. -/
def maxQueuedMessagesPerFetch : ℕ := 256

/-- What the API runs with: the NATS client, `serde_json::from_slice`, how user ids are
written, and the worktree. -/
structure Host (σ κ υ : Type) where
  jetstream : JetStream σ κ
  fromSlice : Bytes → Option Json
  uuid : υ → String
  worktreeSlug : Option String

namespace Host
variable {σ κ υ : Type} (H : Host σ κ υ)

def offlineSubject (user : υ) : String := "epistl.offline." ++ H.uuid user

def effectiveOfflineSubject (user : υ) : String :=
  match H.worktreeSlug with
  | some slug => "epistl.offline." ++ slug ++ "." ++ H.uuid user
  | none => H.offlineSubject user

/-- The field `from` is the text of `sender`. -/
def isFrom (sender : υ) (payload : Json) : Prop :=
  (payload.get "from").bind Json.asStr = some (H.uuid sender)

instance (sender : υ) (payload : Json) : Decidable (H.isFrom sender payload) :=
  inferInstanceAs (Decidable ((payload.get "from").bind Json.asStr = some (H.uuid sender)))

/-- The loop of `get_queued`, with the rounds left and `next_seq`. -/
def walkQueued (subject : String) (sender : υ) : ℕ → ℕ → σ → Response × σ
  | 0, _, s => (notFound, s)
  | rounds + 1, nextSeq, s =>
    match H.jetstream.getFirstRawMessageBySubject subject nextSeq s with
    | (.error .noMessageFound, s) => (notFound, s)
    | (.error .other, s) => (internalError, s)
    | (.ok raw, s) =>
      match H.fromSlice raw.payload with
      | none => walkQueued subject sender rounds (raw.sequence + 1) s
      | some payload =>
        if H.isFrom sender payload then (queued payload, s)
        else walkQueued subject sender rounds (raw.sequence + 1) s

def getQueued (user sender : υ) (s : σ) : Response × σ :=
  match H.jetstream.getStream s with
  | (false, s) => (internalError, s)
  | (true, s) =>
    H.walkQueued (H.effectiveOfflineSubject user) sender maxQueuedMessagesPerFetch 0 s

/-- The loop of `deliver_queued_messages`. -/
def pushQueued : List (Except Unit Stored) → Channel → σ → Channel × σ
  | [], tx, s => (tx, s)
  | .error _ :: _, tx, s => (tx, s)
  | .ok m :: rest, tx, s =>
    match H.fromSlice m.payload with
    | none => pushQueued rest tx s
    | some payload =>
      match tx.send (relay payload) with
      | none => (tx, s)
      | some tx => pushQueued rest tx (H.jetstream.ack m s)

def deliverQueuedMessages (user : υ) (tx : Channel) (s : σ) : Channel × σ :=
  match H.jetstream.createConsumerOnStream (H.effectiveOfflineSubject user) s with
  | (none, s) => (tx, s)
  | (some consumer, s) =>
    match H.jetstream.fetch consumer Relay.maxQueuedMessagesPerFetch s with
    | (none, s) => (tx, s)
    | (some messages, s) => H.pushQueued messages tx s

/-- One connection after the other, each with the limit of its channel: the frames pushed
in all. -/
def reconnect (user : υ) : List (Option ℕ) → σ → List Json × σ
  | [], s => ([], s)
  | limit :: limits, s =>
    let (tx, s) := H.deliverQueuedMessages user ⟨[], limit⟩ s
    let (pushed, s) := reconnect user limits s
    (tx.pushed ++ pushed, s)

/-- The frame of a message that parses. -/
def frame (m : Stored) : Option Json := (H.fromSlice m.payload).map relay

/-- The messages that parse. -/
def wellFormed (ms : List Stored) : List Stored := ms.filter fun m => (H.frame m).isSome

def unparsable (ms : List Stored) : List Stored := ms.filter fun m => (H.frame m).isNone

/-- What a user has queued, when `content` tells what the server holds. -/
def waiting (content : σ → Stream) (user : υ) (s : σ) : List Stored :=
  (content s).queue (H.effectiveOfflineSubject user)

/-- The answer for the first of `frames` that comes from `sender`. -/
def answer (sender : υ) (frames : List Json) : Response :=
  match frames.find? fun frame => H.isFrom sender frame with
  | some frame => queued frame
  | none => notFound

/-- A peek at `sender` agrees with the frames of a drain: it answers with the three fields of
the first frame from `sender`, and not_found when there is none. -/
structure Agrees (H : Host σ κ υ) (sender : υ) (response : Response) (frames : List Json) :
    Prop where
  found : ∀ (before : List Json) (frame : Json) (after : List Json),
    frames = before ++ frame :: after → frame.get "from" = some (.string (H.uuid sender)) →
      (∀ f ∈ before, f.get "from" ≠ some (.string (H.uuid sender))) →
        ∃ bodyB64 sentAt, frame.get "body_b64" = some bodyB64 ∧
          frame.get "sent_at" = some sentAt ∧
          response = ⟨200, .object [("from", .string (H.uuid sender)), ("body_b64", bodyB64),
            ("sent_at", sentAt)]⟩
  missing : response = ⟨404, .object [("error", .string "not_found")]⟩ ↔
    ∀ f ∈ frames, f.get "from" ≠ some (.string (H.uuid sender))

variable {H} {content : σ → Stream} {user sender : υ} {subject : String} {s : σ} {m : Stored}
  {payload : Json} {tx : Channel}

theorem isFrom_iff : H.isFrom sender payload ↔
    payload.get "from" = some (.string (H.uuid sender)) := by
  rw [isFrom]
  constructor
  · intro h
    obtain ⟨v, hv, htext⟩ := Option.bind_eq_some_iff.mp h
    rw [hv, Json.asStr_eq_some.mp htext]
  · intro h
    rw [h]
    rfl

theorem offlineSubject_injective (hinj : Function.Injective H.uuid) :
    Function.Injective H.effectiveOfflineSubject := by
  intro user other h
  apply hinj
  unfold effectiveOfflineSubject offlineSubject at h
  cases hslug : H.worktreeSlug <;> rw [hslug] at h <;> exact String.append_right_inj _ |>.mp h

theorem waiting_nodup : (H.waiting content user s).Nodup :=
  (content s).queue_nodup _

theorem isFrom_relay : H.isFrom sender (relay payload) ↔ H.isFrom sender payload := by
  have hget : (relay payload).get "from" = some (.ofOption (payload.get "from")) := by rfl
  rw [isFrom, isFrom, hget, Option.bind_some, Json.ofOption_asStr]

theorem wellFormed_cons_none {ms : List Stored} (h : H.fromSlice m.payload = none) :
    H.wellFormed (m :: ms) = H.wellFormed ms := by
  apply List.filter_cons_of_neg
  rw [frame, h]
  exact Bool.false_ne_true

theorem wellFormed_cons_some {ms : List Stored} (h : H.fromSlice m.payload = some payload) :
    H.wellFormed (m :: ms) = m :: H.wellFormed ms := by
  apply List.filter_cons_of_pos
  rw [frame, h]
  rfl

theorem answer_cons_of_pos {frames : List Json} (h : H.isFrom sender payload) :
    H.answer sender (relay payload :: frames) = queued payload := by
  rw [answer, List.find?_cons, decide_eq_true (isFrom_relay.mpr h)]
  exact queued_relay payload

theorem answer_cons_of_neg {frames : List Json} (h : ¬H.isFrom sender payload) :
    H.answer sender (relay payload :: frames) = H.answer sender frames := by
  rw [answer, answer, List.find?_cons, decide_eq_false (isFrom_relay.not.mpr h)]

theorem filterMap_cons_none {ms : List Stored} (h : H.fromSlice m.payload = none) :
    (m :: ms).filterMap H.frame = ms.filterMap H.frame := by
  apply List.filterMap_cons_none
  rw [frame, h]
  rfl

theorem filterMap_cons_some {ms : List Stored} (h : H.fromSlice m.payload = some payload) :
    (m :: ms).filterMap H.frame = relay payload :: ms.filterMap H.frame := by
  apply List.filterMap_cons_some
  rw [frame, h]
  rfl

theorem filterMap_wellFormed (ms : List Stored) :
    (H.wellFormed ms).filterMap H.frame = ms.filterMap H.frame := by
  induction ms with
  | nil => rfl
  | cons m ms ih =>
    cases h : H.fromSlice m.payload with
    | none => rw [wellFormed_cons_none h, filterMap_cons_none h, ih]
    | some payload => rw [wellFormed_cons_some h, filterMap_cons_some h, filterMap_cons_some h, ih]

/-- What a raw read finds, when everything below `nextSeq` was seen. -/
theorem find_after {seen rest : List Stored} {nextSeq : ℕ}
    (hseen : ∀ m ∈ seen, m.sequence < nextSeq) (hrest : ∀ m ∈ rest, nextSeq ≤ m.sequence) :
    ((seen ++ rest).find? fun m => nextSeq ≤ m.sequence) = rest.head? := by
  have hnone : (seen.find? fun m => nextSeq ≤ m.sequence) = none := by
    apply List.find?_eq_none.mpr
    intro m hm h
    have := hseen m hm
    have := of_decide_eq_true h
    omega
  rw [List.find?_append, hnone, Option.none_or]
  cases rest with
  | nil => rfl
  | cons m rest => rw [List.find?_cons, decide_eq_true (hrest m List.mem_cons_self), List.head?_cons]

/-- The walk looks at one message after the other. -/
theorem walkQueued_eq (hserves : H.jetstream.Serves content) (sender : υ) (rounds : ℕ) :
    ∀ (nextSeq : ℕ) (seen rest : List Stored) (s : σ),
      (content s).queue subject = seen ++ rest → (∀ m ∈ seen, m.sequence < nextSeq) →
        (∀ m ∈ rest, nextSeq ≤ m.sequence) →
          (H.walkQueued subject sender rounds nextSeq s).1 =
              H.answer sender ((rest.take rounds).filterMap H.frame) ∧
            content (H.walkQueued subject sender rounds nextSeq s).2 = content s := by
  induction rounds with
  | zero => exact fun _ _ _ _ _ _ _ => ⟨rfl, rfl⟩
  | succ rounds ih =>
    intro nextSeq seen rest s hqueue hseen hrest
    have hraw := hserves.raw subject nextSeq s
    have hcontent := hserves.raw_content subject nextSeq s
    rw [hqueue, find_after hseen hrest] at hraw
    rw [walkQueued]
    generalize H.jetstream.getFirstRawMessageBySubject subject nextSeq s = read at hraw hcontent ⊢
    obtain ⟨found, s'⟩ := read
    cases rest with
    | nil =>
      cases hraw
      exact ⟨rfl, hcontent⟩
    | cons m rest =>
      cases hraw
      have hordered : (seen ++ m :: rest).Pairwise fun m n => m.sequence < n.sequence := by
        rw [← hqueue]
        exact (content s).queue_ordered subject
      have hlater := (List.pairwise_cons.mp (List.pairwise_append.mp hordered).2.1).1
      have hnext := ih (m.sequence + 1) (seen ++ [m]) rest s'
        (by rw [hcontent, hqueue, List.append_assoc, List.singleton_append])
        (by
          intro n hn
          rcases List.mem_append.mp hn with hn | hn
          · have := (List.pairwise_append.mp hordered).2.2 n hn m List.mem_cons_self
            omega
          · rw [List.mem_singleton.mp hn]
            exact Nat.lt_succ_self _)
        (fun n hn => hlater n hn)
      rw [hcontent] at hnext
      rw [List.take_succ_cons]
      dsimp only
      cases hpayload : H.fromSlice m.payload with
      | none =>
        rw [filterMap_cons_none hpayload]
        exact hnext
      | some payload =>
        rw [filterMap_cons_some hpayload]
        dsimp only
        split
        · rename_i hfrom
          exact ⟨(answer_cons_of_pos hfrom).symm, hcontent⟩
        · rename_i hfrom
          rw [answer_cons_of_neg hfrom]
          exact hnext

theorem getQueued_eq (hserves : H.jetstream.Serves content) (user sender : υ) (s : σ) :
    (H.getQueued user sender s).1 = H.answer sender
        (((H.waiting content user s).take maxQueuedMessagesPerFetch).filterMap H.frame) ∧
      content (H.getQueued user sender s).2 = content s := by
  have hstream := hserves.getStream s
  have hcontent := hserves.getStream_content s
  rw [getQueued]
  generalize H.jetstream.getStream s = found at hstream hcontent ⊢
  obtain ⟨_, s'⟩ := found
  cases hstream
  have hwalk := walkQueued_eq hserves sender maxQueuedMessagesPerFetch 0 []
    (H.waiting content user s') s' rfl (fun m hm => by cases hm) (fun m _ => Nat.zero_le _)
  rw [waiting, hcontent] at hwalk
  exact hwalk

/-- What one drain pushes is the first part of what parses, and only that is removed. -/
theorem pushQueued_spec (hserves : H.jetstream.Serves content) (ms : List Stored) :
    ∀ (tx : Channel) (s : σ), ∃ k,
      (H.pushQueued (ms.map .ok) tx s).1.pushed =
          tx.pushed ++ ((H.wellFormed ms).take k).filterMap H.frame ∧
        content (H.pushQueued (ms.map .ok) tx s).2 =
          (content s).without ((H.wellFormed ms).take k) ∧
        (tx.limit = none → (H.wellFormed ms).take k = H.wellFormed ms) := by
  induction ms with
  | nil =>
    intro tx s
    refine ⟨0, ?_, ?_, fun _ => rfl⟩
    · exact (List.append_nil _).symm
    · exact (Stream.without_nil _).symm
  | cons m ms ih =>
    intro tx s
    rw [List.map_cons, pushQueued]
    cases hpayload : H.fromSlice m.payload with
    | none =>
      rw [wellFormed_cons_none hpayload]
      exact ih tx s
    | some payload =>
      rw [wellFormed_cons_some hpayload]
      dsimp only
      cases hsend : tx.send (relay payload) with
      | none =>
        refine ⟨0, ?_, ?_, fun hlimit => absurd hsend (Channel.send_live hlimit)⟩
        · exact (List.append_nil _).symm
        · exact (Stream.without_nil _).symm
      | some tx' =>
        obtain ⟨hpushed, hlive⟩ := Channel.send_pushed hsend
        obtain ⟨k, hk, hcontent, hall⟩ := ih tx' (H.jetstream.ack m s)
        refine ⟨k + 1, ?_, ?_, ?_⟩
        · rw [List.take_succ_cons, filterMap_cons_some hpayload]
          refine hk.trans ?_
          rw [hpushed, List.append_assoc, List.singleton_append]
        · rw [List.take_succ_cons]
          refine hcontent.trans ?_
          rw [hserves.ack, Stream.remove_eq_without, Stream.without_without, List.singleton_append]
        · intro hlimit
          rw [List.take_succ_cons, hall (hlive hlimit)]

/-- What a connection is sent at most. -/
def batch (H : Host σ κ υ) (content : σ → Stream) (user : υ) (s : σ) : List Stored :=
  H.wellFormed ((H.waiting content user s).take Relay.maxQueuedMessagesPerFetch)

theorem deliverQueuedMessages_spec (hserves : H.jetstream.Serves content) (user : υ)
    (tx : Channel) (s : σ) : ∃ k,
      (H.deliverQueuedMessages user tx s).1.pushed =
          tx.pushed ++ ((H.batch content user s).take k).filterMap H.frame ∧
        content (H.deliverQueuedMessages user tx s).2 =
          (content s).without ((H.batch content user s).take k) ∧
        (tx.limit = none → (H.batch content user s).take k = H.batch content user s) := by
  have hconsumer := hserves.consumer (H.effectiveOfflineSubject user) s
  have hcontent := hserves.consumer_content (H.effectiveOfflineSubject user) s
  rw [deliverQueuedMessages]
  cases hc : H.jetstream.createConsumerOnStream (H.effectiveOfflineSubject user) s with
  | mk consumer s' =>
    rw [hc] at hconsumer hcontent
    cases consumer with
    | none => cases hconsumer
    | some consumer =>
      have hfetch := hserves.fetch Relay.maxQueuedMessagesPerFetch hc
      have hcontent' := hserves.fetch_content consumer Relay.maxQueuedMessagesPerFetch s'
      dsimp only
      generalize H.jetstream.fetch consumer Relay.maxQueuedMessagesPerFetch s' = fetched
        at hfetch hcontent' ⊢
      obtain ⟨_, s''⟩ := fetched
      cases hfetch
      have hpush := pushQueued_spec hserves
        ((H.waiting content user s).take Relay.maxQueuedMessagesPerFetch) tx s''
      rw [hcontent'.trans hcontent] at hpush
      exact hpush

theorem answer_agrees {frames : List Json}
    (hframes : ∀ frame ∈ frames, ∃ payload, frame = relay payload) :
    H.Agrees sender (H.answer sender frames) frames := by
  constructor
  · intro before frame after hsplit hfrom hbefore
    have hmem : frame ∈ frames := hsplit ▸ List.mem_append_right _ List.mem_cons_self
    obtain ⟨payload, rfl⟩ := hframes frame hmem
    have hfind : (frames.find? fun f => H.isFrom sender f) = some (relay payload) := by
      refine List.find?_eq_some_iff_append.mpr
        ⟨decide_eq_true (isFrom_iff.mpr hfrom), before, after, hsplit, ?_⟩
      intro f hf
      rw [decide_eq_false (mt isFrom_iff.mp (hbefore f hf))]
      rfl
    have hsender : Json.ofOption (payload.get "from") = .string (H.uuid sender) :=
      Option.some.inj hfrom
    refine ⟨_, _, rfl, rfl, ?_⟩
    rw [answer, hfind]
    dsimp only
    rw [queued_relay, queued, hsender]
  · rw [answer]
    cases hfind : frames.find? fun f => H.isFrom sender f with
    | none =>
      refine ⟨fun _ f hf hfrom => ?_, fun _ => rfl⟩
      exact List.find?_eq_none.mp hfind f hf (decide_eq_true (isFrom_iff.mpr hfrom))
    | some frame =>
      have hfrom : H.isFrom sender frame :=
        of_decide_eq_true (List.find?_some (p := fun f => decide (H.isFrom sender f)) hfind)
      constructor
      · intro h
        cases h
      · intro hnone
        exact absurd (isFrom_iff.mp hfrom) (hnone frame (List.mem_of_find?_eq_some hfind))

/-- A peek answers with the fields of the first frame of its sender that a connection made on
the same content would be sent, and it leaves the content alone. -/
theorem peek_agrees (hserves : H.jetstream.Serves content) (hinj : Function.Injective H.uuid)
    (user sender : υ) {s s' : σ} (hsame : content s' = content s) :
    H.Agrees sender (H.getQueued user sender s).1
        (H.deliverQueuedMessages user .live s').1.pushed ∧
      content (H.getQueued user sender s).2 = content s ∧
      ((H.getQueued user sender s).1.status = 200 →
        ∃ m ∈ (content s).messages, ∃ payload, m.subject = H.effectiveOfflineSubject user ∧
          (∀ other, other ≠ user → m.subject ≠ H.effectiveOfflineSubject other) ∧
          H.fromSlice m.payload = some payload ∧
          payload.get "from" = some (.string (H.uuid sender)) ∧
          (H.getQueued user sender s).1.body = .object [("from", .string (H.uuid sender)),
            ("body_b64", .ofOption (payload.get "body_b64")),
            ("sent_at", .ofOption (payload.get "sent_at"))]) := by
  obtain ⟨hanswer, hcontent⟩ := getQueued_eq hserves user sender s
  refine ⟨?_, hcontent, ?_⟩
  · obtain ⟨k, hpushed, -, hall⟩ := deliverQueuedMessages_spec hserves user .live s'
    rw [hall rfl, batch, filterMap_wellFormed, waiting, hsame] at hpushed
    rw [hanswer, hpushed]
    refine answer_agrees fun frame hframe => ?_
    obtain ⟨m, -, hm⟩ := List.mem_filterMap.mp hframe
    obtain ⟨payload, -, hrelay⟩ := Option.map_eq_some_iff.mp hm
    exact ⟨payload, hrelay.symm⟩
  · intro hstatus
    rw [hanswer] at hstatus ⊢
    rw [answer] at hstatus ⊢
    cases hfind : (List.find? (fun frame => H.isFrom sender frame) (List.filterMap H.frame
        ((H.waiting content user s).take maxQueuedMessagesPerFetch))) with
    | none =>
      rw [hfind] at hstatus
      cases hstatus
    | some f =>
      have hfrom : H.isFrom sender f :=
        of_decide_eq_true (List.find?_some (p := fun frame => decide (H.isFrom sender frame)) hfind)
      obtain ⟨m, hm, hframe⟩ := List.mem_filterMap.mp (List.mem_of_find?_eq_some hfind)
      obtain ⟨hmem, hsubject⟩ := Stream.mem_queue.mp (List.mem_of_mem_take hm)
      obtain ⟨payload, hpayload, rfl⟩ := Option.map_eq_some_iff.mp hframe
      have hsender := isFrom_iff.mp (isFrom_relay.mp hfrom)
      refine ⟨m, hmem, payload, hsubject, ?_, hpayload, hsender, ?_⟩
      · intro other hother he
        exact hother (offlineSubject_injective hinj (he.symm.trans hsubject))
      · dsimp only
        rw [queued_relay, queued, hsender]
        rfl

/-- The bytes of `{"from":"b"}`. -/
def fromB : Bytes := [123, 34, 102, 114, 111, 109, 34, 58, 34, 98, 34, 125]

/-- Reads `{"from":"b"}`, and not the lone brace that is queued before it. -/
def small : Host Stream String String where
  jetstream := .memory
  fromSlice bytes := if bytes = fromB then some (.object [("from", .string "b")]) else none
  uuid := id
  worktreeSlug := none

def few : Stream where
  messages := [⟨3, "epistl.offline.a", [123]⟩, ⟨5, "epistl.offline.c", fromB⟩,
    ⟨8, "epistl.offline.a", fromB⟩]
  ordered := by decide

theorem peek_agrees_few :
    small.Agrees "b" (small.getQueued "a" "b" few).1
        (small.deliverQueuedMessages "a" .live few).1.pushed ∧
      (small.getQueued "a" "b" few).1 =
        ⟨200, .object [("from", .string "b"), ("body_b64", .null), ("sent_at", .null)]⟩ :=
  ⟨(peek_agrees JetStream.memory_serves Function.injective_id "a" "b" rfl).1, rfl⟩

theorem wellFormed_take (ms : List Stored) (n : ℕ) :
    ∃ k, H.wellFormed (ms.take n) = (H.wellFormed ms).take k := by
  refine ⟨(H.wellFormed (ms.take n)).length, List.prefix_iff_eq_take.mp ?_⟩
  exact (List.take_prefix n ms).filter _

/-- What stays queued when the first messages that parse are taken away. -/
theorem wellFormed_without {ms : List Stored} (hnodup : ms.Nodup) (k : ℕ) :
    H.wellFormed (ms.filter fun m => m ∉ (H.wellFormed ms).take k) = (H.wellFormed ms).drop k := by
  have hdisjoint : List.Disjoint ((H.wellFormed ms).take k) ((H.wellFormed ms).drop k) :=
    List.disjoint_take_drop (hnodup.filter _) (Nat.le_refl k)
  have htake : (((H.wellFormed ms).take k).filter fun m => m ∉ (H.wellFormed ms).take k) = [] := by
    apply List.filter_eq_nil_iff.mpr
    intro m hm h
    exact of_decide_eq_true h hm
  have hdrop : (((H.wellFormed ms).drop k).filter fun m => m ∉ (H.wellFormed ms).take k) =
      (H.wellFormed ms).drop k := by
    apply List.filter_eq_self.mpr
    intro m hm
    exact decide_eq_true fun h => hdisjoint h hm
  calc H.wellFormed (ms.filter fun m => m ∉ (H.wellFormed ms).take k)
      = (H.wellFormed ms).filter fun m => m ∉ (H.wellFormed ms).take k :=
        List.filter_comm ..
    _ = ((H.wellFormed ms).take k ++ (H.wellFormed ms).drop k).filter
          fun m => m ∉ (H.wellFormed ms).take k := by
        rw [List.take_append_drop]
    _ = (H.wellFormed ms).drop k := by
        rw [List.filter_append, htake, hdrop, List.nil_append]

theorem unparsable_without {ms : List Stored} (k : ℕ) :
    H.unparsable (ms.filter fun m => m ∉ (H.wellFormed ms).take k) = H.unparsable ms := by
  refine (List.filter_comm ..).trans (List.filter_eq_self.mpr ?_)
  intro m hm
  apply decide_eq_true
  intro hmem
  have hparses := (List.mem_filter.mp (List.mem_of_mem_take hmem)).2
  have hfails := (List.mem_filter.mp hm).2
  rw [Option.isNone_iff_eq_none.mp hfails] at hparses
  exact Bool.false_ne_true hparses

theorem wellFormed_take_subset {t : σ} (k : ℕ) :
    (H.wellFormed (H.waiting content user t)).take k ⊆ H.waiting content user t := by
  intro m hm
  exact List.mem_of_mem_filter (List.mem_of_mem_take hm)

theorem waiting_without {k : ℕ} {t : σ}
    (h : content t = (content s).without ((H.wellFormed (H.waiting content user s)).take k)) :
    H.waiting content user t = (H.waiting content user s).filter fun m =>
      m ∉ (H.wellFormed (H.waiting content user s)).take k := by
  rw [waiting, h]
  apply Stream.queue_without
  intro m hm
  exact (Stream.mem_queue.mp (wellFormed_take_subset k hm)).1

/-- Over any number of connections the drains take a first part of what parses. -/
theorem reconnect_spec (hserves : H.jetstream.Serves content) (user : υ)
    (limits : List (Option ℕ)) : ∀ s : σ, ∃ k,
      (H.reconnect user limits s).1 =
          ((H.wellFormed (H.waiting content user s)).take k).filterMap H.frame ∧
        content (H.reconnect user limits s).2 =
          (content s).without ((H.wellFormed (H.waiting content user s)).take k) := by
  induction limits with
  | nil => exact fun s => ⟨0, rfl, (Stream.without_nil _).symm⟩
  | cons limit limits ih =>
    intro s
    obtain ⟨j, hpushed, hcontent, -⟩ := deliverQueuedMessages_spec hserves user ⟨[], limit⟩ s
    obtain ⟨i, hi⟩ := wellFormed_take (H.waiting content user s) Relay.maxQueuedMessagesPerFetch
    rw [batch, hi, List.take_take] at hpushed hcontent
    obtain ⟨k, hk, hcontent'⟩ := ih (H.deliverQueuedMessages user ⟨[], limit⟩ s).2
    rw [waiting_without hcontent, wellFormed_without waiting_nodup] at hk hcontent'
    rw [hcontent] at hcontent'
    refine ⟨min j i + k, ?_, ?_⟩
    · rw [List.take_add, List.filterMap_append, ← hk]
      exact congrArg (· ++ _) hpushed
    · rw [List.take_add, ← Stream.without_without]
      exact hcontent'

/-- What does not parse fills no batch that it is too little for. -/
theorem wellFormed_take_ne_nil {ms : List Stored} {n : ℕ} (hfew : (H.unparsable ms).length < n)
    (hsome : H.wellFormed ms ≠ []) : H.wellFormed (ms.take n) ≠ [] := by
  intro hnil
  have hall : H.unparsable (ms.take n) = ms.take n := by
    apply List.filter_eq_self.mpr
    intro m hm
    exact Option.not_isSome_iff_eq_none.mp (List.filter_eq_nil_iff.mp hnil m hm) ▸ rfl
  have hle : (ms.take n).length ≤ (H.unparsable ms).length := by
    rw [← hall]
    exact ((List.take_sublist n ms).filter _).length_le
  rw [List.length_take] at hle
  rw [List.take_of_length_le (by omega)] at hnil
  exact hsome hnil

theorem filterMap_frame_ne_nil {ms : List Stored} (h : H.wellFormed ms ≠ []) :
    (H.wellFormed ms).filterMap H.frame ≠ [] := by
  obtain ⟨m, hm⟩ := List.exists_mem_of_ne_nil _ h
  intro hnil
  have hparses := (List.mem_filter.mp hm).2
  rw [List.filterMap_eq_nil_iff.mp hnil m hm] at hparses
  exact Bool.false_ne_true hparses

/-- A connection whose channel stays open is sent something when something parses, as long
as what does not parse leaves room in the batch. -/
theorem deliver_progress (hserves : H.jetstream.Serves content) (user : υ) (s : σ)
    (hfew : (H.unparsable (H.waiting content user s)).length < Relay.maxQueuedMessagesPerFetch)
    (hsome : H.wellFormed (H.waiting content user s) ≠ []) :
    (H.deliverQueuedMessages user .live s).1.pushed ≠ [] := by
  obtain ⟨k, hpushed, -, hall⟩ := deliverQueuedMessages_spec hserves user .live s
  rw [hall rfl] at hpushed
  rw [hpushed]
  exact filterMap_frame_ne_nil (wellFormed_take_ne_nil hfew hsome)

/-- The drains of any number of connections push the messages that parse in order and once
each, keep everything else in order, touch no other queue, and a connection that stays open
afterwards is sent something when anything that parses is left. -/
theorem drains (hserves : H.jetstream.Serves content) (user : υ) (limits : List (Option ℕ))
    (s : σ) (hfew : (H.unparsable (H.waiting content user s)).length <
      Relay.maxQueuedMessagesPerFetch) :
    let after := (H.reconnect user limits s).2
    ∃ pushed, (H.reconnect user limits s).1 = pushed.filterMap H.frame ∧
      pushed <+: H.wellFormed (H.waiting content user s) ∧ pushed.Nodup ∧
      (H.waiting content user after =
        (H.waiting content user s).filter fun m => m ∉ pushed) ∧
      H.unparsable (H.waiting content user after) = H.unparsable (H.waiting content user s) ∧
      pushed ++ H.wellFormed (H.waiting content user after) =
        H.wellFormed (H.waiting content user s) ∧
      (∀ subject, subject ≠ H.effectiveOfflineSubject user →
        (content after).queue subject = (content s).queue subject) ∧
      (H.wellFormed (H.waiting content user after) ≠ [] →
        (H.deliverQueuedMessages user .live after).1.pushed ≠ []) := by
  obtain ⟨k, hk, hcontent⟩ := reconnect_spec hserves user limits s
  have hleft : H.waiting content user (H.reconnect user limits s).2 =
      (H.waiting content user s).filter fun m =>
        m ∉ (H.wellFormed (H.waiting content user s)).take k := waiting_without hcontent
  have hunparsable : H.unparsable (H.waiting content user (H.reconnect user limits s).2) =
      H.unparsable (H.waiting content user s) := by
    rw [hleft, unparsable_without]
  refine ⟨(H.wellFormed (H.waiting content user s)).take k, hk, List.take_prefix _ _, ?_, hleft,
    hunparsable, ?_, ?_, ?_⟩
  · exact (waiting_nodup.filter _).sublist (List.take_sublist _ _)
  · rw [hleft, wellFormed_without waiting_nodup, List.take_append_drop]
  · intro subject hsubject
    rw [hcontent]
    exact Stream.queue_without_other (wellFormed_take_subset k) hsubject
  · intro hsome
    apply deliver_progress hserves user
    · rw [hunparsable]
      exact hfew
    · exact hsome

theorem drains_few : ∃ pushed,
    (small.reconnect "a" [some 0, some 1] few).1 = pushed.filterMap small.frame ∧
      pushed <+: small.wellFormed (small.waiting id "a" few) ∧
      small.waiting id "a" (small.reconnect "a" [some 0, some 1] few).2 =
        few.messages.take 1 := by
  have hserves : small.jetstream.Serves id := JetStream.memory_serves
  obtain ⟨pushed, hpushed, hprefix, -⟩ :=
    drains hserves "a" [some 0, some 1] few (by decide)
  exact ⟨pushed, hpushed, hprefix, by decide⟩

end Host
end Epistl.Offline
