import Epistl.Text.JsString
import Mathlib.Data.List.Basic
import Mathlib.Data.List.Nodup

/-! # The stream of queued messages

A stream keeps its messages in the order of their sequence numbers, which are not
contiguous once some were removed. The server that holds it is not part of this
repository: `JetStream` lists the calls the API makes, and `Serves` what is documented of
them.
-/
namespace Epistl.Offline

structure Stored where
  sequence : ℕ
  subject : String
  payload : Bytes
  deriving Repr, DecidableEq

structure Stream where
  messages : List Stored
  ordered : messages.Pairwise fun m n => m.sequence < n.sequence

namespace Stream

@[ext] theorem ext {s t : Stream} (h : s.messages = t.messages) : s = t := by
  cases s
  cases t
  cases h
  rfl

/-- The messages of one subject. -/
def queue (s : Stream) (subject : String) : List Stored :=
  s.messages.filter fun m => m.subject = subject

/-- An ack under work queue retention. -/
def remove (s : Stream) (m : Stored) : Stream where
  messages := s.messages.filter fun n => n.sequence ≠ m.sequence
  ordered := s.ordered.filter _

def without (s : Stream) (taken : List Stored) : Stream where
  messages := s.messages.filter fun m => m.sequence ∉ taken.map Stored.sequence
  ordered := s.ordered.filter _

variable {s : Stream} {subject other : String} {m n : Stored} {taken : List Stored}

theorem queue_ordered (s : Stream) (subject : String) :
    (s.queue subject).Pairwise fun m n => m.sequence < n.sequence :=
  s.ordered.filter _

theorem queue_nodup (s : Stream) (subject : String) : (s.queue subject).Nodup := by
  apply (s.queue_ordered subject).imp
  intro m n h e
  rw [e] at h
  exact Nat.lt_irrefl _ h

theorem mem_queue : m ∈ s.queue subject ↔ m ∈ s.messages ∧ m.subject = subject := by
  rw [queue, List.mem_filter, decide_eq_true_iff]

/-- Sequence numbers name messages. -/
theorem eq_of_sequence (hm : m ∈ s.messages) (hn : n ∈ s.messages)
    (h : m.sequence = n.sequence) : m = n := by
  have hinj : ∀ {l : List Stored}, l.Pairwise (fun a b => a.sequence < b.sequence) →
      m ∈ l → n ∈ l → m = n := by
    intro l hl hm hn
    induction hl with
    | nil => cases hm
    | @cons a l ha _ ih =>
      rcases List.mem_cons.mp hm with rfl | hm' <;> rcases List.mem_cons.mp hn with rfl | hn'
      · rfl
      · have := ha _ hn'
        omega
      · have := ha _ hm'
        omega
      · exact ih hm' hn'
  exact hinj s.ordered hm hn

@[simp] theorem without_nil (s : Stream) : s.without [] = s := by
  apply Stream.ext
  apply List.filter_eq_self.mpr
  intro m _
  exact decide_eq_true List.not_mem_nil

theorem remove_eq_without (s : Stream) (m : Stored) : s.remove m = s.without [m] := by
  apply Stream.ext
  simp only [remove, without, List.map_cons, List.map_nil, List.mem_singleton, ne_eq]

theorem without_without (s : Stream) (xs ys : List Stored) :
    (s.without xs).without ys = s.without (xs ++ ys) := by
  apply Stream.ext
  simp only [without, List.filter_filter, List.map_append, List.mem_append, not_or]
  apply List.filter_congr
  intro m _
  rw [← Bool.decide_and]
  exact decide_eq_decide.mpr and_comm

theorem queue_without (htaken : taken ⊆ s.messages) :
    (s.without taken).queue subject = (s.queue subject).filter fun m => m ∉ taken := by
  simp only [queue, without, List.filter_filter]
  apply List.filter_congr
  intro m hm
  have hiff : m.sequence ∈ taken.map Stored.sequence ↔ m ∈ taken := by
    constructor
    · intro h
      obtain ⟨n, hn, he⟩ := List.mem_map.mp h
      rwa [← eq_of_sequence (htaken hn) hm he]
    · exact List.mem_map_of_mem
  rw [← Bool.decide_and, ← Bool.decide_and]
  apply decide_eq_decide.mpr
  rw [hiff, and_comm]

/-- What is taken from one subject is not missing in another. -/
theorem queue_without_other (htaken : taken ⊆ s.queue subject) (hother : other ≠ subject) :
    (s.without taken).queue other = s.queue other := by
  rw [queue_without fun m hm => (mem_queue.mp (htaken hm)).1]
  apply List.filter_eq_self.mpr
  intro m hm
  apply decide_eq_true
  intro hmem
  exact hother ((mem_queue.mp hm).2.symm.trans (mem_queue.mp (htaken hmem)).2)

end Stream

inductive RawMessageErrorKind
  | noMessageFound
  | other
  deriving Repr, DecidableEq

/-- The calls into the NATS client, with the server's state passed along. `κ` are consumers;
`none` is a call that fails, and an item of a fetched batch can be an error. -/
structure JetStream (σ κ : Type) where
  getStream : σ → Bool × σ
  getFirstRawMessageBySubject : String → ℕ → σ → Except RawMessageErrorKind Stored × σ
  createConsumerOnStream : String → σ → Option κ × σ
  fetch : κ → ℕ → σ → Option (List (Except Unit Stored)) × σ
  ack : Stored → σ → σ

/-- A server that answers, on what `content` says it holds: a raw read finds the first
message of the subject from a sequence number on, a fresh consumer of a subject fetches its
first messages, and only an ack removes one. -/
structure JetStream.Serves {σ κ : Type} (J : JetStream σ κ) (content : σ → Stream) : Prop where
  getStream (s : σ) : (J.getStream s).1 = true
  getStream_content (s : σ) : content (J.getStream s).2 = content s
  raw (subject : String) (sequence : ℕ) (s : σ) :
    (J.getFirstRawMessageBySubject subject sequence s).1 =
      match ((content s).queue subject).find? fun m => sequence ≤ m.sequence with
      | some m => .ok m
      | none => .error .noMessageFound
  raw_content (subject : String) (sequence : ℕ) (s : σ) :
    content (J.getFirstRawMessageBySubject subject sequence s).2 = content s
  consumer (subject : String) (s : σ) : (J.createConsumerOnStream subject s).1.isSome = true
  consumer_content (subject : String) (s : σ) :
    content (J.createConsumerOnStream subject s).2 = content s
  fetch {subject : String} {c : κ} {s t : σ} (n : ℕ) :
    J.createConsumerOnStream subject s = (some c, t) →
      (J.fetch c n t).1 = some ((((content s).queue subject).take n).map .ok)
  fetch_content (c : κ) (n : ℕ) (s : σ) : content (J.fetch c n s).2 = content s
  ack (m : Stored) (s : σ) : content (J.ack m s) = (content s).remove m

/-- A server whose state is its stream and whose consumers are their subjects. -/
def JetStream.memory : JetStream Stream String where
  getStream s := (true, s)
  getFirstRawMessageBySubject subject sequence s :=
    (match (s.queue subject).find? fun m => sequence ≤ m.sequence with
      | some m => .ok m
      | none => .error .noMessageFound, s)
  createConsumerOnStream subject s := (some subject, s)
  fetch subject n s := (some (((s.queue subject).take n).map .ok), s)
  ack m s := s.remove m

theorem JetStream.memory_serves : JetStream.memory.Serves id where
  getStream _ := rfl
  getStream_content _ := rfl
  raw _ _ _ := rfl
  raw_content _ _ _ := rfl
  consumer _ _ := rfl
  consumer_content _ _ := rfl
  fetch n h := by
    cases h
    rfl
  fetch_content _ _ _ := rfl
  ack _ _ := rfl

end Epistl.Offline
