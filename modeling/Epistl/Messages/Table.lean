import Epistl.Inbox.Device
import Mathlib.Data.List.Lex
import Mathlib.Data.List.Nodup
import Mathlib.Data.List.Sort

/-! # The message table and its search index

The table `messages` of `apps/mobile/drizzle`, the search index `messages_fts` that its three
triggers keep, and the statements of `apps/mobile/src/storage/messages.ts` that write to it.
The index is the list of the entries put into it and not taken out again.
-/
namespace Epistl.Messages

structure Message extends StoredMessage where
  id : ℕ
  /-- `none` for the outgoing messages and the unread incoming ones -/
  readAt : Option JsString
  deriving Repr, DecidableEq

/-- `id` is an `AUTOINCREMENT` key: `sequence` is the greatest one that was ever given. -/
structure Table where
  rows : List Message
  sequence : ℕ
  unique : (rows.map Message.id).Nodup
  le_sequence : ∀ m ∈ rows, m.id ≤ sequence

namespace Table
variable {t : Table} {input : StoredMessage} {m m' : Message} {f : Message → Message}

def empty : Table := ⟨[], 0, .nil, fun m hm => by cases hm⟩

/-- The row of the next insert. -/
def next (t : Table) (input : StoredMessage) : Message := ⟨input, t.sequence + 1, none⟩

theorem id_ne_next (hm : m ∈ t.rows) : m.id ≠ (t.next input).id := by
  have hle := t.le_sequence m hm
  simp only [next]
  omega

def insert (t : Table) (input : StoredMessage) : Table where
  rows := t.rows ++ [t.next input]
  sequence := t.sequence + 1
  unique := by
    rw [List.map_append, List.map_singleton, List.nodup_append]
    refine ⟨t.unique, List.nodup_singleton _, fun id hid id' hid' => ?_⟩
    obtain ⟨m, hm, rfl⟩ := List.mem_map.mp hid
    obtain rfl := List.mem_singleton.mp hid'
    exact id_ne_next hm
  le_sequence m hm := by
    rcases List.mem_append.mp hm with hm | hm
    · exact Nat.le_succ_of_le (t.le_sequence m hm)
    · obtain rfl := List.mem_singleton.mp hm
      exact Nat.le_refl _

/-- An update that leaves the keys alone. -/
def update (t : Table) (f : Message → Message) (hf : ∀ m, (f m).id = m.id) : Table where
  rows := t.rows.map f
  sequence := t.sequence
  unique := by
    rw [List.map_map, show Message.id ∘ f = Message.id from funext hf]
    exact t.unique
  le_sequence _ hrow := by
    obtain ⟨m, hm, rfl⟩ := List.mem_map.mp hrow
    rw [hf]
    exact t.le_sequence m hm

def clear (t : Table) : Table := ⟨[], t.sequence, .nil, fun m hm => by cases hm⟩

theorem nodup_rows (t : Table) : t.rows.Nodup := List.Nodup.of_map _ t.unique

theorem next_notMem : t.next input ∉ t.rows := fun h => id_ne_next h rfl

/-- Two rows with one key are one row. -/
theorem eq_of_id_eq (hm : m ∈ t.rows) (hm' : m' ∈ t.rows) (h : m.id = m'.id) : m = m' :=
  List.inj_on_of_nodup_map t.unique hm hm' h

end Table

/-- `created_at` as SQLite compares it: by the bytes of its text. -/
def time (createdAt : JsString) : List ℕ := (JsString.utf8Bytes createdAt).map UInt8.toNat

/-- `ORDER BY created_at`. -/
def Message.Earlier (m m' : Message) : Prop := time m.createdAt ≤ time m'.createdAt

instance decidableEarlier : DecidableRel Message.Earlier :=
  fun m m' => inferInstanceAs (Decidable (time m.createdAt ≤ time m'.createdAt))

def getMessages (t : Table) (contactUserId : JsString) : List Message :=
  (t.rows.filter fun m => m.contactUserId = contactUserId).insertionSort Message.Earlier

theorem mem_getMessages {t : Table} {contactUserId : JsString} {m : Message} :
    m ∈ getMessages t contactUserId ↔ m ∈ t.rows ∧ m.contactUserId = contactUserId := by
  rw [getMessages, List.mem_insertionSort, List.mem_filter, decide_eq_true_eq]

end Epistl.Messages
