import Epistl.Messages.Table
import Mathlib.Data.List.Induction
import Mathlib.Data.List.Perm.Basic

/-! # The search index follows the message table

The triggers of `apps/mobile/drizzle/0002_light_karnak.sql` fire for every row a statement
writes. `messages_fts` has no content of its own: a delete takes out the entry with the row's
key and its text as it was. Over any calls the index has one entry for each row.
-/
namespace Epistl.Messages

/-- What the index has of a row. -/
def entry (m : Message) : ℕ × JsString := (m.id, m.body)

/-- The entries of `messages_fts`. -/
abbrev Index := List (ℕ × JsString)

/-- `messages_ai`. -/
def afterInsert (new : Message) (index : Index) : Index := index ++ [entry new]

/-- `messages_ad`. -/
def afterDelete (old : Message) (index : Index) : Index := index.erase (entry old)

/-- `messages_au`. -/
def afterUpdate (old new : Message) (index : Index) : Index :=
  index.erase (entry old) ++ [entry new]

structure Database where
  messages : Table
  index : Index

namespace Database

/-- `0002_light_karnak.sql` over the rows of a table: `body_b64` becomes `body`, and the index is
built anew. -/
def lightKarnak (messages : Table) : Database := ⟨messages, messages.rows.map entry⟩

def saveMessage (db : Database) (input : StoredMessage) : Database :=
  ⟨db.messages.insert input, afterInsert (db.messages.next input) db.index⟩

def clearAllMessages (db : Database) : Database :=
  ⟨db.messages.clear, db.messages.rows.foldl (fun index old => afterDelete old index) db.index⟩

/-- The rows `markContactMessagesRead` updates. -/
def unreadFrom (contactUserId : JsString) (m : Message) : Bool :=
  m.contactUserId = contactUserId && m.direction = .incoming && m.readAt.isNone

def setReadAt (contactUserId now : JsString) (m : Message) : Message :=
  if unreadFrom contactUserId m then { m with readAt := some now } else m

theorem setReadAt_id (contactUserId now : JsString) (m : Message) :
    (setReadAt contactUserId now m).id = m.id := by
  unfold setReadAt
  split <;> rfl

theorem entry_setReadAt (contactUserId now : JsString) (m : Message) :
    entry (setReadAt contactUserId now m) = entry m := by
  unfold setReadAt
  split <;> rfl

def markContactMessagesRead (db : Database) (contactUserId now : JsString) : Database :=
  ⟨db.messages.update (setReadAt contactUserId now) (setReadAt_id contactUserId now),
    (db.messages.rows.filter (unreadFrom contactUserId)).foldl
      (fun index old => afterUpdate old (setReadAt contactUserId now old) index) db.index⟩

inductive Call
  | saveMessage (input : StoredMessage)
  | markContactMessagesRead (contactUserId now : JsString)
  | clearAllMessages

def apply (db : Database) : Call → Database
  | .saveMessage input => db.saveMessage input
  | .markContactMessagesRead contactUserId now => db.markContactMessagesRead contactUserId now
  | .clearAllMessages => db.clearAllMessages

def run (db : Database) (calls : List Call) : Database := calls.foldl apply db

@[simp] theorem run_concat (db : Database) (calls : List Call) (call : Call) :
    db.run (calls ++ [call]) = (db.run calls).apply call := by
  rw [run, List.foldl_append]
  rfl

/-- The index has one entry for each row, with its key and its text. -/
def Indexed (db : Database) : Prop := db.index.Perm (db.messages.rows.map entry)

variable {db : Database} {rows : List Message} {index : Index}

/-- Every row is taken out. -/
theorem foldl_afterDelete (h : index.Perm (rows.map entry)) :
    rows.foldl (fun index old => afterDelete old index) index = [] := by
  induction rows generalizing index with
  | nil => exact h.eq_nil
  | cons m rows ih =>
    refine ih ?_
    have herase := h.erase (entry m)
    rwa [List.map_cons, List.erase_cons_head] at herase

/-- An update that keeps key and text takes the entry out and puts it in again. -/
theorem foldl_afterUpdate {f : Message → Message} (hf : ∀ m, entry (f m) = entry m)
    (hrows : ∀ m ∈ rows, entry m ∈ index) :
    (rows.foldl (fun index old => afterUpdate old (f old) index) index).Perm index := by
  induction rows generalizing index with
  | nil => exact List.Perm.refl index
  | cons m rows ih =>
    have hstep : (afterUpdate m (f m) index).Perm index := by
      rw [afterUpdate, hf]
      exact List.perm_append_comm.trans (List.perm_cons_erase (hrows m List.mem_cons_self)).symm
    refine (ih fun n hn => ?_).trans hstep
    exact hstep.mem_iff.mpr (hrows n (List.mem_cons_of_mem m hn))

theorem Indexed.apply (h : db.Indexed) (call : Call) : (db.apply call).Indexed := by
  cases call with
  | saveMessage input =>
    show (afterInsert (db.messages.next input) db.index).Perm
      ((db.messages.rows ++ [db.messages.next input]).map entry)
    rw [afterInsert, List.map_append, List.map_singleton]
    exact h.append_right _
  | markContactMessagesRead contactUserId now =>
    have hkeep : (db.messages.rows.map (setReadAt contactUserId now)).map entry =
        db.messages.rows.map entry := by
      rw [List.map_map]
      exact List.map_congr_left fun m _ => entry_setReadAt contactUserId now m
    have hmem : ∀ m ∈ db.messages.rows.filter (unreadFrom contactUserId), entry m ∈ db.index :=
      fun m hm => h.mem_iff.mpr (List.mem_map_of_mem (List.mem_of_mem_filter hm))
    show List.Perm _ ((db.messages.rows.map (setReadAt contactUserId now)).map entry)
    rw [hkeep]
    exact (foldl_afterUpdate (entry_setReadAt contactUserId now) hmem).trans h
  | clearAllMessages => exact List.perm_nil.mpr (foldl_afterDelete h)

theorem indexed_run (messages : Table) (calls : List Call) :
    ((lightKarnak messages).run calls).Indexed := by
  induction calls using List.reverseRecOn with
  | nil => exact List.Perm.refl _
  | append_singleton calls call ih =>
    rw [run_concat]
    exact ih.apply call

/-- No entry is there twice. -/
theorem Indexed.nodup (h : db.Indexed) : db.index.Nodup := by
  rw [h.nodup_iff]
  refine List.Nodup.of_map Prod.fst ?_
  rw [List.map_map]
  exact db.messages.unique

end Database

end Epistl.Messages
