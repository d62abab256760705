import Epistl.Messages.Summaries

/-! # Unread conversations over all calls

Over any calls from a table that was migrated, the index follows the table and the
conversation list shows the latest message of every contact. It is unread when an incoming
message was saved after the contact's messages were last marked read and after all messages
were last cleared.
-/
namespace Epistl.Messages

/-- `x` is in the list with nothing that ends it after it. -/
def StandsIn {α : Type*} (p ends : α → Bool) (l : List α) : Prop :=
  ∃ l₁ x l₂, l = l₁ ++ x :: l₂ ∧ p x = true ∧ ∀ y ∈ l₂, ends y = false

theorem standsIn_concat {α : Type*} {p ends : α → Bool} {l : List α} {x : α} :
    StandsIn p ends (l ++ [x]) ↔ p x = true ∨ ends x = false ∧ StandsIn p ends l := by
  constructor
  · rintro ⟨l₁, y, l₂, heq, hy, hends⟩
    rcases List.eq_nil_or_concat' l₂ with rfl | ⟨l₂, z, rfl⟩
    · obtain ⟨-, hx⟩ := List.append_inj' heq rfl
      cases hx
      exact .inl hy
    · rw [← List.cons_append, ← List.append_assoc] at heq
      obtain ⟨rfl, hx⟩ := List.append_inj' heq rfl
      cases hx
      refine .inr ⟨hends _ (by simp), l₁, y, l₂, rfl, hy, fun w hw => hends w ?_⟩
      exact List.mem_append_left _ hw
  · rintro (hx | ⟨hx, l₁, y, l₂, rfl, hy, hends⟩)
    · exact ⟨l, x, [], rfl, hx, fun y hy => by cases hy⟩
    · refine ⟨l₁, y, l₂ ++ [x], by simp, hy, fun w hw => ?_⟩
      rcases List.mem_append.mp hw with hw | hw
      · exact hends w hw
      · rwa [List.mem_singleton.mp hw]

namespace Database

/-- The call saves an incoming message of the contact. -/
def Call.saves (contactUserId : JsString) : Call → Bool
  | .saveMessage input => input.contactUserId = contactUserId && input.direction = .incoming
  | _ => false

/-- The call marks the contact's messages read. -/
def Call.marks (contactUserId : JsString) : Call → Bool
  | .markContactMessagesRead c _ => c = contactUserId
  | _ => false

def Call.clears : Call → Bool
  | .clearAllMessages => true
  | _ => false

/-- An incoming message of the contact was saved after its messages were last marked read, or
was there unread at the start and they were never marked. -/
def SavedSinceMark (start : Table) (calls : List Call) (contactUserId : JsString) : Prop :=
  StandsIn (Call.saves contactUserId) (Call.marks contactUserId) calls ∨
    HasUnread start contactUserId ∧ ∀ call ∈ calls, call.marks contactUserId = false

/-- The same, and the message is not cleared. -/
def UnreadSince (start : Table) (calls : List Call) (contactUserId : JsString) : Prop :=
  StandsIn (Call.saves contactUserId)
      (fun call => call.marks contactUserId || call.clears) calls ∨
    HasUnread start contactUserId ∧
      ∀ call ∈ calls, (call.marks contactUserId || call.clears) = false

variable {db : Database} {c : JsString}

/-- A message is unread after its contact's messages were marked only if the contact is another. -/
theorem unreadFrom_setReadAt (d now : JsString) (m : Message) :
    unreadFrom c (setReadAt d now m) = true ↔ d ≠ c ∧ unreadFrom c m = true := by
  unfold setReadAt
  split
  · rename_i hd
    obtain ⟨⟨hcontact, -⟩, -⟩ := by simpa [unreadFrom] using hd
    constructor
    · intro h
      simp [unreadFrom] at h
    · rintro ⟨hne, h⟩
      have hc : m.contactUserId = c := by
        simp only [unreadFrom, Bool.and_eq_true, decide_eq_true_eq] at h
        exact h.1.1
      exact absurd (hcontact.symm.trans hc) hne
  · rename_i hd
    refine (and_iff_right_of_imp fun h => ?_).symm
    rintro rfl
    exact hd h

theorem hasUnread_apply (db : Database) (call : Call) (c : JsString) :
    HasUnread (db.apply call).messages c ↔
      call.saves c = true ∨ (call.marks c || call.clears) = false ∧ HasUnread db.messages c := by
  cases call with
  | saveMessage input =>
    have hrows : (db.apply (.saveMessage input)).messages.rows =
        db.messages.rows ++ [db.messages.next input] := rfl
    have hnew : unreadFrom c (db.messages.next input) = Call.saves c (.saveMessage input) := by
      simp only [unreadFrom, Table.next, Call.saves, Option.isNone_none, Bool.and_true]
      rfl
    simp only [HasUnread, hrows, List.mem_append, List.mem_singleton, or_and_right, exists_or,
      exists_eq_left, hnew, Call.marks, Call.clears, Bool.or_false, true_and]
    exact or_comm
  | markContactMessagesRead d now =>
    have hrows : (db.apply (.markContactMessagesRead d now)).messages.rows =
        db.messages.rows.map (setReadAt d now) := rfl
    simp only [HasUnread, hrows, List.mem_map, exists_exists_and_eq_and, unreadFrom_setReadAt,
      Call.saves, Call.marks, Call.clears, Bool.or_false, Bool.false_eq_true, false_or,
      decide_eq_false_iff_not]
    constructor
    · rintro ⟨m, hm, hd, hunread⟩
      exact ⟨hd, m, hm, hunread⟩
    · rintro ⟨hd, m, hm, hunread⟩
      exact ⟨m, hm, hd, hunread⟩
  | clearAllMessages =>
    simp [HasUnread, apply, clearAllMessages, Table.clear, Call.saves, Call.marks, Call.clears]

theorem hasUnread_run (start : Table) (calls : List Call) (c : JsString) :
    HasUnread ((lightKarnak start).run calls).messages c ↔ UnreadSince start calls c := by
  induction calls using List.reverseRecOn with
  | nil =>
    have hnil : ¬StandsIn (Call.saves c) (fun call => call.marks c || call.clears) [] := by
      rintro ⟨l₁, x, l₂, heq, -⟩
      simp at heq
    rw [UnreadSince, or_iff_right hnil]
    exact (and_iff_left fun call hcall => by cases hcall).symm
  | append_singleton calls call ih =>
    rw [run_concat, hasUnread_apply, ih, UnreadSince, UnreadSince, standsIn_concat]
    simp only [List.mem_append, List.mem_singleton, or_imp, forall_and, forall_eq]
    tauto

/-- Over any calls the index has one entry for each row, and the list has one conversation for
each contact with messages: its latest message, and whether one is unread. -/
theorem conversations_run (start : Table) (calls : List Call) :
    let db := (lightKarnak start).run calls
    let summaries := getConversationSummaries db.messages
    db.Indexed ∧ db.index.Nodup ∧
    (summaries.map ConversationSummary.contactUserId).Nodup ∧
    (∀ c, c ∈ summaries.map ConversationSummary.contactUserId ↔
      ∃ m ∈ db.messages.rows, m.contactUserId = c) ∧
    (∀ s ∈ summaries,
      (∃ m, Latest db.messages m ∧ m.contactUserId = s.contactUserId ∧ m.body = s.lastBody ∧
        m.direction = s.lastDirection ∧ m.createdAt = s.lastCreatedAt) ∧
      (s.hasUnread = true ↔ UnreadSince start calls s.contactUserId)) ∧
    summaries.Pairwise fun s s' => time s'.lastCreatedAt ≤ time s.lastCreatedAt := by
  have hindexed := indexed_run start calls
  refine ⟨hindexed, hindexed.nodup, nodup_contacts _, fun c => mem_contacts, fun s hs => ?_,
    pairwise_getConversationSummaries _⟩
  obtain ⟨m, hm, rfl⟩ := mem_getConversationSummaries.mp hs
  exact ⟨⟨m, hm, rfl, rfl, rfl, rfl⟩, hasUnread_summaryRow.trans (hasUnread_run start calls _)⟩

/-- A contact's messages are marked read, an incoming message is saved and cleared, and then one
is sent to the contact. -/
def clearedAndSent : List Call :=
  [.markContactMessagesRead [0x62] [0x73], .saveMessage ⟨[0x62], .incoming, [0x31], [0x74]⟩,
    .clearAllMessages, .saveMessage ⟨[0x62], .outgoing, [0x32], [0x75]⟩]

/-- A message that was cleared leaves its contact's conversation without unread messages, though
it was saved after the contact's messages were last marked read. -/
theorem cleared_not_unread : SavedSinceMark .empty clearedAndSent [0x62] ∧
    getConversationSummaries ((lightKarnak .empty).run clearedAndSent).messages =
      [⟨[0x62], [0x32], .outgoing, [0x75], false⟩] := by
  constructor
  · exact .inl ⟨[_], _, _, rfl, by decide, by decide⟩
  · decide +kernel

end Database

end Epistl.Messages
