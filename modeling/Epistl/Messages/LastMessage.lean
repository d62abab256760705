import Epistl.Messages.Summaries
import Epistl.Text.Utf8

/-! # The last message of a conversation

`getMessages` orders by the time alone and leaves messages of one time in any order, while the
conversation list takes the one with the greatest key. Both are read here in every order that
their `ORDER BY` allows.
-/
namespace Epistl.Messages

/-- What `getMessages` may return: SQLite orders rows of one time as it likes. -/
structure MessagesResult (t : Table) (contactUserId : JsString) (result : List Message) : Prop where
  perm : result.Perm (t.rows.filter fun m => m.contactUserId = contactUserId)
  ordered : result.Pairwise Message.Earlier

/-- What `getConversationSummaries` may return. -/
structure SummariesResult (t : Table) (result : List ConversationSummary) : Prop where
  perm : result.Perm (getConversationSummaries t)
  ordered : result.Pairwise fun s s' => time s'.lastCreatedAt ≤ time s.lastCreatedAt

/-- The conversation list reports the message at the end of the contact's history. -/
def NamesLast (t : Table) (contactUserId : JsString) : Prop :=
  ∀ messages summaries, MessagesResult t contactUserId messages → SummariesResult t summaries →
    ∀ m ∈ messages.getLast?, ∃ s ∈ summaries, s.contactUserId = contactUserId ∧
      s.lastBody = m.body ∧ s.lastDirection = m.direction ∧ s.lastCreatedAt = m.createdAt

/-- No message of the contact has a greater time. -/
structure Newest (t : Table) (contactUserId : JsString) (m : Message) : Prop where
  mem : m ∈ t.rows
  contactUserId_eq : m.contactUserId = contactUserId
  greatest : ∀ m' ∈ t.rows, m'.contactUserId = contactUserId → time m'.createdAt ≤ time m.createdAt

variable {t : Table} {c : JsString} {m m' : Message} {result : List Message}

theorem summariesResult_getConversationSummaries (t : Table) :
    SummariesResult t (getConversationSummaries t) :=
  ⟨List.Perm.refl _, pairwise_getConversationSummaries t⟩

theorem MessagesResult.mem_iff (h : MessagesResult t c result) :
    m ∈ result ↔ m ∈ t.rows ∧ m.contactUserId = c := by
  rw [h.perm.mem_iff, List.mem_filter, decide_eq_true_eq]

/-- The last of the messages is a newest one. -/
theorem MessagesResult.newest (h : MessagesResult t c (result ++ [m])) : Newest t c m := by
  obtain ⟨hmem, hcontact⟩ := h.mem_iff.mp (List.mem_append_right _ List.mem_cons_self)
  refine ⟨hmem, hcontact, fun m' hm' hcontact' => ?_⟩
  rcases List.mem_append.mp (h.mem_iff.mpr ⟨hm', hcontact'⟩) with hbefore | hlast
  · exact (List.pairwise_append.mp h.ordered).2.2 m' hbefore m List.mem_cons_self
  · rw [List.mem_singleton.mp hlast]

/-- Every newest message is the last one in some order. -/
theorem Newest.exists_result (h : Newest t c m) : ∃ result, MessagesResult t c (result ++ [m]) := by
  have htotal : Std.Total Message.Earlier := ⟨fun m m' => le_total _ _⟩
  have htrans : IsTrans _ Message.Earlier := ⟨fun _ _ _ h h' => le_trans h h'⟩
  have hmem : m ∈ t.rows.filter fun m => m.contactUserId = c := by
    simpa using ⟨h.mem, h.contactUserId_eq⟩
  let others := (t.rows.filter fun m => m.contactUserId = c).erase m
  have hperm := List.perm_insertionSort Message.Earlier others
  refine ⟨others.insertionSort Message.Earlier, ?_, ?_⟩
  · exact (hperm.append_right [m]).trans (List.perm_append_comm.trans (List.perm_cons_erase hmem).symm)
  · rw [List.pairwise_append]
    refine ⟨List.pairwise_insertionSort _ _, List.pairwise_singleton _ _, fun m' hm' n hn => ?_⟩
    obtain rfl := List.mem_singleton.mp hn
    have hother := List.mem_filter.mp (List.mem_of_mem_erase (hperm.mem_iff.mp hm'))
    exact h.greatest m' hother.1 (of_decide_eq_true hother.2)

theorem Latest.newest (h : Latest t m) : Newest t m.contactUserId m := by
  refine ⟨h.mem, rfl, fun m' hm' hcontact => ?_⟩
  rcases h.greatest m' hm' hcontact with rfl | hlt | ⟨heq, -⟩
  · exact le_refl _
  · exact hlt.le
  · exact heq.le

/-- The times are told apart by their bytes. -/
theorem time_injective : Function.Injective time := by
  intro s s' h
  have hbytes := List.map_injective_iff.mpr (fun _ _ => UInt8.toNat_inj.mp) h
  rw [← JsString.decodeUtf8Bytes_utf8Bytes s, hbytes, JsString.decodeUtf8Bytes_utf8Bytes]

theorem Newest.createdAt_eq (h : Newest t c m) (h' : Newest t c m') : m.createdAt = m'.createdAt :=
  time_injective (le_antisymm (h'.greatest m h.mem h.contactUserId_eq)
    (h.greatest m' h'.mem h'.contactUserId_eq))

/-- The conversation list and the history name the same last message, in every order, if and
only if the contact's messages of the greatest time have one body and one direction. -/
theorem namesLast_iff (t : Table) (contactUserId : JsString) :
    NamesLast t contactUserId ↔ ∀ m m', Newest t contactUserId m → Newest t contactUserId m' →
      m.body = m'.body ∧ m.direction = m'.direction := by
  constructor
  · intro h
    -- every newest message agrees with the one summary of the contact
    have hsummary (m : Message) (hm : Newest t contactUserId m) :
        ∃ s ∈ getConversationSummaries t, s.contactUserId = contactUserId ∧
          s.lastBody = m.body ∧ s.lastDirection = m.direction := by
      obtain ⟨result, hresult⟩ := hm.exists_result
      obtain ⟨s, hs, hcontact, hbody, hdirection, -⟩ := h _ _ hresult
        (summariesResult_getConversationSummaries t) m (by simp)
      exact ⟨s, hs, hcontact, hbody, hdirection⟩
    intro m m' hm hm'
    obtain ⟨s, hs, hcontact, hbody, hdirection⟩ := hsummary m hm
    obtain ⟨s', hs', hcontact', hbody', hdirection'⟩ := hsummary m' hm'
    obtain rfl := List.inj_on_of_nodup_map (nodup_contacts t) hs hs' (hcontact.trans hcontact'.symm)
    exact ⟨hbody.symm.trans hbody', hdirection.symm.trans hdirection'⟩
  · intro h messages summaries hmessages hsummaries m hm
    obtain ⟨result, rfl⟩ := List.getLast?_eq_some_iff.mp hm
    have hnewest := hmessages.newest
    obtain ⟨l, hl, hcontact⟩ := exists_latest hnewest.mem
    rw [hnewest.contactUserId_eq] at hcontact
    have hlatest := hcontact ▸ hl.newest
    obtain ⟨hbody, hdirection⟩ := h l m hlatest hnewest
    refine ⟨rowToConversationSummary (summaryRow t l), ?_, hcontact, hbody, hdirection,
      hlatest.createdAt_eq hnewest⟩
    rw [hsummaries.perm.mem_iff, mem_getConversationSummaries]
    exact ⟨l, hl, rfl⟩

/-- Two messages of one contact at one time. -/
def drained : Table := (Table.empty.insert ⟨[0x62], .incoming, [0x31], [0x74]⟩).insert
  ⟨[0x62], .incoming, [0x32], [0x74]⟩

/-- The history may end with the message that was saved first, while the conversation list has
the second. -/
theorem drained_not_last : ¬NamesLast drained [0x62] := by
  intro h
  have hresult : MessagesResult drained [0x62] drained.rows.reverse := ⟨by decide, by decide⟩
  have hsummaries := summariesResult_getConversationSummaries drained
  obtain ⟨s, hs, -, hbody, -⟩ := h _ _ hresult hsummaries
    ⟨⟨[0x62], .incoming, [0x31], [0x74]⟩, 1, none⟩ (by decide)
  have hall : ∀ s ∈ getConversationSummaries drained, s.lastBody = [0x32] := by decide +kernel
  rw [hall s hs] at hbody
  cases hbody

end Epistl.Messages
