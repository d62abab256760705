import Epistl.Messages.Index
import Epistl.Sql.Query
import Mathlib.Data.Finset.Max
import Mathlib.Data.Prod.Lex

/-! # The conversation list

`getConversationSummaries` ranks the messages of every contact from the newest on, joins the
contacts with unread messages and keeps the first of each rank. What is unread goes back to
the calls: an incoming message that was saved, and neither read nor cleared since.
-/
namespace Epistl.Messages

structure ConversationSummary where
  contactUserId : JsString
  lastBody : JsString
  lastDirection : MessageDirection
  lastCreatedAt : JsString
  hasUnread : Bool
  deriving Repr, DecidableEq

/-- `ORDER BY created_at DESC, id DESC`: the first row comes before the second. -/
def Message.Before (m m' : Message) : Prop :=
  time m'.createdAt < time m.createdAt ∨ time m'.createdAt = time m.createdAt ∧ m'.id < m.id

instance decidableBefore : DecidableRel Message.Before := fun m m' =>
  inferInstanceAs (Decidable (time m'.createdAt < time m.createdAt ∨
    time m'.createdAt = time m.createdAt ∧ m'.id < m.id))

/-- The rows of `ranked`, each with its `rn`. -/
def ranked (t : Table) : List (Message × ℕ) := t.rows.map fun m =>
  (m, Sql.rowNumber (fun m => m.contactUserId) Message.Before t.rows m)

/-- The rows of `unread`. -/
def unread (t : Table) : List JsString :=
  ((t.rows.filter fun m => m.direction = .incoming && m.readAt.isNone).map
    fun m => m.contactUserId).dedup

def rowToConversationSummary (row : (Message × ℕ) × Option JsString) : ConversationSummary where
  contactUserId := row.1.1.contactUserId
  lastBody := row.1.1.body
  lastDirection := row.1.1.direction
  lastCreatedAt := row.1.1.createdAt
  hasUnread := row.2.isSome

/-- `ORDER BY created_at DESC`. -/
def Newer (row row' : (Message × ℕ) × Option JsString) : Prop :=
  time row'.1.1.createdAt ≤ time row.1.1.createdAt

instance decidableNewer : DecidableRel Newer := fun row row' =>
  inferInstanceAs (Decidable (time row'.1.1.createdAt ≤ time row.1.1.createdAt))

def getConversationSummaries (t : Table) : List ConversationSummary :=
  (((Sql.leftJoin (fun row contactUserId => contactUserId = row.1.contactUserId) (ranked t)
    (unread t)).filter fun row => row.1.2 = 1).insertionSort Newer).map rowToConversationSummary

/-- The contact's message with the greatest time, and among these the greatest key. -/
structure Latest (t : Table) (m : Message) : Prop where
  mem : m ∈ t.rows
  greatest : ∀ m' ∈ t.rows, m'.contactUserId = m.contactUserId → m' = m ∨ m.Before m'

/-- The contact has an unread incoming message. -/
def HasUnread (t : Table) (contactUserId : JsString) : Prop :=
  ∃ m ∈ t.rows, Database.unreadFrom contactUserId m = true

variable {t : Table} {m m' : Message} {c : JsString}

theorem before_trichotomy (hid : m.id ≠ m'.id) : m.Before m' ∨ m'.Before m := by
  rcases lt_trichotomy (time m.createdAt) (time m'.createdAt) with h | h | h
  · exact .inr (.inl h)
  · rcases Nat.lt_or_gt_of_ne hid with hlt | hgt
    · exact .inr (.inr ⟨h, hlt⟩)
    · exact .inl (.inr ⟨h.symm, hgt⟩)
  · exact .inl (.inl h)

theorem before_asymm (h : m.Before m') : ¬m'.Before m := by
  rintro (h' | ⟨heq, hid⟩)
  · rcases h with h | ⟨heq, -⟩
    · exact lt_asymm h h'
    · exact h'.ne heq.symm
  · rcases h with h | ⟨-, hid'⟩
    · exact h.ne heq.symm
    · omega

theorem rowNumber_eq_one_iff (hm : m ∈ t.rows) :
    Sql.rowNumber (fun m => m.contactUserId) Message.Before t.rows m = 1 ↔ Latest t m := by
  rw [Sql.rowNumber_eq_one]
  constructor
  · refine fun h => ⟨hm, fun m' hm' hcontact => ?_⟩
    by_cases hid : m'.id = m.id
    · exact .inl (Table.eq_of_id_eq hm' hm hid)
    · exact .inr ((before_trichotomy hid).resolve_left (h m' hm' hcontact))
  · intro h m' hm' hcontact hbefore
    rcases h.greatest m' hm' hcontact with rfl | hafter
    · exact before_asymm hbefore hbefore
    · exact before_asymm hbefore hafter

theorem Latest.unique (h : Latest t m) (h' : Latest t m') (hcontact : m.contactUserId = m'.contactUserId) :
    m = m' := by
  rcases h.greatest m' h'.mem hcontact.symm with heq | hbefore
  · exact heq.symm
  · exact (h'.greatest m h.mem hcontact).resolve_right (before_asymm hbefore)

/-- Every contact with messages has a latest one. -/
theorem exists_latest (hm : m ∈ t.rows) : ∃ m', Latest t m' ∧ m'.contactUserId = m.contactUserId := by
  obtain ⟨m', hm', hgreatest⟩ := Finset.exists_max_image
    (t.rows.filter fun m' => m'.contactUserId = m.contactUserId).toFinset
    (fun m' => toLex (time m'.createdAt, m'.id)) ⟨m, by simp [hm]⟩
  simp only [List.mem_toFinset, List.mem_filter, decide_eq_true_eq, and_imp] at hm' hgreatest
  refine ⟨m', ⟨hm'.1, fun n hn hcontact => ?_⟩, hm'.2⟩
  by_cases hid : n.id = m'.id
  · exact .inl (Table.eq_of_id_eq hn hm'.1 hid)
  · have hle := hgreatest n hn (hcontact.trans hm'.2)
    rw [Prod.Lex.toLex_le_toLex] at hle
    rcases hle with hlt | ⟨heq, hle⟩
    · exact .inr (.inl hlt)
    · exact .inr (.inr ⟨heq, lt_of_le_of_ne hle hid⟩)

theorem mem_unread : c ∈ unread t ↔ HasUnread t c := by
  simp only [unread, List.mem_dedup, List.mem_map, List.mem_filter, HasUnread, Database.unreadFrom,
    Bool.and_eq_true, decide_eq_true_eq]
  constructor
  · rintro ⟨m, ⟨hm, hdirection, hread⟩, rfl⟩
    exact ⟨m, hm, ⟨rfl, hdirection⟩, hread⟩
  · rintro ⟨m, hm, ⟨rfl, hdirection⟩, hread⟩
    exact ⟨m, ⟨hm, hdirection, hread⟩, rfl⟩

/-- The row of a latest message. -/
def summaryRow (t : Table) (m : Message) : (Message × ℕ) × Option JsString :=
  ((m, Sql.rowNumber (fun m => m.contactUserId) Message.Before t.rows m),
    (unread t).find? fun contactUserId => contactUserId = m.contactUserId)

/-- The latest messages of the contacts. -/
def latestRows (t : Table) : List Message :=
  t.rows.filter fun m => Sql.rowNumber (fun m => m.contactUserId) Message.Before t.rows m = 1

theorem mem_latestRows : m ∈ latestRows t ↔ Latest t m := by
  rw [latestRows, List.mem_filter, decide_eq_true_eq]
  constructor
  · rintro ⟨hm, hrank⟩
    exact (rowNumber_eq_one_iff hm).mp hrank
  · exact fun h => ⟨h.mem, (rowNumber_eq_one_iff h.mem).mpr h⟩

theorem getConversationSummaries_eq (t : Table) : getConversationSummaries t =
    (((latestRows t).map (summaryRow t)).insertionSort Newer).map rowToConversationSummary := by
  have hnodup : (unread t).Nodup := List.nodup_dedup _
  have hone (row : Message × ℕ) (c d : JsString) (hc : decide (c = row.1.contactUserId) = true)
      (hd : decide (d = row.1.contactUserId) = true) : c = d :=
    (of_decide_eq_true hc).trans (of_decide_eq_true hd).symm
  rw [getConversationSummaries, Sql.leftJoin_eq hnodup fun row _ => hone row, ranked, List.map_map,
    List.filter_map]
  rfl

theorem getConversationSummaries_perm (t : Table) : (getConversationSummaries t).Perm
    ((latestRows t).map fun m => rowToConversationSummary (summaryRow t m)) := by
  rw [getConversationSummaries_eq]
  have h := (List.perm_insertionSort Newer ((latestRows t).map (summaryRow t))).map
    rowToConversationSummary
  rwa [List.map_map] at h

theorem mem_getConversationSummaries {s : ConversationSummary} :
    s ∈ getConversationSummaries t ↔
      ∃ m, Latest t m ∧ rowToConversationSummary (summaryRow t m) = s := by
  rw [(getConversationSummaries_perm t).mem_iff, List.mem_map]
  simp only [mem_latestRows]

/-- One summary for every contact. -/
theorem nodup_contacts (t : Table) :
    ((getConversationSummaries t).map ConversationSummary.contactUserId).Nodup := by
  rw [((getConversationSummaries_perm t).map _).nodup_iff, List.map_map]
  refine List.Nodup.map_on (fun m hm m' hm' hcontact => ?_) (t.nodup_rows.filter _)
  exact (mem_latestRows.mp hm).unique (mem_latestRows.mp hm') hcontact

theorem mem_contacts : c ∈ (getConversationSummaries t).map ConversationSummary.contactUserId ↔
    ∃ m ∈ t.rows, m.contactUserId = c := by
  rw [List.mem_map]
  constructor
  · rintro ⟨s, hs, rfl⟩
    obtain ⟨m, hm, rfl⟩ := mem_getConversationSummaries.mp hs
    exact ⟨m, hm.mem, rfl⟩
  · rintro ⟨m, hm, rfl⟩
    obtain ⟨m', hlatest, hcontact⟩ := exists_latest hm
    exact ⟨_, mem_getConversationSummaries.mpr ⟨m', hlatest, rfl⟩, hcontact⟩

theorem hasUnread_summaryRow :
    (rowToConversationSummary (summaryRow t m)).hasUnread = true ↔ HasUnread t m.contactUserId := by
  rw [← mem_unread]
  simp [rowToConversationSummary, summaryRow]

theorem pairwise_getConversationSummaries (t : Table) : (getConversationSummaries t).Pairwise
    fun s s' => time s'.lastCreatedAt ≤ time s.lastCreatedAt := by
  have htotal : Std.Total Newer := ⟨fun row row' => le_total _ _⟩
  have htrans : IsTrans _ Newer := ⟨fun _ _ _ h h' => le_trans h' h⟩
  rw [getConversationSummaries_eq, List.pairwise_map]
  exact List.pairwise_insertionSort Newer _

end Epistl.Messages
