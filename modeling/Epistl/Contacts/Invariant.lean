import Epistl.Contacts.Writes
import Epistl.Runs.Milestone

/-! # The invariant of the contact routes

It holds from a database in which no transaction is open and the foreign keys hold. What is
committed changes when a request is inserted, when a user is deleted, and at a commit.
-/
namespace Epistl.Contacts
variable {υ : Type} [DecidableEq υ]

/-- No transaction is open. -/
structure Database.Quiescent (db : Database υ) : Prop where
  contacts (a b : υ) : (db.contacts a b).writer = none
  contactRequests {row : Row ℕ (ContactRequestRow υ)} : row ∈ db.contactRequests → row.writer = none
  keyShares : db.keyShares = []
  referenced : db.Referenced

structure Inv (s : System υ) : Prop where
  owns {t : ℕ} {call : Call υ} : s.calls[t]? = some call → Owns s.db t call
  contactWriter {a b : υ} {t : ℕ} {v : Option Unit} :
    (s.db.contacts a b).writer = some (t, v) → t < s.calls.length
  requestWriter {id t : ℕ} {row : Row ℕ (ContactRequestRow υ)} {v : Option (ContactRequestRow υ)} :
    s.db.contactRequests[id]? = some row → row.writer = some (t, v) → t < s.calls.length
  referenced : s.db.Referenced
  keyUsers {t : ℕ} {u : υ} : (t, u) ∈ s.db.keyShares → s.db.hasUser u = true

/-- What is committed, the users included. -/
structure SameTables (db db' : Database υ) : Prop where
  contacts (a b : υ) : (db'.contacts a b).committed = (db.contacts a b).committed
  request (id : ℕ) : db'.request id = db.request id
  users : db'.users = db.users
  length : db'.contactRequests.length = db.contactRequests.length

variable {db db' : Database υ} {s t : System υ} {i : ℕ} {a b : υ} {call call' : Call υ}
  {row : Row ℕ Unit}

namespace SameTables

omit [DecidableEq υ] in
theorem refl (db : Database υ) : SameTables db db := ⟨fun _ _ => rfl, fun _ => rfl, rfl, rfl⟩

theorem putContact (h : row.committed = (db.contacts a b).committed) :
    SameTables db (db.putContact a b row) where
  contacts c d := by
    rw [Database.contacts_putContact]
    split
    · rename_i hcd
      obtain ⟨rfl, rfl⟩ := hcd
      exact h
    · rfl
  request _ := rfl
  users := rfl
  length := rfl

omit [DecidableEq υ] in
theorem trans {db'' : Database υ} (h : SameTables db db') (h' : SameTables db' db'') :
    SameTables db db'' where
  contacts a b := (h'.contacts a b).trans (h.contacts a b)
  request id := (h'.request id).trans (h.request id)
  users := h'.users.trans h.users
  length := h'.length.trans h.length

omit [DecidableEq υ] in
theorem rollback (i : ℕ) (db : Database υ) : SameTables db (db.rollback i) where
  contacts _ _ := Row.committed_rollback i _
  request _ := Database.request_rollback _
  users := rfl
  length := by simp [Database.rollback]

end SameTables

theorem Database.hasUser_deleteUser {id u : υ} (h : db.deleteUser id = some db') :
    db'.hasUser u = true ↔ db.hasUser u = true ∧ u ≠ id := by
  obtain ⟨-, -, -, rfl⟩ := deleteUser_eq_some h
  simp only [hasUser, List.any_filter, List.any_eq_true, Bool.and_eq_true, decide_eq_true_eq]
  constructor
  · rintro ⟨user, huser, hne, rfl⟩
    exact ⟨⟨user, huser, rfl⟩, hne⟩
  · rintro ⟨⟨user, huser, rfl⟩, hne⟩
    exact ⟨user, huser, hne, rfl⟩

/-- The rows that go with a user are those that name it. -/
theorem Database.contacts_deleteUser {id : υ} (h : db.deleteUser id = some db') (a b : υ) :
    (db'.contacts a b).committed = if a = id ∨ b = id then none else (db.contacts a b).committed := by
  obtain ⟨-, -, -, rfl⟩ := deleteUser_eq_some h
  simp only [cascadeContact]
  split
  · rename_i hgone
    rw [if_pos hgone.1]
    rfl
  · rename_i hstays
    split
    · rename_i hid
      cases hc : (db.contacts a b).committed with
      | none => rfl
      | some x => exact absurd ⟨hid, by rw [hc]; rfl⟩ hstays
    · rfl

omit [DecidableEq υ] in
theorem committed_insert {row row' : Row ℕ Unit} {inserted : Bool}
    (h : row.insert i () = some (row', inserted)) : row'.committed = row.committed := by
  obtain ⟨-, ⟨-, -, rfl⟩ | ⟨-, rfl, -⟩⟩ := Row.insert_eq_some h <;> rfl

namespace Move

/-- The statements that change what is committed. -/
theorem tables (h : Move i db call db' call') : SameTables db db' ∨
    (∃ caller target, call = .requesting caller target ∧
      db.pendingRequest caller target = none ∧ db' = { db with
        contactRequests := db.contactRequests ++ [⟨some ⟨caller, target, .pending⟩, none⟩] } ∧
      call' = .returned (.createContactRequest caller) (.created db.contactRequests.length)) ∨
    (∃ caller, call = .deletingAccount caller ∧ db.deleteUser caller = some db' ∧
      call' = .returned (.deleteAccount caller) .noContent) ∨
    ∃ operation, call = .committing operation ∧ db' = db.commit i ∧
      call' = .returned operation .noContent := by
  cases h with
  | ended | lookedUp | checkedContact | checkedIncoming | loadedAccept | loaded =>
    exact .inl (.refl db)
  | requested hnone => exact .inr (.inl ⟨_, _, rfl, hnone, rfl, rfl⟩)
  | insertedFirst hrow => exact .inl (.putContact (committed_insert hrow))
  | insertedSecond hrow => exact .inl (.putContact (committed_insert hrow))
  | insertedBoth hrow hrow' =>
    left
    apply SameTables.trans
    · exact .putContact (committed_insert hrow)
    · exact .putContact (committed_insert hrow')
  | checkedUsers => exact .inl ⟨fun _ _ => rfl, fun _ => rfl, rfl, rfl⟩
  | @resolved _ id _ row request hrow =>
    left
    refine ⟨fun _ _ => rfl, fun j => ?_, rfl, ?_⟩
    · apply Database.request_putRequest hrow
      rfl
    · simp [Database.putRequest]
  | removed => exact .inl (.putContact rfl)
  | removedReverse hrow =>
    left
    apply SameTables.putContact
    obtain ⟨-, -, x, -, -, rfl⟩ | ⟨-, rfl, -⟩ := Row.update_eq_some hrow <;> rfl
  | deletedUser hdelete => exact .inr (.inr (.inl ⟨_, rfl, hdelete, rfl⟩))
  | committed => exact .inr (.inr (.inr ⟨_, rfl, rfl, rfl⟩))
  | rolledBack => exact .inl (.rollback i db)

end Move

omit [DecidableEq υ] in
/-- A contact row after a commit is as its transaction wrote it. -/
theorem committed_commit_contacts (db : Database υ) (i : ℕ) (a b : υ) :
    (∃ v, (db.contacts a b).writer = some (i, v) ∧ ((db.commit i).contacts a b).committed = v) ∨
      (∀ v, (db.contacts a b).writer ≠ some (i, v)) ∧
        (db.commit i).contacts a b = db.contacts a b := by
  obtain ⟨v, hw, hcommitted, -⟩ | hsame := Row.committed_commit i (db.contacts a b)
  · exact .inl ⟨v, hw, hcommitted⟩
  · exact .inr hsame

omit [DecidableEq υ] in
/-- The commit of a resolution: the request was pending, and is resolved. -/
theorem Owns.commit_resolve {how : Resolution} {id : ℕ} {caller : υ}
    (ho : Owns db i (.committing (.resolve how id caller))) :
    ∃ request, db.request id = some request ∧ request.status = .pending ∧
      (db.commit i).request id = how.resolved request := by
  obtain ⟨row, v, hrow, hw⟩ : ∃ row v, db.contactRequests[id]? = some row ∧
      row.writer = some (i, v) := by
    cases ho.stage with
    | outside hcall => cases hcall
    | resolved hrow hw => exact ⟨_, _, hrow, hw⟩
  obtain ⟨how', caller', request, hcommitted, hstatus, rfl, hr⟩ := ho.request hrow hw
  cases hr
  refine ⟨request, ?_, hstatus, ?_⟩
  · simpa [Database.request, hrow] using hcommitted
  · obtain ⟨v, hw', hcommit, -⟩ | ⟨hnot, -⟩ := Row.committed_commit i row
    · cases hw.symm.trans hw'
      simpa [Database.request, Database.commit, hrow] using hcommit
    · exact absurd hw (hnot _)

omit [DecidableEq υ] in
/-- A new user leaves the rows of every call. -/
theorem frame_signUp (db : Database υ) (user : UserRow υ) (i : ℕ) :
    Frame i db { db with users := db.users ++ [user] } where
  contact _ _ := .refl _ _
  request _ _ := Iff.rfl
  length := Nat.le_refl _
  parties _ h := ⟨_, h, rfl, rfl⟩
  keyShares _ := Iff.rfl

namespace Inv

theorem init (hdb : db.Quiescent) : Inv (⟨db, []⟩ : System υ) where
  owns h := by cases h
  contactWriter {a b _ _} hw := by
    rw [hdb.contacts a b] at hw
    cases hw
  requestWriter hrow hw := by
    rw [hdb.contactRequests (List.mem_of_getElem? hrow)] at hw
    cases hw
  referenced := hdb.referenced
  keyUsers h := by
    rw [hdb.keyShares] at h
    cases h

theorem enter {a : System.Action υ} (h : Inv s) (hcall : a.starts = some call) : Inv (s.enter call) where
  owns {t call'} ht := by
    obtain ⟨rfl, rfl⟩ | ht := getElem?_concat_cases ht
    · apply Owns.of_no_writes
      · intro a b v hw
        exact absurd (h.contactWriter hw) (Nat.lt_irrefl _)
      · intro id row v hrow hw
        exact absurd (h.requestWriter hrow hw) (Nat.lt_irrefl _)
      · cases a with
        | createContactRequest | deleteAccount =>
          cases hcall
          exact .outside rfl
        | resolve =>
          cases hcall
          exact .loading
        | removeContact =>
          cases hcall
          exact .removing
        | signUp | proceed | fail => cases hcall
    · exact h.owns ht
  contactWriter hw := by
    have hlt := h.contactWriter hw
    simp only [System.enter, List.length_append, List.length_singleton]
    omega
  requestWriter hrow hw := by
    have hlt := h.requestWriter hrow hw
    simp only [System.enter, List.length_append, List.length_singleton]
    omega
  referenced := h.referenced
  keyUsers := h.keyUsers

theorem signUp (h : Inv s) (user : UserRow υ) :
    Inv { s with db := { s.db with users := s.db.users ++ [user] } } where
  owns ht := by
    exact (frame_signUp s.db user s.calls.length).owns
      (Nat.ne_of_lt (lt_length_of_getElem? ht)) (h.owns ht)
  contactWriter := h.contactWriter
  requestWriter := h.requestWriter
  referenced a b hab := by
    obtain ⟨ha, hb⟩ := h.referenced a b hab
    simp only [Database.hasUser] at ha hb ⊢
    simp [ha, hb]
  keyUsers hu := by
    have hhas := h.keyUsers hu
    simp only [Database.hasUser] at hhas ⊢
    simp [hhas]

theorem referenced_move (h : Inv s) (hcall : s.calls[i]? = some call)
    (hmove : Move i s.db call db' call') : db'.Referenced := by
  intro a b hab
  obtain hsame | ⟨caller, target, rfl, -, rfl, -⟩ | ⟨caller, rfl, hdelete, -⟩ |
    ⟨operation, rfl, rfl, -⟩ := hmove.tables
  · rw [hsame.contacts] at hab
    simpa only [Database.hasUser, hsame.users] using h.referenced a b hab
  · exact h.referenced a b hab
  · rw [Database.contacts_deleteUser hdelete] at hab
    split at hab
    · cases hab
    · rename_i hstays
      rw [not_or] at hstays
      obtain ⟨ha, hb⟩ := h.referenced a b hab
      exact ⟨(Database.hasUser_deleteUser hdelete).mpr ⟨ha, hstays.1⟩,
        (Database.hasUser_deleteUser hdelete).mpr ⟨hb, hstays.2⟩⟩
  · obtain ⟨v, hw, hcommitted⟩ | ⟨-, hsame⟩ := committed_commit_contacts s.db i a b
    · rw [hcommitted] at hab
      subst hab
      cases (h.owns hcall).contact hw with
      | accepted _ ha hb => exact ⟨h.keyUsers ha, h.keyUsers hb⟩
    · rw [hsame] at hab
      exact h.referenced a b hab

theorem keyUsers_move (h : Inv s) (hmove : Move i s.db call db' call') {t : ℕ} {u : υ}
    (hu : (t, u) ∈ db'.keyShares) : db'.hasUser u = true := by
  cases hmove with
  | ended | lookedUp | checkedContact | checkedIncoming | requested | loadedAccept | loaded |
    insertedFirst | insertedSecond | insertedBoth | resolved | removed | removedReverse =>
    exact h.keyUsers hu
  | checkedUsers hx hy =>
    obtain hu | hu := List.mem_cons.mp hu
    · cases hu
      exact hx
    · obtain hu | hu := List.mem_cons.mp hu
      · cases hu
        exact hy
      · exact h.keyUsers hu
  | deletedUser hdelete =>
    obtain ⟨hfree, -, -, rfl⟩ := Database.deleteUser_eq_some hdelete
    refine (Database.hasUser_deleteUser hdelete).mpr ⟨h.keyUsers hu, ?_⟩
    rintro rfl
    exact hfree t hu
  | committed => exact h.keyUsers (List.mem_of_mem_filter hu)
  | rolledBack => exact h.keyUsers (List.mem_of_mem_filter hu)

theorem frame (h : Inv s) (hcall : s.calls[i]? = some call)
    (hmove : Move i s.db call db' call') : Frame i s.db db' :=
  hmove.frame h.referenced (h.owns hcall)

theorem move (h : Inv s) (hcall : s.calls[i]? = some call) (hmove : Move i s.db call db' call') :
    Inv (s.put i db' call') where
  owns ht := by
    obtain ⟨rfl, rfl⟩ | ⟨hne, ht⟩ := getElem?_set_cases ht
    · exact hmove.owns (h.owns hcall)
    · exact (h.frame hcall hmove).owns hne (h.owns ht)
  contactWriter {a b t v} hw := by
    rw [System.put, List.length_set]
    by_cases ht : t = i
    · rw [ht]
      exact lt_length_of_getElem? hcall
    · have hsame := (h.frame hcall hmove).contact a b t v ht (.inr hw)
      simp only [System.put, hsame] at hw
      exact h.contactWriter hw
  requestWriter {id t row v} hrow hw := by
    rw [System.put, List.length_set]
    by_cases ht : t = i
    · rw [ht]
      exact lt_length_of_getElem? hcall
    · exact h.requestWriter (((h.frame hcall hmove).request ht hw).mp hrow) hw
  referenced := h.referenced_move hcall hmove
  keyUsers hu := h.keyUsers_move hmove hu

theorem effect {a : System.Action υ} (h : Inv s) (ht : s.Effect a t) : Inv t := by
  cases ht with
  | signedUp user => exact h.signUp user
  | entered hcall => exact h.enter hcall
  | moved hcall hmove => exact h.move hcall hmove
  | failed hcall hends => exact h.move hcall (.ended hends)

end Inv

end Epistl.Contacts
