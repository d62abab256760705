import Epistl.Contacts.Pending

/-! # Contacts are mutual

An accept inserts both rows of a pair and a removal deletes both. While nobody is deleting the
second row of an accept as it inserts the first, every transaction has written both rows of a
pair when it commits.
-/
namespace Epistl.Contacts
variable {υ : Type} [DecidableEq υ]

structure Database.Mutual (db : Database υ) : Prop where
  symm (a b : υ) : (db.contacts a b).committed = (db.contacts b a).committed
  irrefl (a : υ) : (db.contacts a a).committed = none
  /-- Nobody asks themselves. -/
  requests {id : ℕ} {request : ContactRequestRow υ} : db.request id = some request →
    request.requesterUserId ≠ request.recipientUserId

/-- No other transaction has deleted the second row of an `INSERT` that takes effect. -/
def reverseStays (s : System υ) : System.Action υ → Bool
  | .proceed i =>
    match s.calls[i]? with
    | some (.inserting _ requesterId recipientId) =>
      match (s.db.contacts recipientId requesterId).writer with
      | some (_, none) => false
      | _ => true
    | _ => true
  | _ => true

/-- The users in the variables of a call differ. -/
def Call.Distinct : Call υ → Prop
  | .checkingContact x y | .checkingIncoming x y | .requesting x y | .inserting _ x y |
    .insertingSecond _ x y _ | .checkingUsers _ x y => x ≠ y
  | _ => True

/-- Call `t` has written both rows of its pair, or is about to write the second. -/
structure Paired (db : Database υ) (t : ℕ) (call : Call υ) : Prop where
  inserts {a b : υ} : (db.contacts a b).writer = some (t, some ()) →
    (db.contacts a b).committed = none ∧ a ≠ b ∧
      ((db.contacts b a).writer = some (t, some ()) ∨
        (∃ id, call = .insertingSecond id a b true) ∨
        ∃ operation response, call = .dropped operation response)
  deletes {a b : υ} : (db.contacts a b).writer = some (t, none) →
    (db.contacts a b).committed = some () ∧
      ((db.contacts b a).writer = some (t, none) ∨ call = .removingReverse a b ∨
        ∃ operation response, call = .dropped operation response)
  second {id : ℕ} {x y : υ} {inserted : Bool} : call = .insertingSecond id x y inserted →
    inserted = true ∧ (db.contacts x y).writer = some (t, some ())
  reverse {x y : υ} : call = .removingReverse x y → (db.contacts x y).writer = some (t, none)
  distinct : call.Distinct

variable {db db' : Database υ} {s t : System υ} {i j id : ℕ} {a b x y : υ} {call call' : Call υ}
  {row row' : Row ℕ Unit} {first : Bool} {operation : Operation υ}

namespace Paired

omit [DecidableEq υ] in
/-- Another call's statement leaves the rows of call `j`. -/
theorem frame (h : Paired db j call) (hframe : Frame i db db') (hj : j ≠ i) : Paired db' j call where
  inserts {a b} hw := by
    have hsame := hframe.contact a b j _ hj (.inr hw)
    rw [hsame] at hw ⊢
    obtain ⟨hcommitted, hne, hpair⟩ := h.inserts hw
    refine ⟨hcommitted, hne, hpair.imp_left fun hba => ?_⟩
    rw [hframe.contact b a j _ hj (.inl hba)]
    exact hba
  deletes {a b} hw := by
    have hsame := hframe.contact a b j _ hj (.inr hw)
    rw [hsame] at hw ⊢
    obtain ⟨hcommitted, hpair⟩ := h.deletes hw
    refine ⟨hcommitted, hpair.imp_left fun hba => ?_⟩
    rw [hframe.contact b a j _ hj (.inl hba)]
    exact hba
  second hcall := by
    obtain ⟨hinserted, hw⟩ := h.second hcall
    refine ⟨hinserted, ?_⟩
    rw [hframe.contact _ _ j _ hj (.inl hw)]
    exact hw
  reverse hcall := by
    have hw := h.reverse hcall
    rw [hframe.contact _ _ j _ hj (.inl hw)]
    exact hw
  distinct := h.distinct

omit [DecidableEq υ] in
/-- A call that has written no contact row, at a stage that is in the middle of no pair. -/
theorem of_no_writes (hnone : ∀ a b v, (db.contacts a b).writer ≠ some (i, v))
    (hsecond : ∀ id x y inserted, call ≠ .insertingSecond id x y inserted)
    (hreverse : ∀ x y, call ≠ .removingReverse x y) (hdistinct : call.Distinct) :
    Paired db i call where
  inserts hw := absurd hw (hnone _ _ _)
  deletes hw := absurd hw (hnone _ _ _)
  second hcall := absurd hcall (hsecond _ _ _ _)
  reverse hcall := absurd hcall (hreverse _ _)
  distinct := hdistinct

omit [DecidableEq υ] in
theorem outside (ho : Owns db i call) (hcall : call.autocommits = true)
    (hdistinct : call.Distinct) : Paired db i call := by
  apply of_no_writes
  · exact ho.no_contact fun _ _ _ => not_wrote_of_autocommits hcall
  · rintro id x y inserted rfl
    cases hcall
  · rintro x y rfl
    cases hcall
  · exact hdistinct

omit [DecidableEq υ] in
theorem returned {response : Response} (ho : Owns db i (.returned operation response)) :
    Paired db i (.returned operation response) := by
  apply of_no_writes
  · intro a b v hw
    cases ho.contact hw
  · intro id x y inserted h
    cases h
  · intro x y h
    cases h
  · trivial

omit [DecidableEq υ] in
theorem dropped (h : Paired db i call) (response : Response) :
    Paired db i (.dropped operation response) where
  inserts hw := by
    obtain ⟨hcommitted, hne, -⟩ := h.inserts hw
    exact ⟨hcommitted, hne, .inr (.inr ⟨_, _, rfl⟩)⟩
  deletes hw := ⟨(h.deletes hw).1, .inr (.inr ⟨_, _, rfl⟩)⟩
  second hcall := by cases hcall
  reverse hcall := by cases hcall
  distinct := trivial

omit [DecidableEq υ] in
theorem ended (h : Paired db i call) (ho : Owns db i call) (hends : call.Ends call') :
    Paired db i call' := by
  cases hends with
  | answered response hcall hresponse => exact .returned (ho.ended (.answered response hcall hresponse))
  | dropped response => exact h.dropped response

omit [DecidableEq υ] in
/-- A stage without a row in between, after another. -/
theorem onward (h : Paired db i call) (hcontacts : db'.contacts = db.contacts)
    (hsecond : ∀ id x y inserted, call ≠ .insertingSecond id x y inserted ∧
      call' ≠ .insertingSecond id x y inserted)
    (hreverse : ∀ x y, call ≠ .removingReverse x y ∧ call' ≠ .removingReverse x y)
    (hdropped : ∀ operation response, call ≠ .dropped operation response)
    (hdistinct : call'.Distinct) : Paired db' i call' where
  inserts hw := by
    rw [hcontacts] at hw ⊢
    obtain ⟨hcommitted, hne, hba | ⟨id, hcall⟩ | ⟨operation, response, hcall⟩⟩ := h.inserts hw
    · exact ⟨hcommitted, hne, .inl hba⟩
    · exact absurd hcall (hsecond _ _ _ _).1
    · exact absurd hcall (hdropped _ _)
  deletes hw := by
    rw [hcontacts] at hw ⊢
    obtain ⟨hcommitted, hba | hcall | ⟨operation, response, hcall⟩⟩ := h.deletes hw
    · exact ⟨hcommitted, .inl hba⟩
    · exact absurd hcall (hreverse _ _).1
    · exact absurd hcall (hdropped _ _)
  second hcall := absurd hcall (hsecond _ _ _ _).2
  reverse hcall := absurd hcall (hreverse _ _).2
  distinct := hdistinct

theorem insertedSecond {second : Bool} (h : Paired db i (.insertingSecond id x y first))
    (ho : Owns db i (.insertingSecond id x y first)) (hdb : db.Mutual)
    (hrow : (db.contacts y x).insert i () = some (row, second)) :
    Paired (db.putContact y x row) i
      (if first || second then .checkingUsers id x y else .resolving .accept id y) := by
  have hne : x ≠ y := h.distinct
  obtain ⟨rfl, hxy⟩ := h.second rfl
  have hnone : (db.contacts x y).committed = none := (h.inserts hxy).1
  have hnot (v : Option Unit) : (db.contacts y x).writer ≠ some (i, v) := by
    intro hw
    cases ho.contact hw
    exact hne rfl
  obtain ⟨-, ⟨rfl, -, rfl⟩ | ⟨-, -, z, hvisible⟩⟩ := Row.insert_eq_some hrow
  · have hkeep : (db.putContact y x ((db.contacts y x).write i (some ()))).contacts x y =
        db.contacts x y := Database.contacts_putContact_of_ne fun h => hne h.1
    refine ⟨fun {a b} hw => ?_, fun {a b} hw => ?_, ?_, ?_, hne⟩
    · obtain ⟨rfl, rfl, -⟩ | hw := writer_putContact hw
      · rw [Database.contacts_putContact_self, hkeep]
        exact ⟨(hdb.symm _ _).trans hnone, hne.symm, .inl hxy⟩
      · cases ho.contact hw
        rw [Database.contacts_putContact_self, hkeep]
        exact ⟨hnone, hne, .inl rfl⟩
    · obtain ⟨-, -, hw⟩ | hw := writer_putContact hw
      · cases hw
      · cases ho.contact hw
    · intro id' x' y' inserted hcall
      cases hcall
    · intro x' y' hcall
      cases hcall
  · rw [Row.visible_eq_committed hnot, hdb.symm, hnone] at hvisible
    cases hvisible

/-- The first row of an `INSERT` that found it absent. -/
theorem insertedFirst (h : Paired db i (.inserting id x y)) (ho : Owns db i (.inserting id x y))
    (hrow : (db.contacts x y).insert i () = some (row, first))
    (hnone : (db.contacts x y).committed = none) :
    Paired (db.putContact x y row) i (.insertingSecond id x y first) := by
  have hne : x ≠ y := h.distinct
  have hnot (v : Option Unit) : (db.contacts x y).writer ≠ some (i, v) := by
    intro hw
    cases ho.contact hw
  obtain ⟨-, ⟨rfl, -, rfl⟩ | ⟨-, -, z, hvisible⟩⟩ := Row.insert_eq_some hrow
  · refine ⟨fun {a b} hw => ?_, fun {a b} hw => ?_, ?_, ?_, hne⟩
    · obtain ⟨rfl, rfl, -⟩ | hw := writer_putContact hw
      · rw [Database.contacts_putContact_self]
        exact ⟨hnone, hne, .inr (.inl ⟨id, rfl⟩)⟩
      · cases ho.contact hw
    · obtain ⟨-, -, hw⟩ | hw := writer_putContact hw
      · cases hw
      · cases ho.contact hw
    · intro id' x' y' inserted hcall
      cases hcall
      rw [Database.contacts_putContact_self]
      exact ⟨rfl, rfl⟩
    · intro x' y' hcall
      cases hcall
  · rw [Row.visible_eq_committed hnot, hnone] at hvisible
    cases hvisible

theorem removed (h : Paired db i (.removing x y)) (ho : Owns db i (.removing x y))
    (hvisible : (db.contacts x y).visible i = some ()) :
    Paired (db.putContact x y ((db.contacts x y).write i none)) i (.removingReverse x y) := by
  have hnot (v : Option Unit) : (db.contacts x y).writer ≠ some (i, v) := by
    intro hw
    cases ho.contact hw
  rw [Row.visible_eq_committed hnot] at hvisible
  refine ⟨fun {a b} hw => ?_, fun {a b} hw => ?_, ?_, ?_, h.distinct⟩
  · obtain ⟨-, -, hw⟩ | hw := writer_putContact hw
    · cases hw
    · cases ho.contact hw
  · obtain ⟨rfl, rfl, -⟩ | hw := writer_putContact hw
    · rw [Database.contacts_putContact_self]
      exact ⟨hvisible, .inr (.inl rfl)⟩
    · cases ho.contact hw
  · intro id' x' y' inserted hcall
    cases hcall
  · intro x' y' hcall
    cases hcall
    rw [Database.contacts_putContact_self]
    rfl

theorem removedReverse {affected : Bool} (h : Paired db i (.removingReverse x y))
    (ho : Owns db i (.removingReverse x y)) (hdb : db.Mutual)
    (hrow : (db.contacts y x).update i (fun _ => true) (fun _ => none) = some (row, affected)) :
    Paired (db.putContact y x row) i (.committing (.removeContact x y)) := by
  have hxy := h.reverse rfl
  have hcommitted : (db.contacts x y).committed = some () := (h.deletes hxy).1
  have hne : x ≠ y := by
    rintro rfl
    rw [hdb.irrefl] at hcommitted
    cases hcommitted
  have hnot (v : Option Unit) : (db.contacts y x).writer ≠ some (i, v) := by
    intro hw
    cases ho.contact hw
    exact hne rfl
  obtain ⟨-, -, z, -, -, rfl⟩ | ⟨-, -, hnever⟩ := Row.update_eq_some hrow
  · have hkeep : (db.putContact y x ((db.contacts y x).write i none)).contacts x y =
        db.contacts x y := Database.contacts_putContact_of_ne fun h => hne h.1
    refine ⟨fun {a b} hw => ?_, fun {a b} hw => ?_, ?_, ?_, trivial⟩
    · obtain ⟨-, -, hw⟩ | hw := writer_putContact hw
      · cases hw
      · cases ho.contact hw
    · obtain ⟨rfl, rfl, -⟩ | hw := writer_putContact hw
      · rw [Database.contacts_putContact_self, hkeep]
        exact ⟨(hdb.symm _ _).trans hcommitted, .inl hxy⟩
      · cases ho.contact hw
        rw [Database.contacts_putContact_self, hkeep]
        exact ⟨hcommitted, .inl rfl⟩
    · intro id' x' y' inserted hcall
      cases hcall
    · intro x' y' hcall
      cases hcall
  · cases hnever () ((Row.visible_eq_committed hnot).trans ((hdb.symm _ _).trans hcommitted))

/-- An `INSERT` that found both rows. -/
theorem skipped {second : Bool} (h : Paired db i (.inserting id x y))
    (ho : Owns db i (.inserting id x y)) (hdb : db.Mutual)
    (hsome : (db.contacts x y).committed = some ())
    (hrow : (db.contacts x y).insert i () = some (row, first))
    (hrow' : ((db.putContact x y row).contacts y x).insert i () = some (row', second)) :
    Paired ((db.putContact x y row).putContact y x row') i
      (if first || second then .checkingUsers id x y else .resolving .accept id y) := by
  have hne : x ≠ y := h.distinct
  have hnot (a b : υ) (v : Option Unit) : (db.contacts a b).writer ≠ some (i, v) := by
    intro hw
    cases ho.contact hw
  rw [Database.contacts_putContact_of_ne fun h => hne h.1.symm] at hrow'
  obtain ⟨-, ⟨-, hvisible, -⟩ | ⟨rfl, rfl, -⟩⟩ := Row.insert_eq_some hrow
  · rw [Row.visible_eq_committed (hnot x y), hsome] at hvisible
    cases hvisible
  · obtain ⟨-, ⟨-, hvisible, -⟩ | ⟨rfl, rfl, -⟩⟩ := Row.insert_eq_some hrow'
    · rw [Row.visible_eq_committed (hnot y x), hdb.symm, hsome] at hvisible
      cases hvisible
    · apply of_no_writes
      · intro a b v hw
        obtain ⟨-, -, hw⟩ | hw := writer_putContact hw
        · exact hnot _ _ _ hw
        · obtain ⟨-, -, hw⟩ | hw := writer_putContact hw
          · exact hnot _ _ _ hw
          · exact hnot _ _ _ hw
      · intro id' x' y' inserted hcall
        cases hcall
      · intro x' y' hcall
        cases hcall
      · trivial

end Paired

namespace Database.Mutual

omit [DecidableEq υ] in
theorem same (h : db.Mutual) (hsame : SameTables db db') : db'.Mutual where
  symm a b := by rw [hsame.contacts, hsame.contacts, h.symm]
  irrefl a := by rw [hsame.contacts, h.irrefl]
  requests hrequest := h.requests ((hsame.request _).symm.trans hrequest)

theorem deleteUser {caller : υ} (h : db.Mutual) (hdelete : db.deleteUser caller = some db') :
    db'.Mutual where
  symm a b := by
    rw [contacts_deleteUser hdelete, contacts_deleteUser hdelete, h.symm a b]
    simp only [or_comm]
  irrefl a := by rw [contacts_deleteUser hdelete, h.irrefl, ite_self]
  requests hrequest := h.requests (request_deleteUser hdelete hrequest)

omit [DecidableEq υ] in
/-- A transaction that commits has written both rows of a pair, or neither. -/
theorem commit (h : db.Mutual) (ho : Owns db i (.committing operation))
    (hpaired : Paired db i (.committing operation)) : (db.commit i).Mutual where
  symm a b := by
    have hpair {a b : υ} {v : Option Unit} (hw : (db.contacts a b).writer = some (i, v)) :
        (db.contacts b a).writer = some (i, v) := by
      cases v with
      | none =>
        obtain ⟨-, hba | hcall | ⟨_, _, hcall⟩⟩ := hpaired.deletes hw
        · exact hba
        · cases hcall
        · cases hcall
      | some =>
        obtain ⟨-, -, hba | ⟨_, hcall⟩ | ⟨_, _, hcall⟩⟩ := hpaired.inserts hw
        · exact hba
        · cases hcall
        · cases hcall
    obtain ⟨v, hw, hab⟩ | ⟨hnot, hab⟩ := committed_commit_contacts db i a b
    · obtain ⟨v', hw', hba⟩ | ⟨hnot, -⟩ := committed_commit_contacts db i b a
      · rw [hab, hba]
        cases (hpair hw).symm.trans hw'
        rfl
      · exact absurd (hpair hw) (hnot v)
    · obtain ⟨v', hw', -⟩ | ⟨-, hba⟩ := committed_commit_contacts db i b a
      · exact absurd (hpair hw') (hnot v')
      · rw [hab, hba, h.symm]
  irrefl a := by
    obtain ⟨v, hw, hcommit⟩ | ⟨-, hcommit⟩ := committed_commit_contacts db i a a
    · cases v with
      | none => exact hcommit
      | some => exact absurd rfl (hpaired.inserts hw).2.1
    · rw [hcommit, h.irrefl]
  requests {id request'} hrequest' := by
    obtain hsame | ⟨how, caller, request, hrequest, -, hresolved, -⟩ := ho.request_commit id
    · exact h.requests (hsame.symm.trans hrequest')
    · rw [hresolved] at hrequest'
      cases how with
      | accept | cancel => cases hrequest'
      | decline =>
        cases hrequest'
        have hne := h.requests hrequest
        exact hne

end Database.Mutual

structure Balanced (s : System υ) : Prop where
  inv : Inv s
  tables : s.db.Mutual
  paired {t : ℕ} {call : Call υ} : s.calls[t]? = some call → Paired s.db t call

namespace Balanced

/-- A row that is written is absent as long as it is being inserted, and there as long as it is
being deleted. -/
theorem committed (h : Balanced s) {v : Option Unit} (hw : (s.db.contacts a b).writer = some (j, v)) :
    (s.db.contacts a b).committed = some () ↔ v = none := by
  have hp := h.paired (List.getElem?_eq_getElem (h.inv.contactWriter hw))
  cases v with
  | none => exact ⟨fun _ => rfl, fun _ => (hp.deletes hw).1⟩
  | some =>
    rw [(hp.inserts hw).1]
    simp

theorem paired_move (h : Balanced s) (hcall : s.calls[i]? = some call)
    (hmove : Move i s.db call db' call')
    (hguard : ∀ id x y t, call = .inserting id x y → (s.db.contacts y x).writer ≠ some (t, none)) :
    Paired db' i call' := by
  have ho := h.inv.owns hcall
  have hp := h.paired hcall
  have ho' := hmove.owns ho
  cases hmove with
  | ended hends => exact hp.ended ho hends
  | lookedUp hne => exact .outside ho' rfl hne.symm
  | checkedContact => exact .outside ho' rfl hp.distinct
  | checkedIncoming => exact .outside ho' rfl hp.distinct
  | requested => exact .returned ho'
  | loadedAccept hrequest =>
    apply Paired.of_no_writes
    · intro a b v hw
      cases ho.contact hw
    · intro id x y inserted h
      cases h
    · intro x y h
      cases h
    · exact h.tables.requests hrequest
  | loaded =>
    apply Paired.of_no_writes
    · intro a b v hw
      cases ho.contact hw
    · intro id x y inserted h
      cases h
    · intro x y h
      cases h
    · trivial
  | @insertedFirst id x y row first hrow hheld =>
    apply hp.insertedFirst ho hrow
    have hne : x ≠ y := hp.distinct
    rw [Database.contacts_putContact_of_ne fun h => hne h.1.symm] at hheld
    obtain ⟨u, v, hw, -⟩ := Row.held_eq_true hheld
    cases hxy : (s.db.contacts x y).committed with
    | none => rfl
    | some =>
      -- whoever holds the second row is deleting it
      obtain rfl := (h.committed hw).mp ((h.tables.symm y x).trans hxy)
      exact absurd hw (hguard id x y u rfl)
  | insertedSecond hrow => exact hp.insertedSecond ho h.tables hrow
  | @insertedBoth id x y row row' first second hrow hrow' =>
    cases hxy : (s.db.contacts x y).committed with
    | none =>
      apply Paired.insertedSecond
      · exact hp.insertedFirst ho hrow hxy
      · exact ho.insertedFirst hrow
      · exact h.tables.same (.putContact (committed_insert hrow))
      · exact hrow'
    | some => exact hp.skipped ho h.tables hxy hrow hrow'
  | checkedUsers =>
    refine hp.onward ?_ (fun _ _ _ _ => by simp) (fun _ _ => by simp) (fun _ _ => by simp) trivial
    rfl
  | resolved =>
    refine hp.onward ?_ (fun _ _ _ _ => by simp) (fun _ _ => by simp) (fun _ _ => by simp) trivial
    rfl
  | removed _ hvisible => exact hp.removed ho hvisible
  | removedReverse hrow => exact hp.removedReverse ho h.tables hrow
  | deletedUser => exact .returned ho'
  | committed => exact .returned ho'
  | rolledBack => exact .returned ho'

theorem move (h : Balanced s) (hcall : s.calls[i]? = some call) (hmove : Move i s.db call db' call')
    (hguard : ∀ id x y t, call = .inserting id x y → (s.db.contacts y x).writer ≠ some (t, none)) :
    Balanced (s.put i db' call') where
  inv := h.inv.move hcall hmove
  tables := by
    obtain hsame | ⟨caller, target, rfl, -, rfl, -⟩ | ⟨caller, -, hdelete, -⟩ |
      ⟨operation, rfl, rfl, -⟩ := hmove.tables
    · exact h.tables.same hsame
    · refine ⟨h.tables.symm, h.tables.irrefl, fun hrequest => ?_⟩
      obtain hrequest | ⟨-, rfl⟩ := Database.Uncrossed.request_concat hrequest
      · exact h.tables.requests hrequest
      · exact (h.paired hcall).distinct
    · exact h.tables.deleteUser hdelete
    · exact h.tables.commit (h.inv.owns hcall) (h.paired hcall)
  paired ht := by
    obtain ⟨rfl, rfl⟩ | ⟨hne, ht⟩ := getElem?_set_cases ht
    · exact h.paired_move hcall hmove hguard
    · exact (h.paired ht).frame (h.inv.frame hcall hmove) hne

theorem fail (h : Balanced s) (hcall : s.calls[i]? = some call) (hends : call.Ends call') :
    Balanced (s.put i s.db call') where
  inv := h.inv.move hcall (.ended hends)
  tables := h.tables
  paired ht := by
    obtain ⟨rfl, rfl⟩ | ⟨-, ht⟩ := getElem?_set_cases ht
    · exact (h.paired hcall).ended (h.inv.owns hcall) hends
    · exact h.paired ht

theorem enter {a : System.Action υ} (h : Balanced s) (hcall : a.starts = some call) :
    Balanced (s.enter call) where
  inv := h.inv.enter hcall
  tables := h.tables
  paired ht := by
    obtain ⟨rfl, rfl⟩ | ht := getElem?_concat_cases ht
    · apply Paired.of_no_writes
      · intro a b v hw
        exact absurd (h.inv.contactWriter hw) (Nat.lt_irrefl _)
      · rintro id x y inserted rfl
        cases a <;> cases hcall
      · rintro x y rfl
        cases a <;> cases hcall
      · cases a <;> cases hcall <;> trivial
    · exact h.paired ht

theorem signUp (h : Balanced s) (user : UserRow υ) :
    Balanced { s with db := { s.db with users := s.db.users ++ [user] } } where
  inv := h.inv.signUp user
  tables := ⟨h.tables.symm, h.tables.irrefl, h.tables.requests⟩
  paired ht :=
    (h.paired ht).frame (frame_signUp s.db user s.calls.length)
      (Nat.ne_of_lt (lt_length_of_getElem? ht))

end Balanced

/-- The states before any call, with contacts that are mutual. -/
def Befriended (s : System υ) : Prop :=
  ∃ db : Database υ, db.Quiescent ∧ db.Mutual ∧ s = ⟨db, []⟩

/-- As long as no accept inserts its rows while the second of them is being deleted, contacts
stay mutual, whatever else happens. -/
theorem mutual_contacts (lower : Bytes → Bytes) (s : System υ)
    (hs : (System.machine lower Befriended).Reach (fun s a => reverseStays s a = true) s)
    (a b : υ) : s.db.isContact a b = s.db.isContact b a ∧ s.db.isContact a a = false := by
  suffices h : Balanced s by
    unfold Database.isContact
    rw [h.tables.symm a b, h.tables.irrefl]
    exact ⟨rfl, rfl⟩
  apply Machine.Reach.invariant _ _ hs
  · rintro s ⟨db, hquiescent, hmutual, rfl⟩
    exact ⟨.init hquiescent, hmutual, fun h => by cases h⟩
  · intro s a t h hguard ht
    cases System.step_effect ht with
    | signedUp user => exact h.signUp user
    | entered hcall => exact h.enter hcall
    | moved hcall hmove =>
      apply h.move hcall hmove
      rintro id x y t rfl hw
      simp [reverseStays, hcall, hw] at hguard
    | failed hcall hends => exact h.fail hcall hends

theorem befriended_twoUsers : Befriended (⟨twoUsers, []⟩ : System Bool) := by
  refine ⟨twoUsers, ⟨fun _ _ => rfl, fun hrow => ?_, rfl, fun a b hab => by cases hab⟩,
    ⟨fun _ _ => rfl, fun _ => rfl, fun hrequest => ?_⟩, rfl⟩
  · cases hrow
  · cases hrequest

/-- An accepted request, and a removal that has deleted its first row. -/
theorem mutual_contacts_accepted : ∃ s : System Bool,
    s.db.isContact false true = true ∧ (s.db.contacts true false).writer = some (2, none) ∧
    s.db.isContact false true = s.db.isContact true false ∧ s.db.isContact false false = false := by
  obtain ⟨s, hs, hp⟩ := Machine.Reach.of_execIf (M := System.machine (fun e => e) Befriended)
    (G := fun s a => reverseStays s a = true) (p := fun s => s.db.isContact false true &&
      decide ((s.db.contacts true false).writer = some (2, none)))
    [.createContactRequest false ⟨some [2], none⟩, .proceed 0, .proceed 0, .proceed 0, .proceed 0,
      .resolve .accept 0 true, .proceed 1, .proceed 1, .proceed 1, .proceed 1, .proceed 1,
      .removeContact true false, .proceed 2]
    befriended_twoUsers (by decide)
  rw [Bool.and_eq_true, decide_eq_true_eq] at hp
  exact ⟨s, hp.1, hp.2, mutual_contacts (fun e => e) s hs false true⟩

/-- An accept skips the first row of a pair that is being removed, waits for the removal and
inserts the second. -/
theorem one_way : ∃ s : System Bool,
    (System.machine (fun e => e) Befriended).Reach Machine.anyStep s ∧
    s.db.isContact true false = true ∧ s.db.isContact false true = false := by
  obtain ⟨s, hs, hp⟩ := Machine.Reach.of_execIf (M := System.machine (fun e => e) Befriended)
    (G := Machine.anyStep) (p := fun s => s.db.isContact true false &&
      decide (s.db.isContact false true = false))
    [.createContactRequest false ⟨some [2], none⟩, .createContactRequest false ⟨some [2], none⟩,
      .proceed 0, .proceed 0, .proceed 0, .proceed 1, .proceed 1, .proceed 1, .proceed 0,
      .resolve .accept 0 true, .proceed 2, .proceed 2, .proceed 2, .proceed 2, .proceed 2, .proceed 1,
      .removeContact true false, .proceed 3, .resolve .accept 1 true, .proceed 4, .proceed 4,
      .proceed 3, .proceed 3, .proceed 4, .proceed 4, .proceed 4, .proceed 4]
    befriended_twoUsers (by decide)
  rw [Bool.and_eq_true, decide_eq_true_eq] at hp
  exact ⟨s, hs, hp⟩

end Epistl.Contacts
