import Epistl.Contacts.Moves

/-! # What the open transactions have written

A transaction's uncommitted rows are those its stage tells, whatever the other calls do: a
statement of another call leaves the rows that the transaction is writing, and the users of
a request do not change while its id is in a variable.
-/
namespace Epistl.Contacts
variable {υ : Type}

/-- `a` and `b` are `x` and `y`, in one of the two orders. -/
def SamePair (x y a b : υ) : Prop := a = x ∧ b = y ∨ a = y ∧ b = x

namespace Database

/-- The users of a request, as long as it is there. -/
def Parties (db : Database υ) (id : ℕ) (x y : υ) : Prop :=
  id < db.contactRequests.length ∧
    ∀ request, db.request id = some request →
      request.requesterUserId = x ∧ request.recipientUserId = y

def Between (db : Database υ) (id : ℕ) (a b : υ) : Prop :=
  id < db.contactRequests.length ∧
    ∀ request, db.request id = some request →
      SamePair request.requesterUserId request.recipientUserId a b

theorem lt_of_request {db : Database υ} {id : ℕ} {request : ContactRequestRow υ}
    (h : db.request id = some request) : id < db.contactRequests.length := by
  obtain ⟨row, hrow, -⟩ := Option.bind_eq_some_iff.mp h
  exact (List.getElem?_eq_some_iff.mp hrow).1

theorem Parties.between {db : Database υ} {id : ℕ} {x y a b : υ} (h : db.Parties id x y)
    (hab : SamePair x y a b) : db.Between id a b := by
  refine ⟨h.1, fun request hrequest => ?_⟩
  obtain ⟨rfl, rfl⟩ := h.2 request hrequest
  exact hab

end Database

/-- The contact rows that call `t` has written, by what it awaits. -/
inductive Wrote (db : Database υ) (t : ℕ) : Call υ → υ → υ → Option Unit → Prop
  | insertedFirst {requestId : ℕ} {a b : υ} :
      Wrote db t (.insertingSecond requestId a b true) a b (some ())
  | inserted {requestId : ℕ} {x y a b : υ} : SamePair x y a b →
      Wrote db t (.checkingUsers requestId x y) a b (some ())
  | accepting {requestId : ℕ} {caller a b : υ} : db.Between requestId a b →
      (t, a) ∈ db.keyShares → (t, b) ∈ db.keyShares →
      Wrote db t (.resolving .accept requestId caller) a b (some ())
  | accepted {requestId : ℕ} {caller a b : υ} : db.Between requestId a b →
      (t, a) ∈ db.keyShares → (t, b) ∈ db.keyShares →
      Wrote db t (.committing (.resolve .accept requestId caller)) a b (some ())
  | removedFirst {a b : υ} : Wrote db t (.removingReverse a b) a b none
  | removed {x y a b : υ} : SamePair x y a b →
      Wrote db t (.committing (.removeContact x y)) a b none
  | dropped {operation : Operation υ} {response : Response} {a b : υ} {v : Option Unit} :
      Wrote db t (.dropped operation response) a b v

/-- The call has resolved the request and did not commit yet. -/
inductive Call.Resolves (how : Resolution) (requestId : ℕ) (caller : υ) : Call υ → Prop
  | committing : Resolves how requestId caller (.committing (.resolve how requestId caller))
  | dropped (response : Response) :
      Resolves how requestId caller (.dropped (.resolve how requestId caller) response)

/-- What the variables of call `t` are worth. -/
inductive Stands (db : Database υ) (t : ℕ) : Call υ → Prop
  | outside {call : Call υ} : call.autocommits = true → Stands db t call
  | loading {how : Resolution} {requestId : ℕ} {caller : υ} :
      Stands db t (.loading how requestId caller)
  | inserting {requestId : ℕ} {x y : υ} : db.Parties requestId x y →
      Stands db t (.inserting requestId x y)
  | insertingSecond {requestId : ℕ} {x y : υ} {inserted : Bool} : db.Parties requestId x y →
      Stands db t (.insertingSecond requestId x y inserted)
  | checkingUsers {requestId : ℕ} {x y : υ} : db.Parties requestId x y →
      Stands db t (.checkingUsers requestId x y)
  | resolving {how : Resolution} {requestId : ℕ} {caller : υ} :
      Stands db t (.resolving how requestId caller)
  | removing {caller contact : υ} : Stands db t (.removing caller contact)
  | removingReverse {caller contact : υ} : Stands db t (.removingReverse caller contact)
  | resolved {how : Resolution} {requestId : ℕ} {caller : υ} {row : Row ℕ (ContactRequestRow υ)}
      {v : Option (ContactRequestRow υ)} : db.contactRequests[requestId]? = some row →
      row.writer = some (t, v) → Stands db t (.committing (.resolve how requestId caller))
  | removed {caller contact : υ} : Stands db t (.committing (.removeContact caller contact))
  | dropped {operation : Operation υ} {response : Response} : response ≠ .noContent →
      Stands db t (.dropped operation response)
  | returned {operation : Operation υ} {response : Response} :
      Stands db t (.returned operation response)

structure Owns (db : Database υ) (t : ℕ) (call : Call υ) : Prop where
  contact {a b : υ} {v : Option Unit} : (db.contacts a b).writer = some (t, v) →
    Wrote db t call a b v
  request {id : ℕ} {row : Row ℕ (ContactRequestRow υ)} {v : Option (ContactRequestRow υ)} :
    db.contactRequests[id]? = some row → row.writer = some (t, v) →
    ∃ how caller request, row.committed = some request ∧ request.status = .pending ∧
      v = how.resolved request ∧ call.Resolves how id caller
  stage : Stands db t call

/-- What the statements of other calls than `i` can rely on. -/
structure Frame (i : ℕ) (db db' : Database υ) : Prop where
  contact (a b : υ) : Row.Frame i (db.contacts a b) (db'.contacts a b)
  request {id t : ℕ} {row : Row ℕ (ContactRequestRow υ)} {v : Option (ContactRequestRow υ)} :
    t ≠ i → row.writer = some (t, v) →
    (db'.contactRequests[id]? = some row ↔ db.contactRequests[id]? = some row)
  length : db.contactRequests.length ≤ db'.contactRequests.length
  parties {id : ℕ} {request' : ContactRequestRow υ} : id < db.contactRequests.length →
    db'.request id = some request' → ∃ request, db.request id = some request ∧
      request.requesterUserId = request'.requesterUserId ∧
      request.recipientUserId = request'.recipientUserId
  keyShares {t : ℕ} {u : υ} : t ≠ i → ((t, u) ∈ db'.keyShares ↔ (t, u) ∈ db.keyShares)

variable {db db' db'' : Database υ} {i t id : ℕ} {a b x y : υ} {call call' : Call υ}
  {v : Option Unit}

namespace Frame

theorem refl (i : ℕ) (db : Database υ) : Frame i db db where
  contact _ _ := .refl i _
  request _ _ := Iff.rfl
  length := Nat.le_refl _
  parties _ h := ⟨_, h, rfl, rfl⟩
  keyShares _ := Iff.rfl

theorem between (h : Frame i db db') (hab : db.Between id a b) : db'.Between id a b := by
  refine ⟨Nat.lt_of_lt_of_le hab.1 h.length, fun request' hrequest' => ?_⟩
  obtain ⟨request, hrequest, hx, hy⟩ := h.parties hab.1 hrequest'
  rw [← hx, ← hy]
  exact hab.2 request hrequest

theorem keeps_parties (h : Frame i db db') (hxy : db.Parties id x y) : db'.Parties id x y := by
  refine ⟨Nat.lt_of_lt_of_le hxy.1 h.length, fun request' hrequest' => ?_⟩
  obtain ⟨request, hrequest, hx, hy⟩ := h.parties hxy.1 hrequest'
  rw [← hx, ← hy]
  exact hxy.2 request hrequest

theorem wrote (h : Frame i db db') (ht : t ≠ i) (hw : Wrote db t call a b v) :
    Wrote db' t call a b v := by
  cases hw with
  | insertedFirst => exact .insertedFirst
  | inserted hab => exact .inserted hab
  | accepting hab ha hb =>
    exact .accepting (h.between hab) ((h.keyShares ht).mpr ha) ((h.keyShares ht).mpr hb)
  | accepted hab ha hb =>
    exact .accepted (h.between hab) ((h.keyShares ht).mpr ha) ((h.keyShares ht).mpr hb)
  | removedFirst => exact .removedFirst
  | removed hab => exact .removed hab
  | dropped => exact .dropped

theorem stands (h : Frame i db db') (ht : t ≠ i) (hs : Stands db t call) : Stands db' t call := by
  cases hs with
  | outside hcall => exact .outside hcall
  | inserting hp => exact .inserting (h.keeps_parties hp)
  | insertingSecond hp => exact .insertingSecond (h.keeps_parties hp)
  | checkingUsers hp => exact .checkingUsers (h.keeps_parties hp)
  | resolved hrow hw => exact .resolved ((h.request ht hw).mpr hrow) hw
  | dropped hresponse => exact .dropped hresponse
  | loading => exact .loading
  | resolving => exact .resolving
  | removing => exact .removing
  | removingReverse => exact .removingReverse
  | removed => exact .removed
  | returned => exact .returned

/-- A statement of another call leaves what is said of call `t`. -/
theorem owns (h : Frame i db db') (ht : t ≠ i) (ho : Owns db t call) : Owns db' t call where
  contact hw := by
    have hsame := h.contact _ _ _ _ ht (.inr hw)
    rw [hsame] at hw
    exact h.wrote ht (ho.contact hw)
  request hrow hw := ho.request ((h.request ht hw).mp hrow) hw
  stage := h.stands ht ho.stage

theorem map_request {f : Row ℕ (ContactRequestRow υ) → Row ℕ (ContactRequestRow υ)}
    (hf : ∀ row ∈ db.contactRequests, Row.Frame i row (f row))
    {row : Row ℕ (ContactRequestRow υ)} {v : Option (ContactRequestRow υ)} (ht : t ≠ i)
    (hw : row.writer = some (t, v)) :
    (db.contactRequests.map f)[id]? = some row ↔ db.contactRequests[id]? = some row := by
  rw [List.getElem?_map, Option.map_eq_some_iff]
  constructor
  · rintro ⟨old, hold, rfl⟩
    rw [hf old (List.mem_of_getElem? hold) t v ht (.inr hw)]
    exact hold
  · intro hrow
    exact ⟨row, hrow, hf row (List.mem_of_getElem? hrow) t v ht (.inl hw)⟩

theorem putContact [DecidableEq υ] {row : Row ℕ Unit} (h : Row.Frame i (db.contacts a b) row) :
    Frame i db (db.putContact a b row) where
  contact c d := by
    rw [Database.contacts_putContact]
    split
    · rename_i hcd
      obtain ⟨rfl, rfl⟩ := hcd
      exact h
    · exact .refl i _
  request _ _ := Iff.rfl
  length := Nat.le_refl _
  parties _ h := ⟨_, h, rfl, rfl⟩
  keyShares _ := Iff.rfl

theorem trans (h : Frame i db db') (h' : Frame i db' db'') : Frame i db db'' where
  contact a b u v hu hw := by
    obtain hw | hw := hw
    · have hsame := h.contact a b u v hu (.inl hw)
      rw [← hsame] at hw ⊢
      exact h'.contact a b u v hu (.inl hw)
    · have hsame := h'.contact a b u v hu (.inr hw)
      rw [hsame] at hw ⊢
      exact h.contact a b u v hu (.inr hw)
  request ht hw := (h'.request ht hw).trans (h.request ht hw)
  length := Nat.le_trans h.length h'.length
  parties hid hrequest'' := by
    obtain ⟨request', hrequest', hx', hy'⟩ :=
      h'.parties (Nat.lt_of_lt_of_le hid h.length) hrequest''
    obtain ⟨request, hrequest, hx, hy⟩ := h.parties hid hrequest'
    exact ⟨request, hrequest, hx.trans hx', hy.trans hy'⟩
  keyShares ht := (h'.keyShares ht).trans (h.keyShares ht)

theorem addRequest (caller target : υ) (i : ℕ) : Frame i db { db with
    contactRequests := db.contactRequests ++ [⟨some ⟨caller, target, .pending⟩, none⟩] } where
  contact _ _ := .refl i _
  request {id t row v} _ hw := by
    rw [List.getElem?_append]
    split
    · exact Iff.rfl
    · rename_i hid
      constructor
      · intro hrow
        rw [List.mem_singleton.mp (List.mem_of_getElem? hrow)] at hw
        cases hw
      · intro hrow
        exact absurd (List.getElem?_eq_some_iff.mp hrow).1 hid
  length := by simp
  parties {id request'} hid hrequest' := by
    simp only [Database.request, List.getElem?_append_left hid] at hrequest'
    exact ⟨request', hrequest', rfl, rfl⟩
  keyShares _ := Iff.rfl

theorem shareUsers (x y : υ) (i : ℕ) :
    Frame i db { db with keyShares := (i, x) :: (i, y) :: db.keyShares } where
  contact _ _ := .refl i _
  request _ _ := Iff.rfl
  length := Nat.le_refl _
  parties _ h := ⟨_, h, rfl, rfl⟩
  keyShares ht := by simp [ht]

theorem putRequest {row row' : Row ℕ (ContactRequestRow υ)}
    (hrow : db.contactRequests[id]? = some row) (h : Row.Frame i row row')
    (hcommitted : row'.committed = row.committed) : Frame i db (db.putRequest id row') where
  contact _ _ := .refl i _
  request {j t r v} ht hw := by
    rw [Database.putRequest, List.getElem?_set]
    split
    · rename_i hid
      obtain ⟨hlt, hget⟩ := List.getElem?_eq_some_iff.mp hrow
      rw [if_pos hlt, ← hid, hrow]
      constructor
      · intro hr
        cases hr
        rw [h t v ht (.inr hw)]
      · intro hr
        cases hr
        rw [h t v ht (.inl hw)]
    · exact Iff.rfl
  length := by simp [Database.putRequest]
  parties _ hrequest' := by
    rw [Database.request_putRequest hrow hcommitted] at hrequest'
    exact ⟨_, hrequest', rfl, rfl⟩
  keyShares _ := Iff.rfl

theorem rollback (i : ℕ) (db : Database υ) : Frame i db (db.rollback i) where
  contact _ _ := Row.frame_rollback i _
  request ht hw := map_request (fun row _ => Row.frame_rollback i row) ht hw
  length := by simp [Database.rollback]
  parties _ hrequest' := by
    rw [Database.request_rollback] at hrequest'
    exact ⟨_, hrequest', rfl, rfl⟩
  keyShares ht := by simp [Database.rollback, ht]

end Frame

/-- What a commit makes of a request that its transaction has resolved. -/
theorem Owns.request_commit (ho : Owns db i call) (id : ℕ) :
    (db.commit i).request id = db.request id ∨
      ∃ how caller request, db.request id = some request ∧ request.status = .pending ∧
        (db.commit i).request id = how.resolved request ∧ call.Resolves how id caller := by
  cases hrow : db.contactRequests[id]? with
  | none =>
    left
    simp [Database.request, Database.commit, hrow]
  | some row =>
    obtain ⟨v, hw, hcommitted, -⟩ | ⟨-, hsame⟩ := Row.committed_commit i row
    · obtain ⟨how, caller, request, hrequest, hstatus, rfl, hcall⟩ := ho.request hrow hw
      right
      refine ⟨how, caller, request, ?_, hstatus, ?_, hcall⟩
      · simpa [Database.request, hrow] using hrequest
      · simpa [Database.request, Database.commit, hrow] using hcommitted
    · left
      simp [Database.request, Database.commit, hrow, hsame]

theorem Frame.commit (ho : Owns db i call) : Frame i db (db.commit i) where
  contact _ _ := Row.frame_commit i _
  request ht hw := map_request (fun row _ => Row.frame_commit i row) ht hw
  length := by simp [Database.commit]
  parties {id request'} _ hrequest' := by
    obtain hsame | ⟨how, caller, request, hrequest, -, hresolved, -⟩ := ho.request_commit id
    · rw [hsame] at hrequest'
      exact ⟨_, hrequest', rfl, rfl⟩
    · rw [hresolved] at hrequest'
      refine ⟨request, hrequest, ?_⟩
      cases how with
      | accept | cancel => cases hrequest'
      | decline =>
        cases hrequest'
        exact ⟨rfl, rfl⟩
  keyShares ht := by simp [Database.commit, ht]

/-- The foreign keys of `contacts`. -/
def Database.Referenced [DecidableEq υ] (db : Database υ) : Prop :=
  ∀ a b, (db.contacts a b).committed = some () → db.hasUser a = true ∧ db.hasUser b = true

namespace Database
variable [DecidableEq υ] {id : υ}

theorem locksContact_of_writer (hdb : db.Referenced) (hcommitted : (db.contacts a b).committed = some ())
    (hw : (db.contacts a b).writer = some (t, v)) (hid : a = id ∨ b = id) :
    db.locksContact id = true := by
  obtain ⟨ha, hb⟩ := hdb a b hcommitted
  simp only [hasUser, List.any_eq_true, decide_eq_true_eq] at ha hb
  simp only [locksContact, List.any_eq_true, Bool.or_eq_true, Bool.and_eq_true]
  obtain rfl | rfl := hid
  · obtain ⟨user, huser, rfl⟩ := hb
    exact ⟨user, huser, .inl (by simp [isContact, hcommitted, hw])⟩
  · obtain ⟨user, huser, rfl⟩ := ha
    exact ⟨user, huser, .inr (by simp [isContact, hcommitted, hw])⟩

/-- A user is deleted while no transaction has a lock in the way. -/
theorem deleteUser_eq_some (h : db.deleteUser id = some db') :
    (∀ t, (t, id) ∉ db.keyShares) ∧ db.locksContact id = false ∧ db.locksRequest id = false ∧
      db' = { db with
        users := db.users.filter fun user => user.id ≠ id
        contacts := fun owner contact => cascadeContact id owner contact (db.contacts owner contact)
        contactRequests := db.contactRequests.map (cascadeRequest id) } := by
  unfold deleteUser at h
  split at h
  · cases h
  · rename_i hfree
    cases h
    simp only [Bool.or_eq_true, not_or, Bool.not_eq_true] at hfree
    refine ⟨fun t ht => ?_, hfree.1.2, hfree.2, rfl⟩
    have hshare := List.any_eq_false.mp hfree.1.1 _ ht
    simp at hshare

theorem frame_cascadeContact (hdb : db.Referenced) (hlocks : db.locksContact id = false) (a b : υ) :
    Row.Frame i (db.contacts a b) (cascadeContact id a b (db.contacts a b)) := by
  intro u v hu hw
  unfold cascadeContact at hw ⊢
  split
  · rename_i hgone
    rw [if_pos hgone] at hw
    obtain hw | hw := hw
    · obtain ⟨⟨⟩, hcommitted⟩ := Option.isSome_iff_exists.mp hgone.2
      rw [locksContact_of_writer hdb hcommitted hw hgone.1] at hlocks
      cases hlocks
    · cases hw
  · rfl

theorem frame_cascadeRequest (hlocks : db.locksRequest id = false)
    {row : Row ℕ (ContactRequestRow υ)} (hrow : row ∈ db.contactRequests) :
    Row.Frame i row (cascadeRequest id row) := by
  intro u v hu hw
  have hfree := List.any_eq_false.mp hlocks row hrow
  unfold cascadeRequest at hw ⊢
  split at hw
  · rfl
  · rename_i request hrequest
    split at hw
    · rename_i hgone
      obtain hw | hw := hw
      · simp [hw, hrequest, hgone] at hfree
      · cases hw
    · rename_i hstays
      simp [hstays]

theorem request_deleteUser (h : db.deleteUser id = some db') {j : ℕ} {request : ContactRequestRow υ}
    (hrequest : db'.request j = some request) : db.request j = some request := by
  obtain ⟨-, -, -, rfl⟩ := deleteUser_eq_some h
  cases hrow : db.contactRequests[j]? with
  | none => simp [Database.request, hrow] at hrequest
  | some row =>
    simp only [Database.request, List.getElem?_map, hrow, Option.map_some, Option.bind_some]
      at hrequest ⊢
    unfold cascadeRequest at hrequest
    split at hrequest
    · exact hrequest
    · split at hrequest
      · cases hrequest
      · exact hrequest

end Database

theorem Frame.deleteUser [DecidableEq υ] {id : υ} (hdb : db.Referenced)
    (h : db.deleteUser id = some db') : Frame i db db' where
  contact a b := by
    obtain ⟨-, hlocks, -, rfl⟩ := Database.deleteUser_eq_some h
    exact Database.frame_cascadeContact hdb hlocks a b
  request ht hw := by
    obtain ⟨-, -, hlocks, rfl⟩ := Database.deleteUser_eq_some h
    exact map_request (fun row hrow => Database.frame_cascadeRequest hlocks hrow) ht hw
  length := by
    obtain ⟨-, -, -, rfl⟩ := Database.deleteUser_eq_some h
    simp
  parties _ hrequest' := ⟨_, Database.request_deleteUser h hrequest', rfl, rfl⟩
  keyShares _ := by
    obtain ⟨-, -, -, rfl⟩ := Database.deleteUser_eq_some h
    exact Iff.rfl

variable [DecidableEq υ]

namespace Move

theorem frame (hdb : db.Referenced) (ho : Owns db i call) (h : Move i db call db' call') :
    Frame i db db' := by
  cases h with
  | ended | lookedUp | checkedContact | checkedIncoming | loadedAccept | loaded => exact .refl i db
  | requested => exact .addRequest _ _ i
  | insertedFirst hrow => exact .putContact (Row.frame_insert hrow)
  | insertedSecond hrow => exact .putContact (Row.frame_insert hrow)
  | insertedBoth hrow hrow' =>
    apply Frame.trans
    · exact .putContact (Row.frame_insert hrow)
    · exact .putContact (Row.frame_insert hrow')
  | checkedUsers => exact .shareUsers _ _ i
  | resolved hrow hheld => exact .putRequest hrow (Row.frame_write hheld _) rfl
  | removed hheld => exact .putContact (Row.frame_write hheld none)
  | removedReverse hrow => exact .putContact (Row.frame_update hrow)
  | deletedUser hdelete => exact .deleteUser hdb hdelete
  | committed => exact .commit ho
  | rolledBack => exact .rollback i db

end Move

omit [DecidableEq υ] in
theorem not_wrote_of_autocommits (hcall : call.autocommits = true) : ¬Wrote db i call a b v := by
  intro hw
  cases hw <;> cases hcall

omit [DecidableEq υ] in
theorem not_resolves_of_autocommits {how : Resolution} {caller : υ}
    (hcall : call.autocommits = true) : ¬call.Resolves how id caller := by
  intro hr
  cases hr <;> cases hcall

/-- The rows that call `i` has written in a table of contacts are its own pair, and nothing
else was written by it. -/
theorem writer_putContact {row : Row ℕ Unit} {c d : υ}
    (hw : ((db.putContact a b row).contacts c d).writer = some (i, v)) :
    c = a ∧ d = b ∧ row.writer = some (i, v) ∨ (db.contacts c d).writer = some (i, v) := by
  rw [Database.contacts_putContact] at hw
  split at hw
  · rename_i hcd
    exact .inl ⟨hcd.1, hcd.2, hw⟩
  · exact .inr hw

/-- A row that an insertion went over is written by it, or as before. -/
theorem writer_insert {row row' : Row ℕ Unit} {inserted : Bool}
    (h : row.insert i () = some (row', inserted)) (hw : row'.writer = some (i, v)) :
    inserted = true ∧ v = some () ∨ row.writer = some (i, v) := by
  obtain ⟨-, ⟨rfl, -, rfl⟩ | ⟨rfl, rfl, -⟩⟩ := Row.insert_eq_some h
  · cases hw
    exact .inl ⟨rfl, rfl⟩
  · exact .inr hw

namespace Owns

omit [DecidableEq υ] in
/-- A call that has written nothing, at a stage that writes nothing. -/
theorem of_no_writes (hcontact : ∀ a b v, (db.contacts a b).writer ≠ some (i, v))
    (hrequest : ∀ (id : ℕ) row v, db.contactRequests[id]? = some row → row.writer ≠ some (i, v))
    (hstage : Stands db i call) : Owns db i call where
  contact hw := absurd hw (hcontact _ _ _)
  request hrow hw := absurd hw (hrequest _ _ _ hrow)
  stage := hstage

omit [DecidableEq υ] in
theorem ended (ho : Owns db i call) (h : call.Ends call') : Owns db i call' := by
  cases h with
  | answered response hcall =>
    apply of_no_writes
    · intro a b v hw
      exact not_wrote_of_autocommits hcall (ho.contact hw)
    · intro id row v hrow hw
      obtain ⟨how, caller, request, -, -, -, hr⟩ := ho.request hrow hw
      exact not_resolves_of_autocommits hcall hr
    · exact .returned
  | dropped response hcall hresponse =>
    refine ⟨fun _ => .dropped, fun hrow hw => ?_, .dropped hresponse⟩
    obtain ⟨how, caller, request, hrequest, hstatus, hv, hr⟩ := ho.request hrow hw
    cases hr with
    | committing => exact ⟨how, caller, request, hrequest, hstatus, hv, .dropped response⟩
    | dropped => cases hcall

omit [DecidableEq υ] in
theorem no_contact (ho : Owns db i call) (h : ∀ a b v, ¬Wrote db i call a b v) (a b : υ)
    (v : Option Unit) : (db.contacts a b).writer ≠ some (i, v) :=
  fun hw => h a b v (ho.contact hw)

omit [DecidableEq υ] in
theorem no_request (ho : Owns db i call) (h : ∀ how id caller, ¬call.Resolves how id caller) (id : ℕ)
    (row : Row ℕ (ContactRequestRow υ)) (v : Option (ContactRequestRow υ))
    (hrow : db.contactRequests[id]? = some row) : row.writer ≠ some (i, v) := by
  intro hw
  obtain ⟨how, caller, request, -, -, -, hr⟩ := ho.request hrow hw
  exact h how id caller hr

omit [DecidableEq υ] in
/-- A statement that writes nothing, of a call that has written nothing. -/
theorem idle (ho : Owns db i call) (hcontact : ∀ a b v, ¬Wrote db i call a b v)
    (hrequest : ∀ how id caller, ¬call.Resolves how id caller) (hstage : Stands db i call') :
    Owns db i call' :=
  of_no_writes (ho.no_contact hcontact) (ho.no_request hrequest) hstage

/-- The stage after the `INSERT` of an accept. -/
theorem inserted {row : Row ℕ Unit} {inserted : Bool} (hparties : db.Parties id x y)
    (hcontact : ∀ a b v, ((db.putContact y x row).contacts a b).writer = some (i, v) →
      inserted = true ∧ SamePair x y a b ∧ v = some ())
    (hrequest : ∀ (id : ℕ) row v, db.contactRequests[id]? = some row → row.writer ≠ some (i, v)) :
    Owns (db.putContact y x row) i
      (if inserted then .checkingUsers id x y else .resolving .accept id y) := by
  cases inserted with
  | true =>
    refine ⟨fun hw => ?_, fun hrow hw => absurd hw (hrequest _ _ _ hrow), .checkingUsers hparties⟩
    obtain ⟨-, hab, rfl⟩ := hcontact _ _ _ hw
    exact .inserted hab
  | false =>
    apply of_no_writes
    · intro a b v hw
      cases (hcontact a b v hw).1
    · exact hrequest
    · exact .resolving

theorem insertedSecond {first second : Bool} {row : Row ℕ Unit}
    (ho : Owns db i (.insertingSecond id x y first))
    (hrow : (db.contacts y x).insert i () = some (row, second)) :
    Owns (db.putContact y x row) i
      (if first || second then .checkingUsers id x y else .resolving .accept id y) := by
  have hparties : db.Parties id x y := by
    cases ho.stage with
    | outside hcall => cases hcall
    | insertingSecond hparties => exact hparties
  apply Owns.inserted hparties
  · intro a b v hw
    have hold {a b v} (hw : (db.contacts a b).writer = some (i, v)) :
        (first || second) = true ∧ SamePair x y a b ∧ v = some () := by
      cases ho.contact hw
      exact ⟨rfl, .inl ⟨rfl, rfl⟩, rfl⟩
    obtain ⟨rfl, rfl, hwritten⟩ | hbefore := writer_putContact hw
    · obtain ⟨rfl, rfl⟩ | hbefore := writer_insert hrow hwritten
      · exact ⟨Bool.or_true _, .inr ⟨rfl, rfl⟩, rfl⟩
      · exact hold hbefore
    · exact hold hbefore
  · apply ho.no_request
    intro how id caller hr
    cases hr

theorem insertedFirst (ho : Owns db i (.inserting id x y)) {row : Row ℕ Unit} {inserted : Bool}
    (hrow : (db.contacts x y).insert i () = some (row, inserted)) :
    Owns (db.putContact x y row) i (.insertingSecond id x y inserted) := by
  have hparties : db.Parties id x y := by
    cases ho.stage with
    | outside hcall => cases hcall
    | inserting hparties => exact hparties
  have hnone (a b : υ) (v : Option Unit) : (db.contacts a b).writer ≠ some (i, v) := by
    apply ho.no_contact
    intro a b v hw
    cases hw
  refine ⟨fun hw => ?_, fun hrow hw => ?_, .insertingSecond hparties⟩
  · obtain ⟨rfl, rfl, hwritten⟩ | hbefore := writer_putContact hw
    · obtain ⟨rfl, rfl⟩ | hbefore := writer_insert hrow hwritten
      · exact .insertedFirst
      · exact absurd hbefore (hnone _ _ _)
    · exact absurd hbefore (hnone _ _ _)
  · obtain ⟨how, caller, request, -, -, -, hr⟩ := ho.request hrow hw
    cases hr

omit [DecidableEq υ] in
theorem checkedUsers (ho : Owns db i (.checkingUsers id x y)) :
    Owns { db with keyShares := (i, x) :: (i, y) :: db.keyShares } i (.resolving .accept id y) := by
  have hparties : db.Parties id x y := by
    cases ho.stage with
    | outside hcall => cases hcall
    | checkingUsers hparties => exact hparties
  refine ⟨fun hw => ?_, fun hrow hw => ?_, .resolving⟩
  · cases ho.contact hw with
    | inserted hab =>
      apply Wrote.accepting
      · exact hparties.between hab
      · obtain ⟨rfl, -⟩ | ⟨rfl, -⟩ := hab
        · exact List.mem_cons_self
        · exact List.mem_cons_of_mem _ List.mem_cons_self
      · obtain ⟨-, rfl⟩ | ⟨-, rfl⟩ := hab
        · exact List.mem_cons_of_mem _ List.mem_cons_self
        · exact List.mem_cons_self
  · obtain ⟨how, caller, request, -, -, -, hr⟩ := ho.request hrow hw
    cases hr

omit [DecidableEq υ] in
theorem resolved {how : Resolution} {caller : υ} (ho : Owns db i (.resolving how id caller))
    {row : Row ℕ (ContactRequestRow υ)} {request : ContactRequestRow υ}
    (hrow : db.contactRequests[id]? = some row) (hheld : row.held i = false)
    (hvisible : row.visible i = some request) (hstatus : request.status = .pending) :
    Owns (db.putRequest id (row.write i (how.resolved request))) i
      (.committing (.resolve how id caller)) := by
  have hnone (id : ℕ) (row : Row ℕ (ContactRequestRow υ)) (v : Option (ContactRequestRow υ))
      (hrow : db.contactRequests[id]? = some row) : row.writer ≠ some (i, v) := by
    apply ho.no_request _ _ _ _ hrow
    intro how id caller hr
    cases hr
  rw [Row.visible_eq_committed fun v => hnone id row v hrow] at hvisible
  have hframe := Frame.putRequest hrow (Row.frame_write hheld (how.resolved request)) rfl
  have hlt := (List.getElem?_eq_some_iff.mp hrow).1
  refine ⟨fun hw => ?_, fun {j r v} hr hw => ?_, ?_⟩
  · cases ho.contact hw with
    | accepting hab ha hb => exact .accepted (hframe.between hab) ha hb
  · rw [Database.putRequest, List.getElem?_set] at hr
    split at hr
    · rename_i hj
      subst hj
      cases hr
      cases hw
      exact ⟨how, caller, request, hvisible, hstatus, rfl, .committing⟩
    · exact absurd hw (hnone j r v hr)
  · apply Stands.resolved
    · rw [Database.putRequest, List.getElem?_set_self hlt]
    · rfl

theorem removed (ho : Owns db i (.removing a b)) :
    Owns (db.putContact a b ((db.contacts a b).write i none)) i (.removingReverse a b) := by
  refine ⟨fun hw => ?_, fun hrow hw => ?_, .removingReverse⟩
  · obtain ⟨rfl, rfl, hwritten⟩ | hbefore := writer_putContact hw
    · cases hwritten
      exact .removedFirst
    · cases ho.contact hbefore
  · obtain ⟨how, caller, request, -, -, -, hr⟩ := ho.request hrow hw
    cases hr

theorem removedReverse (ho : Owns db i (.removingReverse a b)) {row : Row ℕ Unit} {affected : Bool}
    (hrow : (db.contacts b a).update i (fun _ => true) (fun _ => none) = some (row, affected)) :
    Owns (db.putContact b a row) i (.committing (.removeContact a b)) := by
  have hold {c d v} (hw : (db.contacts c d).writer = some (i, v)) :
      Wrote (db.putContact b a row) i (.committing (.removeContact a b)) c d v := by
    cases ho.contact hw
    exact .removed (.inl ⟨rfl, rfl⟩)
  refine ⟨fun hw => ?_, fun hrow hw => ?_, .removed⟩
  · obtain ⟨rfl, rfl, hwritten⟩ | hbefore := writer_putContact hw
    · obtain ⟨-, -, x, -, -, rfl⟩ | ⟨-, rfl, -⟩ := Row.update_eq_some hrow
      · cases hwritten
        exact .removed (.inr ⟨rfl, rfl⟩)
      · exact hold hwritten
    · exact hold hbefore
  · obtain ⟨how, caller, request, -, -, -, hr⟩ := ho.request hrow hw
    cases hr

omit [DecidableEq υ] in
theorem outside (ho : Owns db i call) (hcall : call.autocommits = true)
    (hstage : Stands db i call') : Owns db i call' :=
  ho.idle (fun _ _ _ => not_wrote_of_autocommits hcall)
    (fun _ _ _ => not_resolves_of_autocommits hcall) hstage

omit [DecidableEq υ] in
theorem committed (db : Database υ) (i : ℕ) (operation : Operation υ) (response : Response) :
    Owns (db.commit i) i (.returned operation response) := by
  apply of_no_writes
  · intro a b v hw
    exact Row.writer_commit hw
  · intro id row v hrow hw
    obtain ⟨old, -, rfl⟩ := List.mem_map.mp (List.mem_of_getElem? hrow)
    exact Row.writer_commit hw
  · exact .returned

omit [DecidableEq υ] in
theorem rolledBack (db : Database υ) (i : ℕ) (operation : Operation υ) (response : Response) :
    Owns (db.rollback i) i (.returned operation response) := by
  apply of_no_writes
  · intro a b v
    exact (Row.writer_rollback i _).1 v
  · intro id row v hrow
    obtain ⟨old, -, rfl⟩ := List.mem_map.mp (List.mem_of_getElem? hrow)
    exact (Row.writer_rollback i old).1 v
  · exact .returned

theorem deletedUser {caller : υ} (ho : Owns db i (.deletingAccount caller))
    (h : db.deleteUser caller = some db') (response : Response) :
    Owns db' i (.returned (.deleteAccount caller) response) := by
  obtain ⟨-, -, -, rfl⟩ := Database.deleteUser_eq_some h
  apply of_no_writes
  · intro a b v hw
    simp only [Database.cascadeContact] at hw
    split at hw
    · cases hw
    · cases ho.contact hw
  · intro id row v hrow hw
    obtain ⟨old, hold, rfl⟩ := List.mem_map.mp (List.mem_of_getElem? hrow)
    have hsame : Database.cascadeRequest caller old = old := by
      unfold Database.cascadeRequest at hw ⊢
      split at hw
      · rfl
      · split at hw
        · cases hw
        · rename_i hstays
          simp [hstays]
    rw [hsame] at hw
    obtain ⟨id, hid⟩ := List.getElem?_of_mem hold
    obtain ⟨how, caller, request, -, -, -, hr⟩ := ho.request hid hw
    cases hr
  · exact .returned

end Owns

/-- A statement of call `i` keeps what is said of call `i`. -/
theorem Move.owns (ho : Owns db i call) (h : Move i db call db' call') : Owns db' i call' := by
  cases h with
  | ended hends => exact ho.ended hends
  | lookedUp => exact ho.outside rfl (.outside rfl)
  | checkedContact => exact ho.outside rfl (.outside rfl)
  | checkedIncoming => exact ho.outside rfl (.outside rfl)
  | requested =>
    apply Owns.of_no_writes
    · exact ho.no_contact fun _ _ _ => not_wrote_of_autocommits rfl
    · intro id row v hrow
      rw [List.getElem?_append] at hrow
      split at hrow
      · exact ho.no_request (fun _ _ _ => not_resolves_of_autocommits rfl) id row v hrow
      · rw [List.mem_singleton.mp (List.mem_of_getElem? hrow)]
        simp
    · exact .returned
  | loadedAccept hrequest =>
    apply ho.idle
    · intro a b v hw
      cases hw
    · intro how id caller hr
      cases hr
    · apply Stands.inserting
      refine ⟨Database.lt_of_request hrequest, fun request h => ?_⟩
      cases hrequest.symm.trans h
      exact ⟨rfl, rfl⟩
  | loaded =>
    apply ho.idle
    · intro a b v hw
      cases hw
    · intro how id caller hr
      cases hr
    · exact .resolving
  | insertedFirst hrow => exact ho.insertedFirst hrow
  | insertedSecond hrow => exact ho.insertedSecond hrow
  | insertedBoth hrow hrow' => exact (ho.insertedFirst hrow).insertedSecond hrow'
  | checkedUsers => exact ho.checkedUsers
  | resolved hrow hheld hvisible hstatus => exact ho.resolved hrow hheld hvisible hstatus
  | removed => exact ho.removed
  | removedReverse hrow => exact ho.removedReverse hrow
  | deletedUser hdelete => exact ho.deletedUser hdelete _
  | committed => exact .committed db i _ _
  | rolledBack => exact .rolledBack db i _ _

end Epistl.Contacts
