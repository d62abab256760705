import Epistl.Runs.Machine
import Epistl.Sql.Row
import Epistl.Text.JsString
import Mathlib.Data.List.Basic
import Mathlib.Logic.Function.Basic

/-! # The tables behind `apps/api/src/contacts.rs`

`users`, `contacts` and `contact_requests` with their unique indexes and foreign keys.
The handlers run their statements on them, as transactions that are numbered.
-/
namespace Epistl.Contacts

structure UserRow (υ : Type) where
  id : υ
  email : Bytes
  username : Bytes
  deriving Repr, DecidableEq

inductive RequestStatus where
  | pending
  | declined
  deriving Repr, DecidableEq

structure ContactRequestRow (υ : Type) where
  requesterUserId : υ
  recipientUserId : υ
  status : RequestStatus
  deriving Repr, DecidableEq

/-- A contact row is found by its owner and its contact, a request by its id. `keyShares`
are the row locks on users that the foreign keys take. -/
structure Database (υ : Type) where
  users : List (UserRow υ)
  contacts : υ → υ → Row ℕ Unit
  contactRequests : List (Row ℕ (ContactRequestRow υ))
  keyShares : List (ℕ × υ)

namespace Database
variable {υ : Type} [DecidableEq υ] (db : Database υ)

def hasUser (id : υ) : Bool := db.users.any fun user => user.id = id

/-- The row is committed. -/
def isContact (owner contact : υ) : Bool := (db.contacts owner contact).committed.isSome

/-- `SELECT ... FROM contact_requests WHERE id = $1`. -/
def request (id : ℕ) : Option (ContactRequestRow υ) := db.contactRequests[id]?.bind Row.committed

/-- `SELECT id ... WHERE requester_user_id = $1 AND recipient_user_id = $2 AND status =
'pending'`. -/
def pendingRequest (requester recipient : υ) : Option ℕ :=
  db.contactRequests.findIdx? fun row => row.committed = some ⟨requester, recipient, .pending⟩

def putContact (owner contact : υ) (row : Row ℕ Unit) : Database υ :=
  { db with
    contacts := Function.update db.contacts owner (Function.update (db.contacts owner) contact row) }

def putRequest (id : ℕ) (row : Row ℕ (ContactRequestRow υ)) : Database υ :=
  { db with contactRequests := db.contactRequests.set id row }

/-- `INSERT INTO contact_requests ... ON CONFLICT ... WHERE status = 'pending' DO NOTHING`,
committed at once: the id of the new row, no row, or a foreign key that fails. -/
inductive Inserted (υ : Type) where
  | row (db : Database υ) (id : ℕ)
  | conflict
  | noUser

/-- The insertion waits for a transaction that is resolving the request in its way. -/
def insertRequest (requester recipient : υ) : Option (Inserted υ) :=
  match db.pendingRequest requester recipient with
  | some id =>
    if (db.contactRequests[id]?.bind Row.writer).isSome then none else some .conflict
  | none =>
    if db.hasUser requester && db.hasUser recipient then
      some (.row { db with
        contactRequests := db.contactRequests ++ [⟨some ⟨requester, recipient, .pending⟩, none⟩] }
        db.contactRequests.length)
    else some .noUser

/-- The rows that a deleted user takes along. -/
def cascadeContact (id owner contact : υ) (row : Row ℕ Unit) : Row ℕ Unit :=
  if (owner = id ∨ contact = id) ∧ row.committed.isSome = true then Row.absent else row

def cascadeRequest (id : υ) (row : Row ℕ (ContactRequestRow υ)) : Row ℕ (ContactRequestRow υ) :=
  match row.committed with
  | none => row
  | some request =>
    if request.requesterUserId = id ∨ request.recipientUserId = id then Row.absent else row

/-- A committed row of the user is being written. -/
def locksContact (id : υ) : Bool :=
  db.users.any fun user =>
    db.isContact id user.id && (db.contacts id user.id).writer.isSome ||
      db.isContact user.id id && (db.contacts user.id id).writer.isSome

def locksRequest (id : υ) : Bool :=
  db.contactRequests.any fun row => row.writer.isSome &&
    match row.committed with
    | none => false
    | some request => request.requesterUserId = id || request.recipientUserId = id

/-- `DELETE FROM users WHERE id = $1` with its cascades, committed at once. It waits for
the transactions that hold a row it deletes. -/
def deleteUser (id : υ) : Option (Database υ) :=
  if (db.keyShares.any fun lock => lock.2 = id) || db.locksContact id || db.locksRequest id then
    none
  else some { db with
    users := db.users.filter fun user => user.id ≠ id
    contacts := fun owner contact => cascadeContact id owner contact (db.contacts owner contact)
    contactRequests := db.contactRequests.map (cascadeRequest id) }

/-- The end of transaction `t`. -/
def commit (t : ℕ) : Database υ where
  users := db.users
  contacts owner contact := (db.contacts owner contact).commit t
  contactRequests := db.contactRequests.map (Row.commit t)
  keyShares := db.keyShares.filter fun lock => lock.1 ≠ t

def rollback (t : ℕ) : Database υ where
  users := db.users
  contacts owner contact := (db.contacts owner contact).rollback t
  contactRequests := db.contactRequests.map (Row.rollback t)
  keyShares := db.keyShares.filter fun lock => lock.1 ≠ t

variable {db : Database υ} {a b c d : υ} {row : Row ℕ Unit} {id t : ℕ}
  {requestRow : Row ℕ (ContactRequestRow υ)}

theorem contacts_putContact : (db.putContact a b row).contacts c d =
    if c = a ∧ d = b then row else db.contacts c d := by
  by_cases hc : c = a
  · subst hc
    by_cases hd : d = b
    · subst hd
      simp [putContact]
    · simp [putContact, hd]
  · simp [putContact, hc]

@[simp] theorem contacts_putContact_self : (db.putContact a b row).contacts a b = row := by
  simp [contacts_putContact]

theorem contacts_putContact_of_ne (h : ¬(c = a ∧ d = b)) :
    (db.putContact a b row).contacts c d = db.contacts c d := by
  rw [contacts_putContact, if_neg h]

@[simp] theorem request_putContact : (db.putContact a b row).request id = db.request id := rfl

omit [DecidableEq υ] in
theorem request_putRequest (h : db.contactRequests[id]? = some requestRow)
    {row' : Row ℕ (ContactRequestRow υ)} (hrow : row'.committed = requestRow.committed) (j : ℕ) :
    (db.putRequest id row').request j = db.request j := by
  by_cases hj : id = j
  · subst hj
    obtain ⟨hlt, rfl⟩ := List.getElem?_eq_some_iff.mp h
    simp [request, putRequest, hlt, hrow]
  · simp [request, putRequest, hj]

omit [DecidableEq υ] in
@[simp] theorem request_rollback (j : ℕ) : (db.rollback t).request j = db.request j := by
  cases h : db.contactRequests[j]? <;> simp [request, rollback, h]

omit [DecidableEq υ] in
@[simp] theorem committed_contacts_rollback :
    ((db.rollback t).contacts a b).committed = (db.contacts a b).committed :=
  Row.committed_rollback _ _

end Database

end Epistl.Contacts
