import Epistl.Contacts.Database

/-! # Concurrent calls of the contact routes

A step lets the awaited statement of one call take effect, on what is committed and on
what the call itself wrote. A statement that has to wait for a row lock is not enabled;
the `INSERT` of `accept_contact_request` may get its first row done and wait for its second.
-/
namespace Epistl.Contacts

/-- The three ways to resolve a pending request. -/
inductive Resolution where
  | accept
  | decline
  | cancel
  deriving Repr, DecidableEq

inductive Operation (υ : Type) where
  | createContactRequest (caller : υ)
  | resolve (how : Resolution) (requestId : ℕ) (caller : υ)
  | removeContact (caller contact : υ)
  | deleteAccount (caller : υ)
  deriving Repr, DecidableEq

inductive Response where
  | created (requestId : ℕ)
  | incomingRequestExists (requestId : ℕ)
  | noContent
  | error (status : ℕ) (error : String)
  deriving Repr, DecidableEq

namespace Response

def internalError : Response := .error 500 "internal_error"
def requestNotFoundError : Response := .error 404 "request_not_found"

end Response

namespace Resolution

/-- Who may resolve the request. -/
def party {υ : Type} (row : ContactRequestRow υ) : Resolution → υ
  | accept | decline => row.recipientUserId
  | cancel => row.requesterUserId

/-- The code of `LoadPendingRequestError::Forbidden`. -/
def forbidden : Resolution → Response
  | accept | decline => .error 403 "not_recipient"
  | cancel => .error 403 "not_requester"

/-- What becomes of the request: accept and cancel delete it. -/
def resolved {υ : Type} (row : ContactRequestRow υ) : Resolution → Option (ContactRequestRow υ)
  | accept | cancel => none
  | decline => some { row with status := .declined }

end Resolution

structure CreateContactRequestPayload where
  email : Option Bytes
  username : Option Bytes
  deriving Repr, DecidableEq

/-- What a call awaits. -/
inductive Call (υ : Type) where
  /-- `create_contact_request`: the user, the two checks, the insertion -/
  | lookingUp (caller : υ) (payload : CreateContactRequestPayload)
  | checkingContact (caller target : υ)
  | checkingIncoming (caller target : υ)
  | requesting (caller target : υ)
  /-- `load_pending_request_as_recipient`, `load_pending_request_as_requester` -/
  | loading (how : Resolution) (requestId : ℕ) (caller : υ)
  /-- the two rows of `accept_contact_request`, and their foreign keys -/
  | inserting (requestId : ℕ) (requesterId recipientId : υ)
  | insertingSecond (requestId : ℕ) (requesterId recipientId : υ) (inserted : Bool)
  | checkingUsers (requestId : ℕ) (requesterId recipientId : υ)
  /-- the `DELETE` or `UPDATE` of the request -/
  | resolving (how : Resolution) (requestId : ℕ) (caller : υ)
  /-- `remove_contact` -/
  | removing (caller contact : υ)
  | removingReverse (caller contact : υ)
  /-- `delete_account` -/
  | deletingAccount (caller : υ)
  | committing (operation : Operation υ)
  /-- the transaction is dropped and still has to be rolled back -/
  | dropped (operation : Operation υ) (response : Response)
  | returned (operation : Operation υ) (response : Response)
  deriving DecidableEq

structure System (υ : Type) where
  db : Database υ
  calls : List (Call υ)

namespace System
variable {υ : Type} [DecidableEq υ]

inductive Action (υ : Type) where
  | signUp (user : UserRow υ)
  | createContactRequest (caller : υ) (payload : CreateContactRequestPayload)
  | resolve (how : Resolution) (requestId : ℕ) (caller : υ)
  | removeContact (caller contact : υ)
  | deleteAccount (caller : υ)
  /-- the awaited statement of a call takes effect -/
  | proceed (i : ℕ)
  /-- it fails -/
  | fail (i : ℕ)

/-- Call `i` moves on, with the tables as its statement leaves them. -/
def put (s : System υ) (i : ℕ) (db : Database υ) (call : Call υ) : System υ where
  db := db
  calls := s.calls.set i call

def finish (s : System υ) (i : ℕ) (operation : Operation υ) (response : Response) : System υ :=
  s.put i s.db (.returned operation response)

def drop (s : System υ) (i : ℕ) (operation : Operation υ) (response : Response) : System υ :=
  s.put i s.db (.dropped operation response)

/-- The target of a `create_contact_request`, or no user. -/
def lookUp (s : System υ) (i : ℕ) (caller : υ) (target : Option (UserRow υ)) : System υ :=
  match target with
  | none => s.finish i (.createContactRequest caller) (.error 404 "user_not_found")
  | some user =>
    if user.id = caller then
      s.finish i (.createContactRequest caller) (.error 400 "cannot_add_self")
    else s.put i s.db (.checkingContact caller user.id)

def insertRequest (s : System υ) (i : ℕ) (caller target : υ) : Option (System υ) :=
  match s.db.insertRequest caller target with
  | none => none
  | some (.row db id) => some (s.put i db (.returned (.createContactRequest caller) (.created id)))
  | some .conflict =>
    some (s.finish i (.createContactRequest caller) (.error 409 "already_pending"))
  | some .noUser => some (s.finish i (.createContactRequest caller) .internalError)

/-- The checks on the request that was loaded. -/
def load (s : System υ) (i : ℕ) (how : Resolution) (requestId : ℕ) (caller : υ) : System υ :=
  let operation : Operation υ := .resolve how requestId caller
  match s.db.request requestId with
  | none => s.drop i operation .requestNotFoundError
  | some row =>
    if how.party row ≠ caller then s.drop i operation how.forbidden
    else if row.status ≠ .pending then s.drop i operation .requestNotFoundError
    else
      match how with
      | .accept => s.put i s.db (.inserting requestId row.requesterUserId row.recipientUserId)
      | .decline | .cancel => s.put i s.db (.resolving how requestId caller)

/-- The second row of the `INSERT` of an accept. -/
def insertSecond (s : System υ) (i : ℕ) (db : Database υ) (requestId : ℕ)
    (requesterId recipientId : υ) (inserted : Bool) : Option (System υ) :=
  match (db.contacts recipientId requesterId).insert i () with
  | none => none
  | some (row, inserted') =>
    some (s.put i (db.putContact recipientId requesterId row)
      (if inserted || inserted' then .checkingUsers requestId requesterId recipientId
      else .resolving .accept requestId recipientId))

/-- Both rows, unless the second has to wait. -/
def insertBoth (s : System υ) (i : ℕ) (requestId : ℕ) (requesterId recipientId : υ) :
    Option (System υ) :=
  match (s.db.contacts requesterId recipientId).insert i () with
  | none => none
  | some (row, inserted) =>
    let db := s.db.putContact requesterId recipientId row
    match s.insertSecond i db requestId requesterId recipientId inserted with
    | none => some (s.put i db (.insertingSecond requestId requesterId recipientId inserted))
    | some t => some t

/-- The foreign keys of the inserted rows. -/
def checkUsers (s : System υ) (i : ℕ) (requestId : ℕ) (requesterId recipientId : υ) : System υ :=
  if s.db.hasUser requesterId && s.db.hasUser recipientId then
    s.put i { s.db with keyShares := (i, requesterId) :: (i, recipientId) :: s.db.keyShares }
      (.resolving .accept requestId recipientId)
  else s.drop i (.resolve .accept requestId recipientId) .internalError

def resolveRequest (s : System υ) (i : ℕ) (how : Resolution) (requestId : ℕ) (caller : υ) :
    Option (System υ) :=
  let operation : Operation υ := .resolve how requestId caller
  match s.db.contactRequests[requestId]? with
  | none => some (s.drop i operation .requestNotFoundError)
  | some row =>
    match row.update i (fun request => request.status = .pending) fun request =>
      how.resolved request with
    | none => none
    | some (row, affected) =>
      if affected then some (s.put i (s.db.putRequest requestId row) (.committing operation))
      else some (s.drop i operation .requestNotFoundError)

/-- `DELETE FROM contacts WHERE owner_user_id = $1 AND contact_user_id = $2`. -/
def deleteContact (s : System υ) (i : ℕ) (owner contact : υ) : Option (Database υ × Bool) :=
  match (s.db.contacts owner contact).update i (fun _ => true) fun _ => none with
  | none => none
  | some (row, affected) => some (s.db.putContact owner contact row, affected)

def remove (s : System υ) (i : ℕ) (caller contact : υ) : Option (System υ) :=
  match s.deleteContact i caller contact with
  | none => none
  | some (db, affected) =>
    if affected then some (s.put i db (.removingReverse caller contact))
    else some (s.drop i (.removeContact caller contact) (.error 404 "not_found"))

def removeReverse (s : System υ) (i : ℕ) (caller contact : υ) : Option (System υ) :=
  match s.deleteContact i contact caller with
  | none => none
  | some (db, _) => some (s.put i db (.committing (.removeContact caller contact)))

variable (lower : Bytes → Bytes)

/-- Exactly one of `email` and `username`. -/
def target (s : System υ) (i : ℕ) (caller : υ) (payload : CreateContactRequestPayload) : System υ :=
  match payload.email, payload.username with
  | some _, some _ => s.finish i (.createContactRequest caller) (.error 400 "invalid_request")
  | none, some username =>
    s.lookUp i caller (s.db.users.find? fun user => user.username = lower username)
  | email, none => s.lookUp i caller (s.db.users.find? fun user => user.email = email.getD [])

/-- The awaited statement of call `i` takes effect. `none` when it has to wait. -/
def proceed (s : System υ) (i : ℕ) : Call υ → Option (System υ)
  | .lookingUp caller payload => some (s.target lower i caller payload)
  | .checkingContact caller target =>
    if s.db.isContact caller target || s.db.isContact target caller then
      some (s.finish i (.createContactRequest caller) (.error 409 "already_contact"))
    else some (s.put i s.db (.checkingIncoming caller target))
  | .checkingIncoming caller target =>
    match s.db.pendingRequest target caller with
    | some id => some (s.finish i (.createContactRequest caller) (.incomingRequestExists id))
    | none => some (s.put i s.db (.requesting caller target))
  | .requesting caller target => s.insertRequest i caller target
  | .loading how requestId caller => some (s.load i how requestId caller)
  | .inserting requestId requesterId recipientId => s.insertBoth i requestId requesterId recipientId
  | .insertingSecond requestId requesterId recipientId inserted =>
    s.insertSecond i s.db requestId requesterId recipientId inserted
  | .checkingUsers requestId requesterId recipientId =>
    some (s.checkUsers i requestId requesterId recipientId)
  | .resolving how requestId caller => s.resolveRequest i how requestId caller
  | .removing caller contact => s.remove i caller contact
  | .removingReverse caller contact => s.removeReverse i caller contact
  | .deletingAccount caller =>
    match s.db.deleteUser caller with
    | none => none
    | some db => some (s.put i db (.returned (.deleteAccount caller) .noContent))
  | .committing operation => some (s.put i (s.db.commit i) (.returned operation .noContent))
  | .dropped operation response =>
    some (s.put i (s.db.rollback i) (.returned operation response))
  | .returned .. => none

/-- The statement of call `i` fails. A `COMMIT` that fails has rolled back. -/
def fail (s : System υ) (i : ℕ) : Call υ → Option (System υ)
  | .lookingUp caller _ | .checkingContact caller _ | .checkingIncoming caller _ |
    .requesting caller _ => some (s.finish i (.createContactRequest caller) .internalError)
  | .deletingAccount caller => some (s.finish i (.deleteAccount caller) .internalError)
  | .loading how requestId caller | .resolving how requestId caller =>
    some (s.drop i (.resolve how requestId caller) .internalError)
  | .inserting requestId _ recipientId | .insertingSecond requestId _ recipientId _ |
    .checkingUsers requestId _ recipientId =>
    some (s.drop i (.resolve .accept requestId recipientId) .internalError)
  | .removing caller contact | .removingReverse caller contact =>
    some (s.drop i (.removeContact caller contact) .internalError)
  | .committing operation => some (s.drop i operation .internalError)
  | .dropped .. | .returned .. => none

def enter (s : System υ) (call : Call υ) : System υ := { s with calls := s.calls ++ [call] }

/-- `users.id`, `users.email` and `users.username` are unique. -/
def signUp (s : System υ) (user : UserRow υ) : Option (System υ) :=
  if s.db.users.any fun old =>
      old.id = user.id || old.email = user.email || old.username = user.username then none
  else some { s with db := { s.db with users := s.db.users ++ [user] } }

def step (s : System υ) : Action υ → Option (System υ)
  | .signUp user => s.signUp user
  | .createContactRequest caller payload => some (s.enter (.lookingUp caller payload))
  | .resolve how requestId caller => some (s.enter (.loading how requestId caller))
  | .removeContact caller contact => some (s.enter (.removing caller contact))
  | .deleteAccount caller => some (s.enter (.deletingAccount caller))
  | .proceed i => s.calls[i]?.bind (s.proceed lower i)
  | .fail i => s.calls[i]?.bind (s.fail i)

/-- The routes of a server, from the given states. -/
def machine (init : System υ → Prop) : Machine (System υ) (Action υ) where
  init := init
  step := step lower

end System

end Epistl.Contacts
