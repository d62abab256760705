import Epistl.Contacts.Calls

/-! # What a step of the contact routes does

A step is a sign-up, a new call, a statement that takes effect or a call that gives up. The
statements are listed once, with what they found and what they leave.
-/
namespace Epistl.Contacts
variable {υ : Type}

namespace Call

/-- The call came from this operation. -/
def operation : Call υ → Operation υ
  | .lookingUp caller _ | .checkingContact caller _ | .checkingIncoming caller _ |
    .requesting caller _ => .createContactRequest caller
  | .loading how requestId caller | .resolving how requestId caller =>
    .resolve how requestId caller
  | .inserting requestId _ recipientId | .insertingSecond requestId _ recipientId _ |
    .checkingUsers requestId _ recipientId => .resolve .accept requestId recipientId
  | .removing caller contact | .removingReverse caller contact => .removeContact caller contact
  | .deletingAccount caller => .deleteAccount caller
  | .committing operation | .dropped operation _ | .returned operation _ => operation

/-- The statement is a transaction of its own. -/
def autocommits : Call υ → Bool
  | .lookingUp .. | .checkingContact .. | .checkingIncoming .. | .requesting .. |
    .deletingAccount .. => true
  | _ => false

/-- The statement is in an open transaction. -/
def inTransaction : Call υ → Bool
  | .loading .. | .inserting .. | .insertingSecond .. | .checkingUsers .. | .resolving .. |
    .removing .. | .removingReverse .. | .committing .. => true
  | _ => false

/-- The call gives up. -/
inductive Ends (call : Call υ) : Call υ → Prop
  | answered (response : Response) : call.autocommits = true → response ≠ .noContent →
      Ends call (.returned call.operation response)
  | dropped (response : Response) : call.inTransaction = true → response ≠ .noContent →
      Ends call (.dropped call.operation response)

end Call

variable [DecidableEq υ]

/-- What the awaited statement of call `i` leaves. -/
inductive Move (i : ℕ) (db : Database υ) : Call υ → Database υ → Call υ → Prop
  | ended {call call' : Call υ} : call.Ends call' → Move i db call db call'
  | lookedUp {caller target : υ} {payload : CreateContactRequestPayload} : target ≠ caller →
      Move i db (.lookingUp caller payload) db (.checkingContact caller target)
  | checkedContact {caller target : υ} :
      Move i db (.checkingContact caller target) db (.checkingIncoming caller target)
  | checkedIncoming {caller target : υ} :
      Move i db (.checkingIncoming caller target) db (.requesting caller target)
  | requested {caller target : υ} : db.pendingRequest caller target = none →
      Move i db (.requesting caller target)
        { db with contactRequests := db.contactRequests ++ [⟨some ⟨caller, target, .pending⟩, none⟩] }
        (.returned (.createContactRequest caller) (.created db.contactRequests.length))
  | loadedAccept {requestId : ℕ} {requesterId recipientId : υ} :
      db.request requestId = some ⟨requesterId, recipientId, .pending⟩ →
      Move i db (.loading .accept requestId recipientId) db
        (.inserting requestId requesterId recipientId)
  | loaded {how : Resolution} {requestId : ℕ} {caller : υ} {request : ContactRequestRow υ} :
      how ≠ .accept → db.request requestId = some request → how.party request = caller →
      request.status = .pending →
      Move i db (.loading how requestId caller) db (.resolving how requestId caller)
  | insertedFirst {requestId : ℕ} {requesterId recipientId : υ} {row : Row ℕ Unit}
      {inserted : Bool} : (db.contacts requesterId recipientId).insert i () = some (row, inserted) →
      ((db.putContact requesterId recipientId row).contacts recipientId requesterId).held i = true →
      Move i db (.inserting requestId requesterId recipientId)
        (db.putContact requesterId recipientId row)
        (.insertingSecond requestId requesterId recipientId inserted)
  | insertedSecond {requestId : ℕ} {requesterId recipientId : υ} {row : Row ℕ Unit}
      {inserted inserted' : Bool} :
      (db.contacts recipientId requesterId).insert i () = some (row, inserted') →
      Move i db (.insertingSecond requestId requesterId recipientId inserted)
        (db.putContact recipientId requesterId row)
        (if inserted || inserted' then .checkingUsers requestId requesterId recipientId
        else .resolving .accept requestId recipientId)
  | insertedBoth {requestId : ℕ} {requesterId recipientId : υ} {row row' : Row ℕ Unit}
      {inserted inserted' : Bool} :
      (db.contacts requesterId recipientId).insert i () = some (row, inserted) →
      ((db.putContact requesterId recipientId row).contacts recipientId requesterId).insert i () =
        some (row', inserted') →
      Move i db (.inserting requestId requesterId recipientId)
        ((db.putContact requesterId recipientId row).putContact recipientId requesterId row')
        (if inserted || inserted' then .checkingUsers requestId requesterId recipientId
        else .resolving .accept requestId recipientId)
  | checkedUsers {requestId : ℕ} {requesterId recipientId : υ} :
      db.hasUser requesterId = true → db.hasUser recipientId = true →
      Move i db (.checkingUsers requestId requesterId recipientId)
        { db with keyShares := (i, requesterId) :: (i, recipientId) :: db.keyShares }
        (.resolving .accept requestId recipientId)
  | resolved {how : Resolution} {requestId : ℕ} {caller : υ} {row : Row ℕ (ContactRequestRow υ)}
      {request : ContactRequestRow υ} : db.contactRequests[requestId]? = some row →
      row.held i = false → row.visible i = some request → request.status = .pending →
      Move i db (.resolving how requestId caller)
        (db.putRequest requestId (row.write i (how.resolved request)))
        (.committing (.resolve how requestId caller))
  | removed {caller contact : υ} : (db.contacts caller contact).held i = false →
      (db.contacts caller contact).visible i = some () →
      Move i db (.removing caller contact)
        (db.putContact caller contact ((db.contacts caller contact).write i none))
        (.removingReverse caller contact)
  | removedReverse {caller contact : υ} {row : Row ℕ Unit} {affected : Bool} :
      (db.contacts contact caller).update i (fun _ => true) (fun _ => none) = some (row, affected) →
      Move i db (.removingReverse caller contact) (db.putContact contact caller row)
        (.committing (.removeContact caller contact))
  | deletedUser {caller : υ} {db' : Database υ} : db.deleteUser caller = some db' →
      Move i db (.deletingAccount caller) db' (.returned (.deleteAccount caller) .noContent)
  | committed {operation : Operation υ} :
      Move i db (.committing operation) (db.commit i) (.returned operation .noContent)
  | rolledBack {operation : Operation υ} {response : Response} :
      Move i db (.dropped operation response) (db.rollback i) (.returned operation response)

/-- The call that a request to the server starts. -/
def System.Action.starts : System.Action υ → Option (Call υ)
  | .createContactRequest caller payload => some (.lookingUp caller payload)
  | .resolve how requestId caller => some (.loading how requestId caller)
  | .removeContact caller contact => some (.removing caller contact)
  | .deleteAccount caller => some (.deletingAccount caller)
  | .signUp _ | .proceed _ | .fail _ => none

/-- What an action comes to. -/
inductive System.Effect (s : System υ) : System.Action υ → System υ → Prop
  | signedUp (user : UserRow υ) :
      Effect s (.signUp user) { s with db := { s.db with users := s.db.users ++ [user] } }
  | entered {a : System.Action υ} {call : Call υ} : a.starts = some call → Effect s a (s.enter call)
  | moved {i : ℕ} {call call' : Call υ} {db' : Database υ} : s.calls[i]? = some call →
      Move i s.db call db' call' → Effect s (.proceed i) (s.put i db' call')
  | failed {i : ℕ} {call call' : Call υ} : s.calls[i]? = some call → call.Ends call' →
      Effect s (.fail i) (s.put i s.db call')

omit [DecidableEq υ] in
theorem Resolution.forbidden_ne_noContent (how : Resolution) : how.forbidden ≠ .noContent := by
  cases how <;> simp [Resolution.forbidden]

omit [DecidableEq υ] in
/-- A request that was resolved is not pending. -/
theorem Resolution.not_pending_of_resolved {how : Resolution} {request request' : ContactRequestRow υ}
    (h : how.resolved request = some request') : request'.status ≠ .pending := by
  cases how with
  | accept | cancel => cases h
  | decline =>
    cases h
    simp

namespace System
variable {lower : Bytes → Bytes} {s t : System υ} {i : ℕ} {call : Call υ} {how : Resolution}
  {requestId : ℕ} {caller target contact requesterId recipientId : υ}
  {payload : CreateContactRequestPayload} {db : Database υ} {row : Row ℕ Unit}
  {inserted affected : Bool}

/-- The step of call `i` is a move. -/
def Moves (s : System υ) (i : ℕ) (call : Call υ) (t : System υ) : Prop :=
  ∃ db' call', Move i s.db call db' call' ∧ t = s.put i db' call'

theorem Moves.finish {response : Response} (hcall : call.autocommits = true)
    (hresponse : response ≠ .noContent) : s.Moves i call (s.finish i call.operation response) :=
  ⟨_, _, .ended (.answered response hcall hresponse), rfl⟩

theorem Moves.drop {response : Response} (hcall : call.inTransaction = true)
    (hresponse : response ≠ .noContent) : s.Moves i call (s.drop i call.operation response) :=
  ⟨_, _, .ended (.dropped response hcall hresponse), rfl⟩

theorem lookUp_moves (user : Option (UserRow υ)) :
    s.Moves i (.lookingUp caller payload) (s.lookUp i caller user) := by
  unfold lookUp
  split
  · exact Moves.finish rfl (by simp)
  · split
    · exact Moves.finish rfl (by simp)
    · rename_i hne
      exact ⟨_, _, .lookedUp hne, rfl⟩

theorem target_moves : s.Moves i (.lookingUp caller payload) (s.target lower i caller payload) := by
  unfold System.target
  split
  · exact Moves.finish rfl (by simp)
  · exact lookUp_moves _
  · exact lookUp_moves _

theorem insertRequest_moves (h : s.insertRequest i caller target = some t) :
    s.Moves i (.requesting caller target) t := by
  unfold insertRequest at h
  split at h
  · cases h
  · rename_i db' id hdb
    cases h
    unfold Database.insertRequest at hdb
    split at hdb
    · split at hdb <;> cases hdb
    · rename_i hnone
      split at hdb
      · cases hdb
        exact ⟨_, _, .requested hnone, rfl⟩
      · cases hdb
  · cases h
    exact Moves.finish rfl (by simp)
  · cases h
    exact Moves.finish rfl (by simp [Response.internalError])

theorem load_moves : s.Moves i (.loading how requestId caller) (s.load i how requestId caller) := by
  unfold load
  split
  · exact Moves.drop rfl (by simp [Response.requestNotFoundError])
  · rename_i request hrequest
    split
    · exact Moves.drop rfl how.forbidden_ne_noContent
    · rename_i hparty
      split
      · exact Moves.drop rfl (by simp [Response.requestNotFoundError])
      · rename_i hstatus
        rw [not_not] at hparty hstatus
        split
        · subst hparty
          obtain ⟨x, y, status⟩ := request
          subst hstatus
          exact ⟨_, _, .loadedAccept hrequest, rfl⟩
        · exact ⟨_, _, .loaded (by simp) hrequest hparty hstatus, rfl⟩
        · exact ⟨_, _, .loaded (by simp) hrequest hparty hstatus, rfl⟩

theorem insertSecond_eq_some {db : Database υ}
    (h : s.insertSecond i db requestId requesterId recipientId inserted = some t) :
    ∃ row inserted', (db.contacts recipientId requesterId).insert i () = some (row, inserted') ∧
      t = s.put i (db.putContact recipientId requesterId row)
        (if inserted || inserted' then .checkingUsers requestId requesterId recipientId
        else .resolving .accept requestId recipientId) := by
  unfold insertSecond at h
  split at h
  · cases h
  · rename_i row inserted' hrow
    cases h
    exact ⟨row, inserted', hrow, rfl⟩

theorem held_of_insertSecond_eq_none {db : Database υ}
    (h : s.insertSecond i db requestId requesterId recipientId inserted = none) :
    (db.contacts recipientId requesterId).held i = true := by
  unfold insertSecond at h
  split at h
  · rename_i hrow
    exact Row.held_of_insert_eq_none hrow
  · cases h

theorem insertBoth_moves (h : s.insertBoth i requestId requesterId recipientId = some t) :
    s.Moves i (.inserting requestId requesterId recipientId) t := by
  unfold insertBoth at h
  split at h
  · cases h
  · rename_i row inserted hrow
    dsimp only at h
    split at h
    · rename_i hsecond
      cases h
      exact ⟨_, _, .insertedFirst hrow (held_of_insertSecond_eq_none hsecond), rfl⟩
    · rename_i u hsecond
      cases h
      obtain ⟨row', inserted', hrow', rfl⟩ := insertSecond_eq_some hsecond
      exact ⟨_, _, .insertedBoth hrow hrow', rfl⟩

theorem checkUsers_moves : s.Moves i (.checkingUsers requestId requesterId recipientId)
    (s.checkUsers i requestId requesterId recipientId) := by
  unfold checkUsers
  split
  · rename_i husers
    rw [Bool.and_eq_true] at husers
    exact ⟨_, _, .checkedUsers husers.1 husers.2, rfl⟩
  · exact Moves.drop rfl (by simp [Response.internalError])

theorem resolveRequest_moves (h : s.resolveRequest i how requestId caller = some t) :
    s.Moves i (.resolving how requestId caller) t := by
  unfold resolveRequest at h
  dsimp only at h
  split at h
  · cases h
    exact Moves.drop rfl (by simp [Response.requestNotFoundError])
  · rename_i row hrow
    split at h
    · cases h
    · rename_i row' affected hupdate
      obtain ⟨rfl, hheld, request, hvisible, hstatus, rfl⟩ | ⟨rfl, rfl, -⟩ :=
        Row.update_eq_some hupdate
      · cases h
        exact ⟨_, _, .resolved hrow hheld hvisible (of_decide_eq_true hstatus), rfl⟩
      · cases h
        exact Moves.drop rfl (by simp [Response.requestNotFoundError])

theorem remove_moves (h : s.remove i caller contact = some t) :
    s.Moves i (.removing caller contact) t := by
  unfold System.remove deleteContact at h
  split at h
  · cases h
  · rename_i db affected hdelete
    split at hdelete
    · cases hdelete
    · rename_i row affected' hupdate
      cases hdelete
      obtain ⟨rfl, hheld, x, hvisible, -, rfl⟩ | ⟨rfl, rfl, -⟩ := Row.update_eq_some hupdate
      · cases h
        exact ⟨_, _, .removed hheld hvisible, rfl⟩
      · cases h
        exact Moves.drop rfl (by simp)

theorem removeReverse_moves (h : s.removeReverse i caller contact = some t) :
    s.Moves i (.removingReverse caller contact) t := by
  unfold removeReverse deleteContact at h
  split at h
  · cases h
  · rename_i db affected hdelete
    split at hdelete
    · cases hdelete
    · rename_i row affected' hupdate
      cases hdelete
      cases h
      exact ⟨_, _, .removedReverse hupdate, rfl⟩

theorem proceed_moves (h : s.proceed lower i call = some t) : s.Moves i call t := by
  cases call with
  | lookingUp caller payload =>
    cases h
    exact target_moves
  | checkingContact caller target =>
    simp only [proceed] at h
    split at h
    · cases h
      exact Moves.finish rfl (by simp)
    · cases h
      exact ⟨_, _, .checkedContact, rfl⟩
  | checkingIncoming caller target =>
    simp only [proceed] at h
    split at h
    · cases h
      exact Moves.finish rfl (by simp)
    · cases h
      exact ⟨_, _, .checkedIncoming, rfl⟩
  | requesting caller target => exact insertRequest_moves h
  | loading how requestId caller =>
    cases h
    exact load_moves
  | inserting requestId requesterId recipientId => exact insertBoth_moves h
  | insertingSecond requestId requesterId recipientId inserted =>
    obtain ⟨row, inserted', hrow, rfl⟩ := insertSecond_eq_some h
    exact ⟨_, _, .insertedSecond hrow, rfl⟩
  | checkingUsers requestId requesterId recipientId =>
    cases h
    exact checkUsers_moves
  | resolving how requestId caller => exact resolveRequest_moves h
  | removing caller contact => exact remove_moves h
  | removingReverse caller contact => exact removeReverse_moves h
  | deletingAccount caller =>
    simp only [proceed] at h
    split at h
    · cases h
    · rename_i db' hdelete
      cases h
      exact ⟨_, _, .deletedUser hdelete, rfl⟩
  | committing operation =>
    cases h
    exact ⟨_, _, .committed, rfl⟩
  | dropped operation response =>
    cases h
    exact ⟨_, _, .rolledBack, rfl⟩
  | returned operation response => cases h

omit [DecidableEq υ] in
theorem fail_ends (h : s.fail i call = some t) :
    ∃ call', call.Ends call' ∧ t = s.put i s.db call' := by
  have hresponse : Response.internalError ≠ .noContent := by simp [Response.internalError]
  cases call with
  | lookingUp | checkingContact | checkingIncoming | requesting | deletingAccount =>
    cases h
    exact ⟨_, .answered _ rfl hresponse, rfl⟩
  | loading | inserting | insertingSecond | checkingUsers | resolving | removing |
    removingReverse | committing =>
    cases h
    exact ⟨_, .dropped _ rfl hresponse, rfl⟩
  | dropped | returned => cases h

theorem step_effect {a : Action υ} (h : s.step lower a = some t) : s.Effect a t := by
  cases a with
  | signUp user =>
    simp only [step, signUp] at h
    split at h
    · cases h
    · cases h
      exact .signedUp user
  | createContactRequest caller payload =>
    cases h
    exact .entered rfl
  | resolve how requestId caller =>
    cases h
    exact .entered rfl
  | removeContact caller contact =>
    cases h
    exact .entered rfl
  | deleteAccount caller =>
    cases h
    exact .entered rfl
  | proceed i =>
    obtain ⟨call, hcall, h⟩ := Option.bind_eq_some_iff.mp h
    obtain ⟨db', call', hmove, rfl⟩ := proceed_moves h
    exact .moved hcall hmove
  | fail i =>
    obtain ⟨call, hcall, h⟩ := Option.bind_eq_some_iff.mp h
    obtain ⟨call', hends, rfl⟩ := fail_ends h
    exact .failed hcall hends

end System

end Epistl.Contacts
