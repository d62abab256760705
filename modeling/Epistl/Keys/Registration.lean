import Epistl.Identity.Held
import Epistl.Keys.Directory

/-! # Key registration over many devices and accounts

After a login `ensureKeysRegistered` uploads the device's bundle, unless the stored marker says
that this was done for the same user before. Calls of several logins and account deletions run
side by side, and a request can be answered, or be lost before or after the server has served
it. The identity is read, generated, written and deleted entry by entry. A session token is
kept as the user it belongs to.
-/
namespace Epistl.KeyRegistration
open Deletion (IdentityKeys KeyName)
open Identities (signPrekey)
open KeyDirectory
variable {S : Suite} {D : Type} [DecidableEq D]

/-- A login that registers, or an account deletion; `settled` when it is over. -/
inductive Call (S : Suite)
  /-- is about to read the marker -/
  | registering (userId : JsString)
  | ensuring (userId : JsString)
  /-- awaits the promise of this call of `ensureLocalIdentityUncached` -/
  | resolving (userId : JsString) (attempt : ℕ)
  | uploading (userId : JsString) (identity : IdentityKeys S)
  | awaiting (userId : JsString) (request : ℕ)
  | marking (userId : JsString)
  | deleting (request : ℕ)
  /-- the account is gone; `session` and `entries` say what is still to be cleared -/
  | wiping (session : Bool) (entries : List KeyName)
  | settled

structure Phone (S : Suite) where
  token : Option JsString
  keysUploadedForUserId : Option JsString
  /-- the six entries, and the calls of `ensureLocalIdentity` -/
  identity : Identities.Device S
  calls : List (Call S)

inductive Body
  | keys (payload : UploadKeysPayload)
  | deleteAccount

/-- A request with the user of its token; `answer` says whether it was answered with success. -/
structure Request where
  user : JsString
  body : Body
  answer : Option Bool

structure System (S : Suite) (D : Type) where
  phones : D → Phone S
  requests : List Request
  userKeys : Table
  deleted : List JsString

inductive Action (S : Suite) (D : Type)
  | login (d : D) (userId : JsString)
  | readMarker (d : D) (i : ℕ)
  /-- the inbox or a chat asks for the identity, or a call of `ensureLocalIdentity` goes on -/
  | identity (d : D) (a : Identities.Action S)
  | ensureLocalIdentity (d : D) (i : ℕ)
  /-- the promise of the identity has settled -/
  | ensured (d : D) (i : ℕ)
  | registerKeys (d : D) (i : ℕ) (entropy : Bytes)
  | serve (n : ℕ) (succeeds : Bool)
  | answered (d : D) (i : ℕ)
  /-- what the call waits for is rejected -/
  | fail (d : D) (i : ℕ)
  | setMarker (d : D) (i : ℕ)
  | logOut (d : D)
  | deleteAccount (d : D)
  | clearSession (d : D) (i : ℕ)
  /-- one of the deletions of `clearIdentity` takes place; one that fails never does -/
  | clearIdentity (d : D) (i : ℕ) (name : KeyName)
  | restart (d : D)

/-- The bundle that is uploaded of an identity. -/
def keyBundle (keys : IdentityKeys S) (entropy : Bytes) : ContactKeyBundle where
  x25519PublicKey := keys .x25519PublicKey
  kyberPublicKey := keys .kyberPublicKey
  dilithiumPublicKey := keys .dilithiumPublicKey
  prekeySignature := signPrekey keys entropy

namespace System

def set (s : System S D) (d : D) (phone : Phone S) : System S D :=
  { s with phones := Function.update s.phones d phone }

/-- Call `i` of the device goes on as `call`. -/
def put (s : System S D) (d : D) (i : ℕ) (call : Call S) : System S D :=
  s.set d { s.phones d with calls := (s.phones d).calls.set i call }

def send (s : System S D) (request : Request) : System S D :=
  { s with requests := s.requests ++ [request] }

/-- The calls of `ensureLocalIdentity` on the device take a step. -/
def ensure (s : System S D) (d : D) (a : Identities.Action S) : Option (System S D) :=
  ((s.phones d).identity.step a).map fun identity =>
    s.set d { s.phones d with identity := identity }

/-- The server answers request `n`. -/
def serve (s : System S D) (n : ℕ) (succeeds : Bool) (r : Request) : System S D :=
  if r.user ∈ s.deleted then
    { s with requests := s.requests.set n { r with answer := some false } }
  else
    match r.body with
    | .keys payload =>
      let (userKeys, answer) := uploadKeys s.userKeys r.user payload succeeds
      { s with
        requests := s.requests.set n { r with answer := some (answer == .ok) }
        userKeys := userKeys }
    | .deleteAccount =>
      if succeeds then { s with
        requests := s.requests.set n { r with answer := some true }
        userKeys := Function.update s.userKeys r.user none
        deleted := r.user :: s.deleted }
      else { s with requests := s.requests.set n { r with answer := some false } }

/-- The answer of the request that a call waits for. -/
def answer (s : System S D) (n : ℕ) : Option Bool := s.requests[n]?.bind Request.answer

/-- One step of call `i`, which is at `call`. -/
def resume (s : System S D) (d : D) (i : ℕ) (call : Call S) : Action S D → Option (System S D)
  | .readMarker _ _ =>
    match call with
    | .registering userId =>
      if (s.phones d).keysUploadedForUserId = some userId then some (s.put d i .settled)
      else some (s.put d i (.ensuring userId))
    | _ => none
  | .ensureLocalIdentity _ _ =>
    match call with
    | .ensuring userId => (s.ensure d .ensureLocalIdentity).bind fun t =>
      (t.phones d).identity.inFlight.map fun n => t.put d i (.resolving userId n)
    | _ => none
  | .ensured _ _ =>
    match call with
    | .resolving userId n =>
      match (s.phones d).identity.attempts[n]?.map Identities.Attempt.stage with
      | some (.resolved keys) => some (s.put d i (.uploading userId keys))
      | some (.rejected _) => some (s.put d i .settled)
      | _ => none
    | _ => none
  | .registerKeys _ _ entropy =>
    match call with
    | .uploading userId keys =>
      match (s.phones d).token with
      | some user => some ((s.put d i (.awaiting userId s.requests.length)).send
          ⟨user, .keys (registerKeysBody (keyBundle keys entropy)), none⟩)
      | none => some (s.put d i .settled)
    | _ => none
  | .answered _ _ =>
    match call with
    | .awaiting userId n =>
      match s.answer n with
      | some true => some (s.put d i (.marking userId))
      | some false => some (s.put d i .settled)
      | none => none
    | .deleting n =>
      match s.answer n with
      | some true => some (s.put d i (.wiping true KeyName.all))
      | some false => some (s.put d i .settled)
      | none => none
    | _ => none
  | .fail _ _ =>
    match call with
    | .resolving _ _ | .wiping _ _ => none
    | _ => some (s.put d i .settled)
  | .setMarker _ _ =>
    match call with
    | .marking userId => some ((s.set d { s.phones d with
        keysUploadedForUserId := some userId }).put d i .settled)
    | _ => none
  | .clearSession _ _ =>
    match call with
    | .wiping true entries => some ((s.set d { s.phones d with token := none }).put d i
        (.wiping false entries))
    | _ => none
  | .clearIdentity _ _ name =>
    match call with
    | .wiping session entries =>
      if name ∈ entries then some ((s.set d { s.phones d with
        identity := (s.phones d).identity.deleteKey name }).put d i
          (.wiping session (entries.erase name)))
      else none
    | _ => none
  | _ => none

/-- The device and the call whose step an action is. -/
def target : Action S D → Option (D × ℕ)
  | .readMarker d i | .ensureLocalIdentity d i | .ensured d i | .registerKeys d i _
  | .answered d i | .fail d i | .setMarker d i | .clearSession d i | .clearIdentity d i _ => some (d, i)
  | _ => none

def step (s : System S D) : Action S D → Option (System S D)
  | .login d userId =>
    if userId ∈ s.deleted then none
    else some (s.set d { s.phones d with
      token := some userId
      calls := (s.phones d).calls ++ [.registering userId] })
  | .identity _ .restart => none
  | .identity d a => s.ensure d a
  | .serve n succeeds => s.requests[n]?.bind fun r =>
    match r.answer with
    | none => some (s.serve n succeeds r)
    | some _ => none
  | .logOut d => some (s.set d { s.phones d with token := none })
  | .deleteAccount d => (s.phones d).token.map fun user =>
    (s.set d { s.phones d with calls := (s.phones d).calls ++ [.deleting s.requests.length] }).send
      ⟨user, .deleteAccount, none⟩
  | .restart d => ((s.phones d).identity.step .restart).map fun identity =>
    s.set d { s.phones d with identity := identity, calls := [] }
  | a => (target a).bind fun (d, i) => (s.phones d).calls[i]?.bind fun call => s.resume d i call a

/-- Nobody has an account yet. -/
def start : System S D where
  phones _ := ⟨none, none, .fresh, []⟩
  requests := []
  userKeys _ := none
  deleted := []

end System

def machine (S : Suite) (D : Type) [DecidableEq D] : Machine (System S D) (Action S D) where
  init s := s = System.start
  step := System.step

end Epistl.KeyRegistration
