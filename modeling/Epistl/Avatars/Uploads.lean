import Epistl.Runs.Machine
import Mathlib.Logic.Function.Basic

/-! # Avatar uploads

`apps/api/src/avatars.rs`, with the object store that its presigned URLs lead to and the
column `users.image`. A call of a handler is interrupted at its await points; what the store
and the database answer there is part of the action.
-/
namespace Epistl.Avatars
variable {υ : Type*}

/-- `PRESIGNED_URL_EXPIRY`, in seconds. -/
def presignedUrlExpiry : ℕ := 5 * 60

def maxAvatarBytes : ℕ := 5 * 1024 * 1024

def allowedContentTypes : List String := ["image/png", "image/jpeg"]

structure Object where
  contentType : String
  size : ℕ
  deriving Repr, DecidableEq

/-- What a presigned PUT URL has bound into its signature. -/
structure PresignedPut where
  key : String
  contentType : String
  expiresAt : ℕ
  deriving Repr, DecidableEq

inductive Response where
  | json (status : ℕ) (body : List (String × String))
  /-- a redirect -/
  | found (location : String)
  deriving Repr, DecidableEq

def internalError : Response := .json 500 [("error", "internal_error")]

def badRequest (error : String) : Response := .json 400 [("error", error)]

def notFound : Response := .json 404 [("error", "not_found")]

/-- `HeaderValue::from_str` accepts the text. -/
def isHeaderValue (s : String) : Bool :=
  s.toList.all fun c => 32 ≤ c.toNat && c.toNat < 127 || c == '\t'

/-- What a call of `confirm_upload` awaits. -/
inductive Awaits where
  /-- `object_content_length` -/
  | head
  /-- `delete_object` -/
  | delete
  /-- the `UPDATE` of `users.image` -/
  | update
  | returned (response : Response)
  deriving Repr, DecidableEq

structure Confirm (υ : Type*) where
  user : υ
  awaits : Awaits
  deriving Repr, DecidableEq

structure World (υ : Type*) where
  now : ℕ
  issued : List PresignedPut
  bucket : String → Option Object
  /-- the column of the user's row, if the row exists -/
  image : υ → Option (Option String)
  confirms : List (Confirm υ)

/-- How an `UPDATE` ends. The connection may break before or after the commit. -/
inductive Update where
  | ok
  | failed (committed : Bool)
  deriving Repr, DecidableEq

inductive Action (υ : Type*) where
  /-- with the URL that `presigned_put_url` makes -/
  | requestUploadUrl (user : υ) (contentType uploadUrl : Option String)
  | elapse (seconds : ℕ)
  /-- an upload, which goes to the store directly -/
  | put (url : PresignedPut) (contentType : String) (size : ℕ)
  | confirmUpload (user : υ)
  | head (i : ℕ) (answered : Bool)
  | delete (i : ℕ) (deleted : Bool)
  | update (i : ℕ) (update : Update)
  deriving Repr, DecidableEq

section
variable (uuid : υ → String)

def objectKey (user : υ) : String := "avatars/" ++ uuid user

def servingPath (user : υ) : String := "/api/avatar/" ++ uuid user

/-- The response, and the URL when one is handed out. -/
def requestUploadUrl (now : ℕ) (user : υ) (contentType uploadUrl : Option String) :
    Response × Option PresignedPut :=
  let contentType := contentType.getD ""
  if contentType ∉ allowedContentTypes then (badRequest "invalid_content_type", none)
  else match uploadUrl with
    | some uploadUrl => (.json 200 [("uploadUrl", uploadUrl), ("contentType", contentType)],
        some ⟨objectKey uuid user, contentType, now + presignedUrlExpiry⟩)
    | none => (internalError, none)

/-- `confirm_upload` after its HEAD, which has failed or has found an object or none. -/
def afterHead : Option (Option ℕ) → Awaits
  | none => .returned internalError
  | some none => .returned notFound
  | some (some contentLength) => if maxAvatarBytes < contentLength then .delete else .update

/-- `confirm_upload` after the deletion, whether or not it has succeeded. -/
def afterDelete : Awaits := .returned (badRequest "file_too_large")

def afterUpdate (user : υ) : Update → Awaits
  | .ok => .returned (.json 200 [("image", servingPath uuid user)])
  | .failed _ => .returned internalError

def Update.commits : Update → Bool
  | .ok => true
  | .failed committed => committed

/-- `get_avatar`, with the URL that `presigned_get_url` makes for a key. -/
def getAvatar (s : World υ) (answered : Bool) (presignedGetUrl : String → Option String)
    (user : υ) : Response :=
  if answered then
    match s.image user with
    | some (some _) =>
      match presignedGetUrl (objectKey uuid user) with
      | some url => if isHeaderValue url then .found url else internalError
      | none => internalError
    | _ => notFound
  else internalError

namespace World

def settle (s : World υ) (i : ℕ) (user : υ) (awaits : Awaits) : World υ :=
  { s with confirms := s.confirms.set i ⟨user, awaits⟩ }

def replace (s : World υ) (key : String) (object : Option Object) : World υ :=
  { s with bucket := Function.update s.bucket key object }

/-- `UPDATE users SET image = $1 WHERE id = $2` -/
def setImage [DecidableEq υ] (s : World υ) (path : String) (user : υ) : World υ :=
  { s with image := fun u => if u = user then (s.image u).map fun _ => some path else s.image u }

/-- No `confirm_upload` is in progress. -/
def Quiet (s : World υ) : Prop := ∀ c ∈ s.confirms, ∃ response, c.awaits = .returned response

end World

def step [DecidableEq υ] (s : World υ) : Action υ → Option (World υ)
  | .requestUploadUrl user contentType uploadUrl =>
    let (_, url) := requestUploadUrl uuid s.now user contentType uploadUrl
    some { s with issued := s.issued ++ url.toList }
  | .elapse seconds => some { s with now := s.now + seconds }
  | .put url contentType size =>
    if url ∈ s.issued ∧ s.now ≤ url.expiresAt ∧ contentType = url.contentType then
      some (s.replace url.key (some ⟨contentType, size⟩))
    else none
  | .confirmUpload user => some { s with confirms := s.confirms ++ [⟨user, .head⟩] }
  | .head i answered =>
    match s.confirms[i]? with
    | some ⟨user, .head⟩ =>
      let answer := if answered then some ((s.bucket (objectKey uuid user)).map Object.size) else none
      some (s.settle i user (afterHead answer))
    | _ => none
  | .delete i deleted =>
    match s.confirms[i]? with
    | some ⟨user, .delete⟩ =>
      let s := if deleted then s.replace (objectKey uuid user) none else s
      some (s.settle i user afterDelete)
    | _ => none
  | .update i update =>
    match s.confirms[i]? with
    | some ⟨user, .update⟩ =>
      let s := if update.commits then s.setImage (servingPath uuid user) user else s
      some (s.settle i user (afterUpdate uuid user update))
    | _ => none

/-- No avatar is set and nothing is under way. -/
def machine [DecidableEq υ] : Machine (World υ) (Action υ) where
  init s := (∀ user, (s.image user).join = none) ∧ s.issued = [] ∧ s.confirms = []
  step := step uuid

end

end Epistl.Avatars
