import Epistl.Deletion.Phone

/-! # The stored identity over many attempts

`ensureLocalIdentity` reads six entries, generates an identity when one is missing and
writes six, all of them side by side. A write can fail: the promise is rejected at the first
failure and the next call tries again, while what else was being written goes on. Every
entry is kept with the attempt that wrote it.
-/
namespace Epistl.Identities
open Deletion
variable {S : Suite}

/-- A stored value and the attempt that wrote it. -/
structure Entry (S : Suite) (name : KeyName) where
  attempt : ℕ
  value : name.Value S

/-- The six entries of the `SecureStore`. -/
abbrev Entries (S : Suite) : Type := (name : KeyName) → Option (Entry S name)

/-- All six are there. -/
def Entries.Full (store : Entries S) : Prop := ∀ name, store name ≠ none

inductive Stage (S : Suite)
  /-- with the entries that were read -/
  | loading (read : (name : KeyName) → Option (Option (name.Value S)))
  /-- with the writes that are not back -/
  | persisting (left : List KeyName)
  | resolved (keys : IdentityKeys S)
  /-- one write has failed; `left` are those not back -/
  | rejected (left : List KeyName)
  /-- the process is gone -/
  | lost

/-- The promise of `ensureLocalIdentity` is this attempt's. -/
def Stage.active : Stage S → Bool
  | loading _ | persisting _ => true
  | resolved _ | rejected _ | lost => false

/-- The writes that are not back. -/
def Stage.out : Stage S → List KeyName
  | persisting left | rejected left => left
  | loading _ | resolved _ | lost => []

/-- An `ensureLocalIdentityUncached`, with what its `generateIdentity` returned. -/
structure Attempt (S : Suite) where
  generated : Option (IdentityKeys S)
  stage : Stage S

/-- What it has read is no identity, so that it generates one. -/
def Attempt.generates (attempt : Attempt S) : Bool :=
  match attempt.stage with
  | .loading read => (storedKeys read).isNone
  | _ => false

structure Device (S : Suite) where
  store : Entries S
  attempts : List (Attempt S)
  inFlight : Option ℕ

inductive Action (S : Suite)
  | ensureLocalIdentity
  | readKey (i : ℕ) (name : KeyName)
  /-- all reads are back; the secrets are for an identity that has to be generated -/
  | loaded (i : ℕ) (kyber : S.KyberSecret) (dilithium : S.DilithiumSecret) (x25519 : S.X25519Secret)
  | write (i : ℕ) (name : KeyName) (succeeds : Bool)
  | restart

namespace Device

/-- The promise of attempt `i` settles. -/
def settle (s : Device S) (i : ℕ) (attempt : Attempt S) : Device S :=
  { s with attempts := s.attempts.set i attempt, inFlight := none }

/-- The attempt goes on, or has settled before. -/
def advance (s : Device S) (i : ℕ) (attempt : Attempt S) : Device S :=
  { s with attempts := s.attempts.set i attempt }

def put (s : Device S) (i : ℕ) (name : KeyName) (value : name.Value S) : Device S :=
  { s with store := Function.update s.store name (some ⟨i, value⟩) }

def readKey (s : Device S) (i : ℕ) (name : KeyName) (attempt : Attempt S) : Option (Device S) :=
  match attempt.stage with
  | .loading read =>
    if (read name).isSome then none
    else some (s.advance i ⟨attempt.generated,
      .loading (Function.update read name (some ((s.store name).map Entry.value)))⟩)
  | _ => none

def loaded (s : Device S) (i : ℕ) (identity : IdentityKeys S) (attempt : Attempt S) :
    Option (Device S) :=
  match attempt.stage with
  | .loading read =>
    if KeyName.all.all fun name => (read name).isSome then
      match storedKeys read with
      | some keys => some (s.settle i ⟨attempt.generated, .resolved keys⟩)
      | none => some (s.advance i ⟨some identity, .persisting KeyName.all⟩)
    else none
  | _ => none

/-- A write comes back. -/
def write (s : Device S) (i : ℕ) (name : KeyName) (succeeds : Bool) (attempt : Attempt S) :
    Option (Device S) :=
  match attempt.generated, attempt.stage with
  | some keys, .persisting left =>
    if name ∈ left then
      if succeeds then
        if left.erase name = [] then some ((s.put i name (keys name)).settle i ⟨some keys, .resolved keys⟩)
        else some ((s.put i name (keys name)).advance i ⟨some keys, .persisting (left.erase name)⟩)
      else some (s.settle i ⟨some keys, .rejected (left.erase name)⟩)
    else none
  | some keys, .rejected left =>
    if name ∈ left then
      if succeeds then
        some ((s.put i name (keys name)).advance i ⟨some keys, .rejected (left.erase name)⟩)
      else some (s.advance i ⟨some keys, .rejected (left.erase name)⟩)
    else none
  | _, _ => none

/-- What is left of an attempt when the process ends. -/
def drop (attempt : Attempt S) : Attempt S :=
  match attempt.stage with
  | .resolved keys => ⟨attempt.generated, .resolved keys⟩
  | _ => ⟨attempt.generated, .lost⟩

def step (s : Device S) : Action S → Option (Device S)
  | .ensureLocalIdentity =>
    match s.inFlight with
    | some _ => some s
    | none => some { s with
        attempts := s.attempts ++ [⟨none, .loading fun _ => none⟩]
        inFlight := some s.attempts.length }
  | .readKey i name => s.attempts[i]?.bind fun attempt => s.readKey i name attempt
  | .loaded i kyber dilithium x25519 => s.attempts[i]?.bind fun attempt =>
    s.loaded i (generateIdentity kyber dilithium x25519) attempt
  | .write i name succeeds => s.attempts[i]?.bind fun attempt => s.write i name succeeds attempt
  | .restart => some { s with attempts := s.attempts.map drop, inFlight := none }

/-- A device without an identity. -/
def fresh : Device S := ⟨fun _ => none, [], none⟩

end Device

def machine (S : Suite) : Machine (Device S) (Action S) where
  init s := s = Device.fresh
  step := Device.step

/-- Earlier calls have left no entry, and none of their writes is out. -/
structure Device.Clear (s : Device S) : Prop where
  store : ∀ name, s.store name = none
  out : ∀ attempt ∈ s.attempts, attempt.stage.out = []

/-- An identity is generated only where earlier calls have left nothing. -/
def Fit (s : Device S) : Action S → Prop
  | .loaded i _ _ _ => ∀ attempt ∈ s.attempts[i]?, attempt.generates = true → s.Clear
  | _ => True

end Epistl.Identities
