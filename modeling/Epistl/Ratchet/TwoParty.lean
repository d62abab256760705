import Epistl.Runs.Machine
import Epistl.Runs.Taken
import Epistl.Ratchet.Handshake

/-! # Two devices and the network between them

The network may hand a device any envelope the other one ever produced, any number
of times. In order delivery is a guard on the runs, as is the freshness of keys.
-/
namespace Epistl
variable {S : Suite}

inductive Party where
  | alice
  | bob
  deriving Repr, DecidableEq

def Party.other : Party → Party
  | .alice => .bob
  | .bob => .alice

@[simp] theorem Party.other_other (p : Party) : p.other.other = p := by cases p <;> rfl

@[simp] theorem Party.other_ne (p : Party) : p.other ≠ p := by cases p <;> decide

@[simp] theorem Party.ne_other (p : Party) : p ≠ p.other := by cases p <;> decide

/-- One call of a decoder: which envelope of the peer it got, and what came out. -/
structure Delivery (S : Suite) where
  index : ℕ
  result : Except Thrown (DecodeResult S)

/-- The position of the envelope, when the call accepted it. -/
def Delivery.accepted (d : Delivery S) : Option ℕ :=
  match d.result with
  | .ok (.success _ _) => some d.index
  | _ => none

structure Side (S : Suite) where
  session : Option (RatchetState S)
  produced : List Sent
  deliveries : List (Delivery S)

namespace Side

def keys (s : Side S) : List Bytes := s.produced.map Sent.dhPublicKey

/-- The positions of the peer's envelopes this side accepted, in the order it did. -/
def accepted (s : Side S) : List ℕ := s.deliveries.filterMap Delivery.accepted

/-- Storing a successful decode's state; any other outcome leaves the session alone. -/
def receive (s : Side S) (d : Delivery S) : Side S where
  session := match d.result with
    | .ok (.success _ next) => some next
    | _ => s.session
  produced := s.produced
  deliveries := s.deliveries ++ [d]

def send (s : Side S) (next : RatchetState S) (m : Sent) : Side S where
  session := some next
  produced := s.produced ++ [m]
  deliveries := s.deliveries

end Side

/-- Both sides, and every X25519 secret generated so far. -/
structure TwoParty (S : Suite) where
  side : Party → Side S
  used : List S.X25519Secret

namespace TwoParty
variable (who : Party → Identity S)

inductive Action (S : Suite) where
  | initiate (ea : S.X25519Secret) (kemRandom plaintext : Bytes) (random : EncodeRandom)
  | send (p : Party) (plaintext : Bytes) (random : EncodeRandom)
  | deliver (p : Party) (index : ℕ) (newDhs : S.X25519Secret)

/-- The decoder a device calls: for a handshake until it has a session. -/
def decode (p : Party) (session : Option (RatchetState S)) (envelope : Bytes)
    (newDhs : S.X25519Secret) : Except Thrown (DecodeResult S) :=
  match session with
  | none => decodeHandshakeEnvelope envelope ((who p.other).handshakeParams (who p)) newDhs
  | some state =>
    decodeRatchetEnvelope envelope (((who p.other).toward (who p)).params state) newDhs

/-- The first send: a handshake envelope on a new session. -/
def initiate (a b : Identity S) (ea : S.X25519Secret) (kemRandom plaintext : Bytes)
    (random : EncodeRandom) : Except Thrown (RatchetState S × Sent) := do
  let opened ← initiateSession b.userId a.userId b.bundle ea kemRandom
  let sending ← deriveNextSendingMessageKey opened.state
  let envelope := encodeHandshakeEnvelope opened.ea opened.kyberCiphertext sending.messageKey
    plaintext a.userId b.userId a.dilithiumSecretKey random
  return (sending.nextState, ⟨envelope, sending.header.dhPublicKey, plaintext⟩)

/-- Every later send. -/
def sendOn (a b : Identity S) (state : RatchetState S) (plaintext : Bytes)
    (random : EncodeRandom) : Except Thrown (RatchetState S × Sent) := do
  let sending ← deriveNextSendingMessageKey state
  let envelope := encodeRatchetEnvelope sending.header sending.messageKey plaintext a.userId
    b.userId a.dilithiumSecretKey random
  return (sending.nextState, ⟨envelope, sending.header.dhPublicKey, plaintext⟩)

def start : TwoParty S where
  side := fun _ => ⟨none, [], []⟩
  used := [(who .alice).x25519SecretKey, (who .bob).x25519SecretKey]

def step (s : TwoParty S) : Action S → Option (TwoParty S)
  | .initiate ea kemRandom plaintext random =>
    match (s.side .alice).session, initiate (who .alice) (who .bob) ea kemRandom plaintext random with
    | none, .ok (next, m) =>
      some ⟨Function.update s.side .alice ((s.side .alice).send next m), ea :: s.used⟩
    | _, _ => none
  | .send p plaintext random =>
    match (s.side p).session with
    | none => none
    | some state =>
      match sendOn (who p) (who p.other) state plaintext random with
      | .error _ => none
      | .ok (next, m) => some ⟨Function.update s.side p ((s.side p).send next m), s.used⟩
  | .deliver p index newDhs =>
    match (s.side p.other).produced[index]? with
    | none => none
    | some m =>
      let result := decode who p (s.side p).session m.envelope newDhs
      some ⟨Function.update s.side p ((s.side p).receive ⟨index, result⟩), newDhs :: s.used⟩

variable {who} {s t : TwoParty S}

theorem step_initiate {ea : S.X25519Secret} {kemRandom plaintext : Bytes} {random : EncodeRandom}
    (he : step who s (.initiate ea kemRandom plaintext random) = some t) :
    ∃ next m, (s.side .alice).session = none ∧
      initiate (who .alice) (who .bob) ea kemRandom plaintext random = .ok (next, m) ∧
      t = ⟨Function.update s.side .alice ((s.side .alice).send next m), ea :: s.used⟩ := by
  simp only [step] at he
  split at he
  · rename_i next m hsession hinit
    exact ⟨next, m, hsession, hinit, (Option.some.inj he).symm⟩
  · cases he

theorem step_send {p : Party} {plaintext : Bytes} {random : EncodeRandom}
    (he : step who s (.send p plaintext random) = some t) :
    ∃ state next m, (s.side p).session = some state ∧
      sendOn (who p) (who p.other) state plaintext random = .ok (next, m) ∧
      t = ⟨Function.update s.side p ((s.side p).send next m), s.used⟩ := by
  simp only [step] at he
  split at he
  · cases he
  · rename_i state hstate
    split at he
    · cases he
    · rename_i next m hsend
      exact ⟨state, next, m, hstate, hsend, (Option.some.inj he).symm⟩

theorem step_deliver {p : Party} {index : ℕ} {newDhs : S.X25519Secret}
    (he : step who s (.deliver p index newDhs) = some t) :
    ∃ m, (s.side p.other).produced[index]? = some m ∧
      t = ⟨Function.update s.side p ((s.side p).receive
        ⟨index, decode who p (s.side p).session m.envelope newDhs⟩), newDhs :: s.used⟩ := by
  simp only [step] at he
  split at he
  · cases he
  · rename_i m hm
    exact ⟨m, hm, (Option.some.inj he).symm⟩

theorem initiate_enabled {ea : S.X25519Secret} {kemRandom plaintext : Bytes}
    {random : EncodeRandom} {next : RatchetState S} {m : Sent}
    (hsession : (s.side .alice).session = none)
    (h : initiate (who .alice) (who .bob) ea kemRandom plaintext random = .ok (next, m)) :
    step who s (.initiate ea kemRandom plaintext random) =
      some ⟨Function.update s.side .alice ((s.side .alice).send next m), ea :: s.used⟩ := by
  simp only [step, hsession, h]

theorem send_enabled {p : Party} {plaintext : Bytes} {random : EncodeRandom}
    {state next : RatchetState S} {m : Sent} (hsession : (s.side p).session = some state)
    (h : sendOn (who p) (who p.other) state plaintext random = .ok (next, m)) :
    step who s (.send p plaintext random) =
      some ⟨Function.update s.side p ((s.side p).send next m), s.used⟩ := by
  simp only [step, hsession, h]

theorem deliver_enabled {p : Party} {index : ℕ} (newDhs : S.X25519Secret) {m : Sent}
    (h : (s.side p.other).produced[index]? = some m) :
    step who s (.deliver p index newDhs) =
      some ⟨Function.update s.side p ((s.side p).receive
        ⟨index, decode who p (s.side p).session m.envelope newDhs⟩), newDhs :: s.used⟩ := by
  simp only [step, h]

variable (who)

def machine : Machine (TwoParty S) (Action S) where
  init s := s = start who
  step := step who

/-- Every key generation is fresh. -/
def Fresh (s : TwoParty S) : Action S → Prop
  | .initiate ea _ _ _ => ea ∉ s.used
  | .send _ _ _ => True
  | .deliver _ _ newDhs => newDhs ∉ s.used

/-- Each direction delivers in order without loss or repetition. -/
def InOrder (s : TwoParty S) (a : Action S) : Prop :=
  Fresh s a ∧ match a with
    | .deliver p index _ => index = (s.side p).deliveries.length
    | _ => True

end TwoParty

end Epistl
