import Epistl.Runs.Machine
import Mathlib.Algebra.Group.Nat.Defs

/-! # The client's transport store

Each attempt dials QUIC and falls back to a WebSocket. Attempts, sockets, timers and
token fetches are numbered in the order in which they start and stay in the state, since
their callbacks may come at any later time. A step is one callback or one action.
-/
namespace Epistl.Transport

inductive Status
  | connecting
  | connected
  | reconnecting
  | disconnected
  deriving Repr, DecidableEq

inductive Driver
  | ws
  | quic
  deriving Repr, DecidableEq

/-- A connection: a socket, or the QUIC connection of an attempt. -/
inductive Conn
  | ws (k : ℕ)
  | quic (a : ℕ)
  deriving Repr, DecidableEq

/-- How far `connectQuic` is: the native reader starts when the connection is established,
and the promise resolves after that. -/
inductive Dial
  | dialing
  | established
  | resolved
  | rejected
  deriving Repr, DecidableEq

/-- The variables of one `attemptConnect` call after it has its token. -/
structure Attempt where
  generation : ℕ
  settled : Bool
  ws : Option ℕ
  wsDiscarded : Bool
  /-- the timer is armed -/
  quicTimer : Bool
  dial : Dial
  /-- the timer has fired -/
  timedOut : Bool
  /-- the driver with which the attempt was settled -/
  winner : Option Driver
  /-- `onClosed` was called -/
  ended : Bool
  /-- `conn.close()` was called -/
  dropped : Bool
  deriving Repr, DecidableEq

structure Socket where
  attempt : ℕ
  opened : Bool
  /-- `close()` was called -/
  closing : Bool
  /-- the close event was fired -/
  ended : Bool
  deriving Repr, DecidableEq

/-- A reconnect timer, or a `getToken()` call. -/
structure Pending where
  generation : ℕ
  pending : Bool
  deriving Repr, DecidableEq

structure Store (φ : Type) where
  status : Status
  activeTransport : Option Driver
  lastFrame : Option φ
  socket : Option ℕ
  quicConnection : Option ℕ
  reconnectTimer : Option ℕ
  backoffMs : ℕ
  closed : Bool
  generation : ℕ
  attempts : List Attempt
  sockets : List Socket
  timers : List Pending
  fetches : List Pending
  /-- the connection that set `'connected'` last -/
  connectedBy : Option Conn
  /-- since `connect()` the token was null or a transport reported an unauthorized close -/
  refused : Bool

/-- How `getToken()` ends: with a token, without one, or rejected. -/
inductive Token
  | fetched
  | missing
  | rejected
  deriving Repr, DecidableEq

/-- What happens. A frame is `none` when it is not valid JSON. -/
inductive Event (φ : Type)
  | connect
  | close
  | token (f : ℕ) (token : Token)
  | reconnect (t : ℕ)
  | quicTimeout (a : ℕ)
  | quicEstablished (a : ℕ)
  | quicResolved (a : ℕ)
  | quicRejected (a : ℕ)
  | quicFrame (a : ℕ) (frame : Option φ)
  | quicClosed (a : ℕ) (authFailed : Bool)
  | wsOpen (k : ℕ)
  | wsMessage (k : ℕ) (frame : Option φ)
  | wsClose (k : ℕ) (code : ℕ)
  deriving Repr, DecidableEq

def closeUnauthorized : ℕ := 4001

def initialBackoffMs : ℕ := 1000

def maxBackoffMs : ℕ := 30000

namespace Attempt

/-- A new attempt: its timer is armed and QUIC is dialed. -/
def begin (generation : ℕ) : Attempt where
  generation := generation
  settled := false
  ws := none
  wsDiscarded := false
  quicTimer := true
  dial := .dialing
  timedOut := false
  winner := none
  ended := false
  dropped := false

/-- An attempt that QUIC has won. -/
def wonByQuic (A : Attempt) : Attempt :=
  { A with
    settled := true
    winner := some .quic
    quicTimer := false
    wsDiscarded := A.wsDiscarded || A.ws.isSome }

/-- An attempt that its WebSocket has won. -/
def wonByWs (A : Attempt) : Attempt := { A with settled := true, winner := some .ws }

/-- `connectQuic` has not come to an end. -/
def quicPending (A : Attempt) : Bool :=
  match A.dial with
  | .dialing => true
  | .established => true
  | .resolved => false
  | .rejected => false

end Attempt

/-- `close()` on a socket, when there is one. -/
def closing (ws : Option ℕ) (sockets : List Socket) : List Socket :=
  match ws with
  | none => sockets
  | some k => sockets.modify k fun S => { S with closing := true }

/-- `close()` on the QUIC connection of an attempt, when there is one. -/
def dropping (quic : Option ℕ) (attempts : List Attempt) : List Attempt :=
  match quic with
  | none => attempts
  | some a => attempts.modify a fun A => { A with dropped := true }

namespace Store
variable {φ : Type}

def start : Store φ where
  status := .disconnected
  activeTransport := none
  lastFrame := none
  socket := none
  quicConnection := none
  reconnectTimer := none
  backoffMs := initialBackoffMs
  closed := true
  generation := 0
  attempts := []
  sockets := []
  timers := []
  fetches := []
  connectedBy := none
  refused := false

/-- `stale()` in attempt `a` of a generation. -/
def stale (s : Store φ) (a generation : ℕ) : Bool :=
  s.closed || decide (generation ≠ s.generation) || decide (a + 1 ≠ s.attempts.length)

/-- `thisQuicConn` in attempt `a`. -/
def thisQuicConn (a : ℕ) (A : Attempt) : Option ℕ :=
  match A.dial with
  | .dialing => none
  | .established => none
  | .resolved => some a
  | .rejected => none

/-- The test at the top of `onFrame` and `onClosed`. -/
def ignoresQuic (s : Store φ) (a : ℕ) (A : Attempt) : Bool :=
  s.closed || decide (A.generation ≠ s.generation) || decide (s.quicConnection ≠ thisQuicConn a A)

def setAttempt (s : Store φ) (a : ℕ) (A : Attempt) : Store φ :=
  { s with attempts := s.attempts.set a A }

def setSocket (s : Store φ) (k : ℕ) (S : Socket) : Store φ :=
  { s with sockets := s.sockets.set k S }

/-- `close()` on socket `k`. -/
def closeSocket (s : Store φ) (k : ℕ) : Store φ := { s with sockets := closing (some k) s.sockets }

/-- `socket` forgets socket `k`. -/
def clearSocket (s : Store φ) (k : ℕ) : Store φ :=
  { s with socket := if s.socket = some k then none else s.socket }

/-- Notes whether an unauthorized close was reported. -/
def report (s : Store φ) (r : Bool) : Store φ := { s with refused := s.refused || r }

/-- `attemptConnect`, up to its `await getToken()`. -/
def attemptConnect (s : Store φ) (generation : ℕ) : Store φ :=
  if s.closed = true ∨ generation ≠ s.generation then s
  else { s with fetches := s.fetches ++ [⟨generation, true⟩] }

def scheduleReconnect (s : Store φ) (generation : ℕ) : Store φ :=
  if s.closed = true ∨ generation ≠ s.generation then s
  else { s with
    status := .reconnecting
    backoffMs := min (s.backoffMs * 2) maxBackoffMs
    reconnectTimer := some s.timers.length
    timers := s.timers ++ [⟨generation, true⟩] }

/-- What `connect` and `close` do with a scheduled reconnect. -/
def clearReconnect (s : Store φ) : Store φ :=
  match s.reconnectTimer with
  | none => s
  | some t => { s with
      timers := s.timers.modify t fun T => { T with pending := false }
      reconnectTimer := none }

/-- A terminal end: `'disconnected'`, with no reconnect. -/
def disconnect (s : Store φ) : Store φ :=
  { s with status := .disconnected, activeTransport := none }

/-- The mid-session end of a connection of the given generation. -/
def reconnectFrom (s : Store φ) (generation : ℕ) : Store φ :=
  { s with activeTransport := none }.scheduleReconnect generation

def startWs (s : Store φ) (a : ℕ) (A : Attempt) : Store φ :=
  if (s.stale a A.generation || A.settled) = true then s
  else { s.setAttempt a { A with ws := some s.sockets.length } with
    sockets := s.sockets ++ [⟨a, false, false, false⟩]
    socket := some s.sockets.length }

def finishWithQuic (s : Store φ) (a : ℕ) (A : Attempt) : Store φ :=
  { s.setAttempt a A.wonByQuic with
    quicConnection := some a
    sockets := if A.wsDiscarded = true then s.sockets else closing A.ws s.sockets
    socket := if A.ws ≠ none ∧ s.socket = A.ws then none else s.socket
    backoffMs := initialBackoffMs
    status := .connected
    activeTransport := some .quic
    connectedBy := some (.quic a) }

/-- `finishWithWs`, with the socket `k` that opened. -/
def finishWithWs (s : Store φ) (a k : ℕ) (A : Attempt) : Store φ :=
  { s.setAttempt a A.wonByWs with
    backoffMs := initialBackoffMs
    status := .connected
    activeTransport := some .ws
    connectedBy := some (.ws k) }

def giveUp (s : Store φ) (a : ℕ) (A : Attempt) : Store φ :=
  (s.setAttempt a { A with settled := true }).reconnectFrom A.generation

/-- `attemptConnect` goes on after `await getToken()`. -/
def token (s : Store φ) (generation : ℕ) : Token → Store φ
  | .rejected => s
  | .missing =>
    if s.closed = true ∨ generation ≠ s.generation then s
    else { s.disconnect with refused := true }
  | .fetched =>
    if s.closed = true ∨ generation ≠ s.generation then s
    else { s with attempts := s.attempts ++ [.begin generation] }

/-- The callback of `quicTimer`. -/
def quicTimeout (s : Store φ) (a : ℕ) (A : Attempt) : Store φ :=
  let A := { A with quicTimer := false, timedOut := true }
  let s := s.setAttempt a A
  if (s.stale a A.generation || A.settled) = true then s else s.startWs a A

/-- The success handler of `connectQuic`. -/
def quicResolved (s : Store φ) (a : ℕ) (A : Attempt) : Store φ :=
  let A := { A with dial := .resolved, quicTimer := false }
  if (s.stale a A.generation || A.settled) = true then s.setAttempt a { A with dropped := true }
  else s.finishWithQuic a A

/-- The rejection handler of `connectQuic`. -/
def quicRejected (s : Store φ) (a : ℕ) (A : Attempt) : Store φ :=
  let A := { A with dial := .rejected }
  let s := s.setAttempt a A
  if s.stale a A.generation = true then s
  else
    let A := { A with quicTimer := false }
    let s := s.setAttempt a A
    if A.settled = true then s else s.startWs a A

def onFrame (s : Store φ) (a : ℕ) (A : Attempt) : Option φ → Store φ
  | none => s
  | some frame => if s.ignoresQuic a A = true then s else { s with lastFrame := some frame }

def onClosed (s : Store φ) (a : ℕ) (A : Attempt) (authFailed : Bool) : Store φ :=
  let s := (s.setAttempt a { A with ended := true }).report
    (authFailed && decide (A.generation = s.generation))
  if s.ignoresQuic a A = true then s
  else
    let s := { s with quicConnection := none }
    if authFailed = true then s.disconnect else s.reconnectFrom A.generation

def onopen (s : Store φ) (k : ℕ) (S : Socket) (A : Attempt) : Store φ :=
  let s := s.setSocket k { S with opened := true }
  if s.stale S.attempt A.generation = true then s.closeSocket k
  else if A.settled = true then
    (s.setAttempt S.attempt { A with wsDiscarded := true }).closeSocket k
  else s.finishWithWs S.attempt k A

def onmessage (s : Store φ) (S : Socket) (A : Attempt) : Option φ → Store φ
  | none => s
  | some frame =>
    if (s.stale S.attempt A.generation || A.wsDiscarded) = true then s
    else { s with lastFrame := some frame }

def onclose (s : Store φ) (k : ℕ) (S : Socket) (A : Attempt) (code : ℕ) : Store φ :=
  let s := ((s.setSocket k { S with ended := true }).clearSocket k).report
    (decide (code = closeUnauthorized ∧ A.generation = s.generation))
  if (s.stale S.attempt A.generation || A.wsDiscarded) = true then s
  else if A.settled = true then
    if code = closeUnauthorized then s.disconnect else s.reconnectFrom A.generation
  else if code = closeUnauthorized then
    (s.setAttempt S.attempt { A with settled := true }).disconnect
  else s.giveUp S.attempt A

def connect (s : Store φ) : Store φ :=
  let s := { s with
    closed := false
    generation := s.generation + 1
    backoffMs := initialBackoffMs
    refused := false }.clearReconnect
  { s with status := .connecting, activeTransport := none }.attemptConnect s.generation

def close (s : Store φ) : Store φ :=
  let s := { s with closed := true, generation := s.generation + 1 }.clearReconnect
  { s with
    sockets := closing s.socket s.sockets
    socket := none
    attempts := dropping s.quicConnection s.attempts
    quicConnection := none }.disconnect

/-- The connection that `send` hands a frame to. -/
def sendTarget (s : Store φ) : Option Conn :=
  match s.activeTransport, s.quicConnection with
  | some .quic, some a => some (.quic a)
  | _, _ => s.socket.map .ws

/-- The reader calls back only while the connection is up. -/
def reads (A : Attempt) : Prop := (A.dial = .established ∨ A.dial = .resolved) ∧ A.ended = false

instance (A : Attempt) : Decidable (reads A) := inferInstanceAs (Decidable (_ ∧ _))

/-- Runs the callback of attempt `a`, when it is enabled. -/
def onAttempt (s : Store φ) (a : ℕ) (enabled : Attempt → Bool) (f : Attempt → Store φ) :
    Option (Store φ) :=
  s.attempts[a]?.bind fun A => if enabled A = true then some (f A) else none

/-- Runs a callback of socket `k`, when it is enabled. -/
def onSocket (s : Store φ) (k : ℕ) (enabled : Socket → Bool) (f : Socket → Attempt → Store φ) :
    Option (Store φ) :=
  s.sockets[k]?.bind fun S =>
    if enabled S = true then s.attempts[S.attempt]?.map (f S) else none

def step (s : Store φ) : Event φ → Option (Store φ)
  | .connect => some s.connect
  | .close => some s.close
  | .token f token => s.fetches[f]?.bind fun F =>
    if F.pending = true then
      some ({ s with fetches := s.fetches.set f { F with pending := false } }.token F.generation token)
    else none
  | .reconnect t => s.timers[t]?.bind fun T =>
    if T.pending = true then
      some ({ s with
        timers := s.timers.set t { T with pending := false }
        reconnectTimer := none }.attemptConnect T.generation)
    else none
  | .quicTimeout a => s.onAttempt a (fun A => A.quicTimer) fun A => s.quicTimeout a A
  | .quicEstablished a => s.onAttempt a (fun A => decide (A.dial = .dialing)) fun A =>
    s.setAttempt a { A with dial := .established }
  | .quicResolved a => s.onAttempt a (fun A => decide (A.dial = .established)) fun A =>
    s.quicResolved a A
  | .quicRejected a => s.onAttempt a (fun A => decide (A.dial = .dialing)) fun A =>
    s.quicRejected a A
  | .quicFrame a frame => s.onAttempt a (fun A => decide (reads A)) fun A => s.onFrame a A frame
  | .quicClosed a authFailed => s.onAttempt a (fun A => decide (reads A)) fun A =>
    s.onClosed a A authFailed
  | .wsOpen k => s.onSocket k (fun S => !S.opened && !S.ended) fun S A => s.onopen k S A
  | .wsMessage k frame => s.onSocket k (fun S => S.opened && !S.ended) fun S A =>
    s.onmessage S A frame
  | .wsClose k code => s.onSocket k (fun S => !S.ended) fun S A => s.onclose k S A code

def machine (φ : Type) : Machine (Store φ) (Event φ) where
  init s := s = start
  step := step

end Store

end Epistl.Transport
