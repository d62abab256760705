import Epistl.Runs.Machine
import Epistl.Text.Json
import Epistl.Text.JsonGrammar
import Epistl.Text.LineReader

/-! # Frames on a QUIC stream

The two ends of the control stream, `packages/quic-relay-client/src/lib.rs` and
`apps/api/src/quic.rs`. A write of a stream takes some of the bytes; after one that fails every
later one fails. What becomes of the bytes is left to the reader.
-/
namespace Epistl.Quic
open Text Text.JsonGrammar Text.LineReader
variable {υ σ : Type*}

/-- A text as `serde_json` and `JSON.stringify` write it, with every line break escaped. -/
structure JsonText where
  text : List Char
  isValue : Derives .value text
  newline_notMem : '\n' ∉ text

namespace JsonText

theorem trimmed (f : JsonText) : trimEnd isLineEnd f.text = f.text := by
  have hend := f.isValue.value_ends.2.2
  refine List.rdropWhile_eq_self_iff.mpr fun hne hlast => ?_
  have hspace := hend _ (List.getLast?_eq_some_getLast hne)
  simp only [isSpace, isLineEnd, Bool.or_eq_true, Bool.or_eq_false_iff, decide_eq_true_eq,
    decide_eq_false_iff_not] at hspace hlast
  rcases hlast with hlast | hlast
  · exact hspace.2 hlast
  · exact hspace.1.2 hlast

def line (f : JsonText) : Line := ⟨f.text, f.newline_notMem, f.trimmed⟩

end JsonText

/-- How `serde_json` writes a character of a string. -/
def escapeChar (c : Char) : List Char :=
  if c = '"' then ['\\', '"']
  else if c = '\\' then ['\\', '\\']
  else if c = '\x08' then ['\\', 'b']
  else if c = '\x0c' then ['\\', 'f']
  else if c = '\n' then ['\\', 'n']
  else if c = '\r' then ['\\', 'r']
  else if c = '\t' then ['\\', 't']
  else if c.toNat < 0x20 then
    ['\\', 'u', '0', '0', (c.toNat / 16).digitChar, (c.toNat % 16).digitChar]
  else [c]

def jsonString (s : List Char) : List Char := '"' :: s.flatMap escapeChar ++ ['"']

def jsonMember (key value : List Char) : List Char := jsonString key ++ ':' :: value

/-- `json!` sorts the keys. -/
def authText (token : List Char) : List Char :=
  '\x7b' :: (jsonMember "token".toList (jsonString token) ++ ',' ::
    jsonMember "type".toList (jsonString "auth".toList)) ++ ['\x7d']

def buildAuthFrame (token : List Char) : List Char := authText token ++ ['\n']

theorem isHex_digitChar : ∀ n < 16, isHex n.digitChar = true := by decide

theorem characters_escapeChar {c : Char} {s : List Char} (hs : Characters s) :
    Characters (escapeChar c ++ s) := by
  unfold escapeChar
  have hescaped {d : Char} (hd : d ∈ ['"', '\\', '/', 'b', 'f', 'n', 'r', 't']) :
      Characters (['\\', d] ++ s) := .escape hd hs
  split_ifs with hquote hescape _ _ _ _ _ hlow
  iterate 7 exact hescaped (by decide)
  · exact .unicode (by decide) (by decide) (isHex_digitChar _ (by omega)) (isHex_digitChar _ (by omega)) hs
  · exact .plain (by omega) hquote hescape hs

theorem characters_flatMap (s : List Char) : Characters (s.flatMap escapeChar) := by
  induction s with
  | nil => exact .nil
  | cons c s ih => exact characters_escapeChar ih

theorem newline_notMem_characters {s : List Char} (h : Characters s) : '\n' ∉ s := by
  have hhex : isHex '\n' = false := by decide
  induction h with
  | nil => exact List.not_mem_nil
  | plain hlow _ _ _ ih =>
    rw [List.mem_cons, not_or]
    refine ⟨?_, ih⟩
    rintro rfl
    exact absurd hlow (by decide)
  | escape hc _ ih =>
    simp only [List.mem_cons, not_or]
    refine ⟨by decide, ?_, ih⟩
    rintro rfl
    exact absurd hc (by decide)
  | unicode ha hb hc hd _ ih =>
    have hne {c : Char} (hc : isHex c = true) : '\n' ≠ c := by
      rintro rfl
      rw [hhex] at hc
      cases hc
    simp only [List.mem_cons, not_or]
    exact ⟨by decide, by decide, hne ha, hne hb, hne hc, hne hd, ih⟩

theorem derives_jsonString (s : List Char) : Derives .value (jsonString s) :=
  .string (characters_flatMap s)

theorem derives_jsonMember {value : List Char} (key : List Char) (h : Derives .value value) :
    Derives .member (jsonMember key value) := by
  have hnone : Spaces [] := fun _ hc => absurd hc List.not_mem_nil
  have hvalue : Derives .element value := by
    simpa using Derives.element hnone h hnone
  simpa [jsonMember, jsonString] using Derives.member hnone (characters_flatMap key) hnone hvalue

theorem newline_notMem_jsonString (s : List Char) : '\n' ∉ jsonString s := by
  have hs := newline_notMem_characters (characters_flatMap s)
  simp [jsonString, hs]

/-- The frame of `build_auth_frame`. -/
def authFrame (token : List Char) : JsonText where
  text := authText token
  isValue := .object (.moreMembers (derives_jsonMember _ (derives_jsonString token))
    (.lastMember (derives_jsonMember _ (derives_jsonString _))))
  newline_notMem := by
    simp [authText, jsonMember, newline_notMem_jsonString]

theorem encodeUtf8_buildAuthFrame (token : List Char) :
    encodeUtf8 (buildAuthFrame token) = (authFrame token).line.bytes := by
  rw [buildAuthFrame, encodeUtf8_append, encodeUtf8_newline]
  rfl

/-- The two `write_all`s of a line. -/
inductive Write where
  /-- of the text, with what is left of it -/
  | body (rest : List UInt8)
  /-- of the newline -/
  | delimiter

namespace Write

def start (f : JsonText) : Write := .body (encodeUtf8 f.text)

/-- The stream takes up to `n` bytes. -/
def next (n : ℕ) : Write → Option (List UInt8 × Option Write)
  | body rest =>
    if rest.length ≤ n then some (rest, some delimiter) else some (rest.take n, some (body (rest.drop n)))
  | delimiter => some ([newline], none)

end Write

/-- How far a call of `send_frame` is. -/
inductive Phase where
  /-- in `lock` -/
  | locking
  | writing (w : Write)
  | returned (ok : Bool)

structure Call where
  frame : JsonText
  phase : Phase

/-- A `QuicConnection` with the calls of `send` on it. -/
structure Client where
  calls : List Call
  /-- the call that holds the lock of the stream -/
  lock : Option ℕ
  written : List UInt8
  failed : Bool

inductive Send where
  | call (frame : JsonText)
  | lock (i : ℕ)
  | write (i n : ℕ)
  | fail (i : ℕ)

namespace Client

/-- The call goes on, and has dropped the lock when it has returned. -/
def settle (s : Client) (i : ℕ) (frame : JsonText) (phase : Phase) : Client :=
  { s with
    calls := s.calls.set i ⟨frame, phase⟩
    lock := match phase with
      | .returned _ => none
      | _ => s.lock }

def step (s : Client) : Send → Option Client
  | .call frame => some { s with calls := s.calls ++ [⟨frame, .locking⟩] }
  | .lock i =>
    match s.calls[i]?, s.lock with
    | some ⟨frame, .locking⟩, none =>
      some ({ s with lock := some i }.settle i frame (.writing (.start frame)))
    | _, _ => none
  | .write i n =>
    match s.calls[i]?, s.failed with
    | some ⟨frame, .writing w⟩, false =>
      (w.next n).map fun (bytes, w) =>
        { s with written := s.written ++ bytes }.settle i frame (w.elim (.returned true) .writing)
    | _, _ => none
  | .fail i =>
    match s.calls[i]? with
    | some ⟨frame, .writing _⟩ => some ({ s with failed := true }.settle i frame (.returned false))
    | _ => none

/-- The calls of `send` after a `connect` that has written its frame. -/
def machine (token : List Char) : Machine Client Send where
  init s := s = ⟨[], none, encodeUtf8 (buildAuthFrame token), false⟩
  step := step

end Client

/-- What is sent into the channel of a connection. -/
inductive Frame where
  | text (f : JsonText)
  | close (code : UInt16) (reason : String)

/-- How far `forward_frames` is. -/
inductive Task where
  | receiving
  | writing (f : JsonText) (w : Write)
  /-- with the code and the reason of `connection.close` -/
  | ended (close : Option (UInt16 × String))

structure Forwarder where
  /-- everything that was sent into the channel -/
  pushed : List Frame
  /-- what was not received yet -/
  queue : List Frame
  task : Task
  written : List UInt8

inductive Forward where
  | push (frame : Frame)
  | receive
  | write (n : ℕ)
  | fail
  /-- `forward_task.abort()`, or the end of the channel -/
  | abort

namespace Forwarder

/-- The task has ended, and has dropped its end of the channel. -/
def close (s : Forwarder) (reason : Option (UInt16 × String)) : Forwarder :=
  { s with queue := [], task := .ended reason }

def step (s : Forwarder) : Forward → Option Forwarder
  | .push frame =>
    match s.task with
    | .ended _ => none
    | _ => some { s with pushed := s.pushed ++ [frame], queue := s.queue ++ [frame] }
  | .receive =>
    match s.task, s.queue with
    | .receiving, .text f :: queue => some { s with queue, task := .writing f (.start f) }
    | .receiving, .close code reason :: _ => some (s.close (some (code, reason)))
    | _, _ => none
  | .write n =>
    match s.task with
    | .writing f w =>
      (w.next n).map fun (bytes, w) =>
        { s with written := s.written ++ bytes, task := w.elim .receiving (.writing f) }
    | _ => none
  | .fail =>
    match s.task with
    | .writing _ _ => some (s.close none)
    | _ => none
  | .abort =>
    match s.task with
    | .ended _ => none
    | _ => some (s.close none)

def machine : Machine Forwarder Forward where
  init s := s = ⟨[], [], .receiving, []⟩
  step := step

end Forwarder

structure Listener (σ : Type*) where
  onFrame : σ → List Char → σ
  onClosed : σ → String → σ

/-- `run_reader_loop`, with the description of the connection's close reason. -/
def runReaderLoop (listener : Listener σ) (closeReason : Option String) (s : σ) (r : Reader) : σ :=
  listener.onClosed (readLoop (fun s frame => (listener.onFrame s frame, true)) s r)
    (closeReason.getD "control stream ended")

section Server
variable (fromStr : List Char → Option Json) (authenticateToken : String → Option υ)

/-- The user of an auth frame. -/
def authenticateFrame (text : List Char) : Option υ :=
  (fromStr text).bind fun parsed =>
    if (parsed.get "type").bind Json.asStr = some "auth" then
      ((parsed.get "token").bind Json.asStr).bind authenticateToken
    else none

def authenticateFirstFrame (r : Reader) : Option (υ × Reader) :=
  match readLine r with
  | none => none
  | some ([], _) => none
  | some (line, rest) =>
    (authenticateFrame fromStr authenticateToken (trimEnd isLineEnd line)).map fun user => (user, rest)

/-- What `handle_connection` has done with the frames when its loop ends, after an auth frame. -/
def handleConnection (handleClientFrame : υ → σ → List Char → σ × Bool) (s : σ) (r : Reader) :
    Option σ :=
  (authenticateFirstFrame fromStr authenticateToken r).map fun (user, rest) =>
    readLoop (handleClientFrame user) s rest

end Server

end Epistl.Quic
