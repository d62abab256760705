import Epistl.Text.JsString
import Epistl.Runs.Machine
import Epistl.Users.RateLimit
import Epistl.Users.Search

/-! # Searching while typing

The search of `AddContactScreen` against the route it calls. React renders, timers fire, requests
are served or lost and their handlers run in any order, while the table of users changes. All
requests count in one rate limit.
-/
namespace Epistl.Users

/-- `MIN_QUERY_LENGTH`, in code units. -/
def minQueryLength : ℕ := 3

/-- How `searchUsers` of the client settles. -/
inductive Outcome
  | users (rows : List SearchUserRow)
  | rateLimited
  | failed
  deriving Repr, DecidableEq

/-- Where the search of an effect stands. -/
inductive Search
  | debouncing
  | sent
  | settled (outcome : Outcome)
  /-- `then` or `catch` has run, `finally` has not -/
  | handled (outcome : Outcome)
  | finished (outcome : Outcome)
  deriving Repr, DecidableEq

def Search.outcome : Search → Option Outcome
  | debouncing | sent => none
  | settled outcome | handled outcome | finished outcome => some outcome

/-- An effect that has set a timer. `began` is the number of the table at that time. -/
structure Effect where
  query : JsString
  began : ℕ
  cancelled : Bool
  search : Search
  deriving Repr, DecidableEq

structure Discover where
  mounted : Bool
  query : JsString
  results : List SearchUserRow
  searching : Bool
  rateLimited : Bool
  searchError : Option String
  /-- the `query` that the effect has last run for -/
  ran : JsString
  /-- the effect that is to be cleaned up -/
  current : Option ℕ
  effects : List Effect
  /-- the table of users through time, the last one is the present one -/
  tables : List Table
  window : FixedWindow.Window

/-- What the server answers a request that its rate limit lets through. -/
def Locale.outcome (L : Locale) (table : Table) (caller : Uuid) (query : String) : Outcome :=
  if query.length < minQueryLen then .users []
  else match L.fetchAll table query caller with
    | some rows => .users rows
    | none => .failed

theorem Locale.outcome_found {L : Locale} {table : Table} {caller : Uuid} {query : String}
    {rows : List SearchUserRow} (h : L.outcome table caller query = .users rows) :
    L.searchUsers table caller (some query) = found rows := by
  by_cases hshort : query.length < minQueryLen
  · rw [Locale.outcome, if_pos hshort] at h
    cases h
    rw [Locale.searchUsers, Option.getD_some, if_pos hshort]
  · rw [Locale.outcome, if_neg hshort] at h
    rw [Locale.searchUsers, Option.getD_some, if_neg hshort]
    cases hrows : L.fetchAll table query caller with
    | some rows' =>
      rw [hrows] at h
      cases h
      rfl
    | none =>
      rw [hrows] at h
      cases h

namespace Discover

inductive Action
  | onChangeText (text : JsString)
  /-- React runs the effect for a new `query` -/
  | effect
  | timer (i : ℕ)
  /-- the request of effect `i` reaches the server, with the text it decodes to -/
  | serve (i : ℕ) (query : String) (now : ℕ)
  /-- `searchUsers` is rejected without an answer of the server -/
  | lose (i : ℕ)
  | handle (i : ℕ)
  | runFinally (i : ℕ)
  /-- a request of somebody else counts, or one that then is not authorized -/
  | acquire (now : ℕ)
  /-- the table of users changes -/
  | write (table : Table)
  | unmount

def start (table : Table) (window : FixedWindow.Window) : Discover where
  mounted := true
  query := []
  results := []
  searching := false
  rateLimited := false
  searchError := none
  ran := []
  current := none
  effects := []
  tables := [table]
  window := window

def cleanUp (s : Discover) : Discover :=
  match s.current with
  | none => s
  | some i => { s with effects := s.effects.modify i fun e => { e with cancelled := true } }

/-- The effect, after the cleanup of the one before. -/
def runEffect (s : Discover) : Discover :=
  if s.query.length < minQueryLength then { s with
    results := []
    searchError := none
    rateLimited := false
    searching := false
    ran := s.query
    current := none }
  else { s with
    searching := true
    ran := s.query
    current := some s.effects.length
    effects := s.effects ++ [⟨s.query, s.tables.length - 1, false, .debouncing⟩] }

/-- What `then` and `catch` set. -/
def display (s : Discover) : Outcome → Discover
  | .users rows => { s with results := rows, searchError := none, rateLimited := false }
  | .rateLimited => { s with results := [], rateLimited := true, searchError := none }
  | .failed => { s with
      results := []
      rateLimited := false
      searchError := some "Something went wrong" }

/-- The search of effect `i` goes on. -/
def put (s : Discover) (i : ℕ) (e : Effect) (search : Search) : Discover :=
  { s with effects := s.effects.set i { e with search := search } }

variable (L : Locale) (caller : Uuid)

/-- The server answers effect `i`. -/
def serve (s : Discover) (i : ℕ) (e : Effect) (table : Table) (query : String) (now : ℕ) :
    Discover :=
  let (acquired, window) := SearchRateLimiter.tryAcquire s.window now
  let outcome := if acquired then L.outcome table caller query else .rateLimited
  { s.put i e (.settled outcome) with window := window }

def step (s : Discover) : Action → Option Discover
  | .onChangeText text => if s.mounted then some { s with query := text } else none
  | .effect => if s.mounted && s.query != s.ran then some s.cleanUp.runEffect else none
  | .timer i => s.effects[i]?.bind fun e =>
    match e.search with
    | .debouncing => if e.cancelled then none else some (s.put i e .sent)
    | _ => none
  | .serve i query now => s.effects[i]?.bind fun e => s.tables.getLast?.bind fun table =>
    match e.search with
    | .sent => if JsString.ofString query = e.query then
        some (s.serve L caller i e table query now)
      else none
    | _ => none
  | .lose i => s.effects[i]?.bind fun e =>
    match e.search with
    | .sent => some (s.put i e (.settled .failed))
    | _ => none
  | .handle i => s.effects[i]?.bind fun e =>
    match e.search with
    | .settled outcome =>
      let t := s.put i e (.handled outcome)
      some (if e.cancelled then t else t.display outcome)
    | _ => none
  | .runFinally i => s.effects[i]?.bind fun e =>
    match e.search with
    | .handled outcome =>
      let t := s.put i e (.finished outcome)
      some (if e.cancelled then t else { t with searching := false })
    | _ => none
  | .acquire now => some { s with window := (SearchRateLimiter.tryAcquire s.window now).2 }
  | .write table => some { s with tables := s.tables ++ [table] }
  | .unmount => if s.mounted then some { s.cleanUp with mounted := false } else none

def machine : Machine Discover Action where
  init s := ∃ table window, s = start table window
  step := step L caller

/-- The screen shows an outcome. -/
def Shows (s : Discover) : Outcome → Prop
  | .users rows => s.results = rows ∧ s.rateLimited = false ∧ s.searchError = none
  | .rateLimited => s.results = [] ∧ s.rateLimited = true ∧ s.searchError = none
  | .failed =>
    s.results = [] ∧ s.rateLimited = false ∧ s.searchError = some "Something went wrong"

/-- The users are those that the route finds in the table of a time since the effect began. -/
def Answered (s : Discover) (e : Effect) : Outcome → Prop
  | .users rows => ∃ query k table, JsString.ofString query = e.query ∧ e.began ≤ k ∧
      s.tables[k]? = some table ∧ L.searchUsers table caller (some query) = found rows
  | _ => True

end Discover
end Epistl.Users
