import Epistl.Text.Search
import Mathlib.Algebra.Order.Ring.Nat

/-! # The databases of a server

An identifier in quotes, where a quote is written twice, and a name that is longer than the
server allows: it is cut after the last character that fits. `CREATE DATABASE` and
`DROP DATABASE IF EXISTS` name a database so.
-/
namespace Epistl.Sql
open Text

inductive SqlError
  /-- an error of the server, with its SQLSTATE -/
  | database (code : Option String)
  | other
  deriving Repr, DecidableEq

/-- `duplicate_database`. -/
def duplicateDatabase : String := "42P04"

def insufficientPrivilege : String := "42501"

def doubleQuotes (name : List Char) : List Char :=
  name.flatMap fun c => if c = '"' then ['"', '"'] else [c]

def quoteIdentifier (name : List Char) : List Char := '"' :: doubleQuotes name ++ ['"']

/-- What follows the opening quote: the identifier and what is left after the closing quote. -/
def readIdentifier : List Char → Option (List Char × List Char)
  | [] => none
  | [c] => if c = '"' then some ([], []) else none
  | c :: d :: rest =>
    if c ≠ '"' then (readIdentifier (d :: rest)).map fun r => (c :: r.1, r.2)
    else if d = '"' then (readIdentifier rest).map fun r => ('"' :: r.1, r.2)
    else some ([], d :: rest)

/-- The characters that fit into `limit` bytes. -/
def clip : ℕ → List Char → List Char
  | _, [] => []
  | limit, c :: name => if c.utf8Size ≤ limit then c :: clip (limit - c.utf8Size) name else []

/-- The name of the database in a statement; `none` where it is no identifier. -/
def databaseOf (limit : ℕ) (keywords sql : List Char) : Option (List Char) :=
  match stripPrefix (keywords ++ ['"']) sql with
  | none => none
  | some rest =>
    match readIdentifier rest with
    | some (c :: name, []) => some (clip limit (c :: name))
    | _ => none

structure Server where
  databases : List (List Char)
  /-- the role may create and drop databases -/
  createDb : Bool

def createDatabase : List Char := "CREATE DATABASE ".toList

def dropDatabase : List Char := "DROP DATABASE IF EXISTS ".toList

def Server.execute (limit : ℕ) (server : Server) (sql : List Char) : Except SqlError Server :=
  if server.createDb = false then .error (.database (some insufficientPrivilege))
  else
    match databaseOf limit createDatabase sql with
    | some name =>
      if name ∈ server.databases then .error (.database (some duplicateDatabase))
      else .ok { server with databases := name :: server.databases }
    | none =>
      match databaseOf limit dropDatabase sql with
      | some name => .ok { server with databases := server.databases.filter (· ≠ name) }
      | none => .error .other

variable {limit : ℕ} {name rest : List Char} {server server' : Server}

/-- An identifier ends at its closing quote. -/
theorem readIdentifier_doubleQuotes (name : List Char) {rest : List Char}
    (hrest : rest.head? ≠ some '"') :
    readIdentifier (doubleQuotes name ++ '"' :: rest) = some (name, rest) := by
  induction name with
  | nil =>
    cases rest with
    | nil => rfl
    | cons d rest =>
      have hd : d ≠ '"' := by simpa using hrest
      simp [doubleQuotes, readIdentifier, hd]
  | cons c name ih =>
    by_cases hc : c = '"'
    · subst hc
      show readIdentifier ('"' :: '"' :: (doubleQuotes name ++ '"' :: rest)) = _
      rw [readIdentifier, if_neg (by simp), if_pos rfl, ih]
      rfl
    · have hcons : doubleQuotes (c :: name) ++ '"' :: rest =
          c :: (doubleQuotes name ++ '"' :: rest) := by
        simp [doubleQuotes, hc]
      obtain ⟨d, tail, htail⟩ : ∃ d tail, doubleQuotes name ++ '"' :: rest = d :: tail :=
        List.exists_cons_of_ne_nil (by simp)
      rw [hcons, htail, readIdentifier, if_pos hc, ← htail, ih]
      rfl

theorem databaseOf_quoted (keywords : List Char) (hname : name ≠ []) :
    databaseOf limit keywords (keywords ++ quoteIdentifier name) = some (clip limit name) := by
  have hstrip : stripPrefix (keywords ++ ['"']) (keywords ++ quoteIdentifier name) =
      some (doubleQuotes name ++ ['"']) := by
    rw [stripPrefix_eq_some]
    simp [quoteIdentifier]
  obtain ⟨c, rest, rfl⟩ := List.exists_cons_of_ne_nil hname
  rw [databaseOf, hstrip]
  dsimp only
  rw [readIdentifier_doubleQuotes (c :: rest) (by simp)]

theorem clip_of_fits (h : (name.map Char.utf8Size).sum ≤ limit) : clip limit name = name := by
  induction name generalizing limit with
  | nil => rfl
  | cons c name ih =>
    rw [List.map_cons, List.sum_cons] at h
    rw [clip, if_pos (by omega), ih (by omega)]

theorem execute_create (hname : name ≠ []) :
    server.execute limit (createDatabase ++ quoteIdentifier name) =
      if server.createDb = false then .error (.database (some insufficientPrivilege))
      else if clip limit name ∈ server.databases then .error (.database (some duplicateDatabase))
      else .ok { server with databases := clip limit name :: server.databases } := by
  rw [Server.execute, databaseOf_quoted createDatabase hname]

theorem execute_drop (hname : name ≠ []) :
    server.execute limit (dropDatabase ++ quoteIdentifier name) =
      if server.createDb = false then .error (.database (some insufficientPrivilege))
      else .ok { server with databases := server.databases.filter (· ≠ clip limit name) } := by
  rw [Server.execute, databaseOf_quoted dropDatabase hname]
  rfl

end Epistl.Sql
