import Epistl.Sql.Databases
import Epistl.Worktree.Databases

/-! # The database URL of a worktree

`apps/api/src/db.rs` replaces the database in `DATABASE_URL` by the one of the worktree and
creates it over a maintenance connection to the same server. The pool then connects with the URL
that was written.
-/
namespace Epistl.Worktree
open Text Sql

inductive DbError
  | missingDatabaseUrl
  | invalidDatabaseUrl
  | connect (err : SqlError)
  | dbOp (err : SqlError)
  | noWorktreeSlug
  deriving Repr, DecidableEq

def schemes : List Chars := ["postgresql://".toList, "postgres://".toList]

/-- The part before the database name, the name, and the query string. -/
def extractDbUrlParts (databaseUrl : Chars) : Option (Chars × Chars × Chars) := do
  let (scheme, rest) ← schemes.findSome? fun s => (stripPrefix s databaseUrl).map fun r => (s, r)
  let (authority, afterSlash) ← splitOnce '/' rest
  let start := scheme ++ authority ++ ['/']
  match splitOnce '?' afterSlash with
  | some (dbName, params) => some (start, dbName, '?' :: params)
  | none => some (start, afterSlash, [])

/-- `effective_database_url`, from the slug of the worktree and the environment. -/
def effectiveDatabaseUrl (slug databaseUrl : Option Chars) : Except DbError Chars :=
  match databaseUrl with
  | none => .error .missingDatabaseUrl
  | some databaseUrl =>
    match slug with
    | none => .ok databaseUrl
    | some slug =>
      match extractDbUrlParts databaseUrl with
      | none => .error .invalidDatabaseUrl
      | some (start, baseDb, suffix) => .ok (start ++ deriveDbName baseDb slug ++ suffix)

def postgres : Chars := "postgres".toList

def maintenanceUrl (databaseUrl : Chars) : Option Chars :=
  (extractDbUrlParts databaseUrl).map fun (start, _, suffix) => start ++ postgres ++ suffix

/-- The server that a URL reaches, or why it cannot be reached. -/
abbrev Servers := Chars → Except SqlError Server

/-- Runs one statement over a connection of its own. -/
def Servers.run (servers : Servers) (url sql : Chars) : Except DbError Unit × Servers :=
  match servers url with
  | .error err => (.error (.connect err), servers)
  | .ok server =>
    match server.execute maxPgIdentifierLen sql with
    | .error err => (.error (.dbOp err), servers)
    | .ok server => (.ok (), Function.update servers url (.ok server))

def createDbIfMissing (servers : Servers) (databaseUrl : Chars) : Except DbError Unit × Servers :=
  match extractDbUrlParts databaseUrl, maintenanceUrl databaseUrl with
  | some (_, dbName, _), some maint =>
    match servers.run maint (createDatabase ++ quoteIdentifier dbName) with
    | (.error (.dbOp (.database code)), servers) =>
      -- another process has created it
      if code = some duplicateDatabase then (.ok (), servers)
      else (.error (.dbOp (.database code)), servers)
    | r => r
  | _, _ => (.error .invalidDatabaseUrl, servers)

/-- The name that Postgres uses for an identifier. -/
def pgName (name : Chars) : Chars := clip maxPgIdentifierLen name

variable {lower : Chars → Chars} {url start db db' suffix slug : Chars} {servers : Servers}

/-- What the splitter takes apart. -/
structure Parts (url start db suffix : Chars) : Prop where
  joined : start ++ db ++ suffix = url
  /-- the splitter does not look into the name beyond its end -/
  again {db' : Chars} : '?' ∉ db' → extractDbUrlParts (start ++ db' ++ suffix) =
    some (start, db', suffix)
  notMem : '?' ∉ db

theorem extractDbUrlParts_of_scheme {scheme rest authority afterSlash : Chars}
    (hscheme : (schemes.findSome? fun s => (stripPrefix s url).map fun r => (s, r)) =
      some (scheme, rest)) (hrest : splitOnce '/' rest = some (authority, afterSlash)) :
    extractDbUrlParts url =
      match splitOnce '?' afterSlash with
      | some (dbName, params) => some (scheme ++ authority ++ ['/'], dbName, '?' :: params)
      | none => some (scheme ++ authority ++ ['/'], afterSlash, []) := by
  rw [extractDbUrlParts, hscheme]
  simp only [Option.bind_eq_bind, Option.bind_some, hrest]

/-- The scheme of a URL is found again in every text that goes on after it. -/
theorem findSome_schemes {scheme rest : Chars}
    (h : (schemes.findSome? fun s => (stripPrefix s url).map fun r => (s, r)) = some (scheme, rest)) :
    url = scheme ++ rest ∧ ∀ rest', (schemes.findSome? fun s =>
      (stripPrefix s (scheme ++ rest')).map fun r => (s, r)) = some (scheme, rest') := by
  have hlong (rest' : Chars) : stripPrefix "postgresql://".toList ("postgres://".toList ++ rest') =
      none := rfl
  rw [schemes, List.findSome?_cons] at h
  cases hfirst : stripPrefix "postgresql://".toList url with
  | some r =>
    rw [hfirst] at h
    cases h
    refine ⟨stripPrefix_eq_some.mp hfirst, fun rest' => ?_⟩
    rw [schemes, List.findSome?_cons, stripPrefix_append]
    rfl
  | none =>
    rw [hfirst, Option.map_none] at h
    cases hsecond : stripPrefix "postgres://".toList url with
    | none =>
      rw [List.findSome?_cons, hsecond] at h
      cases h
    | some r =>
      rw [List.findSome?_cons, hsecond] at h
      cases h
      refine ⟨stripPrefix_eq_some.mp hsecond, fun rest' => ?_⟩
      rw [schemes, List.findSome?_cons, hlong, List.findSome?_cons, stripPrefix_append]
      rfl

theorem parts_of_extract (h : extractDbUrlParts url = some (start, db, suffix)) :
    Parts url start db suffix := by
  cases hscheme : schemes.findSome? fun s => (stripPrefix s url).map fun r => (s, r) with
  | none =>
    rw [extractDbUrlParts, hscheme] at h
    cases h
  | some found =>
    obtain ⟨scheme, rest⟩ := found
    obtain ⟨rfl, hagain⟩ := findSome_schemes hscheme
    cases hrest : splitOnce '/' rest with
    | none =>
      rw [extractDbUrlParts, hscheme] at h
      simp [hrest] at h
    | some found =>
      obtain ⟨authority, afterSlash⟩ := found
      obtain ⟨rfl, hauthority⟩ := splitOnce_eq_some.mp hrest
      rw [extractDbUrlParts_of_scheme hscheme hrest] at h
      -- the same scheme and authority are found whatever follows the slash
      have hextract (tail : Chars) := extractDbUrlParts_of_scheme (hagain (authority ++ '/' :: tail))
        (splitOnce_append hauthority tail)
      cases hquery : splitOnce '?' afterSlash with
      | none =>
        rw [hquery] at h
        cases h
        refine ⟨by simp, fun {db'} hdb' => ?_, splitOnce_eq_none.mp hquery⟩
        have hnew := hextract db'
        rw [splitOnce_eq_none.mpr hdb'] at hnew
        simpa using hnew
      | some found =>
        obtain ⟨dbName, params⟩ := found
        obtain ⟨rfl, hdb⟩ := splitOnce_eq_some.mp hquery
        rw [hquery] at h
        cases h
        refine ⟨by simp, fun {db'} hdb' => ?_, hdb⟩
        have hnew := hextract (db' ++ '?' :: params)
        rw [splitOnce_append hdb'] at hnew
        simpa using hnew

theorem notMem_sanitizeSlug (slug : Chars) : '?' ∉ sanitizeSlug lower slug := by
  intro h
  obtain ⟨c, -, hc⟩ := List.mem_map.mp h
  split at hc
  · rename_i hallowed
    subst hc
    exact absurd hallowed (by decide)
  · exact absurd hc (by decide)

theorem notMem_deriveDbName (hdb : '?' ∉ db) (hslug : '?' ∉ slug) : '?' ∉ deriveDbName db slug := by
  intro h
  rcases List.mem_append.mp h with h | h
  · rcases List.mem_append.mp h with h | h
    · exact hdb h
    · exact absurd h (by decide)
  · exact hslug (List.mem_of_mem_take h)

theorem deriveDbName_ne_nil (db slug : Chars) : deriveDbName db slug ≠ [] := by
  simp [deriveDbName, dbNamePrefix]

/-- The maintenance URL does not depend on the database. -/
theorem Parts.maintenanceUrl (h : Parts url start db suffix) (hdb' : '?' ∉ db') :
    maintenanceUrl (start ++ db' ++ suffix) = some (start ++ postgres ++ suffix) := by
  rw [Worktree.maintenanceUrl, h.again hdb']
  rfl

/-- What a `CREATE DATABASE` at a URL comes to. -/
theorem run_create (servers : Servers) (url : Chars) {name : Chars} (hname : name ≠ []) :
    (∃ err, servers.run url (createDatabase ++ quoteIdentifier name) = (.error (.connect err), servers)) ∨
    servers.run url (createDatabase ++ quoteIdentifier name) =
      (.error (.dbOp (.database (some insufficientPrivilege))), servers) ∨
    (servers.run url (createDatabase ++ quoteIdentifier name) =
      (.error (.dbOp (.database (some duplicateDatabase))), servers) ∧
      ∃ server, servers url = .ok server ∧ pgName name ∈ server.databases) ∨
    ∃ server, servers.run url (createDatabase ++ quoteIdentifier name) =
      (.ok (), Function.update servers url (.ok server)) ∧ pgName name ∈ server.databases := by
  rw [Servers.run]
  cases hserver : servers url with
  | error err => exact .inl ⟨err, rfl⟩
  | ok server =>
    dsimp only
    rw [execute_create hname]
    by_cases hrole : server.createDb = false
    · rw [if_pos hrole]
      exact .inr (.inl rfl)
    · rw [if_neg hrole]
      by_cases hmem : clip maxPgIdentifierLen name ∈ server.databases
      · rw [if_pos hmem]
        exact .inr (.inr (.inl ⟨rfl, server, rfl, hmem⟩))
      · rw [if_neg hmem]
        exact .inr (.inr (.inr ⟨_, rfl, List.mem_cons_self⟩))

/-- When no error is reported, the server has the database. -/
theorem createDbIfMissing_ok (h : Parts url start db suffix) (hdb' : '?' ∉ db') (hne : db' ≠ [])
    (hok : (createDbIfMissing servers (start ++ db' ++ suffix)).1 = .ok ()) :
    ∃ server, (createDbIfMissing servers (start ++ db' ++ suffix)).2 (start ++ postgres ++ suffix) =
      .ok server ∧ pgName db' ∈ server.databases := by
  simp only [createDbIfMissing, h.again hdb', h.maintenanceUrl hdb'] at hok ⊢
  rcases run_create servers (start ++ postgres ++ suffix) hne with
    ⟨err, hr⟩ | hr | ⟨hr, server, hserver, hmem⟩ | ⟨server, hr, hmem⟩
  · simp only [hr] at hok
    cases hok
  · simp only [hr] at hok
    rw [if_neg (by decide)] at hok
    cases hok
  · simp only [hr, if_pos]
    exact ⟨server, hserver, hmem⟩
  · simp only [hr]
    exact ⟨server, Function.update_self _ _ _, hmem⟩

/-- The URL that the pool connects with, when the database of `url` is replaced by the one of a
worktree. -/
structure Rewritten (lower : Chars → Chars) (url start db suffix name : Chars) : Prop where
  effective : effectiveDatabaseUrl (some (sanitizeSlug lower name)) (some url) =
    .ok (start ++ deriveDbName db (sanitizeSlug lower name) ++ suffix)
  extract : extractDbUrlParts (start ++ deriveDbName db (sanitizeSlug lower name) ++ suffix) =
    some (start, deriveDbName db (sanitizeSlug lower name), suffix)
  maintenance : maintenanceUrl (start ++ deriveDbName db (sanitizeSlug lower name) ++ suffix) =
    maintenanceUrl url
  creates (servers : Servers) :
    (createDbIfMissing servers
      (start ++ deriveDbName db (sanitizeSlug lower name) ++ suffix)).1 = .ok () →
    ∃ maint server, maintenanceUrl url = some maint ∧
      (createDbIfMissing servers
        (start ++ deriveDbName db (sanitizeSlug lower name) ++ suffix)).2 maint = .ok server ∧
      pgName (deriveDbName db (sanitizeSlug lower name)) ∈ server.databases

/-- A URL that can be split is put together again from its parts, splits in the same place when
its database is replaced by that of any worktree, and keeps its maintenance URL, which is its
own. -/
theorem extractDbUrlParts_lossless (lower : Chars → Chars) (url start db suffix : Chars)
    (h : extractDbUrlParts url = some (start, db, suffix)) :
    start ++ db ++ suffix = url ∧ (∀ name, Rewritten lower url start db suffix name) ∧
      ∃ maint, maintenanceUrl url = some maint ∧ maintenanceUrl maint = some maint := by
  have hparts := parts_of_extract h
  have hmaint : maintenanceUrl url = some (start ++ postgres ++ suffix) := by
    rw [← hparts.joined, hparts.maintenanceUrl hparts.notMem]
  refine ⟨hparts.joined, fun name => ?_, _, hmaint, hparts.maintenanceUrl (by decide)⟩
  have hderived : '?' ∉ deriveDbName db (sanitizeSlug lower name) :=
    notMem_deriveDbName hparts.notMem (notMem_sanitizeSlug name)
  constructor
  · simp only [effectiveDatabaseUrl, h]
  · exact hparts.again hderived
  · rw [hmaint, hparts.maintenanceUrl hderived]
  · intro servers hok
    obtain ⟨server, hserver, hmem⟩ :=
      createDbIfMissing_ok hparts hderived (deriveDbName_ne_nil _ _) hok
    exact ⟨_, server, hmaint, hserver, hmem⟩

theorem extractDbUrlParts_lossless_local :
    Rewritten (fun s => s) "postgres://u:p@localhost:5432/epistl?sslmode=disable".toList
      "postgres://u:p@localhost:5432/".toList "epistl".toList "?sslmode=disable".toList
      "a_branch".toList :=
  (extractDbUrlParts_lossless (fun s => s) _ _ _ _ (by decide)).2.1 _

end Epistl.Worktree
