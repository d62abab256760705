import Epistl.Worktree.Url

/-! # The databases of two worktrees and the base database

Postgres cuts a name to 63 bytes, so what `drop_worktree_db_for_slug` drops is the name that is
left. It is another worktree's database, or the base, when the base leaves too little of the
slug, or when the slugs are told apart by characters only that the sanitizing replaces.
-/
namespace Epistl.Worktree
open Sql Text

/-- `drop_worktree_db_for_slug`. -/
def dropWorktreeDbForSlug (servers : Servers) (slug : Option Chars) (databaseUrl : Chars) :
    Except DbError Unit × Servers :=
  match slug with
  | none => (.error .noWorktreeSlug, servers)
  | some slug =>
    match extractDbUrlParts databaseUrl with
    | none => (.error .invalidDatabaseUrl, servers)
    | some (start, baseDb, suffix) =>
      let derived := deriveDbName baseDb slug
      -- never the base, as long as the names are compared before they are cut
      if derived = baseDb then (.error .noWorktreeSlug, servers)
      else servers.run (start ++ postgres ++ suffix) (dropDatabase ++ quoteIdentifier derived)

variable (lower : Chars → Chars)

/-- The name that the code gives to the database of a worktree. -/
def derivedName (base : DatabaseName) (name : Chars) : Chars :=
  deriveDbName base.name (sanitizeSlug lower name)

/-- The database of the worktree `name` fits, and it is neither the base nor that of `name'`. -/
structure Isolated (base : DatabaseName) (name name' : Chars) : Prop where
  fits : utf8Len (derivedName lower base name) ≤ maxPgIdentifierLen
  apart_base : pgName (derivedName lower base name) ≠ base.name
  apart : name ≠ name' → pgName (derivedName lower base name) ≠ pgName (derivedName lower base name')
  /-- a database that is dropped is not the base and not the one of `name'` -/
  spares {servers : Servers} {url start suffix maint : Chars} {server server' : Server} {db : Chars} :
    extractDbUrlParts url = some (start, base.name, suffix) → servers maint = .ok server →
    (dropWorktreeDbForSlug servers (some (sanitizeSlug lower name)) url).2 maint = .ok server' →
    db ∈ server.databases → db ∉ server'.databases →
    db ≠ base.name ∧ (name ≠ name' → db ≠ pgName (derivedName lower base name'))

/-- Two characters that differ, one of which stays as it is when a slug is sanitized. -/
def ToldApart : Option Char → Option Char → Prop
  | some c, some d => c ≠ d ∧ (c.isLower || c.isDigit || d.isLower || d.isDigit) = true
  | none, none => False
  | some _, none | none, some _ => True

variable {lower} {base : DatabaseName} {name name' slug slug' : Chars} {servers : Servers}

/-- The characters that a slug keeps, but for the underscore that it has for all others. -/
def isKept (c : Char) : Bool := c.isLower || c.isDigit

/-- The character that a slug has for `c`. -/
def slugChar (c : Char) : Char := if isKept c then c else '_'

theorem sanitizeSlug_eq (name : Chars) : sanitizeSlug lower name = (lower name).map slugChar := by
  refine List.map_congr_left fun c _ => ?_
  by_cases hkept : isKept c = true
  · have hor : (c.isLower || c.isDigit || c = '_') = true := by
      rw [isKept] at hkept
      simp only [hkept, Bool.true_or]
    rw [slugChar, if_pos hkept, if_pos hor]
  · rw [slugChar, if_neg hkept]
    rw [isKept] at hkept
    simp only [hkept, Bool.false_or, decide_eq_true_eq, ite_eq_right_iff, imp_self]

theorem slugChar_ne_iff {c d : Char} : slugChar c ≠ slugChar d ↔ ToldApart (some c) (some d) := by
  have hunderscore {e : Char} (he : isKept e = true) : e ≠ '_' := by
    rintro rfl
    exact absurd he (by decide)
  have htold : ToldApart (some c) (some d) ↔ c ≠ d ∧ (isKept c || isKept d) = true := by
    rw [ToldApart, isKept, isKept, Bool.or_assoc (c.isLower || c.isDigit)]
  rw [htold, slugChar, slugChar]
  by_cases hc : isKept c = true
  · by_cases hd : isKept d = true
    · simp [hc, hd]
    · have hne : c ≠ d := by
        rintro rfl
        exact hd hc
      simp [hc, hd, hunderscore hc, hne]
  · by_cases hd : isKept d = true
    · have hne : c ≠ d := by
        rintro rfl
        exact hc hd
      simp [hc, hd, (hunderscore hd).symm, hne]
    · simp [hc, hd]

theorem toldApart_iff (c d : Option Char) : ToldApart c d ↔ c.map slugChar ≠ d.map slugChar := by
  cases c with
  | none => cases d <;> simp [ToldApart]
  | some c =>
    cases d with
    | none => simp [ToldApart]
    | some d => simpa using slugChar_ne_iff.symm

theorem utf8Size_slugChar (c : Char) : (slugChar c).utf8Size = 1 := by
  rw [Char.utf8Size_eq_one_iff, slugChar]
  split
  · rename_i hkept
    have hlower : c.isLower = (decide ('a'.val ≤ c.val) && decide (c.val ≤ 'z'.val)) := rfl
    simp only [isKept, hlower, Char.isDigit, Bool.or_eq_true, Bool.and_eq_true,
      decide_eq_true_eq] at hkept
    rcases hkept with ⟨-, h⟩ | ⟨-, h⟩
    · exact UInt32.le_trans h (by decide)
    · exact UInt32.le_trans h (by decide)
  · decide

theorem utf8Len_map_slugChar (s : Chars) : utf8Len (s.map slugChar) = s.length := by
  induction s with
  | nil => rfl
  | cons c s ih =>
    simp only [utf8Len, List.map_cons, List.sum_cons, List.length_cons] at ih ⊢
    rw [ih, utf8Size_slugChar, Nat.add_comm]

/-- The derived name fits if its prefix does. -/
theorem fits_iff : utf8Len (derivedName lower base name) ≤ maxPgIdentifierLen ↔
    utf8Len (dbNamePrefix base.name) ≤ maxPgIdentifierLen := by
  rw [derivedName, deriveDbName_eq, utf8Len_append, sanitizeSlug_eq, ← List.map_take,
    utf8Len_map_slugChar, List.length_take, remaining]
  omega

/-- What is cut off a slug does not tell two names apart. -/
theorem derivedName_ne_iff : derivedName lower base name ≠ derivedName lower base name' ↔
    ∃ i < remaining base.name, ToldApart (lower name)[i]? (lower name')[i]? := by
  simp only [derivedName, deriveDbName_eq, sanitizeSlug_eq, ne_eq, List.append_cancel_left_eq,
    toldApart_iff, ← List.getElem?_map]
  constructor
  · intro hne
    by_contra hall
    push Not at hall
    refine hne (List.ext_getElem? fun i => ?_)
    rw [List.getElem?_take, List.getElem?_take]
    split
    · rename_i hi
      exact hall i hi
    · rfl
  · rintro ⟨i, hi, hdiffer⟩ heq
    apply hdiffer
    have hget := congrArg (·[i]?) heq
    simpa [List.getElem?_take, hi] using hget

theorem pgName_of_fits (h : utf8Len name ≤ maxPgIdentifierLen) : pgName name = name := clip_of_fits h

/-- What is dropped is the database that has the name of the worktree. -/
theorem eq_of_dropped {url start suffix maint : Chars} {server server' : Server} {db : Chars}
    (hurl : extractDbUrlParts url = some (start, base.name, suffix))
    (hserver : servers maint = .ok server)
    (hafter : (dropWorktreeDbForSlug servers (some slug) url).2 maint = .ok server')
    (hdb : db ∈ server.databases) (hnot : db ∉ server'.databases) :
    db = pgName (deriveDbName base.name slug) := by
  have hsame (h : servers maint = .ok server') : False := by
    rw [hserver] at h
    cases h
    exact hnot hdb
  simp only [dropWorktreeDbForSlug, hurl] at hafter
  split at hafter
  · exact (hsame hafter).elim
  · rw [Servers.run] at hafter
    split at hafter
    · exact (hsame hafter).elim
    · rename_i found hfound
      rw [execute_drop (deriveDbName_ne_nil _ _)] at hafter
      by_cases hrole : found.createDb = false
      · rw [if_pos hrole] at hafter
        exact (hsame hafter).elim
      · rw [if_neg hrole] at hafter
        dsimp only at hafter
        by_cases hmaint : maint = start ++ postgres ++ suffix
        · subst hmaint
          rw [Function.update_self] at hafter
          cases hserver.symm.trans hfound
          cases hafter
          by_contra hne
          exact hnot (List.mem_filter.mpr ⟨hdb, by simpa [pgName] using hne⟩)
        · rw [Function.update_of_ne hmaint] at hafter
          exact (hsame hafter).elim

theorem derivedName_ne_base : derivedName lower base name ≠ base.name := by
  intro h
  have hlen := congrArg List.length h
  simp [derivedName, deriveDbName, dbNamePrefix] at hlen

/-- A worktree's database is apart from the base and from the one of another worktree if and only
if the prefix of its name fits and the two names are told apart by characters that are kept,
before the slug is cut. -/
theorem isolated_iff (lower : Chars → Chars) (base : DatabaseName) (name name' : Chars) :
    Isolated lower base name name' ↔
      utf8Len (dbNamePrefix base.name) ≤ maxPgIdentifierLen ∧ (name ≠ name' →
        ∃ i < remaining base.name, ToldApart (lower name)[i]? (lower name')[i]?) := by
  constructor
  · intro h
    have hstart := fits_iff.mp h.fits
    refine ⟨hstart, fun hne => derivedName_ne_iff.mp fun heq => h.apart hne ?_⟩
    rw [heq]
  · rintro ⟨hstart, hnames⟩
    have hfits (name : Chars) : utf8Len (derivedName lower base name) ≤ maxPgIdentifierLen :=
      fits_iff.mpr hstart
    have hbase : pgName (derivedName lower base name) ≠ base.name := by
      rw [pgName_of_fits (hfits name)]
      exact derivedName_ne_base
    have hapart (hne : name ≠ name') :
        pgName (derivedName lower base name) ≠ pgName (derivedName lower base name') := by
      rw [pgName_of_fits (hfits name), pgName_of_fits (hfits name')]
      exact derivedName_ne_iff.mpr (hnames hne)
    refine ⟨hfits name, hbase, hapart, fun hurl hserver hafter hdb hnot => ?_⟩
    rw [eq_of_dropped hurl hserver hafter hdb hnot]
    exact ⟨hbase, hapart⟩

/-- A base of 63 bytes is dropped for a worktree, and two worktrees whose names differ in a hyphen
and an underscore have one database. -/
theorem not_isolated :
    ¬Isolated (fun s => s) ⟨List.replicate 63 'a', by decide⟩ ['x'] ['y'] ∧
    ¬Isolated (fun s => s) ⟨"epistl".toList, by decide⟩ "a-b".toList "a_b".toList := by
  constructor
  · intro h
    exact h.apart_base (by decide)
  · intro h
    exact h.apart (by decide) (by decide)

end Epistl.Worktree
