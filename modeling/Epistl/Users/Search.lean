import Epistl.Sql.Like
import Epistl.Sql.Select
import Epistl.Text.Json

/-! # The search for users

`search_users` puts the query in front of `%` and hands it to `ILIKE`, so that it is read as
a pattern: the search is for a literal prefix exactly when the query has none of the
pattern's own characters, and no NUL, which the server does not take in a text.
-/
namespace Epistl.Users

abbrev Uuid := BitVec 128

structure SearchUserRow where
  userId : Uuid
  email : String
  username : String
  deriving Repr, DecidableEq

/-- The table `users`, with its unique columns. A text never holds a NUL. -/
structure Table where
  rows : List SearchUserRow
  ids : (rows.map SearchUserRow.userId).Nodup
  emails : (rows.map SearchUserRow.email).Nodup
  usernames : (rows.map SearchUserRow.username).Nodup
  texts : ∀ row ∈ rows, '\x00' ∉ row.email.toList ∧ '\x00' ∉ row.username.toList

theorem Table.nodup (table : Table) : table.rows.Nodup := table.ids.of_map _

def minQueryLen : ℕ := 3
def resultLimit : ℕ := 20

structure Response where
  status : ℕ
  body : Json

/-- The hyphenated form. -/
def uuidText (id : Uuid) : String :=
  let digits := id.toHex.toList
  String.ofList (digits.take 8 ++ '-' :: (digits.drop 8).take 4 ++ '-' :: (digits.drop 12).take 4 ++
    '-' :: (digits.drop 16).take 4 ++ '-' :: digits.drop 20)

def SearchUserRow.toJson (row : SearchUserRow) : Json :=
  .object [("user_id", .string (uuidText row.userId)), ("email", .string row.email),
    ("username", .string row.username)]

def found (rows : List SearchUserRow) : Response :=
  ⟨200, .object [("users", .array (rows.map SearchUserRow.toJson))]⟩

def internalError : Response := ⟨500, .object [("error", .string "internal_error")]⟩

theorem length_of_found {rows rows' : List SearchUserRow} (h : found rows = found rows') :
    rows.length = rows'.length := by
  simp only [found, Response.mk.injEq, Json.object.injEq, List.cons.injEq, Prod.mk.injEq,
    Json.array.injEq, true_and, and_true] at h
  simpa using congrArg List.length h

/-- `lower` is the change of case of the database's locale, `le` the order of its collation. -/
structure Locale where
  lower : Char → Char
  le : String → String → Bool

namespace Locale
variable (L : Locale)

/-- `text ILIKE query || '%'`. -/
def ilikePrefix (query text : String) : Option Bool :=
  Like.like (text.toList.map L.lower) ((query.toList ++ ['%']).map L.lower)

def byEmail (a b : SearchUserRow) : Prop := L.le a.email b.email = true

instance : DecidableRel L.byEmail := fun a b =>
  inferInstanceAs (Decidable (L.le a.email b.email = true))

/-- The statement with its parameters bound, `none` when the server reports an error. -/
def fetchAll (table : Table) (query : String) (caller : Uuid) : Option (List SearchUserRow) :=
  if '\x00' ∈ query.toList then none
  else if table.rows.any fun row => (L.ilikePrefix query row.email).isNone then none
  else some (Sql.select
    (fun row => (L.ilikePrefix query row.email == some true ||
      L.ilikePrefix query row.username == some true) && row.userId != caller)
    L.byEmail resultLimit table.rows)

def searchUsers (table : Table) (caller : Uuid) (q : Option String) : Response :=
  let query := q.getD ""
  if query.length < minQueryLen then found []
  else match L.fetchAll table query caller with
    | some rows => found rows
    | none => internalError

/-- The text starts with the query when case is ignored. -/
def startsWith (query text : String) : Prop :=
  query.toList.map L.lower <+: text.toList.map L.lower

def wanted (query : String) (caller : Uuid) (row : SearchUserRow) : Prop :=
  (L.startsWith query row.email ∨ L.startsWith query row.username) ∧ row.userId ≠ caller

instance (query text : String) : Decidable (L.startsWith query text) :=
  inferInstanceAs (Decidable (query.toList.map L.lower <+: text.toList.map L.lower))

/-- The answer of a literal prefix search. -/
def PrefixSearch (table : Table) (caller : Uuid) (query : String) (response : Response) : Prop :=
  ∃ rows, response = found rows ∧
    Sql.First (L.wanted query caller) L.byEmail resultLimit table.rows rows

/-- Neither a character of the pattern language nor a NUL. -/
def Plain (query : String) : Prop := ∀ c ∈ query.toList, c ∉ Like.metacharacters ∧ c ≠ '\x00'

/-- What is documented of the locale: the order is total, and the change of case keeps to
itself what has a meaning in patterns. -/
structure Lawful : Prop where
  folds : Like.Folds L.lower
  total (a b : String) : L.le a b = true ∨ L.le b a = true
  trans {a b c : String} : L.le a b = true → L.le b c = true → L.le a c = true

variable {L : Locale} {table : Table} {caller : Uuid} {query text : String} {row : SearchUserRow}

theorem Lawful.byEmail_total (h : L.Lawful) : Std.Total L.byEmail :=
  ⟨fun a b => h.total a.email b.email⟩

theorem Lawful.byEmail_trans (h : L.Lawful) : IsTrans SearchUserRow L.byEmail :=
  ⟨fun _ _ _ => h.trans⟩

/-- A pattern that ends with `%` is never wrong. -/
theorem ilikePrefix_isSome (hfolds : Like.Folds L.lower) : (L.ilikePrefix query text).isSome = true := by
  rw [ilikePrefix, Like.like, Option.isSome_map, List.map_append, List.map_singleton,
    hfolds.fixed (by decide)]
  exact Like.tokens_prefix_isSome _

/-- Only a NUL makes the statement fail. -/
theorem fetchAll_eq (hfolds : Like.Folds L.lower) (hnul : '\x00' ∉ query.toList) :
    L.fetchAll table query caller = some (Sql.select
      (fun row => (L.ilikePrefix query row.email == some true ||
        L.ilikePrefix query row.username == some true) && row.userId != caller)
      L.byEmail resultLimit table.rows) := by
  have hpattern : ¬(table.rows.any fun row => (L.ilikePrefix query row.email).isNone) = true := by
    simp [← Option.not_isSome, ilikePrefix_isSome hfolds]
  rw [fetchAll, if_neg hnul, if_neg hpattern]

theorem ilikePrefix_of_plain (hfolds : Like.Folds L.lower) (hquery : Plain query) :
    L.ilikePrefix query text = some (decide (L.startsWith query text)) := by
  rw [ilikePrefix, List.map_append, List.map_singleton, hfolds.fixed (by decide), Like.like_of_plain]
  · rfl
  · intro c hc
    obtain ⟨d, hd, rfl⟩ := List.mem_map.mp hc
    rw [hfolds.mem_iff]
    exact (hquery d hd).1

theorem fetchAll_of_plain (h : L.Lawful) (hquery : Plain query) :
    ∃ rows, L.fetchAll table query caller = some rows ∧
      Sql.First (L.wanted query caller) L.byEmail resultLimit table.rows rows := by
  have := h.byEmail_total
  have := h.byEmail_trans
  have hnul : '\x00' ∉ query.toList := fun hc => (hquery _ hc).2 rfl
  refine ⟨_, fetchAll_eq h.folds hnul, ?_⟩
  apply (Sql.select_first table.nodup).congr
  intro row _
  simp [ilikePrefix_of_plain h.folds hquery, wanted]

/-- A plain query of the minimum length is a literal prefix search. -/
theorem searchUsers_of_plain (h : L.Lawful) (hlength : minQueryLen ≤ query.length)
    (hquery : Plain query) :
    L.PrefixSearch table caller query (L.searchUsers table caller (some query)) := by
  obtain ⟨rows, hrows, hfirst⟩ : ∃ rows, L.fetchAll table query caller = some rows ∧ _ :=
    fetchAll_of_plain h hquery
  refine ⟨rows, ?_, hfirst⟩
  have hshort : ¬query.length < minQueryLen := Nat.not_lt.mpr hlength
  simp only [searchUsers, Option.getD_some, if_neg hshort, hrows]

/-- A user whose texts are a sample of the pattern. -/
def sampleRow (query : String) : SearchUserRow :=
  ⟨0, String.ofList (Like.sample query.toList), String.ofList (Like.sample query.toList)⟩

def sampleTable (query : String) (hnul : '\x00' ∉ query.toList) : Table where
  rows := [sampleRow query]
  ids := List.nodup_singleton _
  emails := List.nodup_singleton _
  usernames := List.nodup_singleton _
  texts row hrow := by
    obtain rfl := List.mem_singleton.mp hrow
    have hsample : '\x00' ∉ (String.ofList (Like.sample query.toList)).toList := by
      intro h
      rw [String.toList_ofList] at h
      rcases Like.mem_of_mem_sample h with h | h | h
      · exact hnul h
      · exact absurd h (by decide)
      · exact absurd h (by decide)
    exact ⟨hsample, hsample⟩

/-- The pattern finds a user that does not start with the query. -/
theorem not_prefixSearch_sample (h : L.Lawful) (hlength : minQueryLen ≤ query.length)
    (hnul : '\x00' ∉ query.toList) (hquery : ∃ m ∈ query.toList, m ∈ Like.metacharacters) :
    ¬L.PrefixSearch (sampleTable query hnul) 1 query
      (L.searchUsers (sampleTable query hnul) 1 (some query)) := by
  have haccepts : L.ilikePrefix query (sampleRow query).email = some true := by
    rw [ilikePrefix, sampleRow, String.toList_ofList]
    exact h.folds.accepts_sample _
  have hnot : ¬L.startsWith query (sampleRow query).email := by
    rw [startsWith, sampleRow, String.toList_ofList]
    exact h.folds.not_prefix_sample hquery
  have hrows : L.fetchAll (sampleTable query hnul) query 1 = some [sampleRow query] := by
    have huser : ((sampleRow query).userId != 1) = true := (by decide : ((0 : Uuid) != 1) = true)
    rw [fetchAll_eq h.folds hnul, Sql.select, sampleTable, List.filter_cons_of_pos]
    · rfl
    · rw [haccepts, huser]
      rfl
  have hshort : ¬query.length < minQueryLen := Nat.not_lt.mpr hlength
  rintro ⟨rows, hfound, hfirst⟩
  simp only [searchUsers, Option.getD_some, if_neg hshort, hrows] at hfound
  obtain ⟨row, rfl⟩ := List.length_eq_one_iff.mp (length_of_found hfound).symm
  obtain ⟨hrow, hwanted⟩ := hfirst.mem List.mem_cons_self
  obtain rfl := List.mem_singleton.mp hrow
  exact hwanted.1.elim hnot hnot

/-- The search is a literal prefix search exactly for the plain queries. -/
theorem prefixSearch_iff_plain (h : L.Lawful) (query : String)
    (hlength : minQueryLen ≤ query.length) :
    (∀ table caller, L.PrefixSearch table caller query
      (L.searchUsers table caller (some query))) ↔ Plain query := by
  refine ⟨fun hsearch => ?_, fun hquery table caller => searchUsers_of_plain h hlength hquery⟩
  have hnul : '\x00' ∉ query.toList := by
    intro hnul
    obtain ⟨rows, hfound, -⟩ := hsearch ⟨[], .nil, .nil, .nil, by simp⟩ 1
    have hshort : ¬query.length < minQueryLen := Nat.not_lt.mpr hlength
    simp only [searchUsers, Option.getD_some, if_neg hshort, fetchAll, if_pos hnul] at hfound
    cases congrArg Response.status hfound
  intro c hc
  refine ⟨fun hmeta => ?_, fun he => hnul (he ▸ hc)⟩
  exact not_prefixSearch_sample h hlength hnul ⟨c, hc, hmeta⟩ (hsearch _ 1)

end Locale

/-- The case of ASCII letters, and the order of code points. -/
def ascii : Locale where
  lower := Char.toLower
  le a b := decide (a ≤ b)

theorem toLower_metacharacter {m : Char} (hm : m ∈ Like.metacharacters) (c : Char) :
    c.toLower = m ↔ c = m := by
  have hm : m.toNat = 37 ∨ m.toNat = 95 ∨ m.toNat = 92 := by
    simp only [Like.metacharacters, List.mem_cons, List.not_mem_nil, or_false] at hm
    rcases hm with rfl | rfl | rfl <;> decide
  unfold Char.toLower
  split
  · rename_i hupper
    have hlow : 65 ≤ c.toNat := hupper.1
    have hhigh : c.toNat ≤ 90 := hupper.2
    have hval : (c.val + ('a'.val - 'A'.val)).toNat = c.toNat + 32 := by
      have hsub : ('a'.val - 'A'.val).toNat = 32 := by decide
      have hc : c.val.toNat = c.toNat := rfl
      rw [UInt32.toNat_add, hsub, hc]
      omega
    constructor
    · intro he
      have hn := congrArg Char.toNat he
      have hc : (c.val + ('a'.val - 'A'.val)).toNat = m.toNat := hn
      omega
    · rintro rfl
      omega
  · rfl

theorem ascii_lawful : ascii.Lawful where
  folds := ⟨fun c m hm => toLower_metacharacter hm c⟩
  total a b := by simpa [ascii] using String.le_total a b
  trans hab hbc := by
    simp only [ascii, decide_eq_true_eq] at *
    exact String.le_trans hab hbc

/-- An address that starts with `a_b` and one that only fits it. -/
def members : Table where
  rows := [⟨1, "a_b@example.com", "first"⟩, ⟨2, "axb@example.com", "second"⟩]
  ids := by decide
  emails := by decide
  usernames := by decide
  texts := by decide

theorem prefixSearch_iff_plain_letters :
    3 ≤ "a.b".length ∧ ((∀ table caller, ascii.PrefixSearch table caller "a.b"
      (ascii.searchUsers table caller (some "a.b"))) ↔ Locale.Plain "a.b") :=
  ⟨by decide, Locale.prefixSearch_iff_plain ascii_lawful "a.b" (by decide)⟩

/-- The underscore of the query stands for any character. -/
theorem searchUsers_underscore :
    ascii.searchUsers members 3 (some "a_b") = found members.rows ∧
      ¬ascii.PrefixSearch members 3 "a_b" (ascii.searchUsers members 3 (some "a_b")) := by
  have hrows : ascii.fetchAll members "a_b" 3 = some members.rows := by decide +kernel
  have hfound : ascii.searchUsers members 3 (some "a_b") = found members.rows := by
    have hshort : ¬"a_b".length < minQueryLen := by decide
    simp only [Locale.searchUsers, Option.getD_some, if_neg hshort, hrows]
  refine ⟨hfound, ?_⟩
  rintro ⟨rows, hanswer, hfirst⟩
  have hlength := length_of_found (hfound.symm.trans hanswer)
  have hsubset : rows ⊆ [⟨1, "a_b@example.com", "first"⟩] := by
    intro row hrow
    obtain ⟨hmem, hwanted, -⟩ := hfirst.mem hrow
    simp only [members, List.mem_cons, List.not_mem_nil, or_false] at hmem ⊢
    rcases hmem with rfl | rfl
    · rfl
    · exact absurd hwanted (by decide +kernel)
  have hle := (List.subperm_of_subset hfirst.nodup hsubset).length_le
  rw [← hlength] at hle
  exact absurd hle (by decide)

end Epistl.Users
