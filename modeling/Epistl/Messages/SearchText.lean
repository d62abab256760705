import Epistl.Sql.Fts5
import Epistl.Text.JsString

/-! # The text of a search

`toFtsMatchQuery` and `searchMessages` of `apps/mobile/src/storage/messages.ts`: the words of
a query, each in double quotes, joined by `AND`.
-/
namespace Epistl.Messages
open JsString

/-- `\s`, which are the code units that `trim` strips. -/
abbrev isSpace : UInt16 → Bool := isTrimmed

/-- `query.split(/\s+/)`. -/
def splitSpaces : JsString → List JsString
  | [] => [[]]
  | c :: s =>
    match splitSpaces s with
    | [] => []
    | word :: words =>
      if isSpace c = false then (c :: word) :: words
      else if s.head?.any isSpace then word :: words
      else [] :: word :: words

/-- `term.replace(/"/g, '""')` between two quotes. -/
def quoteTerm (term : JsString) : JsString :=
  [0x22] ++ (term.flatMap fun c => if c = 0x22 then [0x22, 0x22] else [c]) ++ [0x22]

def toFtsMatchQuery (query : JsString) : JsString :=
  (ofString " AND ").intercalate
    (((splitSpaces query).filter fun term => 0 < term.length).map quoteTerm)

/-- The rows of `db.all` are the contacts with a matching message. -/
def searchMessages {m : Type → Type} [Monad m] (all : JsString → m (List JsString))
    (query : JsString) : m (List JsString) :=
  let matchQuery := toFtsMatchQuery (trim query)
  if matchQuery = [] then pure [] else all matchQuery

/-- The terms of a query: what its white space leaves between. -/
def terms (query : JsString) : List JsString := (query.splitOnP isSpace).filter (· ≠ [])

variable {c : UInt16} {s u query : JsString}

/-- Both ways to split have the same first word, and then the same words. -/
theorem splitSpaces_agrees (s : JsString) : ∃ word words words', splitSpaces s = word :: words ∧
    s.splitOnP isSpace = word :: words' ∧ words.filter (· ≠ []) = words'.filter (· ≠ []) := by
  induction s with
  | nil => exact ⟨[], [], [], rfl, rfl, rfl⟩
  | cons c s ih =>
    obtain ⟨word, words, words', hsplit, hspec, hfilter⟩ := ih
    rw [splitSpaces, hsplit, List.splitOnP_cons_eq_if_modifyHead, hspec]
    by_cases hc : isSpace c = true
    · simp only [hc, if_true, Bool.true_eq_false, if_false]
      split
      · rename_i hnext
        obtain ⟨d, hd, hspace⟩ := (Option.any_eq_true isSpace _).mp hnext
        obtain ⟨s, rfl⟩ := List.head?_eq_some_iff.mp hd
        rw [List.splitOnP_cons_eq_if_modifyHead, if_pos hspace] at hspec
        obtain ⟨rfl, -⟩ := List.cons.inj hspec
        exact ⟨[], words, [] :: words', rfl, rfl, by simpa using hfilter⟩
      · exact ⟨[], word :: words, word :: words', rfl, rfl, by simp only [List.filter_cons, hfilter]⟩
    · simp only [hc, if_true]
      exact ⟨c :: word, words, words', rfl, rfl, hfilter⟩

theorem splitSpaces_terms (s : JsString) :
    (splitSpaces s).filter (fun term => 0 < term.length) = terms s := by
  obtain ⟨word, words, words', hsplit, hspec, hfilter⟩ := splitSpaces_agrees s
  have hne : (fun term : JsString => decide (0 < term.length)) = fun term => decide (term ≠ []) := by
    funext term
    rw [decide_eq_decide, List.length_pos_iff]
  rw [terms, hsplit, hspec, hne, List.filter_cons, List.filter_cons, hfilter]

theorem terms_append (hc : isSpace c = true) (s u : JsString) :
    terms (s ++ c :: u) = terms s ++ terms u := by
  rw [terms, List.splitOnP_append_cons s u hc, List.filter_append, terms, terms]

theorem terms_cons (hc : isSpace c = true) (s : JsString) : terms (c :: s) = terms s :=
  terms_append hc [] s

theorem terms_dropWhile (s : JsString) : terms (s.dropWhile isSpace) = terms s := by
  induction s with
  | nil => rfl
  | cons c s ih =>
    rw [List.dropWhile_cons]
    split
    · rename_i hc
      rw [ih, terms_cons hc]
    · rfl

theorem terms_reverse_dropWhile (s : JsString) :
    terms (s.dropWhile isSpace).reverse = terms s.reverse := by
  induction s with
  | nil => rfl
  | cons c s ih =>
    rw [List.dropWhile_cons]
    split
    · rename_i hc
      rw [ih, List.reverse_cons, terms_append hc]
      exact (List.append_nil _).symm
    · rfl

theorem terms_trim (s : JsString) : terms (trim s) = terms s := by
  rw [trim, terms_reverse_dropWhile, List.reverse_reverse, terms_dropWhile]

theorem terms_eq_nil : terms s = [] ↔ ∀ c ∈ s, isSpace c = true := by
  induction s with
  | nil => simp [terms]
  | cons c s ih =>
    by_cases hc : isSpace c = true
    · rw [terms_cons hc, ih, List.forall_mem_cons, and_iff_right hc]
    · obtain ⟨word, words, hwords⟩ := List.exists_cons_of_ne_nil (List.splitOnP_ne_nil isSpace s)
      rw [terms, List.splitOnP_cons_eq_if_modifyHead, if_neg hc, hwords, List.forall_mem_cons,
        and_iff_left_of_imp]
      all_goals simp [hc]

/-- What is no white space is in a term. -/
theorem mem_terms (hc : isSpace c = false) : (∃ term ∈ terms s, c ∈ term) ↔ c ∈ s := by
  have hsplit : (∃ word ∈ s.splitOnP isSpace, c ∈ word) ↔ c ∈ s := by
    induction s with
    | nil => simp
    | cons d s ih =>
      obtain ⟨word, words, hwords⟩ := List.exists_cons_of_ne_nil (List.splitOnP_ne_nil isSpace s)
      rw [List.splitOnP_cons_eq_if_modifyHead, List.mem_cons, ← ih, hwords]
      by_cases hd : isSpace d = true
      · have hne : c ≠ d := by
          rintro rfl
          rw [hc] at hd
          cases hd
        simp [hd, hne]
      · simp [hd, or_assoc]
  rw [← hsplit, terms]
  constructor
  · rintro ⟨word, hword, hmem⟩
    exact ⟨word, List.mem_of_mem_filter hword, hmem⟩
  · rintro ⟨word, hword, hmem⟩
    exact ⟨word, List.mem_filter.mpr ⟨hword, decide_eq_true (List.ne_nil_of_mem hmem)⟩, hmem⟩

theorem quoteTerm_eq (term : JsString) : quoteTerm term = Fts5.quoted term := by
  rw [quoteTerm, Fts5.quoted, Fts5.escape, List.append_assoc, List.singleton_append]
  rfl

theorem toFtsMatchQuery_eq (query : JsString) : toFtsMatchQuery query =
    [0x20, 0x41, 0x4e, 0x44, 0x20].intercalate ((terms query).map Fts5.quoted) := by
  have hquote : quoteTerm = Fts5.quoted := funext quoteTerm_eq
  rw [toFtsMatchQuery, splitSpaces_terms, hquote]
  rfl

/-- A blank query is not run. Of any other the text that is run is the conjunction of its
terms, each a string as it was typed, and has no other reading. -/
def RunsConjunction (query : JsString) : Prop :=
  (∀ c ∈ query, isSpace c = true) ∧
      (∀ (m : Type → Type) [Monad m] (all : JsString → m (List JsString)),
        searchMessages all query = pure []) ∨
    (¬∀ c ∈ query, isSpace c = true) ∧
      (∀ (m : Type → Type) [Monad m] (all : JsString → m (List JsString)),
        searchMessages all query = all (toFtsMatchQuery (trim query))) ∧
      Fts5.IsConjunction (toFtsMatchQuery (trim query)) (terms query)

theorem toFtsMatchQuery_trim (query : JsString) : toFtsMatchQuery (trim query) =
    [0x20, 0x41, 0x4e, 0x44, 0x20].intercalate ((terms query).map Fts5.quoted) := by
  rw [toFtsMatchQuery_eq, terms_trim]

theorem searchMessages_of_blank (h : terms query = []) (m : Type → Type) [Monad m]
    (all : JsString → m (List JsString)) : searchMessages all query = pure [] := by
  have htext := toFtsMatchQuery_trim query
  rw [h, List.map_nil, List.intercalate_nil] at htext
  rw [searchMessages, if_pos htext]

theorem searchMessages_of_terms (h : terms query ≠ []) (m : Type → Type) [Monad m]
    (all : JsString → m (List JsString)) :
    searchMessages all query = all (toFtsMatchQuery (trim query)) := by
  rw [searchMessages, if_neg]
  rw [toFtsMatchQuery_trim]
  obtain ⟨term, rest, hterms⟩ := List.exists_cons_of_ne_nil h
  rw [hterms]
  cases rest <;> simp [Fts5.quoted]

/-- The search is the conjunction of the typed terms exactly for the queries without U+0000. -/
theorem runsConjunction_iff (query : JsString) : RunsConjunction query ↔ 0 ∉ query := by
  have hzero : isSpace 0 = false := by decide
  by_cases hterms : terms query = []
  · have hblank := terms_eq_nil.mp hterms
    have hnot : (0 : UInt16) ∉ query := by
      intro hmem
      rw [hblank 0 hmem] at hzero
      cases hzero
    exact iff_of_true (.inl ⟨hblank, fun m _ all => searchMessages_of_blank hterms m all⟩) hnot
  · have hblank : ¬∀ c ∈ query, isSpace c = true := fun h => hterms (terms_eq_nil.mpr h)
    have hconjunction : Fts5.IsConjunction (toFtsMatchQuery (trim query)) (terms query) ↔
        0 ∉ query := by
      rw [toFtsMatchQuery_trim, Fts5.isConjunction_join hterms, ← not_iff_not, not_not,
        ← mem_terms hzero]
      simp
    constructor
    · rintro (⟨h, -⟩ | ⟨-, -, h⟩)
      · exact absurd h hblank
      · exact hconjunction.mp h
    · intro h
      exact .inr ⟨hblank, fun m _ all => searchMessages_of_terms hterms m all, hconjunction.mpr h⟩

/-- The letter `a` and U+0000: the text in quotes that is run is no query. -/
theorem not_runsConjunction : ¬RunsConjunction [0x61, 0] ∧
    Fts5.tokens (toFtsMatchQuery (trim [0x61, 0])) = none := by
  have htokens : Fts5.tokens (toFtsMatchQuery (trim [0x61, 0])) = none := by
    rw [toFtsMatchQuery_trim]
    exact Fts5.tokens_join_none _ ⟨[0x61, 0], by decide, by decide⟩
  refine ⟨?_, htokens⟩
  rintro (⟨h, -⟩ | ⟨-, -, ts, hts, -⟩)
  · exact absurd (h 0x61 (by decide)) (by decide)
  · rw [htokens] at hts
    cases hts

end Epistl.Messages
