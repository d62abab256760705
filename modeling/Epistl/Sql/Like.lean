import Mathlib.Data.List.Basic
import Mathlib.Data.List.Infix
import Mathlib.Tactic.Common

/-! # Patterns of `LIKE`

A pattern is read into tokens: `%` stands for any characters, `_` for one, and a backslash
takes the next character literally. A text that is used as the front of a prefix pattern
means itself exactly when none of the three occurs in it.
-/
namespace Epistl.Like

inductive Token
  | literal (c : Char)
  | one
  | many
  deriving Repr, DecidableEq

/-- The characters with a meaning of their own. -/
def metacharacters : List Char := ['%', '_', '\\']

/-- A pattern that ends with its escape character is an error. -/
def tokens : List Char → Option (List Token)
  | [] => some []
  | c :: p =>
    if c = '\\' then
      match p with
      | [] => none
      | d :: p => (tokens p).map (.literal d :: ·)
    else (tokens p).map ((if c = '%' then .many else if c = '_' then .one else .literal c) :: ·)

def accepts : List Token → List Char → Bool
  | [], t => t.isEmpty
  | .literal c :: p, t =>
    match t with
    | [] => false
    | d :: t => d = c && accepts p t
  | .one :: p, t =>
    match t with
    | [] => false
    | _ :: t => accepts p t
  | .many :: p, t => t.tails.any (accepts p)

/-- `text LIKE pattern`. -/
def like (text pattern : List Char) : Option Bool := (tokens pattern).map (accepts · text)

variable {c : Char} {p q r t u : List Char}

theorem tokens_cons (hc : c ∉ metacharacters) : tokens (c :: p) = (tokens p).map (.literal c :: ·) := by
  simp only [metacharacters, List.mem_cons, List.not_mem_nil, or_false, not_or] at hc
  obtain ⟨hmany, hone, hescape⟩ := hc
  rw [tokens.eq_def]
  simp only [if_neg hescape, if_neg hmany, if_neg hone]

/-- Only what ends with its escape character is no pattern. -/
theorem tokens_prefix_isSome (q : List Char) : (tokens (q ++ ['%'])).isSome = true := by
  induction q using tokens.induct with
  | case1 => rfl
  | case2 => rfl
  | case3 d p ih => simpa [tokens] using ih
  | case4 c p hc ih =>
    rw [List.cons_append, tokens.eq_def]
    simpa only [if_neg hc, Option.isSome_map] using ih

theorem accepts_many : accepts [.many] t = true := by
  rw [accepts, List.any_eq_true]
  exact ⟨[], by simp, rfl⟩

/-- A prefix pattern over plain characters. -/
theorem like_of_plain (hq : ∀ c ∈ q, c ∉ metacharacters) :
    like t (q ++ ['%']) = some (decide (q <+: t)) := by
  induction q generalizing t with
  | nil =>
    have htokens : tokens ['%'] = some [.many] := by rfl
    rw [like, List.nil_append, htokens, Option.map_some, accepts_many]
    simp
  | cons c q ih =>
    have htail : ∀ d ∈ q, d ∉ metacharacters := fun d hd => hq d (List.mem_cons_of_mem c hd)
    rw [like, List.cons_append, tokens_cons (hq c List.mem_cons_self), Option.map_map]
    cases t with
    | nil =>
      have hnone := ih htail (t := [])
      rw [like, Option.map_eq_some_iff] at hnone
      obtain ⟨p, hp, -⟩ := hnone
      simp [hp, accepts]
    | cons d t =>
      have hrest := ih htail (t := t)
      rw [like, Option.map_eq_some_iff] at hrest
      obtain ⟨p, hp, hrest⟩ := hrest
      rw [hp, Option.map_some, Function.comp_apply, accepts, hrest, Option.some_inj,
        ← Bool.decide_and, decide_eq_decide, List.cons_prefix_cons, eq_comm]

/-- A text that a prefix pattern accepts: an escaped character stands for itself, and `x` for
each of the others. -/
def sample : List Char → List Char
  | [] => []
  | c :: p =>
    if c = '\\' then
      match p with
      | [] => ['%']
      | d :: p => d :: sample p
    else (if c = '%' ∨ c = '_' then 'x' else c) :: sample p

theorem sample_cons (hc : ¬c = '\\') :
    sample (c :: p) = (if c = '%' ∨ c = '_' then 'x' else c) :: sample p := by
  rw [sample.eq_def]
  simp only [if_neg hc]

theorem length_sample_le (q : List Char) : (sample q).length ≤ q.length := by
  induction q using sample.induct with
  | case1 => exact Nat.le_refl 0
  | case2 => simp [sample]
  | case3 d p ih =>
    simp only [sample, if_true, List.length_cons]
    omega
  | case4 c p hc ih =>
    rw [sample_cons hc, List.length_cons, List.length_cons]
    omega

theorem mem_of_mem_sample (h : c ∈ sample q) : c ∈ q ∨ c = 'x' ∨ c = '%' := by
  induction q using sample.induct with
  | case1 => cases h
  | case2 => exact Or.inr (Or.inr (by simpa [sample] using h))
  | case3 d p ih =>
    simp only [sample, if_true, List.mem_cons] at h ⊢
    rcases h with rfl | h
    · exact Or.inl (Or.inr (Or.inl rfl))
    · exact (ih h).imp_left fun hp => Or.inr (Or.inr hp)
  | case4 d p hd ih =>
    rw [sample_cons hd, List.mem_cons] at h
    rcases h with rfl | h
    · split
      · exact Or.inr (Or.inl rfl)
      · exact Or.inl List.mem_cons_self
    · exact (ih h).imp_left (List.mem_cons_of_mem d)

/-- A change of case that keeps to itself what has a meaning in patterns. -/
structure Folds (lower : Char → Char) : Prop where
  iff (c m : Char) : m ∈ metacharacters → (lower c = m ↔ c = m)

namespace Folds
variable {lower : Char → Char}

theorem fixed (h : Folds lower) {m : Char} (hm : m ∈ metacharacters) : lower m = m :=
  (h.iff m m hm).mpr rfl

theorem mem_iff (h : Folds lower) : lower c ∈ metacharacters ↔ c ∈ metacharacters := by
  constructor
  · intro hc
    have he := (h.iff c (lower c) hc).mp rfl
    rwa [← he] at hc
  · intro hc
    rwa [h.fixed hc]

theorem accepts_sample (h : Folds lower) (q : List Char) :
    like ((sample q).map lower) ((q ++ ['%']).map lower) = some true := by
  have hescape : lower '\\' = '\\' := h.fixed (by decide)
  have hmany : lower '%' = '%' := h.fixed (by decide)
  have hone : lower '_' = '_' := h.fixed (by decide)
  induction q using sample.induct with
  | case1 => simp [hmany, like, tokens, sample, accepts]
  | case2 => simp [hmany, hescape, like, tokens, sample, accepts]
  | case3 d p ih =>
    rw [like, Option.map_eq_some_iff] at ih
    obtain ⟨l, hl, ih⟩ := ih
    simp only [like, List.cons_append, List.map_cons, hescape, tokens, if_true, hl, Option.map_some,
      sample, accepts, decide_true, Bool.true_and, ih]
  | case4 c p hc ih =>
    rw [like, Option.map_eq_some_iff] at ih
    obtain ⟨l, hl, ih⟩ := ih
    have hlower : lower c ≠ '\\' := fun he => hc ((h.iff c _ (by decide)).mp he)
    rw [like, List.cons_append, List.map_cons, tokens.eq_def]
    simp only [if_neg hlower, hl, Option.map_some, sample_cons hc, List.map_cons, Option.some_inj]
    by_cases hm : c = '%'
    · subst hm
      simp only [hmany, if_true, true_or, accepts, List.any_eq_true]
      exact ⟨(sample p).map lower, by simp, ih⟩
    · have hlm : lower c ≠ '%' := fun he => hm ((h.iff c _ (by decide)).mp he)
      by_cases ho : c = '_'
      · subst ho
        simp [hone, accepts, ih]
      · have hlo : lower c ≠ '_' := fun he => ho ((h.iff c _ (by decide)).mp he)
        simp [hlm, hlo, hm, ho, accepts, ih]

/-- Its sample does not start with a text that uses the pattern language. -/
theorem not_prefix_sample (h : Folds lower) (hq : ∃ m ∈ q, m ∈ metacharacters) :
    ¬q.map lower <+: (sample q).map lower := by
  have hx (m : Char) (hm : m ∈ metacharacters) : lower m ≠ lower 'x' := by
    rw [h.fixed hm]
    intro he
    have := (h.iff 'x' m hm).mp he.symm
    subst this
    exact absurd hm (by decide)
  induction q using sample.induct with
  | case1 => simp at hq
  | case2 =>
    intro hprefix
    simp only [sample, if_true, List.map_cons, List.map_nil, List.cons_prefix_cons,
      h.fixed (show '\\' ∈ metacharacters by decide),
      h.fixed (show '%' ∈ metacharacters by decide)] at hprefix
    exact absurd hprefix.1 (by decide)
  | case3 d p ih =>
    intro hprefix
    have hlength := hprefix.length_le
    have hsample := length_sample_le p
    simp only [sample, if_true, List.length_map, List.length_cons] at hlength
    omega
  | case4 c p hc ih =>
    intro hprefix
    rw [sample_cons hc, List.map_cons, List.map_cons, List.cons_prefix_cons] at hprefix
    obtain ⟨hhead, htail⟩ := hprefix
    obtain ⟨m, hm, hmeta⟩ := hq
    rcases List.mem_cons.mp hm with rfl | hm
    · have hcase : m = '%' ∨ m = '_' := by
        simp only [metacharacters, List.mem_cons, List.not_mem_nil, or_false] at hmeta
        rcases hmeta with rfl | rfl | rfl
        · exact Or.inl rfl
        · exact Or.inr rfl
        · exact absurd rfl hc
      rw [if_pos hcase] at hhead
      exact hx m hmeta hhead
    · exact ih ⟨m, hm, hmeta⟩ htail

end Folds

end Epistl.Like
