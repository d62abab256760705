import Mathlib.Data.List.Basic
import Mathlib.Data.List.Count
import Mathlib.Tactic.Common

/-! # Taking from a log of runs

A log assigns a key to every position; a taker picks positions one after another.
When it only moves forward and never skips a position of a key it takes from, what
it took of each key is a prefix of that key's positions.
-/
namespace Epistl
variable {κ : Type*} [DecidableEq κ] {keys : List κ} {taken : List ℕ}

structure Taken (keys : List κ) (taken : List ℕ) : Prop where
  sorted : taken.Pairwise (· < ·)
  lt_length : ∀ i ∈ taken, i < keys.length
  downward : ∀ i ∈ taken, ∀ j < i, keys[j]? = keys[i]? → j ∈ taken

/-- The positions of one key. -/
def positions (keys : List κ) (k : κ) : List ℕ :=
  (List.range keys.length).filter fun i => keys[i]? = some k

/-- How many earlier positions carry the key of position `i`. -/
def rank (keys : List κ) (i : ℕ) : ℕ := (keys.take i).countP fun k => keys[i]? = some k

/-- The first position with the key of position `i`. -/
def created (keys : List κ) (i : ℕ) : ℕ := keys.findIdx fun k => keys[i]? = some k

/-- Equal keys sit next to each other. -/
def Contiguous (keys : List κ) : Prop :=
  ∀ i j k, i ≤ j → j ≤ k → k < keys.length → keys[i]? = keys[k]? → keys[j]? = keys[i]?

omit [DecidableEq κ] in
theorem Taken.nil : Taken keys [] :=
  ⟨.nil, by simp, by simp⟩

omit [DecidableEq κ] in
/-- Growing the log keeps what was taken in order. -/
theorem Taken.grow (h : Taken keys taken) (more : List κ) : Taken (keys ++ more) taken := by
  refine ⟨h.sorted, fun i hi => ?_, fun i hi j hj he => ?_⟩
  · have := h.lt_length i hi
    simp only [List.length_append]
    omega
  · have hlt := h.lt_length i hi
    rw [List.getElem?_append_left hlt, List.getElem?_append_left (by omega)] at he
    exact h.downward i hi j hj he

omit [DecidableEq κ] in
/-- Taking a later position all of whose predecessors of the same key are taken. -/
theorem Taken.take (h : Taken keys taken) {i : ℕ} (hi : i < keys.length)
    (hlater : ∀ j ∈ taken, j < i) (hprev : ∀ j < i, keys[j]? = keys[i]? → j ∈ taken) :
    Taken keys (taken ++ [i]) := by
  refine ⟨?_, fun j hj => ?_, fun j hj k hk he => ?_⟩
  · rw [List.pairwise_append]
    exact ⟨h.sorted, List.pairwise_singleton _ _, fun a ha b hb => by
      rw [List.mem_singleton.mp hb]
      exact hlater a ha⟩
  · rcases List.mem_append.mp hj with hj | hj
    · exact h.lt_length j hj
    · rwa [List.mem_singleton.mp hj]
  · rcases List.mem_append.mp hj with hj | hj
    · exact List.mem_append_left _ (h.downward j hj k hk he)
    · rw [List.mem_singleton.mp hj] at hk he
      exact List.mem_append_left _ (hprev k hk he)

/-- An increasing list that is downward closed in another increasing list is a prefix of it. -/
theorem isPrefix_of_downward {l L : List ℕ} (hl : l.Pairwise (· < ·)) (hL : L.Pairwise (· < ·))
    (hsub : ∀ x ∈ l, x ∈ L) (hdown : ∀ x ∈ l, ∀ y ∈ L, y < x → y ∈ l) : l <+: L := by
  induction L generalizing l with
  | nil =>
    cases l with
    | nil => exact List.prefix_rfl
    | cons b l => exact absurd (hsub b List.mem_cons_self) List.not_mem_nil
  | cons a L ih =>
    cases l with
    | nil => exact List.nil_prefix
    | cons b l =>
      obtain ⟨hb, hl⟩ := List.pairwise_cons.mp hl
      obtain ⟨ha, hL'⟩ := List.pairwise_cons.mp hL
      have hba : b = a := by
        rcases List.mem_cons.mp (hsub b List.mem_cons_self) with h | h
        · exact h
        · have hab := ha b h
          rcases List.mem_cons.mp (hdown b List.mem_cons_self a List.mem_cons_self hab) with h | h
          · exact h.symm
          · exact absurd (hb a h) (Nat.lt_asymm hab)
      subst hba
      rw [List.prefix_cons_inj]
      refine ih hl hL' (fun x hx => ?_) (fun x hx y hy hyx => ?_)
      · rcases List.mem_cons.mp (hsub x (List.mem_cons_of_mem _ hx)) with h | h
        · exact absurd (hb x hx) (by rw [h]; exact Nat.lt_irrefl _)
        · exact h
      · rcases List.mem_cons.mp
          (hdown x (List.mem_cons_of_mem _ hx) y (List.mem_cons_of_mem _ hy) hyx) with h | h
        · exact absurd (ha y hy) (by rw [h]; exact Nat.lt_irrefl _)
        · exact h

theorem mem_positions {k : κ} {i : ℕ} : i ∈ positions keys k ↔ keys[i]? = some k := by
  simp only [positions, List.mem_filter, List.mem_range, decide_eq_true_eq, and_iff_right_iff_imp]
  intro h
  exact (List.getElem?_eq_some_iff.mp h).1

/-- What was taken of a key is a gap free, duplicate free prefix of its positions. -/
theorem Taken.isPrefix (h : Taken keys taken) (k : κ) :
    (taken.filter fun i => keys[i]? = some k) <+: positions keys k := by
  refine isPrefix_of_downward (h.sorted.filter _) (List.pairwise_lt_range.filter _)
    (fun x hx => ?_) (fun x hx y hy hyx => ?_)
  · exact mem_positions.mpr (by simpa using (List.mem_filter.mp hx).2)
  · obtain ⟨hx, hk⟩ := List.mem_filter.mp hx
    have hy := mem_positions.mp hy
    have hk : keys[x]? = some k := by simpa using hk
    exact List.mem_filter.mpr ⟨h.downward x hx y hyx (hy.trans hk.symm), by simpa using hy⟩

theorem rank_grow {i : ℕ} (hi : i < keys.length) (more : List κ) :
    rank (keys ++ more) i = rank keys i := by
  rw [rank, rank, List.getElem?_append_left hi, List.take_append_of_le_length (Nat.le_of_lt hi)]

theorem rank_append (before after : List κ) (k : κ) :
    rank (before ++ k :: after) before.length = before.countP fun a => a = k := by
  have hk : (before ++ k :: after)[before.length]? = some k := by simp
  rw [rank, hk, List.take_left' rfl]
  refine List.countP_congr fun a _ => ?_
  simp only [decide_eq_true_eq, Option.some.injEq]
  exact eq_comm

theorem created_le {i j : ℕ} (hi : i < keys.length) (h : keys[j]? = keys[i]?) :
    created keys j ≤ i := by
  by_contra hlt
  have hn := List.not_of_lt_findIdx (Nat.lt_of_not_le hlt)
  simp [h, List.getElem?_eq_getElem hi] at hn

theorem getElem?_created {i : ℕ} (hi : i < keys.length) : keys[created keys i]? = keys[i]? := by
  have hle := created_le hi rfl
  have hget := List.getElem?_eq_getElem (Nat.lt_of_le_of_lt hle hi)
  have h := List.findIdx_of_getElem?_eq_some hget
  rw [hget]
  exact (of_decide_eq_true h).symm

/-- With contiguous keys, moving forward means never returning to an earlier run. -/
theorem Taken.created_mono (h : Taken keys taken) (hc : Contiguous keys) :
    taken.Pairwise fun i j => created keys i ≤ created keys j := by
  refine h.sorted.imp_of_mem fun {i j} hi hj hij => ?_
  have hli := h.lt_length i hi
  have hlj := h.lt_length j hj
  by_cases hle : created keys j ≤ i
  · have hk := getElem?_created hlj
    have hij' := hc _ i j hle (Nat.le_of_lt hij) hlj hk
    exact created_le (Nat.lt_of_le_of_lt hle hli) hij'
  · have := created_le hli (rfl : keys[i]? = keys[i]?)
    omega

omit [DecidableEq κ] in
theorem Contiguous.of_forall_eq {k : κ} (h : ∀ a ∈ keys, a = k) : Contiguous keys := by
  intro i j l hij hjl hl _
  rw [List.getElem?_eq_getElem (by omega), List.getElem?_eq_getElem (by omega),
    h _ (List.getElem_mem _), h _ (List.getElem_mem _)]

omit [DecidableEq κ] in
/-- Appending the last key once more, or a new one. -/
theorem Contiguous.concat (h : Contiguous keys) {k : κ}
    (hk : keys.getLast? = some k ∨ k ∉ keys) : Contiguous (keys ++ [k]) := by
  intro i j l hij hjl hl he
  rw [List.length_append, List.length_singleton] at hl
  by_cases hlast : l < keys.length
  · rw [List.getElem?_append_left (by omega), List.getElem?_append_left hlast] at he
    rw [List.getElem?_append_left (by omega), List.getElem?_append_left (by omega)]
    exact h i j l hij hjl hlast he
  · have hl : l = keys.length := by omega
    subst hl
    by_cases hj : j = keys.length
    · rw [hj, he]
    · by_cases hi : i = keys.length
      · omega
      · rw [List.getElem?_append_left (by omega), List.getElem?_append_right (Nat.le_refl _),
          Nat.sub_self, List.getElem?_singleton] at he
        simp only [if_true] at he
        rw [List.getElem?_append_left (by omega), List.getElem?_append_left (by omega)]
        rcases hk with hk | hk
        · rw [List.getLast?_eq_getElem?] at hk
          exact h i j (keys.length - 1) hij (by omega) (by omega) (he.trans hk.symm)
        · exact absurd (List.mem_of_getElem? he) hk

end Epistl
