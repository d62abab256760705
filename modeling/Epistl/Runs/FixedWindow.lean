import Mathlib.Data.List.Count
import Mathlib.Data.List.Induction
import Mathlib.Data.List.Pairwise
import Mathlib.Tactic.Common

/-! # Calls counted in fixed windows

A counter accepts `max` calls in a window. The window ends `span` after its start, and the next
call then starts a new one. An interval of that length meets at most two windows.
-/
namespace Epistl.FixedWindow

structure Window where
  startedAt : ℕ
  count : ℕ
  deriving Repr, DecidableEq

/-- A call, the start of the window it is counted in, and whether it was accepted. -/
structure Call where
  time : ℕ
  window : ℕ
  accepted : Bool
  deriving Repr, DecidableEq

variable (max span : ℕ)

/-- The window that a call at `now` falls into. -/
def renew (w : Window) (now : ℕ) : Window := if span ≤ now - w.startedAt then ⟨now, 0⟩ else w

def acquire (w : Window) (now : ℕ) : Bool × Window :=
  let w := renew span w now
  if max ≤ w.count then (false, w) else (true, { w with count := w.count + 1 })

def call (w : Window) (now : ℕ) : Call :=
  let r := acquire max span w now
  ⟨now, r.2.startedAt, r.1⟩

/-- The window after the calls, and the calls. -/
def run (w : Window) (times : List ℕ) : Window × List Call :=
  times.foldl (fun s now => ((acquire max span s.1 now).2, s.2 ++ [call max span s.1 now])) (w, [])

/-- The calls that the window which started at `start` has accepted. -/
def acceptedIn (calls : List Call) (start : ℕ) : ℕ :=
  calls.countP fun c => c.accepted && c.window = start

variable {w : Window} {now : ℕ} {times : List ℕ} {calls : List Call}

theorem run_concat : run max span w (times ++ [now]) =
    ((acquire max span (run max span w times).1 now).2,
      (run max span w times).2 ++ [call max span (run max span w times).1 now]) := by
  rw [run, List.foldl_append]
  rfl

/-- What a call finds and leaves. -/
theorem acquire_cases (w : Window) (now : ℕ) :
    (acquire max span w now = (false, renew span w now) ∧ max ≤ (renew span w now).count) ∨
    (acquire max span w now =
      (true, ⟨(renew span w now).startedAt, (renew span w now).count + 1⟩) ∧
      (renew span w now).count < max) := by
  by_cases h : max ≤ (renew span w now).count
  · exact .inl ⟨by simp [acquire, h], h⟩
  · exact .inr ⟨by simp [acquire, h], by omega⟩

theorem renew_cases (w : Window) (now : ℕ) :
    (renew span w now = ⟨now, 0⟩ ∧ span ≤ now - w.startedAt) ∨
    (renew span w now = w ∧ now - w.startedAt < span) := by
  by_cases h : span ≤ now - w.startedAt
  · exact .inl ⟨by simp [renew, h], h⟩
  · exact .inr ⟨by simp [renew, h], by omega⟩

variable {max span}

/-- A call is rejected in a window that is full and not over, and leaves it as it is. -/
theorem acquire_rejected (hmax : 0 < max) (h : (acquire max span w now).1 = false) :
    (acquire max span w now).2 = w ∧ now - w.startedAt < span ∧ max ≤ w.count := by
  rcases acquire_cases max span w now with ⟨hr, hfull⟩ | ⟨hr, -⟩
  · rcases renew_cases span w now with ⟨hw, -⟩ | ⟨hw, hbefore⟩
    · rw [hw] at hfull
      exact absurd hfull (Nat.not_le.mpr hmax)
    · rw [hw] at hr hfull
      exact ⟨congrArg Prod.snd hr, hbefore, hfull⟩
  · rw [hr] at h
    cases h

/-- The first call after the window is over. -/
theorem acquire_over (hmax : 0 < max) (h : span ≤ now - w.startedAt) :
    acquire max span w now = (true, ⟨now, 1⟩) := by
  rw [acquire, renew, if_pos h, if_neg (Nat.not_le.mpr hmax)]

theorem acceptedIn_concat (calls : List Call) (c : Call) (start : ℕ) :
    acceptedIn (calls ++ [c]) start =
      acceptedIn calls start + if c.accepted = true ∧ c.window = start then 1 else 0 := by
  simp [acceptedIn, List.countP_append, List.countP_singleton]

/-- The calls up to now and the window they leave. -/
structure Counted (max span now : ℕ) (w : Window) (calls : List Call) : Prop where
  startedAt_le : w.startedAt ≤ now
  count_le : w.count ≤ max
  count_eq : w.count = acceptedIn calls w.startedAt
  most start : acceptedIn calls start ≤ max
  /-- every call is before now and in its window -/
  within : ∀ c ∈ calls, c.time ≤ now ∧ c.window ≤ c.time ∧ c.time < c.window + span
  current : ∀ c ∈ calls, c.window = w.startedAt ∨ c.window + span ≤ w.startedAt
  apart : calls.Pairwise fun c d => c.window = d.window ∨ c.window + span ≤ d.window

namespace Counted

theorem start (hcount : w.count = 0) : Counted max span w.startedAt w [] where
  startedAt_le := Nat.le_refl _
  count_le := by omega
  count_eq := hcount
  most _ := Nat.zero_le _
  within c hc := by cases hc
  current c hc := by cases hc
  apart := .nil

/-- Time passes, and the window ends if it is over. -/
theorem renew {t : ℕ} (h : Counted max span t w calls) (hspan : 0 < span) (hle : t ≤ now) :
    Counted max span now (renew span w now) calls where
  startedAt_le := by
    rcases renew_cases span w now with ⟨hw, -⟩ | ⟨hw, -⟩
    · exact Nat.le_of_eq (congrArg Window.startedAt hw)
    · rw [hw]
      exact Nat.le_trans h.startedAt_le hle
  count_le := by
    rcases renew_cases span w now with ⟨hw, -⟩ | ⟨hw, -⟩
    · rw [hw]
      exact Nat.zero_le _
    · rw [hw]
      exact h.count_le
  count_eq := by
    rcases renew_cases span w now with ⟨hw, hover⟩ | ⟨hw, -⟩
    · rw [hw]
      refine (List.countP_eq_zero.mpr fun c hc hnow => ?_).symm
      simp only [Bool.and_eq_true, decide_eq_true_eq] at hnow
      rcases h.current c hc with hcur | hpast <;> omega
    · rw [hw]
      exact h.count_eq
  most := h.most
  within c hc := ⟨Nat.le_trans (h.within c hc).1 hle, (h.within c hc).2⟩
  current c hc := by
    rcases renew_cases span w now with ⟨hw, hover⟩ | ⟨hw, -⟩
    · rw [hw]
      dsimp only
      rcases h.current c hc with hcur | hpast <;> omega
    · rw [hw]
      exact h.current c hc
  apart := h.apart

/-- A call is counted in the window that it falls into. -/
theorem concat (h : Counted max span now w calls) {c : Call} (htime : c.time = now)
    (hwindow : c.window = w.startedAt) (hnow : now < w.startedAt + span)
    (hmax : c.accepted = true → w.count < max) :
    Counted max span now ⟨w.startedAt, w.count + if c.accepted = true then 1 else 0⟩
      (calls ++ [c]) where
  startedAt_le := h.startedAt_le
  count_le := by
    dsimp only
    split
    · rename_i hc
      exact hmax hc
    · exact h.count_le
  count_eq := by
    simp only [acceptedIn_concat, hwindow, and_true, ← h.count_eq]
  most start := by
    rw [acceptedIn_concat]
    split
    · rename_i hc
      rw [← hc.2, hwindow, ← h.count_eq]
      exact hmax hc.1
    · exact h.most start
  within d hd := by
    rcases List.mem_append.mp hd with hd | hd
    · exact h.within d hd
    · obtain rfl := List.mem_singleton.mp hd
      have hle := h.startedAt_le
      omega
  current d hd := by
    rcases List.mem_append.mp hd with hd | hd
    · exact h.current d hd
    · obtain rfl := List.mem_singleton.mp hd
      exact .inl hwindow
  apart := by
    rw [List.pairwise_append]
    refine ⟨h.apart, List.pairwise_singleton _ _, fun d hd d' hd' => ?_⟩
    obtain rfl := List.mem_singleton.mp hd'
    rw [hwindow]
    exact h.current d hd

theorem acquire {t : ℕ} (h : Counted max span t w calls) (hspan : 0 < span) (hle : t ≤ now) :
    Counted max span now (acquire max span w now).2 (calls ++ [call max span w now]) := by
  have hnow : now < (FixedWindow.renew span w now).startedAt + span := by
    rcases renew_cases span w now with ⟨hw, -⟩ | ⟨hw, hbefore⟩
    · rw [hw]
      exact Nat.lt_add_of_pos_right hspan
    · rw [hw]
      omega
  have hrenewed := h.renew hspan hle
  rcases acquire_cases max span w now with ⟨hr, hfull⟩ | ⟨hr, hfree⟩
  · have hcall := hrenewed.concat (c := call max span w now) rfl (by simp [call, hr]) hnow
      fun haccepted => by simp [call, hr] at haccepted
    simpa [call, hr] using hcall
  · have hcall := hrenewed.concat (c := call max span w now) rfl (by simp [call, hr]) hnow
      fun _ => hfree
    simpa [call, hr] using hcall

/-- The calls with one property are in one window. -/
theorem countP_le (h : Counted max span now w calls) {p : Call → Bool}
    (hsame : ∀ c ∈ calls, ∀ d ∈ calls, p c = true → p d = true → c.window = d.window) :
    (calls.countP fun c => c.accepted && p c) ≤ max := by
  by_cases hnone : ∃ c ∈ calls, p c = true
  · obtain ⟨c, hc, hp⟩ := hnone
    refine Nat.le_trans (List.countP_mono_left fun d hd hd' => ?_) (h.most c.window)
    simp only [Bool.and_eq_true, decide_eq_true_eq] at hd' ⊢
    exact ⟨hd'.1, hsame d hd c hc hd'.2 hp⟩
  · rw [List.countP_eq_zero.mpr fun c hc hp => hnone ⟨c, hc, (Bool.and_eq_true_iff.mp hp).2⟩]
    exact Nat.zero_le _

/-- Two calls are in one window, or one window ends before the other starts. -/
theorem apart_of_mem (h : Counted max span now w calls) {c d : Call} (hc : c ∈ calls)
    (hd : d ∈ calls) : c.window = d.window ∨ c.window + span ≤ d.window ∨
      d.window + span ≤ c.window := by
  by_cases heq : c = d
  · exact .inl (congrArg Call.window heq)
  have hsymm : Std.Symm fun c d : Call => c.window = d.window ∨ c.window + span ≤ d.window ∨
      d.window + span ≤ c.window := ⟨fun c d hcd => by omega⟩
  have hpair : calls.Pairwise fun c d : Call => c.window = d.window ∨ c.window + span ≤ d.window ∨
      d.window + span ≤ c.window := h.apart.imp fun hcd => hcd.imp_right .inl
  exact hpair.forall hc hd heq

/-- Calls that are less than a window apart are in two windows at most. -/
theorem countP_interval (h : Counted max span now w calls) {p : ℕ → Bool}
    (hp : ∀ t t', p t = true → p t' = true → t < t' + span) :
    (calls.countP fun c => c.accepted && p c.time) ≤ 2 * max := by
  by_cases hnone : ∃ c ∈ calls, p c.time = true
  · obtain ⟨c, hc, hpc⟩ := hnone
    have hfirst := h.countP_le (p := fun d => p d.time && d.window = c.window)
      fun d _ e _ hd he => by
        simp only [Bool.and_eq_true, decide_eq_true_eq] at hd he
        rw [hd.2, he.2]
    have hsecond := h.countP_le (p := fun d => p d.time && !decide (d.window = c.window))
      fun d hd e he hpd hpe => by
        simp only [Bool.and_eq_true, Bool.not_eq_true', decide_eq_false_iff_not] at hpd hpe
        -- a third window would start more than `span` after the first ends
        have hcd := h.apart_of_mem hc hd
        have hce := h.apart_of_mem hc he
        have hde := h.apart_of_mem hd he
        have hwc := h.within c hc
        have hwd := h.within d hd
        have hwe := h.within e he
        have h1 := hp _ _ hpc hpd.1
        have h2 := hp _ _ hpd.1 hpc
        have h3 := hp _ _ hpc hpe.1
        have h4 := hp _ _ hpe.1 hpc
        have h5 := hp _ _ hpd.1 hpe.1
        have h6 := hp _ _ hpe.1 hpd.1
        omega
    rw [List.countP_eq_countP_filter_add _ _ fun d => decide (d.window = c.window),
      List.countP_filter, List.countP_filter]
    simp only [Bool.and_assoc]
    omega
  · rw [List.countP_eq_zero.mpr fun c hc hpc => hnone ⟨c, hc, (Bool.and_eq_true_iff.mp hpc).2⟩]
    exact Nat.zero_le _

end Counted

variable (max) in
theorem counted_run (hspan : 0 < span) (hcount : w.count = 0)
    (htimes : (w.startedAt :: times).Pairwise (· ≤ ·)) :
    Counted max span ((w.startedAt :: times).getLast (List.cons_ne_nil _ _))
      (run max span w times).1 (run max span w times).2 := by
  induction times using List.reverseRecOn with
  | nil => exact .start hcount
  | append_singleton times now ih =>
    rw [← List.cons_append, List.pairwise_append] at htimes
    have hlast := htimes.2.2 _ (List.getLast_mem (List.cons_ne_nil _ _)) now (by simp)
    rw [run_concat]
    simp only [← List.cons_append, List.getLast_concat]
    exact (ih htimes.1).acquire hspan hlast

end Epistl.FixedWindow
