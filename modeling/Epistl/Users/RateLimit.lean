import Epistl.Runs.FixedWindow
import Mathlib.Algebra.Group.Nat.Defs

/-! # The rate limit of the user search

`SearchRateLimiter` of `apps/api/src/search.rs`: one counter for all callers, behind a lock. An
`Instant` is the number of nanoseconds since some start.
-/
namespace Epistl.Users
open FixedWindow

def rateLimitMaxRequests : ℕ := 30

/-- Sixty seconds. -/
def rateLimitWindow : ℕ := 60 * 10 ^ 9

/-- `Instant::duration_since`, which is zero for a later instant. -/
def durationSince (now earlier : ℕ) : ℕ := now - earlier

namespace SearchRateLimiter

def new (now : ℕ) : Window where
  startedAt := now
  count := 0

def tryAcquire (window : Window) (now : ℕ) : Bool × Window :=
  let window := if rateLimitWindow ≤ durationSince now window.startedAt then
    { window with startedAt := now, count := 0 } else window
  if rateLimitMaxRequests ≤ window.count then (false, window)
  else (true, { window with count := window.count + 1 })

/-- Calls at the given times, one after the other: the window they leave, and for each of them
the window it was counted in and what it returned. -/
def serve (window : Window) (times : List ℕ) : Window × List FixedWindow.Call :=
  times.foldl (fun s now =>
    let r := tryAcquire s.1 now
    (r.2, s.2 ++ [⟨now, r.2.startedAt, r.1⟩])) (window, [])

/-- The limit holds over the calls at `times` of a limiter that was made at `made`. -/
structure Limited (made : ℕ) (times : List ℕ) : Prop where
  window start : acceptedIn (serve (new made) times).2 start ≤ rateLimitMaxRequests
  interval a : ((serve (new made) times).2.countP fun c =>
    c.accepted && (a ≤ c.time && c.time < a + rateLimitWindow)) ≤ 2 * rateLimitMaxRequests
  /-- the interval without its start -/
  interval' a : ((serve (new made) times).2.countP fun c =>
    c.accepted && (a < c.time && c.time ≤ a + rateLimitWindow)) ≤ 2 * rateLimitMaxRequests
  /-- a call is rejected in a window that is full and not over -/
  rejected {earlier : List ℕ} {now : ℕ} : earlier ++ [now] <+: times →
    (tryAcquire (serve (new made) earlier).1 now).1 = false →
    acceptedIn (serve (new made) earlier).2 (serve (new made) earlier).1.startedAt =
      rateLimitMaxRequests ∧
    (serve (new made) earlier).1.startedAt ≤ now ∧
    now < (serve (new made) earlier).1.startedAt + rateLimitWindow
  /-- and leaves the window as it is -/
  undelayed {earlier : List ℕ} {now : ℕ} : earlier ++ [now] <+: times →
    (tryAcquire (serve (new made) earlier).1 now).1 = false →
    (serve (new made) (earlier ++ [now])).1 = (serve (new made) earlier).1
  /-- the first call after the window starts the next one -/
  reset {earlier : List ℕ} {now : ℕ} : earlier ++ [now] <+: times →
    (serve (new made) earlier).1.startedAt + rateLimitWindow ≤ now →
    (tryAcquire (serve (new made) earlier).1 now).1 = true ∧
    (serve (new made) (earlier ++ [now])).1.startedAt = now

theorem tryAcquire_eq : tryAcquire = acquire rateLimitMaxRequests rateLimitWindow := rfl

theorem serve_eq : serve = run rateLimitMaxRequests rateLimitWindow := rfl

theorem serve_concat (window : Window) (times : List ℕ) (now : ℕ) :
    (serve window (times ++ [now])).1 = (tryAcquire (serve window times).1 now).2 := by
  rw [serve_eq, run_concat, tryAcquire_eq]

theorem rateLimitWindow_pos : 0 < rateLimitWindow := by decide

theorem rateLimitMaxRequests_pos : 0 < rateLimitMaxRequests := by decide

/-- Over calls at times that do not decrease the limit holds. -/
theorem limited (made : ℕ) (times : List ℕ) (htimes : (made :: times).Pairwise (· ≤ ·)) :
    Limited made times := by
  have hcounted {earlier : List ℕ} (h : earlier <+: times) :
      Counted rateLimitMaxRequests rateLimitWindow
        ((made :: earlier).getLast (List.cons_ne_nil _ _))
        (serve (new made) earlier).1 (serve (new made) earlier).2 :=
    counted_run rateLimitMaxRequests (w := new made) rateLimitWindow_pos rfl
      (htimes.sublist (h.sublist.cons_cons made))
  have hall := hcounted (List.prefix_refl times)
  constructor
  · exact hall.most
  · intro a
    refine hall.countP_interval (p := fun t => a ≤ t && t < a + rateLimitWindow) fun t t' ht ht' => ?_
    simp only [Bool.and_eq_true, decide_eq_true_eq] at ht ht'
    omega
  · intro a
    refine hall.countP_interval (p := fun t => a < t && t ≤ a + rateLimitWindow) fun t t' ht ht' => ?_
    simp only [Bool.and_eq_true, decide_eq_true_eq] at ht ht'
    omega
  · intro earlier now hprefix hrejected
    have hbefore := hcounted ((List.prefix_append earlier [now]).trans hprefix)
    obtain ⟨hsame, hlt, hfull⟩ := acquire_rejected rateLimitMaxRequests_pos hrejected
    have hle := (hcounted hprefix).startedAt_le
    rw [serve_concat, tryAcquire_eq, hsame] at hle
    simp only [← List.cons_append, List.getLast_concat] at hle
    have hcount := Nat.le_antisymm hbefore.count_le hfull
    exact ⟨hbefore.count_eq.symm.trans hcount, hle, by omega⟩
  · intro earlier now _ hrejected
    rw [serve_concat]
    exact (acquire_rejected rateLimitMaxRequests_pos hrejected).1
  · intro earlier now _ hover
    have hacquire := acquire_over rateLimitMaxRequests_pos (Nat.le_sub_of_add_le' hover)
    rw [serve_concat, tryAcquire_eq, hacquire]
    exact ⟨rfl, rfl⟩

/-- The window is filled, one more call is rejected, and the first at its end starts the next. -/
theorem limited_boundary :
    ((serve (new 0) (List.replicate 31 5 ++ [rateLimitWindow])).2.drop 29).map Call.accepted =
      [true, false, true] ∧ Limited 0 (List.replicate 31 5 ++ [rateLimitWindow]) :=
  ⟨by decide +kernel, limited 0 _ (by decide +kernel)⟩

end SearchRateLimiter

end Epistl.Users
