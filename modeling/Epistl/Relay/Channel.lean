import Epistl.Relay.Server
import Mathlib.Data.List.TakeWhile

/-! # Outbound channels

What a push, the forward task and its end do to the messages in a channel.
-/
namespace Epistl.Relay
variable {υ : Type} {m : Message υ}

namespace Channel
variable {c d : Channel υ} {frame : Frame υ}

/-- The forward task has not left its loop. -/
def live (c : Channel υ) : Prop := c.forward = .waiting ∨ c.forward = .running

instance (c : Channel υ) : Decidable c.live := inferInstanceAs (Decidable (_ ∨ _))

/-- The frames the forward task takes before a `Close`. -/
def ahead (c : Channel υ) : List (Frame υ) := c.frames.takeWhile fun f => !f.isClose

/-- The frames from the first `Close` on. -/
def behind (c : Channel υ) : List (Frame υ) := c.frames.dropWhile fun f => !f.isClose

/-- What was put into the channel, in its order. -/
def content (c : Channel υ) : List (Frame υ) := c.written ++ c.frames

def Carries (c : Channel υ) (m : Message υ) : Prop :=
  .text (.message m) ∈ c.written ∨ .text (.message m) ∈ c.frames

/-- No message is behind a `Close`, or in a channel whose forward task has ended. -/
structure Orderly (c : Channel υ) : Prop where
  behind : ∀ f ∈ c.behind, f.isMessage = false
  live : ¬ c.live → ∀ f ∈ c.frames, f.isMessage = false

/-- The message will still be taken by the forward task. -/
theorem Orderly.ahead (hc : c.Orderly) (hm : .text (.message m) ∈ c.frames) :
    c.live ∧ .text (.message m) ∈ c.ahead := by
  constructor
  · by_contra hlive
    cases hc.live hlive _ hm
  · rw [← List.takeWhile_append_dropWhile (p := fun f : Frame υ => !f.isClose) (l := c.frames)] at hm
    rcases List.mem_append.mp hm with hm | hm
    · exact hm
    · cases hc.behind _ hm

/-- No message is lost between two states of a channel. -/
structure Onward (c d : Channel υ) : Prop where
  orderly : c.Orderly → d.Orderly
  carries : ∀ m, c.Carries m → d.Carries m

/-- What a push makes of a channel. -/
def pushed (c : Channel υ) (frame : Frame υ) : Channel υ :=
  if c.forward = .closed then c else { c with frames := c.frames ++ [frame] }

theorem carries_pushed (h : c.Carries m) : (c.pushed frame).Carries m := by
  unfold pushed
  split
  · exact h
  · exact h.imp id (List.mem_append_left _)

/-- Anything but a message may be pushed into any channel. -/
theorem onward_pushed (hf : frame.isMessage = false) : c.Onward (c.pushed frame) := by
  refine ⟨fun hc => ?_, fun m => carries_pushed⟩
  unfold pushed
  split
  · exact hc
  · have happend {l : List (Frame υ)} (hl : ∀ f ∈ l, f.isMessage = false) :
        ∀ f ∈ l ++ [frame], f.isMessage = false := by
      intro f hmem
      rcases List.mem_append.mp hmem with hmem | hmem
      · exact hl f hmem
      · rw [List.mem_singleton.mp hmem]
        exact hf
    constructor
    · unfold behind
      rw [List.dropWhile_append]
      split
      · intro f hmem
        rw [List.mem_singleton.mp (List.dropWhile_subset _ hmem)]
        exact hf
      · exact happend hc.behind
    · intro hlive
      exact happend (hc.live hlive)

/-- A message may be pushed while the channel is live and has no `Close` in it. -/
theorem onward_pushed_message (hlive : c.live) (hclose : ∀ f ∈ c.frames, f.isClose = false) :
    c.Onward (c.pushed (.text (.message m))) ∧ (c.pushed (.text (.message m))).Carries m := by
  have hopen : c.forward ≠ .closed := by
    rcases hlive with h | h <;> rw [h] <;> decide
  rw [pushed, if_neg hopen]
  refine ⟨⟨fun _ => ⟨?_, fun hdead => absurd hlive hdead⟩, fun n hn => ?_⟩, ?_⟩
  · have hnil : behind { c with frames := c.frames ++ [.text (.message m)] } = [] := by
      refine List.dropWhile_eq_nil_iff.mpr ?_
      intro f hf
      rcases List.mem_append.mp hf with hf | hf
      · simp [hclose f hf]
      · rw [List.mem_singleton.mp hf]
        rfl
    rw [hnil]
    simp
  · exact hn.imp id (List.mem_append_left _)
  · exact .inr (List.mem_append_right _ (List.mem_singleton_self _))

theorem onward_running : c.Onward { c with forward := .running } :=
  ⟨fun ho => ⟨ho.behind, fun hdead => absurd (.inr rfl) hdead⟩, fun _ => id⟩

/-- The forward task may end when no message is left. -/
theorem onward_of_flushed (hc : ∀ f ∈ c.frames, f.isMessage = false) (hw : d.written = c.written)
    (hf : ∀ f ∈ d.frames, f ∈ c.frames) : c.Onward d := by
  refine ⟨fun _ => ⟨fun f hmem => ?_, fun _ f hmem => hc f (hf f hmem)⟩, fun m hm => ?_⟩
  · exact hc f (hf f (List.dropWhile_subset _ hmem))
  · rcases hm with hm | hm
    · exact .inl (hw ▸ hm)
    · cases hc _ hm

/-- The forward task takes a frame and writes it. -/
theorem onward_written (frame : Frame υ) (frames out : List (Frame υ)) :
    Onward ⟨frame :: frames, .running, out⟩
      ⟨frames, if frame.isClose then .stopped else .running, out ++ [frame]⟩ := by
  refine ⟨fun hc => ?_, fun m hm => ?_⟩
  · have hbehind := hc.behind
    cases hclose : frame.isClose with
    | true =>
      have hnone : ∀ f ∈ frames, f.isMessage = false := by
        intro f hf
        refine hbehind f ?_
        simp only [behind, List.dropWhile_cons, hclose, Bool.not_true, Bool.false_eq_true, if_false]
        exact List.mem_cons_of_mem frame hf
      exact ⟨fun f hf => hnone f (List.dropWhile_subset _ hf), fun _ => hnone⟩
    | false =>
      refine ⟨fun f hf => hbehind f ?_, fun hdead => absurd (.inr rfl) hdead⟩
      simpa only [behind, List.dropWhile_cons, hclose, Bool.not_false, if_true] using hf
  · rcases hm with hm | hm
    · exact .inl (List.mem_append_left _ hm)
    · rcases List.mem_cons.mp hm with hm | hm
      · exact .inl (List.mem_append_right _ (List.mem_singleton.mpr hm))
      · exact .inr hm

end Channel

end Epistl.Relay
