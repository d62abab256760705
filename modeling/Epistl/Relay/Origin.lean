import Epistl.Relay.Post

/-! # Where messages come from

Every message in the relay is one that a client has sent: the task of its sender's connection
has numbered it, and nothing of it changes after that.
-/
namespace Epistl.Relay
variable {υ : Type} {s t : Server υ} {i j : ℕ} {m : Message υ} {P Q : Message υ → Prop}

/-- The send that passes its checks, if the task was waiting for one. -/
def Stage.begins (stage : Stage υ) (user : υ) (number : ℕ) (input : Input υ) :
    Option (Message υ) :=
  match stage with
  | .reading =>
    match input.event with
    | none => none
    | some frame =>
      match checkFrame input.isContact frame with
      | .ok (recipient, body) => some ⟨number, user, recipient, body, input.sentAt⟩
      | .error _ => none
  | _ => none

/-- The send that passes its checks in this step. -/
def Server.begun (s : Server υ) : Action υ → Option (Message υ)
  | .run i input => s.handlers[i]?.bind fun h => h.stage.begins h.user s.sends input
  | _ => none

theorem Stage.begins_some {stage : Stage υ} {user : υ} {number : ℕ} {input : Input υ}
    (h : stage.begins user number input = some m) : m.id = number ∧ m.sender = user := by
  cases stage with
  | reading =>
    simp only [begins] at h
    split at h
    · cases h
    · split at h <;> cases h
      exact ⟨rfl, rfl⟩
  | _ => cases h

/-- A property of every message there is. -/
structure Sound (P : Message υ → Prop) (s : Server υ) : Prop where
  pushed : ∀ m ∈ s.pushed, P m
  published : ∀ m ∈ s.published, P m
  sending (i : ℕ) (h : Handler υ) (m : Message υ) : s.handlers[i]? = some h →
    h.stage.sending = some m → P m

theorem Sound.mono (h : Sound P s) (hPQ : ∀ m, P m → Q m) : Sound Q s where
  pushed m hm := hPQ m (h.pushed m hm)
  published m hm := hPQ m (h.published m hm)
  sending i g m hg hm := hPQ m (h.sending i g m hg hm)

theorem sound_start : Sound P (Server.start : Server υ) where
  pushed m hm := by simp [Server.start] at hm
  published m hm := by simp [Server.start] at hm
  sending i h m hh := by simp [Server.start] at hh

namespace Server
variable [DecidableEq υ] {a : Action υ} {user : υ} {stage : Stage υ} {input : Input υ}

/-- A send that begins is counted, and the task has it in hand. -/
theorem advance_sending (he : s.advance i user input stage = some t) :
    t.sends = s.sends + (stage.begins user s.sends input).toList.length ∧
      ∃ next, t.handlers = s.handlers.set i ⟨user, next⟩ ∧ ∀ m, next.sending = some m →
        stage.sending = some m ∨ stage.begins user s.sends input = some m := by
  unfold advance at he
  split at he
  · rename_i previous
    cases he
    cases previous <;> exact ⟨rfl, _, rfl, fun m hm => by cases hm⟩
  · cases he
    exact ⟨rfl, _, rfl, fun m hm => by cases hm⟩
  · cases he
    exact ⟨rfl, _, rfl, fun m hm => by cases hm⟩
  · split at he <;> cases he <;> exact ⟨rfl, _, rfl, fun m hm => by cases hm⟩
  · cases he
    cases input.removed <;> exact ⟨rfl, _, rfl, fun m hm => by cases hm⟩
  · split at he
    · rename_i hevent
      cases he
      exact ⟨by simp [Stage.begins, hevent, enter], _, rfl, fun m hm => by cases hm⟩
    · rename_i frame hevent
      split at he
      · rename_i r hcheck
        cases he
        exact ⟨by simp [Stage.begins, hevent, hcheck, enter], _, rfl, fun m hm => by cases hm⟩
      · rename_i recipient body hcheck
        cases he
        refine ⟨by simp [Stage.begins, hevent, hcheck, enter], _, rfl, fun m hm => .inr ?_⟩
        rw [← hm]
        simp [Stage.begins, hevent, hcheck, Stage.sending]
  · split at he <;> cases he <;> exact ⟨rfl, _, rfl, fun m hm => .inl hm⟩
  · split at he <;> cases he
    · exact ⟨rfl, _, rfl, fun m hm => by cases hm⟩
    · exact ⟨rfl, _, rfl, fun m hm => .inl hm⟩
  · split at he <;> cases he <;> exact ⟨rfl, _, rfl, fun m hm => by cases hm⟩
  · split at he <;> cases he <;> exact ⟨rfl, _, rfl, fun m hm => by cases hm⟩
  · split at he <;> cases he <;> exact ⟨rfl, _, rfl, fun m hm => by cases hm⟩
  · cases he
    unfold removeIfCurrent
    split <;> exact ⟨rfl, _, rfl, fun m hm => by cases hm⟩
  · cases he
    exact ⟨rfl, _, rfl, fun m hm => by cases hm⟩
  · cases he

/-- What the other actions have in hand they had before. -/
theorem step_sending (he : s.step a = some t) :
    t.sends = s.sends + (s.begun a).toList.length ∧
      ∀ (j : ℕ) (g : Handler υ) (m : Message υ), t.handlers[j]? = some g →
        g.stage.sending = some m → s.begun a = some m ∨
          ∃ h : Handler υ, s.handlers[j]? = some h ∧ h.stage.sending = some m := by
  cases a with
  | connect user =>
    cases he
    refine ⟨rfl, fun j g m hg hm => ?_⟩
    rcases getElem?_concat_cases hg with ⟨-, rfl⟩ | hg
    · cases hm
    · exact .inr ⟨g, hg, hm⟩
  | run i input =>
    obtain ⟨h, hh, he⟩ := Option.bind_eq_some_iff.mp he
    obtain ⟨hsends, next, hnext, hsending⟩ := advance_sending he
    have hbegun : s.begun (.run i input) = h.stage.begins h.user s.sends input := by
      rw [begun, hh]
      rfl
    rw [hbegun]
    refine ⟨hsends, fun j g m hg hm => ?_⟩
    rw [hnext] at hg
    rcases getElem?_set_cases hg with ⟨rfl, rfl⟩ | ⟨-, hg⟩
    · exact (hsending m hm).symm.imp id fun hm => ⟨h, hh, hm⟩
    · exact .inr ⟨g, hg, hm⟩
  | forward i written =>
    simp only [step, forward] at he
    split at he <;> cases he
    exact ⟨rfl, fun j g m hg hm => .inr ⟨g, hg, hm⟩⟩
  | release i =>
    simp only [step, release] at he
    split at he <;> cases he
    exact ⟨rfl, fun j g m hg hm => .inr ⟨g, hg, hm⟩⟩
  | redeliver j deleted =>
    obtain ⟨task, -, he⟩ := Option.bind_eq_some_iff.mp he
    unfold redeliver at he
    split at he
    · split at he <;> cases he <;> exact ⟨rfl, fun j g m hg hm => .inr ⟨g, hg, hm⟩⟩
    · split at he <;> cases he <;> exact ⟨rfl, fun j g m hg hm => .inr ⟨g, hg, hm⟩⟩
    · cases he
      cases deleted <;> exact ⟨rfl, fun j g m hg hm => .inr ⟨g, hg, hm⟩⟩
    · cases he
  | expire m =>
    simp only [step] at he
    split at he <;> cases he
    exact ⟨rfl, fun j g m hg hm => .inr ⟨g, hg, hm⟩⟩

end Server

/-- What the relay hands over, stores and has in hand stems from what was begun. -/
theorem Sound.step [DecidableEq υ] (h : Sound P s) (hl : Ledger s) {a : Action υ}
    (he : s.step a = some t) (hbegun : ∀ m, s.begun a = some m → P m) : Sound P t := by
  have hlogs : (∀ m ∈ t.post.pushed, P m) ∧ ∀ m ∈ t.post.published, P m := by
    have hconcat {log : List (Message υ)} {m : Message υ} (hlog : ∀ n ∈ log, P n) (hm : P m) :
        ∀ n ∈ log ++ [m], P n := by
      intro n hn
      rcases List.mem_append.mp hn with hn | hn
      · exact hlog n hn
      · exact List.mem_singleton.mp hn ▸ hm
    have hkept : (∀ m ∈ s.post.pushed, P m) ∧ ∀ m ∈ s.post.published, P m :=
      ⟨h.pushed, h.published⟩
    have hpost := Server.step_post he
    generalize t.post = p at hpost ⊢
    cases hpost with
    | idle => exact hkept
    | connect => exact hkept
    | turn => exact hkept
    | begin => exact hkept
    | fetch => exact hkept
    | @drain i input g m rest hg hstage =>
      refine ⟨hconcat h.pushed (h.published m (hl.fetched i g hg m ?_).2), h.published⟩
      rw [hstage]
      exact List.mem_cons_self
    | @ack i input => cases input.removed <;> exact hkept
    | @relay i j input g m hg hstage =>
      refine ⟨hconcat h.pushed (h.sending i g m hg ?_), h.published⟩
      rw [hstage]
      rfl
    | @publish i input g m hg hstage =>
      refine ⟨h.pushed, hconcat h.published (h.sending i g m hg ?_)⟩
      rw [hstage]
      rfl
    | @publishUnreported i input g m hg hstage =>
      refine ⟨h.pushed, hconcat h.published (h.sending i g m hg ?_)⟩
      rw [hstage]
      rfl
    | look => exact hkept
    | @redeliver i j deleted m hj =>
      have hm := hl.tasks _ (List.mem_of_getElem? hj)
      exact ⟨hconcat h.pushed (h.published m hm), h.published⟩
    | @delete j deleted => cases deleted <;> exact hkept
    | expire => exact hkept
  obtain ⟨-, hsending⟩ := Server.step_sending he
  refine ⟨hlogs.1, hlogs.2, fun j g m hg hm => ?_⟩
  rcases hsending j g m hg hm with hm | ⟨h', hh, hm⟩
  · exact hbegun m hm
  · exact h.sending j h' m hh hm

end Epistl.Relay
