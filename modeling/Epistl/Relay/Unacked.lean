import Epistl.Relay.Alive

/-! # Messages that are pushed out of the queue

A drain, and `redeliver_if_now_connected`, push a message before they take it off the queue.
-/
namespace Epistl.Relay
variable {υ : Type}

/-- The message that a drain has pushed and not acked yet. -/
def Stage.unacked : Stage υ → Option (Message υ)
  | .acking m _ => some m
  | _ => none

/-- The message that `redeliver_if_now_connected` has pushed and not deleted yet. -/
def Task.unacked : Task υ → Option (Message υ)
  | .deleting m => some m
  | _ => none

theorem Task.eq_deleting {task : Task υ} {m : Message υ} (h : task.unacked = some m) :
    task = .deleting m := by
  cases task <;> cases h
  rfl

namespace Server
variable [DecidableEq υ] {s t : Server υ} {i j k : ℕ} {user : υ} {m : Message υ} {g h : Handler υ}
  {stage : Stage υ} {task : Task υ} {input : Input υ}

/-- Only the loop of a drain comes to an ack, with its push. -/
theorem unacked_advance (hg : s.handlers[i]? = some g) (he : s.advance i user input stage = some t)
    (hh : t.handlers[i]? = some h) (hm : h.stage.unacked = some m) :
    stage.drains = true ∧ h.user = user ∧
      t.channels = (s.push i (.text (.message m))).channels := by
  have hlt := lt_length_of_getElem? hg
  have hquiet (next : Stage υ) (ht : t.handlers = s.handlers.set i ⟨user, next⟩)
      (hnone : next.unacked = none) : False := by
    rw [ht, List.getElem?_set_self hlt] at hh
    cases hh
    cases hnone.symm.trans hm
  unfold advance at he
  split at he
  · rename_i previous
    cases he
    cases previous <;> exact (hquiet _ rfl rfl).elim
  · cases he
    exact (hquiet _ rfl rfl).elim
  · cases he
    exact (hquiet _ rfl rfl).elim
  · rename_i n rest
    split at he <;> cases he
    · rw [enter, deliver, push, List.getElem?_set_self hlt] at hh
      cases hh
      cases hm
      exact ⟨rfl, rfl, rfl⟩
    · exact (hquiet _ rfl rfl).elim
  · rename_i n rest
    cases he
    refine (hquiet (.draining rest) ?_ rfl).elim
    cases input.removed <;> rfl
  · split at he
    · cases he
      exact (hquiet _ rfl rfl).elim
    · split at he <;> cases he <;> exact (hquiet _ rfl rfl).elim
  · split at he <;> cases he <;> exact (hquiet _ rfl rfl).elim
  · split at he <;> cases he <;> exact (hquiet _ rfl rfl).elim
  · split at he <;> cases he <;> exact (hquiet _ rfl rfl).elim
  · split at he <;> cases he <;> exact (hquiet _ rfl rfl).elim
  · split at he <;> cases he <;> exact (hquiet _ rfl rfl).elim
  · cases he
    exact (hquiet _ rfl rfl).elim
  · cases he
    exact (hquiet _ rfl rfl).elim
  · cases he

theorem handler_unacked {a : Action υ} (he : s.step a = some t) (hh : t.handlers[j]? = some h)
    (hm : h.stage.unacked = some m) :
    (∃ g, s.handlers[j]? = some g ∧ g.user = h.user ∧ g.stage.unacked = some m) ∨
      (∃ g, s.handlers[j]? = some g ∧ g.user = h.user ∧ g.stage.drains = true) ∧
        t.channels = (s.push j (.text (.message m))).channels := by
  have hstill (ht : t.handlers = s.handlers) :
      ∃ g, s.handlers[j]? = some g ∧ g.user = h.user ∧ g.stage.unacked = some m :=
    ⟨h, ht ▸ hh, rfl, hm⟩
  cases a with
  | connect user =>
    cases he
    rcases getElem?_concat_cases hh with ⟨-, rfl⟩ | hh
    · cases hm
    · exact .inl ⟨h, hh, rfl, hm⟩
  | run i input =>
    obtain ⟨g, hg, he⟩ := Option.bind_eq_some_iff.mp he
    by_cases hij : j = i
    · subst hij
      obtain ⟨hdrains, hu, hpush⟩ := unacked_advance hg he hh hm
      exact .inr ⟨⟨g, hg, hu.symm, hdrains⟩, hpush⟩
    · obtain ⟨next, ht, -⟩ := stage_advance he
      rw [ht, List.getElem?_set_ne (Ne.symm hij)] at hh
      exact .inl ⟨h, hh, rfl, hm⟩
  | forward i written =>
    simp only [step, forward] at he
    split at he <;> cases he
    exact .inl (hstill rfl)
  | release i =>
    simp only [step, release] at he
    split at he <;> cases he
    exact .inl (hstill rfl)
  | redeliver k deleted =>
    obtain ⟨task, -, he⟩ := Option.bind_eq_some_iff.mp he
    unfold redeliver at he
    split at he
    · split at he <;> cases he <;> exact .inl (hstill rfl)
    · split at he <;> cases he <;> exact .inl (hstill rfl)
    · cases he
      cases deleted <;> exact .inl (hstill rfl)
    · cases he
  | expire n =>
    simp only [step] at he
    split at he <;> cases he
    exact .inl (hstill rfl)

/-- What a step of a connection makes of the tasks. -/
theorem tasks_advance (he : s.advance i user input stage = some t) :
    t.tasks = s.tasks ∨ ∃ m, t.tasks = s.tasks ++ [.looking m] := by
  unfold advance at he
  split at he
  · rename_i previous
    cases he
    cases previous <;> exact .inl rfl
  · cases he
    exact .inl rfl
  · cases he
    exact .inl rfl
  · split at he <;> cases he <;> exact .inl rfl
  · cases he
    cases input.removed <;> exact .inl rfl
  · split at he
    · cases he
      exact .inl rfl
    · split at he <;> cases he <;> exact .inl rfl
  · split at he <;> cases he <;> exact .inl rfl
  · split at he <;> cases he <;> exact .inl rfl
  · rename_i m
    split at he <;> cases he
    · exact .inr ⟨m, rfl⟩
    · exact .inl rfl
    · exact .inl rfl
  · split at he <;> cases he <;> exact .inl rfl
  · split at he <;> cases he <;> exact .inl rfl
  · cases he
    exact .inl rfl
  · cases he
    exact .inl rfl
  · cases he

/-- Only a push of `redeliver_if_now_connected` comes to a deletion. -/
theorem task_unacked {a : Action υ} (he : s.step a = some t) (htask : task ∈ t.tasks)
    (hm : task.unacked = some m) : task ∈ s.tasks ∨ ∃ j deleted k, a = .redeliver j deleted ∧
      s.tasks[j]? = some (.relaying m k) ∧ s.accepts k = true ∧
        t.channels = (s.push k (.text (.message m))).channels := by
  cases a with
  | connect user =>
    cases he
    exact .inl htask
  | run i input =>
    obtain ⟨g, -, he⟩ := Option.bind_eq_some_iff.mp he
    rcases tasks_advance he with ht | ⟨n, ht⟩ <;> rw [ht] at htask
    · exact .inl htask
    · rcases List.mem_append.mp htask with htask | htask
      · exact .inl htask
      · rw [List.mem_singleton.mp htask] at hm
        cases hm
  | forward i written =>
    simp only [step, forward] at he
    split at he <;> cases he
    exact .inl htask
  | release i =>
    simp only [step, release] at he
    split at he <;> cases he
    exact .inl htask
  | redeliver j deleted =>
    obtain ⟨before, hbefore, he⟩ := Option.bind_eq_some_iff.mp he
    have hset (after : Task υ) (ht : t.tasks = s.tasks.set j after) :
        task ∈ s.tasks ∨ task = after := by
      rw [ht] at htask
      exact List.mem_or_eq_of_mem_set htask
    unfold redeliver at he
    split at he
    · split at he <;> cases he
      · refine .inl ((hset _ rfl).resolve_right ?_)
        rintro rfl
        cases hm
      · refine .inl ((hset _ rfl).resolve_right ?_)
        rintro rfl
        cases hm
    · rename_i n k
      split at he <;> cases he
      · rename_i haccepts
        rcases hset _ rfl with htask | rfl
        · exact .inl htask
        · cases hm
          exact .inr ⟨j, deleted, k, rfl, hbefore, haccepts, rfl⟩
      · refine .inl ((hset _ rfl).resolve_right ?_)
        rintro rfl
        cases hm
    · rename_i n
      cases he
      refine .inl ((hset (.done n) ?_).resolve_right ?_)
      · cases deleted <;> rfl
      · rintro rfl
        cases hm
    · cases he
  | expire n =>
    simp only [step] at he
    split at he <;> cases he
    exact .inl htask

end Server

end Epistl.Relay
