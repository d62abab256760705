import Epistl.Relay.Ledger

/-! # Handing messages over

The part of the relay that decides where a message goes: the tasks, the queue and the
logs, without channels and registry. Every step of the relay is one of a few kinds of
step here.
-/
namespace Epistl.Relay
variable {υ : Type}

/-- To whom the client's next frame sends, when it passes the checks. -/
def Input.recipient (input : Input υ) : Option υ :=
  match input.event with
  | none => none
  | some frame =>
    match checkFrame input.isContact frame with
    | .error _ => none
    | .ok (recipient, _) => some recipient

structure Post (υ : Type) where
  handlers : List (Handler υ)
  queue : υ → List (Message υ)
  tasks : List (Task υ)
  sends : ℕ
  pushed : List (Message υ)
  published : List (Message υ)

def Server.post (s : Server υ) : Post υ where
  handlers := s.handlers
  queue := s.queue
  tasks := s.tasks
  sends := s.sends
  pushed := s.pushed
  published := s.published

namespace Post
variable [DecidableEq υ]

/-- The task of connection `i` goes on to `stage`. -/
def enter (p : Post υ) (i : ℕ) (user : υ) (stage : Stage υ) : Post υ :=
  { p with handlers := p.handlers.set i ⟨user, stage⟩ }

def remove (p : Post υ) (m : Message υ) : Post υ :=
  { p with
    queue := Function.update p.queue m.recipient
      ((p.queue m.recipient).filter fun q => decide (q ≠ m)) }

def store (p : Post υ) (m : Message υ) : Post υ :=
  { p with
    queue := Function.update p.queue m.recipient (p.queue m.recipient ++ [m])
    published := p.published ++ [m] }

/-- The kinds of steps, where `opens` tells which channels accept a push. -/
inductive Step (opens : ℕ → Bool) (p : Post υ) : Action υ → Post υ → Prop
  /-- the forward tasks -/
  | idle {a : Action υ} : Step opens p a p
  | connect {user : υ} {previous : Option ℕ} : Step opens p (.connect user)
      { p with handlers := p.handlers ++ [⟨user, .inserted previous⟩] }
  /-- a task goes on and hands nothing over -/
  | turn {i : ℕ} {input : Input υ} {h : Handler υ} {stage : Stage υ} :
      p.handlers[i]? = some h → (∀ m rest, h.stage ≠ .acking m rest) →
        (∀ m, stage.sending = some m → h.stage.sending = some m) → stage.fetched = [] →
          Step opens p (.run i input) (p.enter i h.user stage)
  /-- a frame passed its checks -/
  | begin {i : ℕ} {input : Input υ} {h : Handler υ} {m : Message υ} :
      p.handlers[i]? = some h → h.stage = .reading → m.sender = h.user → m.id = p.sends →
        input.recipient = some m.recipient → Step opens p (.run i input)
          ({ p with sends := p.sends + 1 }.enter i h.user (.looking m))
  | fetch {i : ℕ} {input : Input υ} {h : Handler υ} {n : ℕ} :
      p.handlers[i]? = some h → h.stage = .fetching →
        Step opens p (.run i input) (p.enter i h.user (.draining ((p.queue h.user).take n)))
  /-- a drain pushes -/
  | drain {i : ℕ} {input : Input υ} {h : Handler υ} {m : Message υ} {rest : List (Message υ)} :
      p.handlers[i]? = some h → h.stage = .draining (m :: rest) →
        Step opens p (.run i input)
          ({ p with pushed := p.pushed ++ [m] }.enter i h.user (.acking m rest))
  | ack {i : ℕ} {input : Input υ} {h : Handler υ} {m : Message υ} {rest : List (Message υ)} :
      p.handlers[i]? = some h → h.stage = .acking m rest →
        Step opens p (.run i input)
          ((if input.removed then p.remove m else p).enter i h.user (.draining rest))
  /-- a live push -/
  | relay {i j : ℕ} {input : Input υ} {h : Handler υ} {m : Message υ} :
      p.handlers[i]? = some h → h.stage = .relaying m j → opens j = true →
        Step opens p (.run i input)
          ({ p with pushed := p.pushed ++ [m] }.enter i h.user (.acknowledging m))
  | publish {i : ℕ} {input : Input υ} {h : Handler υ} {m : Message υ} :
      p.handlers[i]? = some h → h.stage = .publishing m →
        Step opens p (.run i input)
          ({ p.store m with tasks := p.tasks ++ [Task.looking m] }.enter i h.user (.acknowledging m))
  /-- stored, with its report lost -/
  | publishUnreported {i : ℕ} {input : Input υ} {h : Handler υ} {m : Message υ} :
      p.handlers[i]? = some h → h.stage = .publishing m →
        Step opens p (.run i input) ((p.store m).enter i h.user (.refusing queueUnavailable))
  /-- a spawned task goes on and hands nothing over -/
  | look {j : ℕ} {deleted : Bool} {task next : Task υ} :
      p.tasks[j]? = some task → (∀ m, task ≠ .deleting m) → (∀ m, next ≠ .deleting m) →
        next.message = task.message →
          Step opens p (.redeliver j deleted) { p with tasks := p.tasks.set j next }
  | redeliver {i j : ℕ} {deleted : Bool} {m : Message υ} :
      p.tasks[j]? = some (.relaying m i) → opens i = true →
        Step opens p (.redeliver j deleted) { p with
          tasks := p.tasks.set j (.deleting m)
          pushed := p.pushed ++ [m] }
  | delete {j : ℕ} {deleted : Bool} {m : Message υ} :
      p.tasks[j]? = some (.deleting m) →
        Step opens p (.redeliver j deleted)
          { (if deleted then p.remove m else p) with tasks := p.tasks.set j (.done m) }
  | expire {m : Message υ} : Step opens p (.expire m) (p.remove m)

end Post

variable [DecidableEq υ] {s t : Server υ} {i j : ℕ} {h : Handler υ}

theorem Post.Step.rest {opens : ℕ → Bool} {p : Post υ} {input : Input υ} {stage : Stage υ}
    (hh : p.handlers[i]? = some h) (hstage : h.stage.fetched = []) (hsending : stage.sending = none)
    (hfetched : stage.fetched = []) : Post.Step opens p (.run i input) (p.enter i h.user stage) := by
  refine .turn hh ?_ ?_ hfetched
  · intro m rest hm
    rw [hm] at hstage
    cases hstage
  · intro m hm
    rw [hsending] at hm
    cases hm

theorem Server.advance_post (hh : s.handlers[i]? = some h) {input : Input υ}
    (he : s.advance i h.user input h.stage = some t) : s.post.Step s.accepts (.run i input) t.post := by
  obtain ⟨user, stage⟩ := h
  have hh' : s.post.handlers[i]? = some ⟨user, stage⟩ := hh
  cases stage with
  | inserted previous =>
    cases he
    have hrest : s.post.Step s.accepts (.run i input) (s.post.enter i user .fetching) :=
      .rest hh' rfl rfl rfl
    cases previous <;> exact hrest
  | fetching =>
    cases he
    exact .fetch hh' rfl
  | draining batch =>
    cases batch with
    | nil =>
      cases he
      exact .rest hh' rfl rfl rfl
    | cons m rest =>
      simp only [Server.advance] at he
      split at he
      · cases he
        exact .drain hh' rfl
      · cases he
        refine .turn hh' ?_ (fun m hm => by cases hm) rfl
        intro n ns hn
        cases hn
  | acking m rest =>
    simp only [Server.advance, Option.some.injEq] at he
    subst he
    have hack : s.post.Step s.accepts (.run i input) _ := .ack hh' rfl
    revert hack
    cases input.removed <;> exact id
  | reading =>
    simp only [Server.advance] at he
    split at he
    · cases he
      exact .rest hh' rfl rfl rfl
    · rename_i frame hevent
      split at he
      · cases he
        exact .rest hh' rfl rfl rfl
      · rename_i recipient body hcheck
        cases he
        refine .begin hh' rfl rfl rfl ?_
        rw [Input.recipient, hevent]
        dsimp only
        rw [hcheck]
  | looking m =>
    simp only [Server.advance] at he
    split at he <;> cases he <;>
    · refine .turn hh' ?_ ?_ rfl
      · intro n ns hn
        cases hn
      · exact fun n hn => hn
  | relaying m j =>
    simp only [Server.advance] at he
    split at he
    · rename_i hopen
      cases he
      exact .relay hh' rfl hopen
    · cases he
      refine .turn hh' ?_ ?_ rfl
      · intro n ns hn
        cases hn
      · exact fun n hn => hn
  | publishing m =>
    simp only [Server.advance] at he
    split at he
    · cases he
      exact .publish hh' rfl
    · cases he
      exact .publishUnreported hh' rfl
    · cases he
      exact .rest hh' rfl rfl rfl
  | acknowledging m =>
    simp only [Server.advance] at he
    split at he <;> cases he <;> exact .rest hh' rfl rfl rfl
  | refusing r =>
    simp only [Server.advance] at he
    split at he <;> cases he <;> exact .rest hh' rfl rfl rfl
  | leaving =>
    cases he
    exact .rest hh' rfl rfl rfl
  | dropping =>
    cases he
    exact .rest hh' rfl rfl rfl
  | gone =>
    cases he

theorem Server.redeliver_post {task : Task υ} (ht : s.tasks[j]? = some task) {deleted : Bool}
    (he : s.redeliver j deleted task = some t) : s.post.Step s.accepts (.redeliver j deleted) t.post := by
  have ht' : s.post.tasks[j]? = some task := ht
  cases task with
  | looking m =>
    simp only [Server.redeliver] at he
    split at he <;> cases he <;>
      exact .look ht' (fun n hn => by cases hn) (fun n hn => by cases hn) rfl
  | relaying m i =>
    simp only [Server.redeliver] at he
    split at he
    · rename_i hopen
      cases he
      exact .redeliver ht' hopen
    · cases he
      exact .look ht' (fun n hn => by cases hn) (fun n hn => by cases hn) rfl
  | deleting m =>
    simp only [Server.redeliver, Option.some.injEq] at he
    subst he
    have hdelete : s.post.Step s.accepts (.redeliver j deleted) _ := .delete ht'
    revert hdelete
    cases deleted <;> exact id
  | done m => cases he

/-- Every step of the relay hands messages over in one of these ways. -/
theorem Server.step_post {a : Action υ} (he : s.step a = some t) : s.post.Step s.accepts a t.post := by
  cases a with
  | connect user =>
    cases he
    exact .connect
  | run i input =>
    obtain ⟨h, hh, he⟩ := Option.bind_eq_some_iff.mp he
    exact Server.advance_post hh he
  | forward i written =>
    simp only [Server.step, Server.forward] at he
    split at he <;> cases he
    exact .idle
  | release i =>
    simp only [Server.step, Server.release] at he
    split at he <;> cases he
    exact .idle
  | redeliver j deleted =>
    obtain ⟨task, ht, he⟩ := Option.bind_eq_some_iff.mp he
    exact Server.redeliver_post ht he
  | expire m =>
    simp only [Server.step] at he
    split at he <;> cases he
    exact .expire

end Epistl.Relay
