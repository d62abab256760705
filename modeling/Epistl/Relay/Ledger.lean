import Epistl.Relay.Server
import Epistl.Runs.Milestone
import Mathlib.Data.List.Nodup

/-! # Where messages are

A send is handed over once: its task pushes it or publishes it, and everything in the
queue, in a drain or in a spawned task was published before. The registry names
connections of the right user. This holds in every run.
-/
namespace Epistl.Relay
variable {υ : Type} {s t : Server υ} {i j : ℕ} {user : υ} {m : Message υ}
  {h : Handler υ} {stage : Stage υ}

/-- Connection `i` belongs to `user`. -/
def Server.Owns (s : Server υ) (user : υ) (i : ℕ) : Prop :=
  ∃ h, s.handlers[i]? = some h ∧ h.user = user

structure Ledger (s : Server υ) : Prop where
  length : s.channels.length = s.handlers.length
  registry : ∀ (user : υ) (i : ℕ), s.registry user = some i → s.Owns user i
  relaying : ∀ (i : ℕ) (h : Handler υ) (m : Message υ) (j : ℕ), s.handlers[i]? = some h →
    h.stage = .relaying m j → s.Owns m.recipient j
  redelivering : ∀ (m : Message υ) (j : ℕ), Task.relaying m j ∈ s.tasks → s.Owns m.recipient j
  numbered : ∀ m : Message υ, m ∈ s.pushed ∨ m ∈ s.published → m.id < s.sends
  sending : ∀ (i : ℕ) (h : Handler υ) (m : Message υ), s.handlers[i]? = some h →
    h.stage.sending = some m →
      m.sender = h.user ∧ m.id < s.sends ∧ m ∉ s.pushed ∧ m ∉ s.published
  distinct : ∀ (i j : ℕ) (h g : Handler υ) (m n : Message υ), s.handlers[i]? = some h →
    s.handlers[j]? = some g → h.stage.sending = some m → g.stage.sending = some n → i ≠ j →
      m.id ≠ n.id
  queued : ∀ (user : υ), ∀ m ∈ s.queue user, m.recipient = user ∧ m ∈ s.published
  fetched : ∀ (i : ℕ) (h : Handler υ), s.handlers[i]? = some h →
    ∀ m ∈ h.stage.fetched, m.recipient = h.user ∧ m ∈ s.published
  tasks : ∀ task ∈ s.tasks, task.message ∈ s.published
  once : (s.tasks.map Task.message).Nodup

namespace Server

theorem Owns.enter (ho : s.Owns user j) (hh : s.handlers[i]? = some h) :
    (s.enter i h.user stage).Owns user j := by
  obtain ⟨g, hg, hu⟩ := ho
  by_cases hij : j = i
  · subst hij
    cases hh.symm.trans hg
    exact ⟨_, List.getElem?_set_self (lt_length_of_getElem? hh), hu⟩
  · exact ⟨g, by rw [Server.enter, List.getElem?_set_ne (Ne.symm hij), hg], hu⟩

end Server

theorem ledger_start : Ledger (Server.start : Server υ) where
  length := rfl
  registry _ _ h := by cases h
  relaying _ _ _ _ h := by cases h
  redelivering _ _ h := by cases h
  numbered _ h := by rcases h with h | h <;> cases h
  sending _ _ _ h := by cases h
  distinct _ _ _ _ _ _ h := by cases h
  queued _ _ h := by cases h
  fetched _ _ h := by cases h
  tasks _ h := by cases h
  once := List.nodup_nil

namespace Ledger

/-- A task goes on to a stage with no send of its own that it did not have. -/
theorem enter (hs : Ledger s) (hh : s.handlers[i]? = some h)
    (hsending : ∀ m, stage.sending = some m → h.stage.sending = some m)
    (hfetched : ∀ m ∈ stage.fetched, m ∈ h.stage.fetched ∨ m ∈ s.queue h.user)
    (hrelaying : ∀ m j, stage = .relaying m j → s.registry m.recipient = some j) :
    Ledger (s.enter i h.user stage) where
  length := by simpa [Server.enter] using hs.length
  registry u j hj := (hs.registry u j hj).enter hh
  relaying k g m j hk hg := by
    rcases getElem?_set_cases hk with ⟨rfl, rfl⟩ | ⟨-, hk⟩
    · exact (hs.registry _ _ (hrelaying m j hg)).enter hh
    · exact (hs.relaying k g m j hk hg).enter hh
  redelivering m j hm := (hs.redelivering m j hm).enter hh
  numbered := hs.numbered
  sending k g m hk hg := by
    rcases getElem?_set_cases hk with ⟨rfl, rfl⟩ | ⟨-, hk⟩
    · exact hs.sending k h m hh (hsending m hg)
    · exact hs.sending k g m hk hg
  distinct k l g g' m n hk hl hg hg' hne := by
    rcases getElem?_set_cases hk with ⟨rfl, rfl⟩ | ⟨-, hk'⟩
    · rcases getElem?_set_cases hl with ⟨rfl, -⟩ | ⟨-, hl'⟩
      · exact absurd rfl hne
      · exact hs.distinct k l h g' m n hh hl' (hsending m hg) hg' hne
    · rcases getElem?_set_cases hl with ⟨rfl, rfl⟩ | ⟨-, hl'⟩
      · exact hs.distinct k l g h m n hk' hh hg (hsending n hg') hne
      · exact hs.distinct k l g g' m n hk' hl' hg hg' hne
  queued := hs.queued
  fetched k g hk m hm := by
    rcases getElem?_set_cases hk with ⟨rfl, rfl⟩ | ⟨-, hk⟩
    · rcases hfetched m hm with hm | hm
      · exact hs.fetched k h hh m hm
      · exact hs.queued _ m hm
    · exact hs.fetched k g hk m hm
  tasks := hs.tasks
  once := hs.once

/-- A task goes on with nothing to send and nothing fetched. -/
theorem rest (hs : Ledger s) (hh : s.handlers[i]? = some h) (stage : Stage υ)
    (hsending : stage.sending = none) (hfetched : stage.fetched = []) : Ledger (s.enter i h.user stage) := by
  refine hs.enter hh ?_ ?_ ?_
  · intro m hm
    rw [hsending] at hm
    cases hm
  · intro m hm
    rw [hfetched] at hm
    cases hm
  · intro m j hm
    rw [hm] at hsending
    cases hsending

/-- A frame passed its checks and gets the next number. -/
theorem begin (hs : Ledger s) (hh : s.handlers[i]? = some h) (hsender : m.sender = h.user)
    (hid : m.id = s.sends) :
    Ledger ({ s with sends := s.sends + 1 }.enter i h.user (.looking m)) where
  length := by simpa [Server.enter] using hs.length
  registry u j hj := (hs.registry u j hj).enter hh
  relaying k g m j hk hg := by
    rcases getElem?_set_cases hk with ⟨rfl, rfl⟩ | ⟨-, hk⟩
    · cases hg
    · exact (hs.relaying k g m j hk hg).enter hh
  redelivering m j hm := (hs.redelivering m j hm).enter hh
  numbered n hn := Nat.lt_succ_of_lt (hs.numbered n hn)
  sending k g n hk hg := by
    rcases getElem?_set_cases hk with ⟨rfl, rfl⟩ | ⟨-, hk⟩
    · cases hg
      refine ⟨hsender, by rw [hid]; exact Nat.lt_succ_self _, ?_, ?_⟩
      · intro hn
        have := hs.numbered m (.inl hn)
        omega
      · intro hn
        have := hs.numbered m (.inr hn)
        omega
    · obtain ⟨h1, h2, h3, h4⟩ := hs.sending k g n hk hg
      exact ⟨h1, Nat.lt_succ_of_lt h2, h3, h4⟩
  distinct k l g g' n n' hk hl hg hg' hne := by
    rcases getElem?_set_cases hk with ⟨rfl, rfl⟩ | ⟨-, hk'⟩
    · rcases getElem?_set_cases hl with ⟨rfl, -⟩ | ⟨-, hl'⟩
      · exact absurd rfl hne
      · cases hg
        have := (hs.sending l g' n' hl' hg').2.1
        omega
    · rcases getElem?_set_cases hl with ⟨rfl, rfl⟩ | ⟨-, hl'⟩
      · cases hg'
        have := (hs.sending k g n hk' hg).2.1
        omega
      · exact hs.distinct k l g g' n n' hk' hl' hg hg' hne
  queued := hs.queued
  fetched k g hk n hn := by
    rcases getElem?_set_cases hk with ⟨rfl, rfl⟩ | ⟨-, hk⟩
    · cases hn
    · exact hs.fetched k g hk n hn
  tasks := hs.tasks
  once := hs.once

/-- A message that no task is sending is pushed. -/
theorem deliver (hs : Ledger s) (hid : m.id < s.sends)
    (hnone : ∀ (k : ℕ) (g : Handler υ) (n : Message υ), s.handlers[k]? = some g →
      g.stage.sending = some n → n ≠ m) : Ledger (s.deliver j m) where
  length := by simpa [Server.deliver, Server.push] using hs.length
  registry := hs.registry
  relaying := hs.relaying
  redelivering := hs.redelivering
  numbered n hn := by
    rcases hn with hn | hn
    · rcases List.mem_append.mp hn with hn | hn
      · exact hs.numbered n (.inl hn)
      · rw [List.mem_singleton.mp hn]
        exact hid
    · exact hs.numbered n (.inr hn)
  sending k g n hk hg := by
    obtain ⟨h1, h2, h3, h4⟩ := hs.sending k g n hk hg
    refine ⟨h1, h2, fun hn => ?_, h4⟩
    rcases List.mem_append.mp hn with hn | hn
    · exact h3 hn
    · exact hnone k g n hk hg (List.mem_singleton.mp hn)
  distinct := hs.distinct
  queued := hs.queued
  fetched := hs.fetched
  tasks := hs.tasks
  once := hs.once

/-- The task of a message that was published last is spawned. -/
theorem spawn (hs : Ledger s) (hm : m ∈ s.published) (hnew : ∀ task ∈ s.tasks, task.message ≠ m) :
    Ledger (s.spawn (.looking m)) where
  length := hs.length
  registry := hs.registry
  relaying := hs.relaying
  redelivering n k hn := by
    rcases List.mem_append.mp hn with hn | hn
    · exact hs.redelivering n k hn
    · cases List.mem_singleton.mp hn
  numbered := hs.numbered
  sending := hs.sending
  distinct := hs.distinct
  queued := hs.queued
  fetched := hs.fetched
  tasks task ht := by
    rcases List.mem_append.mp ht with ht | ht
    · exact hs.tasks task ht
    · rw [List.mem_singleton.mp ht]
      exact hm
  once := by
    rw [Server.spawn, List.map_append]
    refine List.nodup_append.mpr ⟨hs.once, List.nodup_singleton _, ?_⟩
    intro a ha b hb
    obtain ⟨task, ht, rfl⟩ := List.mem_map.mp ha
    rw [List.map_singleton, List.mem_singleton] at hb
    rw [hb]
    exact hnew task ht

/-- A spawned task goes on. -/
theorem assign (hs : Ledger s) {task : Task υ} (ht : s.tasks[j]? = some task) (next : Task υ)
    (hnext : next.message = task.message)
    (hrelaying : ∀ n k, next = .relaying n k → s.registry n.recipient = some k) :
    Ledger { s with tasks := s.tasks.set j next } where
  length := hs.length
  registry := hs.registry
  relaying := hs.relaying
  redelivering n k hn := by
    obtain ⟨l, hl⟩ := List.getElem?_of_mem hn
    rcases getElem?_set_cases hl with ⟨-, rfl⟩ | ⟨-, hl⟩
    · exact hs.registry _ _ (hrelaying n k rfl)
    · exact hs.redelivering n k (List.mem_of_getElem? hl)
  numbered := hs.numbered
  sending := hs.sending
  distinct := hs.distinct
  queued := hs.queued
  fetched := hs.fetched
  tasks other ho := by
    obtain ⟨l, hl⟩ := List.getElem?_of_mem ho
    rcases getElem?_set_cases hl with ⟨-, rfl⟩ | ⟨-, hl⟩
    · rw [hnext]
      exact hs.tasks task (List.mem_of_getElem? ht)
    · exact hs.tasks other (List.mem_of_getElem? hl)
  once := by
    have : (s.tasks.set j next).map Task.message = s.tasks.map Task.message := by
      obtain ⟨hlt, rfl⟩ := List.getElem?_eq_some_iff.mp ht
      have hlt' : j < (s.tasks.map Task.message).length := by simpa using hlt
      have hget := List.set_getElem_self hlt'
      rwa [List.getElem_map, ← hnext, ← List.map_set] at hget
    rw [this]
    exact hs.once

/-- A send in progress is the only one of its message. -/
theorem sending_ne (hs : Ledger s) (hh : s.handlers[i]? = some h) (hm : h.stage.sending = some m)
    (stage : Stage υ) (hstage : stage.sending = none) (k : ℕ) (g : Handler υ) (n : Message υ)
    (hk : (s.enter i h.user stage).handlers[k]? = some g) (hg : g.stage.sending = some n) :
    n ≠ m := by
  rcases getElem?_set_cases hk with ⟨rfl, rfl⟩ | ⟨hki, hk⟩
  · rw [hstage] at hg
    cases hg
  · intro hnm
    exact hs.distinct k i g h n m hk hh hg hm hki (congrArg Message.id hnm)

/-- A published message is not being sent. -/
theorem published_ne (hs : Ledger s) (hm : m ∈ s.published) (k : ℕ) (g : Handler υ)
    (n : Message υ) (hk : s.handlers[k]? = some g) (hg : g.stage.sending = some n) : n ≠ m := by
  rintro rfl
  exact (hs.sending k g n hk hg).2.2.2 hm

/-- What is left of a batch was fetched with it. -/
theorem later (hs : Ledger s) (hh : s.handlers[i]? = some h) {stage : Stage υ}
    (hfetched : ∀ n ∈ stage.fetched, n ∈ h.stage.fetched) (hsending : stage.sending = none)
    (hrelaying : ∀ n k, stage ≠ .relaying n k) : Ledger (s.enter i h.user stage) := by
  refine hs.enter hh ?_ (fun n hn => .inl (hfetched n hn)) ?_
  · intro n hn
    rw [hsending] at hn
    cases hn
  · intro n k hn
    exact absurd hn (hrelaying n k)

variable {input : Input υ} [DecidableEq υ]

/-- A message that no task is sending is stored. -/
theorem store (hs : Ledger s) (hid : m.id < s.sends)
    (hnone : ∀ (k : ℕ) (g : Handler υ) (n : Message υ), s.handlers[k]? = some g →
      g.stage.sending = some n → n ≠ m) : Ledger (s.store m) where
  length := hs.length
  registry := hs.registry
  relaying := hs.relaying
  redelivering := hs.redelivering
  numbered n hn := by
    rcases hn with hn | hn
    · exact hs.numbered n (.inl hn)
    · rcases List.mem_append.mp hn with hn | hn
      · exact hs.numbered n (.inr hn)
      · rw [List.mem_singleton.mp hn]
        exact hid
  sending k g n hk hg := by
    obtain ⟨h1, h2, h3, h4⟩ := hs.sending k g n hk hg
    refine ⟨h1, h2, h3, fun hn => ?_⟩
    rcases List.mem_append.mp hn with hn | hn
    · exact h4 hn
    · exact hnone k g n hk hg (List.mem_singleton.mp hn)
  distinct := hs.distinct
  queued u n hn := by
    have hold {n : Message υ} (hn : n ∈ s.queue u) : n.recipient = u ∧ n ∈ s.published ++ [m] :=
      ⟨(hs.queued u n hn).1, List.mem_append_left _ (hs.queued u n hn).2⟩
    by_cases hu : u = m.recipient
    · subst hu
      simp only [Server.store, Function.update_self] at hn
      rcases List.mem_append.mp hn with hn | hn
      · exact hold hn
      · rw [List.mem_singleton.mp hn]
        exact ⟨rfl, List.mem_append_right _ (List.mem_singleton_self m)⟩
    · simp only [Server.store, Function.update_of_ne hu] at hn
      exact hold hn
  fetched k g hk n hn :=
    ⟨(hs.fetched k g hk n hn).1, List.mem_append_left _ (hs.fetched k g hk n hn).2⟩
  tasks task ht := List.mem_append_left _ (hs.tasks task ht)
  once := hs.once

theorem mem_remove {n : Message υ} (hn : n ∈ (s.remove m).queue user) : n ∈ s.queue user := by
  by_cases hu : user = m.recipient
  · subst hu
    simp only [Server.remove, Function.update_self] at hn
    exact (List.mem_filter.mp hn).1
  · simpa only [Server.remove, Function.update_of_ne hu] using hn

theorem remove (hs : Ledger s) : Ledger (s.remove m) where
  length := hs.length
  registry := hs.registry
  relaying := hs.relaying
  redelivering := hs.redelivering
  numbered := hs.numbered
  sending := hs.sending
  distinct := hs.distinct
  queued u n hn := hs.queued u n (mem_remove hn)
  fetched := hs.fetched
  tasks := hs.tasks
  once := hs.once

omit [DecidableEq υ] in
theorem owns_concat {u : υ} (ho : s.Owns u j) (h : Handler υ) :
    ∃ g, (s.handlers ++ [h])[j]? = some g ∧ g.user = u := by
  obtain ⟨g, hg, hu⟩ := ho
  exact ⟨g, by rw [List.getElem?_append_left (lt_length_of_getElem? hg), hg], hu⟩

theorem connect (hs : Ledger s) (he : s.step (.connect user) = some t) : Ledger t := by
  cases he
  have hcases {k : ℕ} {g : Handler υ}
      (hk : (s.handlers ++ [⟨user, .inserted (s.registry user)⟩])[k]? = some g)
      (hg : g.stage.sending ≠ none ∨ g.stage.fetched ≠ []) : s.handlers[k]? = some g := by
    rcases getElem?_concat_cases hk with ⟨-, rfl⟩ | hk
    · rcases hg with hg | hg <;> exact absurd rfl hg
    · exact hk
  constructor
  · simpa using hs.length
  · intro u j hj
    by_cases hu : u = user
    · subst hu
      simp only [Function.update_self, Option.some.injEq] at hj
      subst hj
      exact ⟨_, List.getElem?_concat_length, rfl⟩
    · simp only [Function.update_of_ne hu] at hj
      exact owns_concat (hs.registry u j hj) _
  · intro k g m j hk hg
    exact owns_concat (hs.relaying k g m j (hcases hk (.inl (by simp [hg, Stage.sending]))) hg) _
  · exact fun m j hm => owns_concat (hs.redelivering m j hm) _
  · exact hs.numbered
  · intro k g m hk hg
    exact hs.sending k g m (hcases hk (.inl (by simp [hg]))) hg
  · intro k l g g' m n hk hl hg hg'
    exact hs.distinct k l g g' m n (hcases hk (.inl (by simp [hg])))
      (hcases hl (.inl (by simp [hg']))) hg hg'
  · exact hs.queued
  · intro k g hk m hm
    exact hs.fetched k g (hcases hk (.inr (List.ne_nil_of_mem hm))) m hm
  · exact hs.tasks
  · exact hs.once

omit [DecidableEq υ] in
/-- What happens in the channels alone does not matter. -/
theorem channels (hs : Ledger s) {c : List (Channel υ)} {acked expired : List (Message υ)}
    {replaced : List ℕ} (hc : c.length = s.channels.length) :
    Ledger { s with
      channels := c
      acked := acked
      expired := expired
      replaced := replaced } :=
  { hs with length := hc.trans hs.length }

theorem removeIfCurrent (hs : Ledger s) : Ledger (s.removeIfCurrent user i) where
  length := hs.length
  registry u j hj := by
    unfold Server.removeIfCurrent at hj
    dsimp only at hj
    split at hj
    · by_cases hu : u = user
      · subst hu
        simp at hj
      · rw [Function.update_of_ne hu] at hj
        exact hs.registry u j hj
    · exact hs.registry u j hj
  relaying := hs.relaying
  redelivering := hs.redelivering
  numbered := hs.numbered
  sending := hs.sending
  distinct := hs.distinct
  queued := hs.queued
  fetched := hs.fetched
  tasks := hs.tasks
  once := hs.once

omit [DecidableEq υ] in
theorem closePrevious (hs : Ledger s) (previous : Option ℕ) : Ledger (s.closePrevious previous) := by
  cases previous with
  | none => exact hs
  | some j => exact hs.channels (List.length_modify _ _ _)

theorem advance_inserted (hs : Ledger s) {previous : Option ℕ}
    (hh : s.handlers[i]? = some ⟨user, .inserted previous⟩)
    (he : s.advance i user input (.inserted previous) = some t) : Ledger t := by
  cases he
  have hrest := (hs.closePrevious previous).rest (i := i) (h := ⟨user, .inserted previous⟩)
    (by cases previous <;> exact hh) .fetching rfl rfl
  exact hrest.channels (by simp [Server.startForward, Server.enter])

theorem advance_fetching (hs : Ledger s) (hh : s.handlers[i]? = some ⟨user, .fetching⟩)
    (he : s.advance i user input .fetching = some t) : Ledger t := by
  cases he
  refine hs.enter hh (fun m hm => by cases hm) (fun m hm => .inr (List.mem_of_mem_take hm)) ?_
  intro m j hm
  cases hm

theorem advance_draining (hs : Ledger s) {batch : List (Message υ)}
    (hh : s.handlers[i]? = some ⟨user, .draining batch⟩)
    (he : s.advance i user input (.draining batch) = some t) : Ledger t := by
  cases batch with
  | nil =>
    cases he
    exact hs.rest hh _ rfl rfl
  | cons m rest =>
    simp only [Server.advance] at he
    split at he
    · cases he
      have hlater : Ledger (s.enter i user (.acking m rest)) :=
        hs.later hh (fun n hn => hn) rfl fun n k hn => by cases hn
      have hm := (hs.fetched i _ hh m List.mem_cons_self).2
      exact hlater.deliver (hs.numbered m (.inr hm)) (hlater.published_ne hm)
    · cases he
      exact hs.rest hh _ rfl rfl

theorem advance_acking (hs : Ledger s) {rest : List (Message υ)}
    (hh : s.handlers[i]? = some ⟨user, .acking m rest⟩)
    (he : s.advance i user input (.acking m rest) = some t) : Ledger t := by
  simp only [Server.advance, Option.some.injEq] at he
  subst he
  have hlater : Ledger (s.enter i user (.draining rest)) :=
    hs.later hh (fun n hn => List.mem_cons_of_mem m hn) rfl fun n k hn => by cases hn
  cases input.removed with
  | false => exact hlater
  | true => exact hlater.remove

theorem advance_reading (hs : Ledger s) (hh : s.handlers[i]? = some ⟨user, .reading⟩)
    (he : s.advance i user input .reading = some t) : Ledger t := by
  simp only [Server.advance] at he
  split at he
  · cases he
    exact hs.rest hh _ rfl rfl
  · split at he
    · cases he
      exact hs.rest hh _ rfl rfl
    · cases he
      exact hs.begin hh rfl rfl

theorem advance_looking (hs : Ledger s) (hh : s.handlers[i]? = some ⟨user, .looking m⟩)
    (he : s.advance i user input (.looking m) = some t) : Ledger t := by
  simp only [Server.advance] at he
  split at he
  · cases he
    exact hs.enter hh (fun n hn => hn) (fun n hn => by cases hn) fun n j hn => by cases hn
  · rename_i j hj
    cases he
    refine hs.enter hh (fun n hn => hn) (fun n hn => by cases hn) ?_
    intro n k hn
    cases hn
    exact hj

theorem advance_relaying (hs : Ledger s) (hh : s.handlers[i]? = some ⟨user, .relaying m j⟩)
    (he : s.advance i user input (.relaying m j) = some t) : Ledger t := by
  simp only [Server.advance] at he
  split at he
  · cases he
    have hrest := hs.rest hh (.acknowledging m) rfl rfl
    exact hrest.deliver (hs.sending i _ m hh rfl).2.1 (hs.sending_ne hh rfl _ rfl)
  · cases he
    exact hs.enter hh (fun n hn => hn) (fun n hn => by cases hn) fun n k hn => by cases hn

theorem advance_publishing (hs : Ledger s) (hh : s.handlers[i]? = some ⟨user, .publishing m⟩)
    (he : s.advance i user input (.publishing m) = some t) : Ledger t := by
  obtain ⟨-, hid, -, hnew⟩ := hs.sending i _ m hh rfl
  simp only [Server.advance] at he
  split at he
  · cases he
    have hrest := hs.rest hh (.acknowledging m) rfl rfl
    have hstore := hrest.store hid (hs.sending_ne hh rfl _ rfl)
    refine hstore.spawn (List.mem_append_right _ (List.mem_singleton_self m)) ?_
    intro task ht hm
    exact hnew (hm ▸ hs.tasks task ht)
  · cases he
    have hrest := hs.rest hh (.refusing queueUnavailable) rfl rfl
    exact hrest.store hid (hs.sending_ne hh rfl _ rfl)
  · cases he
    exact hs.rest hh _ rfl rfl

/-- A reply to the sender is put into its channel, or the connection leaves. -/
theorem advance_replying (hs : Ledger s) (hh : s.handlers[i]? = some h) {stage : Stage υ}
    (hstage : (∃ m, stage = .acknowledging m) ∨ ∃ r, stage = .refusing r)
    (he : s.advance i h.user input stage = some t) : Ledger t := by
  rcases hstage with ⟨m, rfl⟩ | ⟨r, rfl⟩ <;> simp only [Server.advance] at he <;> split at he <;>
    cases he
  · exact (hs.rest hh _ rfl rfl).channels (List.length_modify _ _ _)
  · exact hs.rest hh _ rfl rfl
  · exact (hs.rest hh _ rfl rfl).channels (List.length_modify _ _ _)
  · exact hs.rest hh _ rfl rfl

/-- What the task of a connection does next keeps the ledger, whatever its stage. -/
theorem advance (hs : Ledger s) (hh : s.handlers[i]? = some h)
    (he : s.advance i h.user input h.stage = some t) : Ledger t := by
  obtain ⟨user, stage⟩ := h
  cases stage with
  | inserted previous => exact hs.advance_inserted hh he
  | fetching => exact hs.advance_fetching hh he
  | draining batch => exact hs.advance_draining hh he
  | acking m rest => exact hs.advance_acking hh he
  | reading => exact hs.advance_reading hh he
  | looking m => exact hs.advance_looking hh he
  | relaying m j => exact hs.advance_relaying hh he
  | publishing m => exact hs.advance_publishing hh he
  | acknowledging m => exact hs.advance_replying hh (.inl ⟨m, rfl⟩) he
  | refusing r => exact hs.advance_replying hh (.inr ⟨r, rfl⟩) he
  | leaving =>
    cases he
    exact hs.removeIfCurrent.rest hh _ rfl rfl
  | dropping =>
    cases he
    exact (hs.rest hh _ rfl rfl).channels (List.length_modify _ _ _)
  | gone => cases he

theorem redeliver (hs : Ledger s) {task : Task υ} (ht : s.tasks[j]? = some task) {deleted : Bool}
    (he : s.redeliver j deleted task = some t) : Ledger t := by
  cases task with
  | looking m =>
    simp only [Server.redeliver] at he
    split at he
    · cases he
      exact hs.assign ht _ rfl fun n k hn => by cases hn
    · rename_i i hi
      cases he
      refine hs.assign ht _ rfl ?_
      intro n k hn
      cases hn
      exact hi
  | relaying m i =>
    have hm : m ∈ s.published := hs.tasks _ (List.mem_of_getElem? ht)
    simp only [Server.redeliver] at he
    split at he
    · cases he
      have hassign := hs.assign ht (.deleting m) rfl fun n k hn => by cases hn
      exact hassign.deliver (hs.numbered m (.inr hm)) (hs.published_ne hm)
    · cases he
      exact hs.assign ht _ rfl fun n k hn => by cases hn
  | deleting m =>
    simp only [Server.redeliver, Option.some.injEq] at he
    subst he
    have hassign := hs.assign ht (.done m) rfl fun n k hn => by cases hn
    cases deleted with
    | false => exact hassign
    | true => exact hassign.remove
  | done m => cases he

omit [DecidableEq υ] in
theorem forward (hs : Ledger s) {written : Bool} (he : s.forward i written = some t) :
    Ledger t := by
  unfold Server.forward at he
  split at he
  · cases he
    exact hs.channels (by simp)
  · cases he

omit [DecidableEq υ] in
theorem release (hs : Ledger s) (he : s.release i = some t) : Ledger t := by
  unfold Server.release at he
  split at he
  · cases he
    exact hs.channels (by simp)
  · cases he

/-- One step of any task keeps the ledger. -/
theorem step (hs : Ledger s) {a : Action υ} (he : s.step a = some t) : Ledger t := by
  cases a with
  | connect user => exact hs.connect he
  | run i input =>
    obtain ⟨h, hh, he⟩ := Option.bind_eq_some_iff.mp he
    exact hs.advance hh he
  | forward i written => exact hs.forward he
  | release i => exact hs.release he
  | redeliver j deleted =>
    obtain ⟨task, ht, he⟩ := Option.bind_eq_some_iff.mp he
    exact hs.redeliver ht he
  | expire m =>
    simp only [Server.step] at he
    split at he
    · cases he
      exact hs.remove.channels rfl
    · cases he

end Ledger

/-- Whatever the task of a connection does, it only replaces its own stage. -/
theorem Server.advance_handlers [DecidableEq υ] {input : Input υ}
    (he : s.advance i user input stage = some t) :
    ∃ next, t.handlers = s.handlers.set i ⟨user, next⟩ := by
  unfold Server.advance at he
  split at he
  · rename_i previous
    cases he
    cases previous <;> exact ⟨_, rfl⟩
  · cases he
    exact ⟨_, rfl⟩
  · cases he
    exact ⟨_, rfl⟩
  · split at he <;> cases he <;> exact ⟨_, rfl⟩
  · cases he
    cases input.removed <;> exact ⟨_, rfl⟩
  · split at he
    · cases he
      exact ⟨_, rfl⟩
    · split at he <;> cases he <;> exact ⟨_, rfl⟩
  · split at he <;> cases he <;> exact ⟨_, rfl⟩
  · split at he <;> cases he <;> exact ⟨_, rfl⟩
  · split at he <;> cases he <;> exact ⟨_, rfl⟩
  · split at he <;> cases he <;> exact ⟨_, rfl⟩
  · split at he <;> cases he <;> exact ⟨_, rfl⟩
  · cases he
    exact ⟨_, rfl⟩
  · cases he
    exact ⟨_, rfl⟩
  · cases he

theorem Server.redeliver_handlers [DecidableEq υ] {task : Task υ} {deleted : Bool}
    (he : s.redeliver j deleted task = some t) : t.handlers = s.handlers := by
  unfold Server.redeliver at he
  split at he
  · split at he <;> cases he <;> rfl
  · split at he <;> cases he <;> rfl
  · cases he
    cases deleted <;> rfl
  · cases he

/-- A connection keeps its user. -/
theorem Server.Owns.step [DecidableEq υ] (ho : s.Owns user j) {a : Action υ}
    (he : s.step a = some t) : t.Owns user j := by
  cases a with
  | connect u =>
    cases he
    exact Ledger.owns_concat ho _
  | run i input =>
    obtain ⟨h, hh, he⟩ := Option.bind_eq_some_iff.mp he
    obtain ⟨next, hnext⟩ := Server.advance_handlers he
    have henter : (s.enter i h.user next).Owns user j := ho.enter hh
    unfold Server.Owns
    rw [hnext]
    exact henter
  | forward i written =>
    simp only [Server.step, Server.forward] at he
    split at he <;> cases he
    exact ho
  | release i =>
    simp only [Server.step, Server.release] at he
    split at he <;> cases he
    exact ho
  | redeliver k deleted =>
    obtain ⟨task, -, he⟩ := Option.bind_eq_some_iff.mp he
    unfold Server.Owns
    rw [Server.redeliver_handlers he]
    exact ho
  | expire m =>
    simp only [Server.step] at he
    split at he <;> cases he
    exact ho

theorem ledger_of_reach [DecidableEq υ] {G : Server υ → Action υ → Prop} (h : Server.machine.Reach G s) :
    Ledger s := by
  refine h.invariant ?_ ?_
  · rintro _ rfl
    exact ledger_start
  · intro s a t hs _ he
    exact hs.step he

end Epistl.Relay
