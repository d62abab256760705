import Epistl.Relay.Acknowledged
import Epistl.Relay.Post

/-! # No message is pushed twice

Every path pushes first and takes the message out of the queue afterwards. If a drain
fetches only when nobody is between the two, and a spawned task pushes only what is
still queued and not fetched, then no message is pushed twice.
-/
namespace Epistl.Relay
variable {υ : Type} {p q : Post υ} {i j : ℕ} {h : Handler υ} {m : Message υ} {stage : Stage υ}

/-- The message a spawned task has pushed and not deleted yet. -/
def Task.deletes : Task υ → Option (Message υ)
  | deleting m => some m
  | _ => none

/-- What a spawned task is about to push, and where. -/
def Task.relays : Task υ → Option (Message υ × ℕ)
  | relaying m i => some (m, i)
  | _ => none

/-- Acks and deletes take effect. -/
def Server.Removes (_ : Server υ) : Action υ → Prop
  | .run _ input => input.removed = true
  | .redeliver _ deleted => deleted = true
  | .connect _ => True
  | .forward _ _ => True
  | .release _ => True
  | .expire _ => True

/-- Acks and deletes take effect. A drain fetches only while no drain of its user holds
a message and no spawned task of its user is about to delete one; and a spawned task
pushes only a message that is queued and that no drain holds. -/
def Server.Exclusive (s : Server υ) : Action υ → Prop
  | .run i input => input.removed = true ∧ ∀ h ∈ s.handlers[i]?, h.stage = .fetching →
    (∀ g ∈ s.handlers, g.user = h.user → g.stage.fetched = []) ∧
      ∀ task ∈ s.tasks, ∀ m ∈ task.deletes, m.recipient ≠ h.user
  | .redeliver j deleted => deleted = true ∧ ∀ task ∈ s.tasks[j]?, ∀ r ∈ task.relays,
    s.accepts r.2 = true → r.1 ∈ s.queue r.1.recipient ∧ ∀ g ∈ s.handlers, r.1 ∉ g.stage.fetched
  | .connect _ => True
  | .forward _ _ => True
  | .release _ => True
  | .expire _ => True

/-- Every published message is pushed at most once. -/
def Server.PushedOnce [DecidableEq υ] (s : Server υ) : Prop :=
  ∀ m ∈ s.published, s.pushed.count m ≤ 1

structure OnceInv (p : Post υ) : Prop where
  pushed : p.pushed.Nodup
  queue : ∀ user : υ, (p.queue user).Nodup
  /-- a queued message that was pushed is about to be removed -/
  waiting : ∀ (user : υ) (m : Message υ), m ∈ p.queue user → m ∈ p.pushed →
    (∃ (i : ℕ) (h : Handler υ) (rest : List (Message υ)), p.handlers[i]? = some h ∧
      h.stage = .acking m rest) ∨ .deleting m ∈ p.tasks
  fetched : ∀ (i : ℕ) (h : Handler υ), p.handlers[i]? = some h → h.stage.fetched.Nodup ∧
    ∀ m ∈ h.stage.batch, m ∉ p.pushed
  apart : ∀ (i j : ℕ) (h g : Handler υ) (m : Message υ), p.handlers[i]? = some h →
    p.handlers[j]? = some g → m ∈ h.stage.fetched → m ∈ g.stage.fetched → i = j

theorem mem_set_of_ne {α : Type*} {l : List α} {a b c : α} (ha : a ∈ l) (hb : l[j]? = some b)
    (hne : a ≠ b) : a ∈ l.set j c := by
  obtain ⟨k, hk⟩ := List.getElem?_of_mem ha
  have hkj : j ≠ k := by
    rintro rfl
    exact hne (Option.some.inj (hk.symm.trans hb))
  exact List.mem_of_getElem? ((List.getElem?_set_ne hkj).trans hk)

theorem batch_subset_fetched (hm : m ∈ stage.batch) : m ∈ stage.fetched := by
  cases stage with
  | draining batch => exact hm
  | acking n rest => exact List.mem_cons_of_mem n hm
  | _ => cases hm

namespace OnceInv

/-- Connection `i` goes on to a stage whose messages it had fetched before. -/
theorem enter (hp : OnceInv p) (hh : p.handlers[i]? = some h)
    (hacking : ∀ m rest, h.stage = .acking m rest → ∀ user, m ∉ p.queue user)
    (hsub : stage.fetched.Sublist h.stage.fetched) (hbatch : ∀ m ∈ stage.batch, m ∈ h.stage.batch) :
    OnceInv (p.enter i h.user stage) where
  pushed := hp.pushed
  queue := hp.queue
  waiting user m hm hpushed := by
    rcases hp.waiting user m hm hpushed with ⟨k, g, rest, hk, hg⟩ | hdel
    · have hki : i ≠ k := by
        rintro rfl
        cases hh.symm.trans hk
        exact hacking m rest hg user hm
      exact .inl ⟨k, g, rest, (List.getElem?_set_ne hki).trans hk, hg⟩
    · exact .inr hdel
  fetched k g hk := by
    rcases getElem?_set_cases hk with ⟨rfl, rfl⟩ | ⟨-, hk⟩
    · obtain ⟨hnodup, hnot⟩ := hp.fetched k h hh
      exact ⟨hnodup.sublist hsub, fun m hm => hnot m (hbatch m hm)⟩
    · exact hp.fetched k g hk
  apart k l g g' m hk hl hg hg' := by
    rcases getElem?_set_cases hk with ⟨rfl, rfl⟩ | ⟨-, hk'⟩
    · rcases getElem?_set_cases hl with ⟨rfl, -⟩ | ⟨-, hl'⟩
      · rfl
      · exact hp.apart k l h g' m hh hl' (hsub.subset hg) hg'
    · rcases getElem?_set_cases hl with ⟨rfl, rfl⟩ | ⟨-, hl'⟩
      · exact hp.apart k l g h m hk' hh hg (hsub.subset hg')
      · exact hp.apart k l g g' m hk' hl' hg hg'

/-- Connection `i` goes on and holds nothing. -/
theorem rest (hp : OnceInv p) (hh : p.handlers[i]? = some h) (stage : Stage υ)
    (hacking : ∀ m rest, h.stage ≠ .acking m rest) (hfetched : stage.fetched = []) :
    OnceInv (p.enter i h.user stage) := by
  refine hp.enter hh (fun m rest hm => absurd hm (hacking m rest)) ?_ ?_
  · rw [hfetched]
    exact List.nil_sublist _
  · intro m hm
    have := batch_subset_fetched hm
    rw [hfetched] at this
    cases this

/-- A message is pushed that no drain is about to push; if it is queued, it is about to be
removed. -/
theorem push (hp : OnceInv p) (hnew : m ∉ p.pushed)
    (hqueue : ∀ user, m ∈ p.queue user → (∃ (i : ℕ) (h : Handler υ) (rest : List (Message υ)),
      p.handlers[i]? = some h ∧ h.stage = .acking m rest) ∨ .deleting m ∈ p.tasks)
    (hfree : ∀ (k : ℕ) (g : Handler υ), p.handlers[k]? = some g → m ∉ g.stage.batch) :
    OnceInv { p with pushed := p.pushed ++ [m] } where
  pushed := by
    refine List.nodup_append.mpr ⟨hp.pushed, List.nodup_singleton m, ?_⟩
    intro a ha b hb hab
    rw [List.mem_singleton] at hb
    subst hb hab
    exact hnew ha
  queue := hp.queue
  waiting user n hn hpushed := by
    rcases List.mem_append.mp hpushed with hpushed | hpushed
    · exact hp.waiting user n hn hpushed
    · obtain rfl := List.mem_singleton.mp hpushed
      exact hqueue user hn
  fetched k g hk := by
    obtain ⟨hnodup, hnot⟩ := hp.fetched k g hk
    refine ⟨hnodup, fun n hn hpushed => ?_⟩
    rcases List.mem_append.mp hpushed with hpushed | hpushed
    · exact hnot n hn hpushed
    · rw [List.mem_singleton.mp hpushed] at hn
      exact hfree k g hk hn
  apart := hp.apart

/-- A spawned task that is about to delete a queued message stays. -/
theorem of_tasks (hp : OnceInv p) {tasks : List (Task υ)}
    (hkeep : ∀ user, ∀ m ∈ p.queue user, .deleting m ∈ p.tasks → .deleting m ∈ tasks) :
    OnceInv { p with tasks := tasks } where
  pushed := hp.pushed
  queue := hp.queue
  waiting user m hm hpushed := (hp.waiting user m hm hpushed).imp_right (hkeep user m hm)
  fetched := hp.fetched
  apart := hp.apart

theorem of_queue (hp : OnceInv p) {queue : υ → List (Message υ)}
    (hsub : ∀ user, (queue user).Sublist (p.queue user)) : OnceInv { p with queue := queue } where
  pushed := hp.pushed
  queue user := (hp.queue user).sublist (hsub user)
  waiting user n hn := hp.waiting user n ((hsub user).subset hn)
  fetched := hp.fetched
  apart := hp.apart

theorem connect (hp : OnceInv p) (user : υ) (previous : Option ℕ) :
    OnceInv { p with handlers := p.handlers ++ [⟨user, .inserted previous⟩] } := by
  have hcases {k : ℕ} {g : Handler υ}
      (hk : (p.handlers ++ [⟨user, .inserted previous⟩])[k]? = some g)
      (hg : g.stage.fetched ≠ []) : p.handlers[k]? = some g := by
    rcases getElem?_concat_cases hk with ⟨-, rfl⟩ | hk
    · exact absurd rfl hg
    · exact hk
  constructor
  · exact hp.pushed
  · exact hp.queue
  · intro u m hm hpushed
    refine (hp.waiting u m hm hpushed).imp_left ?_
    rintro ⟨k, g, rest, hk, hg⟩
    exact ⟨k, g, rest, by rw [List.getElem?_append_left (lt_length_of_getElem? hk), hk], hg⟩
  · intro k g hk
    by_cases hg : g.stage.fetched = []
    · refine ⟨hg ▸ List.nodup_nil, fun m hm => ?_⟩
      have := batch_subset_fetched hm
      rw [hg] at this
      cases this
    · exact hp.fetched k g (hcases hk hg)
  · intro k l g g' m hk hl hg hg'
    exact hp.apart k l g g' m (hcases hk (List.ne_nil_of_mem hg)) (hcases hl (List.ne_nil_of_mem hg'))
      hg hg'

variable [DecidableEq υ] {input : Input υ} {s t : Server υ}

theorem remove_sublist (p : Post υ) (m : Message υ) (user : υ) :
    ((p.remove m).queue user).Sublist (p.queue user) := by
  simp only [Post.remove]
  by_cases hu : user = m.recipient
  · subst hu
    rw [Function.update_self]
    exact List.filter_sublist
  · rw [Function.update_of_ne hu]

theorem not_mem_remove (p : Post υ) (hqueued : ∀ user, m ∈ p.queue user → m.recipient = user)
    (user : υ) : m ∉ (p.remove m).queue user := by
  intro hm
  have hr := hqueued user ((remove_sublist p m user).subset hm)
  subst hr
  simp [Post.remove] at hm

theorem remove (hp : OnceInv p) (m : Message υ) : OnceInv (p.remove m) :=
  hp.of_queue (remove_sublist p m)

/-- A message that was neither published nor pushed is stored. -/
theorem store (hp : OnceInv p) (hqueue : m ∉ p.queue m.recipient) (hnew : m ∉ p.pushed) :
    OnceInv (p.store m) where
  pushed := hp.pushed
  queue user := by
    by_cases hu : user = m.recipient
    · subst hu
      simp only [Post.store, Function.update_self]
      refine List.nodup_append.mpr ⟨hp.queue _, List.nodup_singleton m, ?_⟩
      intro a ha b hb hab
      rw [List.mem_singleton] at hb
      subst hb hab
      exact hqueue ha
    · simp only [Post.store, Function.update_of_ne hu]
      exact hp.queue user
  waiting user n hn hpushed := by
    by_cases hu : user = m.recipient
    · subst hu
      simp only [Post.store, Function.update_self] at hn
      rcases List.mem_append.mp hn with hn | hn
      · exact hp.waiting _ n hn hpushed
      · rw [List.mem_singleton.mp hn] at hpushed
        exact absurd hpushed hnew
    · simp only [Post.store, Function.update_of_ne hu] at hn
      exact hp.waiting user n hn hpushed
  fetched := hp.fetched
  apart := hp.apart

omit [DecidableEq υ] in
/-- A drain fetches messages of which none was pushed and none is held. -/
theorem fetch (hp : OnceInv p) (hh : p.handlers[i]? = some h) (hstage : h.stage = .fetching) (n : ℕ)
    (hnew : ∀ m ∈ p.queue h.user, m ∉ p.pushed)
    (hfree : ∀ (k : ℕ) (g : Handler υ), p.handlers[k]? = some g → ∀ m ∈ g.stage.fetched,
      m ∉ p.queue h.user) :
    OnceInv (p.enter i h.user (.draining ((p.queue h.user).take n))) where
  pushed := hp.pushed
  queue := hp.queue
  waiting user m hm hpushed := by
    refine (hp.waiting user m hm hpushed).imp_left ?_
    rintro ⟨k, g, rest, hk, hg⟩
    have hki : i ≠ k := by
      rintro rfl
      cases hh.symm.trans hk
      rw [hstage] at hg
      cases hg
    exact ⟨k, g, rest, (List.getElem?_set_ne hki).trans hk, hg⟩
  fetched k g hk := by
    rcases getElem?_set_cases hk with ⟨rfl, rfl⟩ | ⟨-, hk⟩
    · exact ⟨(hp.queue h.user).sublist (List.take_sublist _ _),
        fun m hm => hnew m (List.mem_of_mem_take hm)⟩
    · exact hp.fetched k g hk
  apart k l g g' m hk hl hg hg' := by
    rcases getElem?_set_cases hk with ⟨rfl, rfl⟩ | ⟨-, hk'⟩
    · rcases getElem?_set_cases hl with ⟨rfl, -⟩ | ⟨-, hl'⟩
      · rfl
      · exact absurd (List.mem_of_mem_take hg) (hfree l g' hl' m hg')
    · rcases getElem?_set_cases hl with ⟨rfl, rfl⟩ | ⟨-, hl'⟩
      · exact absurd (List.mem_of_mem_take hg') (hfree k g hk' m hg)
      · exact hp.apart k l g g' m hk' hl' hg hg'

omit [DecidableEq υ] in
/-- A drain pushes the first of the messages it holds. -/
theorem drain (hp : OnceInv p) (hh : p.handlers[i]? = some h) {rest : List (Message υ)}
    (hstage : h.stage = .draining (m :: rest)) :
    OnceInv ({ p with pushed := p.pushed ++ [m] }.enter i h.user (.acking m rest)) := by
  obtain ⟨hnodup, hnot⟩ := hp.fetched i h hh
  rw [hstage] at hnodup hnot
  have henter : OnceInv (p.enter i h.user (.acking m rest)) := by
    refine hp.enter hh ?_ ?_ ?_
    · intro n ns hn
      rw [hstage] at hn
      cases hn
    · rw [hstage]
      exact List.Sublist.refl _
    · intro n hn
      rw [hstage]
      exact List.mem_cons_of_mem m hn
  have hi : (p.handlers.set i ⟨h.user, .acking m rest⟩)[i]? = some ⟨h.user, .acking m rest⟩ :=
    List.getElem?_set_self (lt_length_of_getElem? hh)
  refine henter.push (hnot m List.mem_cons_self) ?_ ?_
  · intro user _
    exact .inl ⟨i, _, rest, hi, rfl⟩
  · intro k g hk hg
    obtain rfl := henter.apart k i g _ m hk hi (batch_subset_fetched hg) List.mem_cons_self
    cases hi.symm.trans hk
    exact (List.nodup_cons.mp hnodup).1 hg

omit [DecidableEq υ] in
/-- A message in a live send was neither queued nor fetched nor pushed. -/
theorem not_mem_of_sending (hs : Ledger s) (hh : s.handlers[i]? = some h)
    (hm : h.stage.sending = some m) : m ∉ s.pushed ∧ (∀ user, m ∉ s.queue user) ∧
      ∀ (k : ℕ) (g : Handler υ), s.handlers[k]? = some g → m ∉ g.stage.fetched := by
  obtain ⟨-, -, hpushed, hpublished⟩ := hs.sending i h m hh hm
  refine ⟨hpushed, fun user hn => ?_, fun k g hk hn => ?_⟩
  · exact hpublished (hs.queued user m hn).2
  · exact hpublished (hs.fetched k g hk m hn).2

omit [DecidableEq υ] in
/-- A message that a spawned task pushes is new, given that nobody else has it. -/
theorem not_mem_of_redeliver (hp : OnceInv s.post) (hs : Ledger s)
    (ht : s.tasks[j]? = some (.relaying m i)) (hqueue : m ∈ s.queue m.recipient)
    (hfree : ∀ g ∈ s.handlers, m ∉ g.stage.fetched) : m ∉ s.pushed := by
  intro hpushed
  rcases hp.waiting _ m hqueue hpushed with ⟨k, g, rest, hk, hg⟩ | hdel
  · refine hfree g (List.mem_of_getElem? hk) ?_
    rw [hg]
    exact List.mem_cons_self
  · obtain ⟨l, hl⟩ := List.getElem?_of_mem hdel
    have hjl : (s.tasks.map Task.message)[j]? = (s.tasks.map Task.message)[l]? := by
      have hl' : s.tasks[l]? = some (.deleting m) := hl
      rw [List.getElem?_map, List.getElem?_map, ht, hl']
      rfl
    have hlt : j < (s.tasks.map Task.message).length := by
      simpa using lt_length_of_getElem? ht
    obtain rfl := (List.getElem?_inj hlt hs.once).mp hjl
    cases ht.symm.trans hl

theorem step (hp : OnceInv s.post) (hs : Ledger s) {a : Action υ} (hguard : s.Exclusive a)
    {q : Post υ} (he : s.post.Step s.accepts a q) : OnceInv q := by
  have hqueued : ∀ m user, m ∈ s.post.queue user → m.recipient = user :=
    fun m user hm => (hs.queued user m hm).1
  cases he with
  | idle => exact hp
  | connect => exact hp.connect _ _
  | turn hh hacking _ hfetched => exact hp.rest hh _ hacking hfetched
  | @begin i input h m hh hstage _ _ _ =>
    have hsends : OnceInv { s.post with sends := s.post.sends + 1 } :=
      ⟨hp.pushed, hp.queue, hp.waiting, hp.fetched, hp.apart⟩
    refine hsends.rest hh _ ?_ rfl
    intro n rest hn
    rw [hstage] at hn
    cases hn
  | @fetch i input h n hh hstage =>
    obtain ⟨hdrains, htasks⟩ := hguard.2 h hh hstage
    refine hp.fetch hh hstage n ?_ ?_
    · intro m hm hpushed
      rcases hp.waiting _ m hm hpushed with ⟨k, g, rest, hk, hg⟩ | hdel
      · have hmg : m ∈ g.stage.fetched := by
          rw [hg]
          exact List.mem_cons_self
        have huser := (hs.fetched k g hk m hmg).1.symm.trans (hqueued m _ hm)
        rw [hdrains g (List.mem_of_getElem? hk) huser] at hmg
        cases hmg
      · exact htasks _ hdel m rfl (hqueued m _ hm)
    · intro k g hk m hmg hm
      have huser := (hs.fetched k g hk m hmg).1.symm.trans (hqueued m _ hm)
      rw [hdrains g (List.mem_of_getElem? hk) huser] at hmg
      cases hmg
  | drain hh hstage => exact hp.drain hh hstage
  | @ack i input h m rest hh hstage =>
    rw [if_pos hguard.1]
    refine (hp.remove m).enter hh ?_ ?_ ?_
    · intro n ns hn
      rw [hstage] at hn
      cases hn
      exact not_mem_remove s.post (hqueued m)
    · rw [hstage]
      exact List.sublist_cons_self m rest
    · intro n hn
      rw [hstage]
      exact hn
  | @relay i j input h m hh hstage hopen =>
    obtain ⟨hnew, hqueue, hfree⟩ := not_mem_of_sending hs hh (by rw [hstage]; rfl : _ = some m)
    have hpush : OnceInv { s.post with pushed := s.post.pushed ++ [m] } :=
      hp.push hnew (fun user hm => absurd hm (hqueue user))
        fun k g hk hm => hfree k g hk (batch_subset_fetched hm)
    refine hpush.rest hh _ ?_ rfl
    intro n rest hn
    rw [hstage] at hn
    cases hn
  | @publish i input h m hh hstage =>
    obtain ⟨hnew, hqueue, -⟩ := not_mem_of_sending hs hh (by rw [hstage]; rfl : _ = some m)
    have hstore : OnceInv { s.post.store m with tasks := s.post.tasks ++ [Task.looking m] } :=
      (hp.store (hqueue m.recipient) hnew).of_tasks fun _ _ _ => List.mem_append_left _
    refine hstore.rest hh _ ?_ rfl
    intro n rest hn
    rw [hstage] at hn
    cases hn
  | @publishUnreported i input h m hh hstage =>
    obtain ⟨hnew, hqueue, -⟩ := not_mem_of_sending hs hh (by rw [hstage]; rfl : _ = some m)
    refine (hp.store (hqueue m.recipient) hnew).rest hh _ ?_ rfl
    intro n rest hn
    rw [hstage] at hn
    cases hn
  | @look j deleted task next ht htask _ _ =>
    exact hp.of_tasks fun _ m _ hdel => mem_set_of_ne hdel ht (htask m).symm
  | @redeliver i j deleted m ht hopen =>
    obtain ⟨hqueue, hfree⟩ := hguard.2 _ ht (m, i) rfl hopen
    have htasks : OnceInv { s.post with tasks := s.post.tasks.set j (.deleting m) } :=
      hp.of_tasks fun _ n _ hdel => mem_set_of_ne hdel ht fun hn => by cases hn
    refine htasks.push (hp.not_mem_of_redeliver hs ht hqueue hfree) ?_ ?_
    · intro user _
      exact .inr (List.mem_of_getElem? (List.getElem?_set_self (lt_length_of_getElem? ht)))
    · intro k g hk hm
      exact hfree g (List.mem_of_getElem? hk) (batch_subset_fetched hm)
  | @delete j deleted m ht =>
    rw [if_pos hguard.1]
    refine (hp.remove m).of_tasks ?_
    intro user n hn hdel
    refine mem_set_of_ne hdel ht ?_
    intro hnm
    cases hnm
    exact not_mem_remove s.post (hqueued m) user hn
  | expire => exact hp.remove _

end OnceInv

theorem onceInv_start : OnceInv (Server.start : Server υ).post where
  pushed := List.nodup_nil
  queue _ := List.nodup_nil
  waiting _ _ h := by cases h
  fetched _ _ h := by cases h
  apart _ _ _ _ _ h := by cases h

/-- As long as the drains and the spawned tasks of a user keep out of each other's way, no
published message is pushed twice. -/
theorem pushed_once [DecidableEq υ] {s : Server υ} (h : Server.machine.Reach Server.Exclusive s) :
    s.PushedOnce := by
  have hinv : OnceInv s.post := by
    refine h.invariant_of (I := fun s : Server υ => OnceInv s.post)
      (fun t ht => ledger_of_reach ht) ?_ ?_
    · rintro _ rfl
      exact onceInv_start
    · intro s a t hl hs hguard he
      exact hs.step hl hguard (Server.step_post he)
  intro m _
  exact List.nodup_iff_count_le_one.mp hinv.pushed m

instance (s : Server υ) : (a : Action υ) → Decidable (s.Removes a)
  | .run _ input => inferInstanceAs (Decidable (input.removed = true))
  | .redeliver _ deleted => inferInstanceAs (Decidable (deleted = true))
  | .connect _ => isTrue trivial
  | .forward _ _ => isTrue trivial
  | .release _ => isTrue trivial
  | .expire _ => isTrue trivial

instance [DecidableEq υ] (s : Server υ) : (a : Action υ) → Decidable (s.Exclusive a)
  | .run i input => inferInstanceAs (Decidable (input.removed = true ∧ ∀ h ∈ s.handlers[i]?, _))
  | .redeliver j deleted => inferInstanceAs (Decidable (deleted = true ∧ ∀ task ∈ s.tasks[j]?, _))
  | .connect _ => isTrue trivial
  | .forward _ _ => isTrue trivial
  | .release _ => isTrue trivial
  | .expire _ => isTrue trivial

section concrete

/-- A drain has fetched a message when its spawned task finds the connection. -/
theorem pushed_twice : ¬ ∀ s : Server Bool, Server.machine.Reach Server.Removes s →
    s.PushedOnce := by
  intro hall
  have hrun : ∃ s : Server Bool, Server.machine.Reach Server.Removes s ∧
      (s.published.any fun m => decide (2 ≤ s.pushed.count m)) = true :=
    Machine.Reach.of_execIf (.connect false :: (Action.opens 0 ++ Action.sends 0 true ++
      [.connect true, .run 1 .quiet, .run 1 { Input.quiet with available := 1 },
        .redeliver 0 true, .redeliver 0 true, .run 1 .quiet])) rfl (by decide)
  obtain ⟨s, hs, hp⟩ := hrun
  obtain ⟨m, hm, hp⟩ := List.any_eq_true.mp hp
  have htwo := of_decide_eq_true hp
  have hone := hall s hs m hm
  omega

/-- A run in which a message is queued, drained and acked. -/
theorem pushed_once_first : ∃ s : Server Bool, s.pushed ≠ [] ∧ s.published ≠ [] ∧ s.PushedOnce := by
  have hrun : ∃ s : Server Bool, Server.machine.Reach Server.Exclusive s ∧
      (!s.pushed.isEmpty && !s.published.isEmpty) = true :=
    Machine.Reach.of_execIf (.connect false :: (Action.opens 0 ++ Action.sends 0 true ++
      [.redeliver 0 true, .connect true, .run 1 .quiet, .run 1 { Input.quiet with available := 1 },
        .run 1 .quiet, .run 1 .quiet, .run 1 .quiet])) rfl (by decide)
  obtain ⟨s, hs, hp⟩ := hrun
  obtain ⟨hpushed, hpublished⟩ := Bool.and_eq_true_iff.mp hp
  exact ⟨s, by simpa using hpushed, by simpa using hpublished, pushed_once hs⟩

end concrete

end Epistl.Relay
