import Epistl.Relay.Once

/-! # The order of the messages of one sender

A live push, a drain and a spawned task put messages of one sender into the channels of
one recipient. They keep the order in which the messages were sent if a live push waits
until nothing of the sender is queued or held by a drain, a spawned task pushes only the
oldest queued message, and only one drain at a time holds messages of the sender.
-/
namespace Epistl.Relay
variable {υ : Type} {a b user : υ} {p q : Post υ} {i j : ℕ} {h : Handler υ} {m : Message υ}
  {stage : Stage υ}

namespace Message

/-- Sent by `a` to `b`. -/
def Of (a b : υ) (m : Message υ) : Prop := m.sender = a ∧ m.recipient = b

instance [DecidableEq υ] (a b : υ) (m : Message υ) : Decidable (m.Of a b) :=
  inferInstanceAs (Decidable (_ ∧ _))

/-- If both are from `a` to `b`, the first was sent first. -/
def InOrder (a b : υ) (m n : Message υ) : Prop := m.Of a b → n.Of a b → m.id ≤ n.id

theorem InOrder.refl (m : Message υ) : m.InOrder a b m := fun _ _ => Nat.le_refl _

end Message

/-- What a live send is about to push, and where. -/
def Stage.relays : Stage υ → Option (Message υ × ℕ)
  | relaying m j => some (m, j)
  | _ => none

def Stage.acks : Stage υ → Option (Message υ)
  | acking m _ => some m
  | _ => none

namespace Server

/-- The messages from `a` to `b` are put into channels in the order in which they were sent. -/
def Fifo (a b : υ) (s : Server υ) : Prop := s.pushed.Pairwise (Message.InOrder a b)

/-- No send from `a` to `b` is in progress. -/
def Handed (a b : υ) (s : Server υ) : Prop :=
  ∀ g ∈ s.handlers, ∀ m ∈ g.stage.sending, ¬ m.Of a b

/-- No drain is about to push a message from `a` to `b`. -/
def Drained (a b : υ) (s : Server υ) : Prop :=
  ∀ g ∈ s.handlers, ∀ m ∈ g.stage.batch, ¬ m.Of a b

def Unqueued (a b : υ) (s : Server υ) : Prop := ∀ n ∈ s.queue b, ¬ n.Of a b

/-- No older message from `a` to `b` than the queued `m` is queued. -/
def Oldest (a b : υ) (s : Server υ) (m : Message υ) : Prop :=
  m ∈ s.queue b ∧ ∀ n ∈ s.queue b, m.InOrder a b n

/-- The sends from `a` to `b` are processed one after another. -/
def InTurn (a b : υ) (s : Server υ) : Action υ → Prop
  | .run i input => ∀ h ∈ s.handlers[i]?, h.stage = .reading → h.user = a →
    input.recipient = some b → s.Handed a b
  | .connect _ => True
  | .forward _ _ => True
  | .release _ => True
  | .redeliver _ _ => True
  | .expire _ => True

/-- The sends from `a` to `b` are processed one after another. A live push waits until none
of their messages is queued or held by a drain, a drain fetches only when no other one holds
any, the acks of a drain take effect, and a spawned task pushes only the oldest queued one,
while no drain holds any. -/
def Orders (a b : υ) (s : Server υ) : Action υ → Prop
  | .run i input => ∀ h ∈ s.handlers[i]?,
    (h.stage = .reading → h.user = a → input.recipient = some b → s.Handed a b) ∧
    (h.stage = .fetching → h.user = b → s.Drained a b) ∧
    (∀ m ∈ h.stage.acks, m.Of a b → input.removed = true) ∧
    ∀ r ∈ h.stage.relays, r.1.Of a b → s.accepts r.2 = true → s.Drained a b ∧ s.Unqueued a b
  | .redeliver j _ => ∀ task ∈ s.tasks[j]?, ∀ r ∈ task.relays, r.1.Of a b →
    s.accepts r.2 = true → s.Drained a b ∧ s.Oldest a b r.1
  | .connect _ => True
  | .forward _ _ => True
  | .release _ => True
  | .expire _ => True

end Server

structure FifoInv (a b : υ) (p : Post υ) : Prop where
  pushed : p.pushed.Pairwise (Message.InOrder a b)
  queue : (p.queue b).Pairwise (Message.InOrder a b)
  pushedQueue : ∀ m ∈ p.pushed, ∀ n ∈ p.queue b, m.InOrder a b n
  /-- one send at a time -/
  turn : ∀ (i j : ℕ) (h g : Handler υ) (m n : Message υ), p.handlers[i]? = some h →
    p.handlers[j]? = some g → h.stage.sending = some m → g.stage.sending = some n → m.Of a b →
      n.Of a b → i = j
  latest : ∀ (i : ℕ) (h : Handler υ) (m : Message υ), p.handlers[i]? = some h →
    h.stage.sending = some m → ∀ n, n ∈ p.pushed ∨ n ∈ p.published → n.InOrder a b m
  batch : ∀ (i : ℕ) (h : Handler υ), p.handlers[i]? = some h →
    h.stage.batch.Pairwise (Message.InOrder a b)
  pushedBatch : ∀ (i : ℕ) (h : Handler υ), p.handlers[i]? = some h → ∀ m ∈ p.pushed,
    ∀ n ∈ h.stage.batch, m.InOrder a b n
  /-- what is queued and not fetched comes after what is fetched -/
  batchQueue : ∀ (i : ℕ) (h : Handler υ), p.handlers[i]? = some h → ∀ m ∈ h.stage.batch,
    ∀ n ∈ p.queue b, m.InOrder a b n ∨ n ∈ h.stage.fetched
  /-- one drain at a time -/
  drains : ∀ (i j : ℕ) (h g : Handler υ) (m n : Message υ), p.handlers[i]? = some h →
    p.handlers[j]? = some g → m ∈ h.stage.batch → n ∈ g.stage.batch → m.Of a b → n.Of a b → i = j

namespace FifoInv

/-- Connection `i` goes on with a send it had and a part of what it had fetched. -/
theorem enter (hp : FifoInv a b p) (hh : p.handlers[i]? = some h)
    (hsending : ∀ m, stage.sending = some m → h.stage.sending = some m)
    (hbatch : stage.batch.Sublist h.stage.batch)
    (hfetched : ∀ m ∈ p.queue b, m ∈ h.stage.fetched → stage.batch ≠ [] → m.Of a b →
      m ∈ stage.fetched) :
    FifoInv a b (p.enter i h.user stage) where
  pushed := hp.pushed
  queue := hp.queue
  pushedQueue := hp.pushedQueue
  turn k l g g' m n hk hl hg hg' := by
    rcases getElem?_set_cases hk with ⟨rfl, rfl⟩ | ⟨-, hk'⟩
    · rcases getElem?_set_cases hl with ⟨rfl, -⟩ | ⟨-, hl'⟩
      · exact fun _ _ => rfl
      · exact hp.turn k l h g' m n hh hl' (hsending m hg) hg'
    · rcases getElem?_set_cases hl with ⟨rfl, rfl⟩ | ⟨-, hl'⟩
      · exact hp.turn k l g h m n hk' hh hg (hsending n hg')
      · exact hp.turn k l g g' m n hk' hl' hg hg'
  latest k g m hk hg := by
    rcases getElem?_set_cases hk with ⟨rfl, rfl⟩ | ⟨-, hk⟩
    · exact hp.latest k h m hh (hsending m hg)
    · exact hp.latest k g m hk hg
  batch k g hk := by
    rcases getElem?_set_cases hk with ⟨rfl, rfl⟩ | ⟨-, hk⟩
    · exact (hp.batch k h hh).sublist hbatch
    · exact hp.batch k g hk
  pushedBatch k g hk m hm n hn := by
    rcases getElem?_set_cases hk with ⟨rfl, rfl⟩ | ⟨-, hk⟩
    · exact hp.pushedBatch k h hh m hm n (hbatch.subset hn)
    · exact hp.pushedBatch k g hk m hm n hn
  batchQueue k g hk m hm n hn := by
    rcases getElem?_set_cases hk with ⟨rfl, rfl⟩ | ⟨-, hk⟩
    · rcases hp.batchQueue k h hh m (hbatch.subset hm) n hn with horder | hf
      · exact .inl horder
      · by_cases hof : n.Of a b
        · exact .inr (hfetched n hn hf (List.ne_nil_of_mem hm) hof)
        · exact .inl fun _ hn => absurd hn hof
    · exact hp.batchQueue k g hk m hm n hn
  drains k l g g' m n hk hl hg hg' := by
    rcases getElem?_set_cases hk with ⟨rfl, rfl⟩ | ⟨-, hk'⟩
    · rcases getElem?_set_cases hl with ⟨rfl, -⟩ | ⟨-, hl'⟩
      · exact fun _ _ => rfl
      · exact hp.drains k l h g' m n hh hl' (hbatch.subset hg) hg'
    · rcases getElem?_set_cases hl with ⟨rfl, rfl⟩ | ⟨-, hl'⟩
      · exact hp.drains k l g h m n hk' hh hg (hbatch.subset hg')
      · exact hp.drains k l g g' m n hk' hl' hg hg'

/-- Connection `i` goes on and holds nothing. -/
theorem rest (hp : FifoInv a b p) (hh : p.handlers[i]? = some h) (stage : Stage υ)
    (hsending : ∀ m, stage.sending = some m → h.stage.sending = some m)
    (hfetched : stage.fetched = []) : FifoInv a b (p.enter i h.user stage) := by
  have hbatch : stage.batch = [] := by
    refine List.eq_nil_iff_forall_not_mem.mpr fun m hm => ?_
    have := batch_subset_fetched hm
    rw [hfetched] at this
    cases this
  refine hp.enter hh hsending ?_ fun m _ _ hne _ => absurd hbatch hne
  rw [hbatch]
  exact List.nil_sublist _

/-- A message is pushed that is older than all queued and fetched ones. -/
theorem push (hp : FifoInv a b p) (hpushed : ∀ n ∈ p.pushed, n.InOrder a b m)
    (hsending : ∀ (k : ℕ) (g : Handler υ) (n : Message υ), p.handlers[k]? = some g →
      g.stage.sending = some n → m.InOrder a b n)
    (hqueue : ∀ n ∈ p.queue b, m.InOrder a b n)
    (hbatch : ∀ (k : ℕ) (g : Handler υ), p.handlers[k]? = some g → ∀ n ∈ g.stage.batch,
      m.InOrder a b n) : FifoInv a b { p with pushed := p.pushed ++ [m] } where
  pushed := by
    refine List.pairwise_append.mpr ⟨hp.pushed, List.pairwise_singleton _ _, ?_⟩
    intro n hn k hk
    rw [List.mem_singleton.mp hk]
    exact hpushed n hn
  queue := hp.queue
  pushedQueue n hn k hk := by
    rcases List.mem_append.mp hn with hn | hn
    · exact hp.pushedQueue n hn k hk
    · rw [List.mem_singleton.mp hn]
      exact hqueue k hk
  turn := hp.turn
  latest k g n hk hg l hl := by
    rcases hl with hl | hl
    · rcases List.mem_append.mp hl with hl | hl
      · exact hp.latest k g n hk hg l (.inl hl)
      · rw [List.mem_singleton.mp hl]
        exact hsending k g n hk hg
    · exact hp.latest k g n hk hg l (.inr hl)
  batch := hp.batch
  pushedBatch k g hk n hn l hl := by
    rcases List.mem_append.mp hn with hn | hn
    · exact hp.pushedBatch k g hk n hn l hl
    · rw [List.mem_singleton.mp hn]
      exact hbatch k g hk l hl
  batchQueue := hp.batchQueue
  drains := hp.drains

/-- Messages leave the queue. -/
theorem of_queue (hp : FifoInv a b p) {queue : υ → List (Message υ)}
    (hsub : (queue b).Sublist (p.queue b)) : FifoInv a b { p with queue := queue } where
  pushed := hp.pushed
  queue := hp.queue.sublist hsub
  pushedQueue m hm n hn := hp.pushedQueue m hm n (hsub.subset hn)
  turn := hp.turn
  latest := hp.latest
  batch := hp.batch
  pushedBatch := hp.pushedBatch
  batchQueue k g hk m hm n hn := hp.batchQueue k g hk m hm n (hsub.subset hn)
  drains := hp.drains

theorem of_tasks (hp : FifoInv a b p) (tasks : List (Task υ)) :
    FifoInv a b { p with tasks := tasks } :=
  ⟨hp.pushed, hp.queue, hp.pushedQueue, hp.turn, hp.latest, hp.batch, hp.pushedBatch,
    hp.batchQueue, hp.drains⟩

theorem connect (hp : FifoInv a b p) (user : υ) (previous : Option ℕ) :
    FifoInv a b { p with handlers := p.handlers ++ [⟨user, .inserted previous⟩] } := by
  have hcases {k : ℕ} {g : Handler υ}
      (hk : (p.handlers ++ [⟨user, .inserted previous⟩])[k]? = some g)
      (hg : g.stage.sending ≠ none ∨ g.stage.batch ≠ []) : p.handlers[k]? = some g := by
    rcases getElem?_concat_cases hk with ⟨-, rfl⟩ | hk
    · rcases hg with hg | hg <;> exact absurd rfl hg
    · exact hk
  constructor
  · exact hp.pushed
  · exact hp.queue
  · exact hp.pushedQueue
  · intro k l g g' m n hk hl hg hg'
    exact hp.turn k l g g' m n (hcases hk (.inl (by simp [hg]))) (hcases hl (.inl (by simp [hg'])))
      hg hg'
  · intro k g m hk hg
    exact hp.latest k g m (hcases hk (.inl (by simp [hg]))) hg
  · intro k g hk
    rcases getElem?_concat_cases hk with ⟨-, rfl⟩ | hk
    · exact List.Pairwise.nil
    · exact hp.batch k g hk
  · intro k g hk m hm n hn
    exact hp.pushedBatch k g (hcases hk (.inr (List.ne_nil_of_mem hn))) m hm n hn
  · intro k g hk m hm
    exact hp.batchQueue k g (hcases hk (.inr (List.ne_nil_of_mem hm))) m hm
  · intro k l g g' m n hk hl hm hn
    exact hp.drains k l g g' m n (hcases hk (.inr (List.ne_nil_of_mem hm)))
      (hcases hl (.inr (List.ne_nil_of_mem hn))) hm hn

/-- A frame of connection `i` passed its checks and gets the next number. -/
theorem begin (hp : FifoInv a b p) (hh : p.handlers[i]? = some h)
    (hhanded : m.Of a b → ∀ (k : ℕ) (g : Handler υ) (n : Message υ), p.handlers[k]? = some g →
      g.stage.sending = some n → ¬ n.Of a b)
    (hid : ∀ n, n ∈ p.pushed ∨ n ∈ p.published → n.id ≤ m.id) :
    FifoInv a b ({ p with sends := p.sends + 1 }.enter i h.user (.looking m)) := by
  have hrest : FifoInv a b (p.enter i h.user .reading) := by
    refine hp.rest hh _ (fun n hn => ?_) rfl
    cases hn
  have hset {k : ℕ} {g : Handler υ}
      (hk : (p.handlers.set i ⟨h.user, .looking m⟩)[k]? = some g) (hg : g.stage.batch ≠ []) :
      (p.handlers.set i ⟨h.user, .reading⟩)[k]? = some g := by
    rcases getElem?_set_cases hk with ⟨-, rfl⟩ | ⟨hki, hk⟩
    · exact absurd rfl hg
    · rw [List.getElem?_set_ne (Ne.symm hki), hk]
  constructor
  · exact hp.pushed
  · exact hp.queue
  · exact hp.pushedQueue
  · intro k l g g' n n' hk hl hg hg' hn hn'
    rcases getElem?_set_cases hk with ⟨rfl, rfl⟩ | ⟨-, hk'⟩
    · rcases getElem?_set_cases hl with ⟨rfl, -⟩ | ⟨-, hl'⟩
      · rfl
      · cases hg
        exact absurd hn' (hhanded hn l g' n' hl' hg')
    · rcases getElem?_set_cases hl with ⟨rfl, rfl⟩ | ⟨-, hl'⟩
      · cases hg'
        exact absurd hn (hhanded hn' k g n hk' hg)
      · exact hp.turn k l g g' n n' hk' hl' hg hg' hn hn'
  · intro k g n hk hg
    rcases getElem?_set_cases hk with ⟨rfl, rfl⟩ | ⟨-, hk'⟩
    · cases hg
      exact fun l hl _ _ => hid l hl
    · exact hp.latest k g n hk' hg
  · intro k g hk
    rcases getElem?_set_cases hk with ⟨rfl, rfl⟩ | ⟨-, hk⟩
    · exact List.Pairwise.nil
    · exact hp.batch k g hk
  · intro k g hk n hn l hl
    exact hrest.pushedBatch k g (hset hk (List.ne_nil_of_mem hl)) n hn l hl
  · intro k g hk n hn
    exact hrest.batchQueue k g (hset hk (List.ne_nil_of_mem hn)) n hn
  · intro k l g g' n n' hk hl hn hn'
    exact hrest.drains k l g g' n n' (hset hk (List.ne_nil_of_mem hn))
      (hset hl (List.ne_nil_of_mem hn')) hn hn'

/-- A drain fetches the oldest messages of the queue. -/
theorem fetch (hp : FifoInv a b p) (hh : p.handlers[i]? = some h) (n : ℕ)
    (hother : h.user ≠ b → ∀ m ∈ p.queue h.user, ¬ m.Of a b)
    (hdrained : h.user = b → ∀ (k : ℕ) (g : Handler υ), p.handlers[k]? = some g →
      ∀ m ∈ g.stage.batch, ¬ m.Of a b) :
    FifoInv a b (p.enter i h.user (.draining ((p.queue h.user).take n))) := by
  have hrest : FifoInv a b (p.enter i h.user .reading) := by
    refine hp.rest hh _ (fun n hn => ?_) rfl
    cases hn
  have hset {k : ℕ} {g : Handler υ}
      (hk : (p.handlers.set i ⟨h.user, .draining ((p.queue h.user).take n)⟩)[k]? = some g)
      (hg : g.stage.sending ≠ none) : (p.handlers.set i ⟨h.user, .reading⟩)[k]? = some g := by
    rcases getElem?_set_cases hk with ⟨-, rfl⟩ | ⟨hki, hk⟩
    · exact absurd rfl hg
    · rw [List.getElem?_set_ne (Ne.symm hki), hk]
  constructor
  · exact hp.pushed
  · exact hp.queue
  · exact hp.pushedQueue
  · intro k l g g' m m' hk hl hg hg'
    exact hrest.turn k l g g' m m' (hset hk (by simp [hg])) (hset hl (by simp [hg'])) hg hg'
  · intro k g m hk hg
    exact hrest.latest k g m (hset hk (by simp [hg])) hg
  · intro k g hk
    rcases getElem?_set_cases hk with ⟨rfl, rfl⟩ | ⟨-, hk⟩
    · by_cases hu : h.user = b
      · rw [hu]
        exact hp.queue.sublist (List.take_sublist _ _)
      · refine List.pairwise_of_forall_mem_list fun m hm _ _ hof => ?_
        exact absurd hof (hother hu m (List.mem_of_mem_take hm))
    · exact hp.batch k g hk
  · intro k g hk m hm l hl
    rcases getElem?_set_cases hk with ⟨rfl, rfl⟩ | ⟨-, hk⟩
    · have hlq := List.mem_of_mem_take hl
      by_cases hu : h.user = b
      · rw [hu] at hlq
        exact hp.pushedQueue m hm l hlq
      · exact fun _ hof => absurd hof (hother hu l hlq)
    · exact hp.pushedBatch k g hk m hm l hl
  · intro k g hk m hm l hl
    rcases getElem?_set_cases hk with ⟨rfl, rfl⟩ | ⟨-, hk⟩
    · by_cases hu : h.user = b
      · subst hu
        -- what is queued and not fetched stands behind what is
        have hsplit := hp.queue
        rw [← List.take_append_drop n (p.queue h.user)] at hsplit
        have hl' : l ∈ (p.queue h.user).take n ++ (p.queue h.user).drop n := by
          rw [List.take_append_drop]
          exact hl
        rcases List.mem_append.mp hl' with hl | hl
        · exact .inr hl
        · exact .inl ((List.pairwise_append.mp hsplit).2.2 m hm l hl)
      · exact .inl fun hof => absurd hof (hother hu m (List.mem_of_mem_take hm))
    · exact hp.batchQueue k g hk m hm l hl
  · intro k l g g' m m' hk hl hm hm' hof hof'
    rcases getElem?_set_cases hk with ⟨rfl, rfl⟩ | ⟨-, hk'⟩
    · rcases getElem?_set_cases hl with ⟨rfl, -⟩ | ⟨-, hl'⟩
      · rfl
      · by_cases hu : h.user = b
        · exact absurd hof' (hdrained hu l g' hl' m' hm')
        · exact absurd hof (hother hu m (List.mem_of_mem_take hm))
    · rcases getElem?_set_cases hl with ⟨rfl, rfl⟩ | ⟨-, hl'⟩
      · by_cases hu : h.user = b
        · exact absurd hof (hdrained hu k g hk' m hm)
        · exact absurd hof' (hother hu m' (List.mem_of_mem_take hm'))
      · exact hp.drains k l g g' m m' hk' hl' hm hm' hof hof'

/-- A drain pushes the first of the messages it holds. -/
theorem drain (hp : FifoInv a b p) (hh : p.handlers[i]? = some h) {rest : List (Message υ)}
    (hstage : h.stage = .draining (m :: rest)) (hm : m ∈ p.published) :
    FifoInv a b ({ p with pushed := p.pushed ++ [m] }.enter i h.user (.acking m rest)) := by
  have hmem : m ∈ h.stage.batch := by
    rw [hstage]
    exact List.mem_cons_self
  have hbatch := hp.batch i h hh
  have hqueue := hp.batchQueue i h hh m hmem
  rw [hstage] at hbatch hqueue
  have hrest : ∀ n ∈ rest, m.InOrder a b n := (List.pairwise_cons.mp hbatch).1
  have henter : FifoInv a b (p.enter i h.user (.acking m rest)) := by
    refine hp.enter hh (fun n hn => by cases hn) ?_ ?_
    · rw [hstage]
      exact List.sublist_cons_self m rest
    · intro n _ hn _ _
      rw [hstage] at hn
      exact hn
  refine henter.push ?_ ?_ ?_ ?_
  · intro n hn
    exact hp.pushedBatch i h hh n hn m hmem
  · intro k g n hk hg
    exact henter.latest k g n hk hg m (.inr hm)
  · intro n hn
    rcases hqueue n hn with horder | hf
    · exact horder
    · rcases List.mem_cons.mp hf with rfl | hf
      · exact Message.InOrder.refl n
      · exact hrest n hf
  · intro k g hk n hn hofm hofn
    rcases getElem?_set_cases hk with ⟨rfl, rfl⟩ | ⟨hki, hk⟩
    · exact hrest n hn hofm hofn
    · exact absurd (hp.drains k i g h n m hk hh hn hmem hofn hofm) hki

/-- The send of connection `i` is handed over: no other one of the pair is in progress. -/
theorem only_sending (hp : FifoInv a b p) (hh : p.handlers[i]? = some h)
    (hm : h.stage.sending = some m) (hnone : stage.sending = none) (k : ℕ) (g : Handler υ)
    (n : Message υ) (hk : (p.enter i h.user stage).handlers[k]? = some g)
    (hg : g.stage.sending = some n) : m.InOrder a b n := by
  intro hofm hofn
  rcases getElem?_set_cases hk with ⟨rfl, rfl⟩ | ⟨hki, hk⟩
  · rw [hnone] at hg
    cases hg
  · exact absurd (hp.turn k i g h n m hk hh hg hm hofn hofm) hki

variable [DecidableEq υ] {input : Input υ} {s t : Server υ}

theorem remove (hp : FifoInv a b p) (m : Message υ) : FifoInv a b (p.remove m) :=
  hp.of_queue (OnceInv.remove_sublist p m b)

/-- The message of a send is stored behind all others. -/
theorem store (hp : FifoInv a b p) (hlater : ∀ n, n ∈ p.pushed ∨ n ∈ p.published → n.InOrder a b m)
    (hsending : ∀ (k : ℕ) (g : Handler υ) (n : Message υ), p.handlers[k]? = some g →
      g.stage.sending = some n → m.InOrder a b n)
    (hqueue : ∀ n ∈ p.queue b, n ∈ p.published)
    (hbatch : ∀ (k : ℕ) (g : Handler υ), p.handlers[k]? = some g → ∀ n ∈ g.stage.batch,
      n ∈ p.published) : FifoInv a b (p.store m) := by
  have hcases {n : Message υ} (hn : n ∈ (p.store m).queue b) : n ∈ p.queue b ∨ n = m := by
    by_cases hb : b = m.recipient
    · subst hb
      simp only [Post.store, Function.update_self] at hn
      exact (List.mem_append.mp hn).imp_right List.mem_singleton.mp
    · simp only [Post.store, Function.update_of_ne hb] at hn
      exact .inl hn
  constructor
  · exact hp.pushed
  · by_cases hb : b = m.recipient
    · subst hb
      simp only [Post.store, Function.update_self]
      refine List.pairwise_append.mpr ⟨hp.queue, List.pairwise_singleton _ _, ?_⟩
      intro n hn l hl
      rw [List.mem_singleton.mp hl]
      exact hlater n (.inr (hqueue n hn))
    · simp only [Post.store, Function.update_of_ne hb]
      exact hp.queue
  · intro n hn l hl
    rcases hcases hl with hl | rfl
    · exact hp.pushedQueue n hn l hl
    · exact hlater n (.inl hn)
  · exact hp.turn
  · intro k g n hk hg l hl
    rcases hl with hl | hl
    · exact hp.latest k g n hk hg l (.inl hl)
    · rcases List.mem_append.mp hl with hl | hl
      · exact hp.latest k g n hk hg l (.inr hl)
      · rw [List.mem_singleton.mp hl]
        exact hsending k g n hk hg
  · exact hp.batch
  · exact hp.pushedBatch
  · intro k g hk n hn l hl
    rcases hcases hl with hl | rfl
    · exact hp.batchQueue k g hk n hn l hl
    · exact .inl (hlater n (.inr (hbatch k g hk n hn)))
  · exact hp.drains

/-- Connection `i` stores its message and goes on. -/
theorem publish (hp : FifoInv a b s.post) (hs : Ledger s) (hh : s.handlers[i]? = some h)
    (hstage : h.stage = .publishing m) (stage : Stage υ) (hsending : stage.sending = none)
    (hfetched : stage.fetched = []) : FifoInv a b ((s.post.store m).enter i h.user stage) := by
  have hm : h.stage.sending = some m := by
    rw [hstage]
    rfl
  have hrest : FifoInv a b (s.post.enter i h.user stage) := by
    refine hp.rest hh stage ?_ hfetched
    intro n hn
    rw [hsending] at hn
    cases hn
  refine hrest.store (hp.latest i h m hh hm) (hp.only_sending hh hm hsending) ?_ ?_
  · exact fun n hn => (hs.queued b n hn).2
  · intro k g hk n hn
    rcases getElem?_set_cases hk with ⟨rfl, rfl⟩ | ⟨-, hk⟩
    · have := batch_subset_fetched hn
      rw [hfetched] at this
      cases this
    · exact (hs.fetched k g hk n (batch_subset_fetched hn)).2

theorem step (hp : FifoInv a b s.post) (hs : Ledger s) {c : Action υ} (hguard : s.Orders a b c)
    {q : Post υ} (he : s.post.Step s.accepts c q) : FifoInv a b q := by
  cases he with
  | idle => exact hp
  | connect => exact hp.connect _ _
  | turn hh _ hsending hfetched => exact hp.rest hh _ hsending hfetched
  | @begin i input h m hh hstage hsender hid hrecipient =>
    refine hp.begin hh ?_ ?_
    · intro hof k g n hk hg
      have hhanded := (hguard h hh).1 hstage (hsender.symm.trans hof.1) (hrecipient.trans (by rw [hof.2]))
      exact hhanded g (List.mem_of_getElem? hk) n hg
    · intro n hn
      have := hs.numbered n hn
      rw [hid]
      exact Nat.le_of_lt this
  | @fetch i input h n hh hstage =>
    refine hp.fetch hh n ?_ ?_
    · intro hne m hm hof
      exact hne ((hs.queued _ m hm).1.symm.trans hof.2)
    · intro hb k g hk m hm
      exact (hguard h hh).2.1 hstage hb g (List.mem_of_getElem? hk) m hm
  | @drain i input h m rest hh hstage =>
    refine hp.drain hh hstage (hs.fetched i h hh m ?_).2
    rw [hstage]
    exact List.mem_cons_self
  | @ack i input h m rest hh hstage =>
    have hbatch : (Stage.draining rest).batch.Sublist h.stage.batch := by
      rw [hstage]
      exact List.Sublist.refl _
    have hremoved : m.Of a b → input.removed = true := (hguard h hh).2.2.1 m (by rw [hstage]; rfl)
    have hremain {n : Message υ} (hn : n ∈ h.stage.fetched) (hnm : n ≠ m) : n ∈ rest := by
      rw [hstage] at hn
      exact (List.mem_cons.mp hn).resolve_left hnm
    split
    · refine (hp.remove m).enter hh (fun n hn => by cases hn) hbatch ?_
      intro n hn hf _ _
      refine hremain hf ?_
      rintro rfl
      exact OnceInv.not_mem_remove s.post (fun user hm => (hs.queued user n hm).1) b hn
    · rename_i hnot
      refine hp.enter hh (fun n hn => by cases hn) hbatch ?_
      intro n _ hf _ hof
      refine hremain hf ?_
      rintro rfl
      exact hnot (hremoved hof)
  | @relay i j input h m hh hstage hopen =>
    have hm : h.stage.sending = some m := by
      rw [hstage]
      rfl
    have hrest : FifoInv a b (s.post.enter i h.user (.acknowledging m)) :=
      hp.rest hh _ (fun n hn => by cases hn) rfl
    have hclear : m.Of a b → s.Drained a b ∧ s.Unqueued a b := fun hof =>
      (hguard h hh).2.2.2 (m, j) (by rw [hstage]; rfl) hof hopen
    refine hrest.push (fun n hn => hp.latest i h m hh hm n (.inl hn))
      (hp.only_sending hh hm rfl) ?_ ?_
    · intro n hn hofm hofn
      exact absurd hofn ((hclear hofm).2 n hn)
    · intro k g hk n hn hofm hofn
      rcases getElem?_set_cases hk with ⟨rfl, rfl⟩ | ⟨-, hk⟩
      · cases hn
      · exact absurd hofn ((hclear hofm).1 g (List.mem_of_getElem? hk) n hn)
  | publish hh hstage =>
    exact (hp.publish hs hh hstage _ rfl rfl).of_tasks _
  | publishUnreported hh hstage => exact hp.publish hs hh hstage _ rfl rfl
  | look => exact hp.of_tasks _
  | @redeliver i j deleted m ht hopen =>
    have hclear := fun hof => hguard _ ht (m, i) rfl hof hopen
    refine (hp.of_tasks (s.post.tasks.set j (.deleting m))).push ?_ ?_ ?_ ?_
    · intro n hn hofn hofm
      exact hp.pushedQueue n hn m (hclear hofm).2.1 hofn hofm
    · intro k g n hk hg
      exact hp.latest k g n hk hg m (.inr (hs.tasks _ (List.mem_of_getElem? ht)))
    · intro n hn hofm
      exact (hclear hofm).2.2 n hn hofm
    · intro k g hk n hn hofm hofn
      exact absurd hofn ((hclear hofm).1 g (List.mem_of_getElem? hk) n hn)
  | @delete j deleted m ht =>
    split
    · exact (hp.remove m).of_tasks _
    · exact hp.of_tasks _
  | expire => exact hp.remove _

end FifoInv

theorem fifoInv_start : FifoInv a b (Server.start : Server υ).post where
  pushed := List.Pairwise.nil
  queue := List.Pairwise.nil
  pushedQueue _ h := by cases h
  turn _ _ _ _ _ _ h := by cases h
  latest _ _ _ h := by cases h
  batch _ _ h := by cases h
  pushedBatch _ _ h := by cases h
  batchQueue _ _ h := by cases h
  drains _ _ _ _ _ _ h := by cases h

/-- As long as the three paths wait for each other, a pair's messages stay in order. -/
theorem fifo [DecidableEq υ] {s : Server υ} (h : Server.machine.Reach (Server.Orders a b) s) :
    s.Fifo a b := by
  have hinv : FifoInv a b s.post := by
    refine h.invariant_of (I := fun s : Server υ => FifoInv a b s.post)
      (fun t ht => ledger_of_reach ht) ?_ ?_
    · rintro _ rfl
      exact fifoInv_start
    · intro s c t hl hs hguard he
      exact hs.step hl hguard (Server.step_post he)
  exact hinv.pushed

instance [DecidableEq υ] (a b : υ) (s : Server υ) : Decidable (s.Fifo a b) :=
  inferInstanceAs (Decidable (s.pushed.Pairwise fun m n => m.Of a b → n.Of a b → m.id ≤ n.id))

instance [DecidableEq υ] (a b : υ) (s : Server υ) : Decidable (s.Handed a b) :=
  inferInstanceAs (Decidable (∀ g ∈ s.handlers, ∀ m ∈ g.stage.sending, ¬ m.Of a b))

instance [DecidableEq υ] (a b : υ) (s : Server υ) : Decidable (s.Drained a b) :=
  inferInstanceAs (Decidable (∀ g ∈ s.handlers, ∀ m ∈ g.stage.batch, ¬ m.Of a b))

instance [DecidableEq υ] (a b : υ) (m n : Message υ) : Decidable (m.InOrder a b n) :=
  inferInstanceAs (Decidable (m.Of a b → n.Of a b → m.id ≤ n.id))

instance [DecidableEq υ] (a b : υ) (s : Server υ) : Decidable (s.Unqueued a b) :=
  inferInstanceAs (Decidable (∀ n ∈ s.queue b, ¬ n.Of a b))

instance [DecidableEq υ] (a b : υ) (s : Server υ) (m : Message υ) : Decidable (s.Oldest a b m) :=
  inferInstanceAs (Decidable (m ∈ s.queue b ∧ ∀ n ∈ s.queue b, m.InOrder a b n))

instance [DecidableEq υ] (a b : υ) (s : Server υ) : (c : Action υ) → Decidable (s.InTurn a b c)
  | .run i _ => inferInstanceAs (Decidable (∀ h ∈ s.handlers[i]?, _))
  | .connect _ => isTrue trivial
  | .forward _ _ => isTrue trivial
  | .release _ => isTrue trivial
  | .redeliver _ _ => isTrue trivial
  | .expire _ => isTrue trivial

instance [DecidableEq υ] (a b : υ) (s : Server υ) : (c : Action υ) → Decidable (s.Orders a b c)
  | .run i _ => inferInstanceAs (Decidable (∀ h ∈ s.handlers[i]?, _))
  | .redeliver j _ => inferInstanceAs (Decidable (∀ task ∈ s.tasks[j]?, _))
  | .connect _ => isTrue trivial
  | .forward _ _ => isTrue trivial
  | .release _ => isTrue trivial
  | .expire _ => isTrue trivial

section concrete

/-- A live push overtakes a queued message that the drain has not pushed yet. -/
theorem fifo_overtaken : ¬ ∀ s : Server Bool,
    Server.machine.Reach (Server.InTurn false true) s → s.Fifo false true := by
  intro hall
  have hrun : ∃ s : Server Bool, Server.machine.Reach (Server.InTurn false true) s ∧
      (!decide (s.Fifo false true)) = true :=
    Machine.Reach.of_execIf (.connect false :: (Action.opens 0 ++ Action.sends 0 true ++
      [.connect true, .run 1 .quiet] ++ Action.sends 0 true ++
        [.run 1 { Input.quiet with available := 1 }, .run 1 .quiet])) rfl (by decide)
  obtain ⟨s, hs, hp⟩ := hrun
  exact of_decide_eq_false (by simpa using hp) (hall s hs)

/-- A run in which a message is drained and the next one pushed live. -/
theorem fifo_first : ∃ s : Server Bool, s.pushed.length = 2 ∧ s.Fifo false true := by
  have hrun : ∃ s : Server Bool, Server.machine.Reach (Server.Orders false true) s ∧
      decide (s.pushed.length = 2) = true :=
    Machine.Reach.of_execIf (.connect false :: (Action.opens 0 ++ Action.sends 0 true ++
      [.connect true, .run 1 .quiet, .run 1 { Input.quiet with available := 1 }, .run 1 .quiet,
        .run 1 .quiet] ++ Action.sends 0 true)) rfl (by decide)
  obtain ⟨s, hs, hp⟩ := hrun
  exact ⟨s, of_decide_eq_true hp, fifo hs⟩

end concrete

end Epistl.Relay
