import Epistl.Relay.Channel
import Epistl.Relay.Ledger

/-! # What the relay has acknowledged

A sender is sent an `ack` once its message is in a channel or in the queue. The message
is then safe as long as nothing is pushed into a channel that a `Close` or the end of
its forward task cuts off, and no forward task ends with messages left in its channel.
-/
namespace Epistl.Relay
variable {υ : Type} {m : Message υ}

variable {s t : Server υ} {i j : ℕ} {user : υ} {h : Handler υ} {stage : Stage υ}

/-- The message is in a channel of its recipient, or was written to its transport. -/
def Server.InHand (s : Server υ) (m : Message υ) : Prop :=
  ∃ i c, s.channels[i]? = some c ∧ s.Owns m.recipient i ∧ c.Carries m

/-- The message is queued, has expired, or is in hand. -/
def Server.Kept (s : Server υ) (m : Message υ) : Prop :=
  m ∈ s.queue m.recipient ∨ m ∈ s.expired ∨ s.InHand m

/-- Where a message is that is not lost: in the queue, expired from it, in a channel
whose forward task will take it, or written to a transport of its recipient. -/
def Server.Safe (s : Server υ) (m : Message υ) : Prop :=
  m ∈ s.queue m.recipient ∨ m ∈ s.expired ∨ ∃ i c, s.channels[i]? = some c ∧
    s.Owns m.recipient i ∧
      (.text (.message m) ∈ c.written ∨ c.live ∧ .text (.message m) ∈ c.ahead)

/-- A push into the channel reaches the transport, or is refused. -/
def Server.Takes (s : Server υ) (i : ℕ) : Prop :=
  ∀ c ∈ s.channels[i]?, c.forward = .closed ∨ c.live ∧ ∀ f ∈ c.frames, f.isClose = false

def Server.Flushed (s : Server υ) (i : ℕ) : Prop :=
  ∀ c ∈ s.channels[i]?, ∀ f ∈ c.frames, f.isMessage = false

/-- The channel a connection's task is about to push a message into. -/
def Stage.target (i : ℕ) : Stage υ → Option ℕ
  | draining (_ :: _) => some i
  | relaying _ j => some j
  | _ => none

def Task.target : Task υ → Option ℕ
  | relaying _ i => some i
  | _ => none

/-- Messages are pushed only into channels that take them, and a write fails or a
forward task is aborted only when no message is left in its channel. -/
def Server.Delivers (s : Server υ) : Action υ → Prop
  | .run i _ => ∀ h ∈ s.handlers[i]?,
    (∀ j ∈ h.stage.target i, s.Takes j) ∧ (h.stage = .dropping → s.Flushed i)
  | .forward i written => written = true ∨ s.Flushed i
  | .redeliver j _ => ∀ task ∈ s.tasks[j]?, ∀ i ∈ task.target, s.Takes i
  | .connect _ => True
  | .release _ => True
  | .expire _ => True

def Server.AllOrderly (s : Server υ) : Prop :=
  ∀ (i : ℕ) (c : Channel υ), s.channels[i]? = some c → c.Orderly

/-- The channels of `t` carry what those of `s` carry. -/
structure Flows (s t : Server υ) : Prop where
  orderly : s.AllOrderly → t.AllOrderly
  carries : ∀ (i : ℕ) (c : Channel υ), s.channels[i]? = some c →
    ∃ d, t.channels[i]? = some d ∧ ∀ m, c.Carries m → d.Carries m

namespace Flows
variable {u : Server υ}

theorem of_eq (he : t.channels = s.channels) : Flows s t := by
  constructor
  · unfold Server.AllOrderly
    rw [he]
    exact id
  · intro i c hc
    exact ⟨c, by rw [he, hc], fun _ => id⟩

theorem trans (hst : Flows s t) (htu : Flows t u) : Flows s u := by
  constructor
  · exact htu.orderly ∘ hst.orderly
  · intro i c hc
    obtain ⟨d, hd, hcd⟩ := hst.carries i c hc
    obtain ⟨e, he, hde⟩ := htu.carries i d hd
    exact ⟨e, he, fun m => hde m ∘ hcd m⟩

/-- One channel goes on. -/
theorem modify {f : Channel υ → Channel υ}
    (hf : ∀ c, s.channels[i]? = some c → c.Onward (f c))
    (ht : t.channels = s.channels.modify i f) : Flows s t := by
  constructor
  · intro hs k d hd
    rw [ht] at hd
    obtain ⟨c, hc, rfl⟩ := getElem?_modify_cases hd
    split
    · rename_i hik
      subst hik
      exact (hf c hc).orderly (hs i c hc)
    · exact hs k c hc
  · intro k c hc
    rw [ht, List.getElem?_modify, hc]
    by_cases hik : i = k
    · subst hik
      exact ⟨f c, by simp, (hf c hc).carries⟩
    · exact ⟨c, by simp [hik], fun _ => id⟩

theorem set {c d : Channel υ} (hc : s.channels[i]? = some c) (hcd : c.Onward d)
    (ht : t.channels = s.channels.set i d) : Flows s t := by
  refine modify (i := i) (f := fun _ => d) ?_ ?_
  · intro c' hc'
    cases hc.symm.trans hc'
    exact hcd
  · rw [ht]
    refine List.ext_getElem? fun k => ?_
    rw [List.getElem?_modify, List.getElem?_set]
    by_cases hik : i = k
    · subst hik
      simp [lt_length_of_getElem? hc]
    · simp [hik]

theorem push (i : ℕ) (frame : Frame υ) (hf : frame.isMessage = false)
    (ht : t.channels = (s.push i frame).channels) : Flows s t :=
  modify (fun _ _ => Channel.onward_pushed hf) ht

/-- A message is pushed into a channel that takes it. -/
theorem deliver (htakes : s.Takes i) (hopen : s.accepts i = true)
    (ht : t.channels = (s.deliver i m).channels) :
    Flows s t ∧ ∃ c, t.channels[i]? = some c ∧ c.Carries m := by
  have hget : ∃ c, s.channels[i]? = some c ∧ c.forward ≠ .closed := by
    unfold Server.accepts at hopen
    split at hopen
    · rename_i c hc
      exact ⟨c, hc, of_decide_eq_true hopen⟩
    · cases hopen
  obtain ⟨c, hc, hne⟩ := hget
  have hlive : c.live ∧ ∀ f ∈ c.frames, f.isClose = false := (htakes c hc).resolve_left hne
  have honward := Channel.onward_pushed_message (m := m) hlive.1 hlive.2
  constructor
  · refine modify ?_ ht
    intro c' hc'
    cases hc.symm.trans hc'
    exact honward.1
  · refine ⟨c.pushed (.text (.message m)), ?_, honward.2⟩
    have hmod : (s.deliver i m).channels =
        s.channels.modify i fun c => c.pushed (.text (.message m)) := rfl
    rw [ht, hmod, List.getElem?_modify_eq, hc]
    rfl

end Flows

/-- What holds of a message because of where a task stands. -/
def Server.Backed (s : Server υ) : Stage υ → Prop
  | .acking m _ => s.InHand m
  | .acknowledging m => s.Kept m
  | _ => True

structure AckInv (s : Server υ) : Prop where
  orderly : s.AllOrderly
  handlers : ∀ (i : ℕ) (h : Handler υ), s.handlers[i]? = some h → s.Backed h.stage
  deleting : ∀ m : Message υ, .deleting m ∈ s.tasks → s.InHand m
  acked : ∀ m ∈ s.acked, s.Kept m

/-- From `s` to `t` no message is lost. -/
structure Keeps (s t : Server υ) : Prop where
  flows : Flows s t
  owns : ∀ (user : υ) (i : ℕ), s.Owns user i → t.Owns user i
  expired : s.expired ⊆ t.expired
  queue : ∀ m : Message υ, m ∈ s.queue m.recipient → t.Kept m

namespace Keeps

theorem inHand (hst : Keeps s t) (hm : s.InHand m) : t.InHand m := by
  obtain ⟨i, c, hc, ho, hcarries⟩ := hm
  obtain ⟨d, hd, hcd⟩ := hst.flows.carries i c hc
  exact ⟨i, d, hd, hst.owns _ _ ho, hcd m hcarries⟩

theorem kept (hst : Keeps s t) (hm : s.Kept m) : t.Kept m := by
  rcases hm with hm | hm | hm
  · exact hst.queue m hm
  · exact .inr (.inl (hst.expired hm))
  · exact .inr (.inr (hst.inHand hm))

theorem backed (hst : Keeps s t) (hm : s.Backed stage) : t.Backed stage := by
  cases stage with
  | acking m rest => exact hst.inHand hm
  | acknowledging m => exact hst.kept hm
  | _ => trivial

end Keeps

namespace AckInv

theorem safe (hs : AckInv s) (hm : s.Kept m) : s.Safe m := by
  rcases hm with hm | hm | ⟨i, c, hc, ho, hm⟩
  · exact .inl hm
  · exact .inr (.inl hm)
  · refine .inr (.inr ⟨i, c, hc, ho, ?_⟩)
    rcases hm with hm | hm
    · exact .inl hm
    · exact .inr ((hs.orderly i c hc).ahead hm)

/-- The task of connection `i` goes on. -/
theorem enter (hs : AckInv s) (hst : Keeps s t) (ht : t.handlers = s.handlers.set i ⟨user, stage⟩)
    (hstage : t.Backed stage) (htasks : ∀ m : Message υ, .deleting m ∈ t.tasks → .deleting m ∈ s.tasks)
    (hacked : ∀ m ∈ t.acked, m ∈ s.acked ∨ t.Kept m) : AckInv t where
  orderly := hst.flows.orderly hs.orderly
  handlers k g hk := by
    rw [ht] at hk
    rcases getElem?_set_cases hk with ⟨-, rfl⟩ | ⟨-, hk⟩
    · exact hstage
    · exact hst.backed (hs.handlers k g hk)
  deleting m hm := hst.inHand (hs.deleting m (htasks m hm))
  acked m hm := by
    rcases hacked m hm with hm | hm
    · exact hst.kept (hs.acked m hm)
    · exact hm

/-- A task that has left queue, tasks and logs alone goes on. -/
theorem quiet (hs : AckInv s) (hflows : Flows s t) (howns : ∀ user i, s.Owns user i → t.Owns user i)
    (ht : t.handlers = s.handlers.set i ⟨user, stage⟩) (hstage : Keeps s t → t.Backed stage)
    (hqueue : t.queue = s.queue) (hexpired : t.expired = s.expired) (htasks : t.tasks = s.tasks)
    (hacked : t.acked = s.acked) : AckInv t := by
  have hst : Keeps s t := by
    refine ⟨hflows, howns, ?_, ?_⟩
    · rw [hexpired]
      exact fun _ => id
    · intro m hm
      exact .inl (by rw [hqueue]; exact hm)
  refine hs.enter hst ht (hstage hst) ?_ ?_
  · intro m hm
    rwa [htasks] at hm
  · intro m hm
    rw [hacked] at hm
    exact .inl hm

end AckInv

variable {input : Input υ} [DecidableEq υ]

instance (s : Server υ) (i : ℕ) : Decidable (s.Takes i) :=
  inferInstanceAs (Decidable (∀ c ∈ s.channels[i]?, _))

instance (s : Server υ) (i : ℕ) : Decidable (s.Flushed i) :=
  inferInstanceAs (Decidable (∀ c ∈ s.channels[i]?, _))

instance (s : Server υ) : (a : Action υ) → Decidable (s.Delivers a)
  | .run i _ => inferInstanceAs (Decidable (∀ h ∈ s.handlers[i]?, _))
  | .forward _ _ => inferInstanceAs (Decidable (_ ∨ _))
  | .redeliver j _ => inferInstanceAs (Decidable (∀ task ∈ s.tasks[j]?, _))
  | .connect _ => isTrue trivial
  | .release _ => isTrue trivial
  | .expire _ => isTrue trivial

theorem mem_remove_of_ne {n : Message υ} (hn : n ∈ s.queue user) (hnm : n ≠ m) :
    n ∈ (s.remove m).queue user := by
  simp only [Server.remove]
  by_cases hu : user = m.recipient
  · subst hu
    rw [Function.update_self]
    exact List.mem_filter.mpr ⟨hn, by simpa using hnm⟩
  · simpa only [Function.update_of_ne hu] using hn

/-- A message that is in hand may leave the queue. -/
theorem kept_remove {n : Message υ} (ht : t.queue = (s.remove m).queue) (hm : t.InHand m)
    (hn : n ∈ s.queue n.recipient) : t.Kept n := by
  by_cases hnm : n = m
  · subst hnm
    exact .inr (.inr hm)
  · exact .inl (by rw [ht]; exact mem_remove_of_ne hn hnm)

theorem mem_store {n : Message υ} (hn : n ∈ s.queue user ∨ n = m ∧ user = m.recipient) :
    n ∈ (s.store m).queue user := by
  by_cases hu : user = m.recipient
  · subst hu
    simp only [Server.store, Function.update_self]
    rcases hn with hn | ⟨rfl, -⟩
    · exact List.mem_append_left _ hn
    · exact List.mem_append_right _ (List.mem_singleton_self n)
  · simp only [Server.store, Function.update_of_ne hu]
    exact hn.resolve_right fun h => hu h.2

/-- The task of a connection takes no channel from its user. -/
theorem Server.Owns.advance (hh : s.handlers[i]? = some h)
    (he : s.advance i h.user input h.stage = some t) : ∀ u k, s.Owns u k → t.Owns u k := by
  intro u k hk
  exact hk.step (a := .run i input) (by rw [Server.step, hh]; exact he)

namespace AckInv

omit [DecidableEq υ] in
/-- A task that has only come to its next stage. -/
theorem onward (hs : AckInv s) (howns : ∀ u k, s.Owns u k → (s.enter i user stage).Owns u k)
    (hstage : (s.enter i user stage).Backed stage) : AckInv (s.enter i user stage) :=
  hs.quiet (.of_eq rfl) howns rfl (fun _ => hstage) rfl rfl rfl rfl

theorem advance_inserted (hs : AckInv s) {previous : Option ℕ}
    (hh : s.handlers[i]? = some ⟨user, .inserted previous⟩)
    (he : s.advance i user input (.inserted previous) = some t) : AckInv t := by
  have howns := Server.Owns.advance hh he
  cases he
  have hrunning (u : Server υ) : Flows u ((u.startForward i).enter i user .fetching) :=
    .modify (i := i) (fun _ _ => Channel.onward_running) rfl
  cases previous with
  | none => exact hs.quiet (hrunning s) howns rfl (fun _ => trivial) rfl rfl rfl rfl
  | some j =>
    have hclose : Flows s (s.closePrevious (some j)) := .push j .replaced rfl rfl
    exact hs.quiet (hclose.trans (hrunning _)) howns rfl (fun _ => trivial) rfl rfl rfl rfl

theorem advance_draining (hs : AckInv s) (hl : Ledger s) {batch : List (Message υ)}
    (hh : s.handlers[i]? = some ⟨user, .draining batch⟩)
    (htarget : ∀ j ∈ (Stage.draining batch).target i, s.Takes j)
    (he : s.advance i user input (.draining batch) = some t) : AckInv t := by
  have howns := Server.Owns.advance hh he
  cases batch with
  | nil =>
    cases he
    exact hs.onward howns trivial
  | cons m rest =>
    simp only [Server.advance] at he
    split at he
    · rename_i hopen
      cases he
      obtain ⟨hflows, c, hc, hcarries⟩ := Flows.deliver (m := m)
        (t := (s.deliver i m).enter i user (.acking m rest)) (htarget i rfl) hopen rfl
      have hmine : m.recipient = user := (hl.fetched i _ hh m List.mem_cons_self).1
      have hown : s.Owns m.recipient i := ⟨_, hh, hmine.symm⟩
      exact hs.quiet hflows howns rfl (fun _ => ⟨i, c, hc, howns _ _ hown, hcarries⟩) rfl rfl rfl rfl
    · cases he
      exact hs.onward howns trivial

theorem advance_acking (hs : AckInv s) {rest : List (Message υ)}
    (hh : s.handlers[i]? = some ⟨user, .acking m rest⟩)
    (he : s.advance i user input (.acking m rest) = some t) : AckInv t := by
  have howns := Server.Owns.advance hh he
  obtain ⟨k, c, hc, ho, hcarries⟩ : s.InHand m := hs.handlers i _ hh
  simp only [Server.advance, Option.some.injEq] at he
  subst he
  revert howns
  cases input.removed with
  | false => exact fun howns => hs.onward howns trivial
  | true =>
    intro howns
    have hst : Keeps s ((s.remove m).enter i user (.draining rest)) := by
      refine ⟨.of_eq rfl, howns, fun _ => id, ?_⟩
      intro n hn
      exact kept_remove rfl ⟨k, c, hc, howns _ _ ho, hcarries⟩ hn
    exact hs.enter hst rfl trivial (fun _ => id) fun _ => .inl

theorem advance_reading (hs : AckInv s) (hh : s.handlers[i]? = some ⟨user, .reading⟩)
    (he : s.advance i user input .reading = some t) : AckInv t := by
  have howns := Server.Owns.advance hh he
  simp only [Server.advance] at he
  split at he
  · cases he
    exact hs.onward howns trivial
  · split at he <;> cases he <;>
      exact hs.quiet (.of_eq rfl) howns rfl (fun _ => trivial) rfl rfl rfl rfl

theorem advance_looking (hs : AckInv s) (hh : s.handlers[i]? = some ⟨user, .looking m⟩)
    (he : s.advance i user input (.looking m) = some t) : AckInv t := by
  have howns := Server.Owns.advance hh he
  simp only [Server.advance] at he
  split at he <;> cases he <;> exact hs.onward howns trivial

theorem advance_relaying (hs : AckInv s) (hl : Ledger s)
    (hh : s.handlers[i]? = some ⟨user, .relaying m j⟩) (htakes : s.Takes j)
    (he : s.advance i user input (.relaying m j) = some t) : AckInv t := by
  have howns := Server.Owns.advance hh he
  simp only [Server.advance] at he
  split at he
  · rename_i hopen
    cases he
    obtain ⟨hflows, c, hc, hcarries⟩ := Flows.deliver (m := m)
      (t := (s.deliver j m).enter i user (.acknowledging m)) htakes hopen rfl
    have hown : s.Owns m.recipient j := hl.relaying i _ m j hh rfl
    refine hs.quiet hflows howns rfl (fun _ => ?_) rfl rfl rfl rfl
    exact .inr (.inr ⟨j, c, hc, howns _ _ hown, hcarries⟩)
  · cases he
    exact hs.onward howns trivial

theorem advance_publishing (hs : AckInv s) (hh : s.handlers[i]? = some ⟨user, .publishing m⟩)
    (he : s.advance i user input (.publishing m) = some t) : AckInv t := by
  have howns := Server.Owns.advance hh he
  simp only [Server.advance] at he
  split at he
  · cases he
    refine hs.enter ⟨.of_eq rfl, howns, fun _ => id, ?_⟩ rfl ?_ ?_ fun _ => .inl
    · exact fun n hn => .inl (mem_store (.inl hn))
    · exact .inl (mem_store (.inr ⟨rfl, rfl⟩))
    · intro n hn
      rcases List.mem_append.mp hn with hn | hn
      · exact hn
      · cases List.mem_singleton.mp hn
  · cases he
    refine hs.enter ⟨.of_eq rfl, howns, fun _ => id, ?_⟩ rfl trivial (fun _ => id) fun _ => .inl
    exact fun n hn => .inl (mem_store (.inl hn))
  · cases he
    exact hs.onward howns trivial

theorem advance_acknowledging (hs : AckInv s)
    (hh : s.handlers[i]? = some ⟨user, .acknowledging m⟩)
    (he : s.advance i user input (.acknowledging m) = some t) : AckInv t := by
  have howns := Server.Owns.advance hh he
  have hkept : s.Kept m := hs.handlers i _ hh
  simp only [Server.advance] at he
  split at he
  · cases he
    have hst : Keeps s ({ s.push i (.text (.ack m.recipient)) with
        acked := s.acked ++ [m] }.enter i user .reading) :=
      ⟨.push i (.text (.ack m.recipient)) rfl rfl, howns, fun _ => id, fun n hn => .inl hn⟩
    refine hs.enter hst rfl trivial (fun _ => id) ?_
    intro n hn
    rcases List.mem_append.mp hn with hn | hn
    · exact .inl hn
    · rw [List.mem_singleton.mp hn]
      exact .inr (hst.kept hkept)
  · cases he
    exact hs.onward howns trivial

theorem advance_refusing (hs : AckInv s) {r : Rejection}
    (hh : s.handlers[i]? = some ⟨user, .refusing r⟩)
    (he : s.advance i user input (.refusing r) = some t) : AckInv t := by
  have howns := Server.Owns.advance hh he
  simp only [Server.advance] at he
  split at he
  · cases he
    have hflows : Flows s ((s.push i (.text (.error r))).enter i user .reading) :=
      .push i (.text (.error r)) rfl rfl
    exact hs.quiet hflows howns rfl (fun _ => trivial) rfl rfl rfl rfl
  · cases he
    exact hs.onward howns trivial

theorem advance_dropping (hs : AckInv s) (hh : s.handlers[i]? = some ⟨user, .dropping⟩)
    (hflushed : s.Flushed i) (he : s.advance i user input .dropping = some t) : AckInv t := by
  have howns := Server.Owns.advance hh he
  cases he
  have hflows : Flows s ((s.abort i).enter i user .gone) := by
    refine .modify (i := i) ?_ rfl
    intro c hc
    exact Channel.onward_of_flushed (hflushed c hc) rfl fun _ => id
  exact hs.quiet hflows howns rfl (fun _ => trivial) rfl rfl rfl rfl

theorem advance (hs : AckInv s) (hl : Ledger s) (hh : s.handlers[i]? = some h)
    (hguard : s.Delivers (.run i input)) (he : s.advance i h.user input h.stage = some t) :
    AckInv t := by
  have howns := Server.Owns.advance hh he
  obtain ⟨htarget, hflushed⟩ := hguard h hh
  obtain ⟨user, stage⟩ := h
  cases stage with
  | inserted previous => exact hs.advance_inserted hh he
  | fetching =>
    cases he
    exact hs.onward howns trivial
  | draining batch => exact hs.advance_draining hl hh htarget he
  | acking m rest => exact hs.advance_acking hh he
  | reading => exact hs.advance_reading hh he
  | looking m => exact hs.advance_looking hh he
  | relaying m j => exact hs.advance_relaying hl hh (htarget j rfl) he
  | publishing m => exact hs.advance_publishing hh he
  | acknowledging m => exact hs.advance_acknowledging hh he
  | refusing r => exact hs.advance_refusing hh he
  | leaving =>
    cases he
    exact hs.quiet (.of_eq rfl) howns rfl (fun _ => trivial) rfl rfl rfl rfl
  | dropping => exact hs.advance_dropping hh (hflushed rfl) he
  | gone => cases he

theorem redeliver (hs : AckInv s) (hl : Ledger s) {task : Task υ} (ht : s.tasks[j]? = some task)
    {deleted : Bool} (hguard : s.Delivers (.redeliver j deleted))
    (he : s.redeliver j deleted task = some t) : AckInv t := by
  have howns : ∀ user k, s.Owns user k → t.Owns user k := by
    intro user k hk
    exact hk.step (a := .redeliver j deleted) (by rw [Server.step, ht]; exact he)
  have htarget := hguard task ht
  have hmem := List.mem_of_getElem? ht
  have hold {next : Task υ} {n : Message υ} (hn : .deleting n ∈ s.tasks.set j next)
      (hnext : next ≠ .deleting n) : .deleting n ∈ s.tasks := by
    rcases List.mem_or_eq_of_mem_set hn with hn | hn
    · exact hn
    · exact absurd hn.symm hnext
  have hidle {next : Task υ} (hst : Keeps s t) (hhandlers : t.handlers = s.handlers)
      (htasks : t.tasks = s.tasks.set j next) (hacked : t.acked = s.acked)
      (hnext : ∀ n, next = .deleting n → t.InHand n) : AckInv t := by
    refine ⟨hst.flows.orderly hs.orderly, ?_, ?_, ?_⟩
    · intro k g hk
      rw [hhandlers] at hk
      exact hst.backed (hs.handlers k g hk)
    · intro n hn
      rw [htasks] at hn
      by_cases hdel : next = .deleting n
      · exact hnext n hdel
      · exact hst.inHand (hs.deleting n (hold hn hdel))
    · intro n hn
      rw [hacked] at hn
      exact hst.kept (hs.acked n hn)
  cases task with
  | looking m =>
    simp only [Server.redeliver] at he
    split at he <;> cases he
    · exact hidle ⟨.of_eq rfl, howns, fun _ => id, fun _ => .inl⟩ rfl rfl rfl fun n hn => by cases hn
    · exact hidle ⟨.of_eq rfl, howns, fun _ => id, fun _ => .inl⟩ rfl rfl rfl fun n hn => by cases hn
  | relaying m i =>
    simp only [Server.redeliver] at he
    split at he
    · rename_i hopen
      cases he
      obtain ⟨hflows, c, hc, hcarries⟩ := Flows.deliver (m := m)
        (t := { s.deliver i m with tasks := s.tasks.set j (.deleting m) }) (htarget i rfl) hopen rfl
      refine hidle ⟨hflows, howns, fun _ => id, fun _ => .inl⟩ rfl rfl rfl ?_
      intro n hn
      cases hn
      exact ⟨i, c, hc, howns _ _ (hl.redelivering m i hmem), hcarries⟩
    · cases he
      exact hidle ⟨.of_eq rfl, howns, fun _ => id, fun _ => .inl⟩ rfl rfl rfl fun n hn => by cases hn
  | deleting m =>
    simp only [Server.redeliver, Option.some.injEq] at he
    subst he
    revert howns hidle
    cases deleted with
    | false =>
      intro howns hidle
      exact hidle ⟨.of_eq rfl, howns, fun _ => id, fun _ => .inl⟩ rfl rfl rfl fun n hn => by cases hn
    | true =>
      intro howns hidle
      obtain ⟨k, c, hc, ho, hcarries⟩ := hs.deleting m hmem
      refine hidle ⟨.of_eq rfl, howns, fun _ => id, ?_⟩ rfl rfl rfl fun n hn => by cases hn
      intro n hn
      exact kept_remove rfl ⟨k, c, hc, howns _ _ ho, hcarries⟩ hn
  | done m => cases he

omit [DecidableEq υ] in
/-- A step that only concerns the channels. -/
theorem channels (hs : AckInv s) {channels : List (Channel υ)}
    (hflows : Flows s { s with channels := channels }) : AckInv { s with channels := channels } := by
  have hst : Keeps s { s with channels := channels } :=
    ⟨hflows, fun _ _ => id, fun _ => id, fun _ => .inl⟩
  exact ⟨hflows.orderly hs.orderly, fun i h hh => hst.backed (hs.handlers i h hh),
    fun m hm => hst.inHand (hs.deleting m hm), fun m hm => hst.kept (hs.acked m hm)⟩

omit [DecidableEq υ] in
theorem forward (hs : AckInv s) {written : Bool} (hguard : s.Delivers (.forward i written))
    (he : s.forward i written = some t) : AckInv t := by
  unfold Server.forward at he
  split at he
  · rename_i frame frames out hc
    cases he
    cases written with
    | true =>
      refine hs.channels (.set hc ?_ rfl)
      cases hclose : frame.isClose with
      | true => simpa [hclose] using Channel.onward_written frame frames out
      | false => simpa [hclose] using Channel.onward_written frame frames out
    | false =>
      have hflushed := hguard.resolve_left Bool.false_ne_true
      have honward : Channel.Onward ⟨frame :: frames, .running, out⟩ ⟨frames, .stopped, out⟩ :=
        Channel.onward_of_flushed (hflushed _ hc) rfl fun f hf => List.mem_cons_of_mem frame hf
      exact hs.channels (.set hc honward rfl)
  · cases he

omit [DecidableEq υ] in
theorem release (hs : AckInv s) (he : s.release i = some t) : AckInv t := by
  unfold Server.release at he
  split at he
  · rename_i frames out hc
    cases he
    have hnone := (hs.orderly i _ hc).live (by rintro (h | h) <;> cases h)
    have honward : Channel.Onward ⟨frames, .stopped, out⟩ ⟨[], .closed, out⟩ :=
      Channel.onward_of_flushed hnone rfl fun f hf => absurd hf List.not_mem_nil
    exact hs.channels (.set hc honward rfl)
  · cases he

theorem expire (hs : AckInv s) (he : s.step (.expire m) = some t) : AckInv t := by
  simp only [Server.step] at he
  split at he
  · cases he
    have hst : Keeps s { s.remove m with expired := s.expired ++ [m] } := by
      refine ⟨.of_eq rfl, fun _ _ => id, List.subset_append_left _ _, ?_⟩
      intro n hn
      by_cases hnm : n = m
      · subst hnm
        exact .inr (.inl (List.mem_append_right _ (List.mem_singleton_self n)))
      · exact .inl (mem_remove_of_ne hn hnm)
    exact ⟨hst.flows.orderly hs.orderly, fun i h hh => hst.backed (hs.handlers i h hh),
      fun m hm => hst.inHand (hs.deleting m hm), fun m hm => hst.kept (hs.acked m hm)⟩
  · cases he

theorem connect (hs : AckInv s) (he : s.step (.connect user) = some t) : AckInv t := by
  have howns : ∀ u k, s.Owns u k → t.Owns u k := fun u k hk => hk.step he
  cases he
  have hflows : Flows s { s with
      handlers := s.handlers ++ [⟨user, .inserted (s.registry user)⟩]
      channels := s.channels ++ [⟨[], .waiting, []⟩]
      registry := Function.update s.registry user (some s.handlers.length) } := by
    constructor
    · intro ho i c hc
      rcases getElem?_concat_cases hc with ⟨-, rfl⟩ | hc
      · exact ⟨fun f hf => absurd hf List.not_mem_nil, fun _ f hf => absurd hf List.not_mem_nil⟩
      · exact ho i c hc
    · intro i c hc
      exact ⟨c, by rw [List.getElem?_append_left (lt_length_of_getElem? hc), hc], fun _ => id⟩
  have hst : Keeps s _ := ⟨hflows, howns, fun _ => id, fun _ => .inl⟩
  refine ⟨hflows.orderly hs.orderly, ?_, fun m hm => hst.inHand (hs.deleting m hm),
    fun m hm => hst.kept (hs.acked m hm)⟩
  intro i h hh
  rcases getElem?_concat_cases hh with ⟨-, rfl⟩ | hh
  · trivial
  · exact hst.backed (hs.handlers i h hh)

end AckInv

omit [DecidableEq υ] in
theorem ackInv_start : AckInv (Server.start : Server υ) where
  orderly _ _ h := by cases h
  handlers _ _ h := by cases h
  deleting _ h := by cases h
  acked _ h := by cases h

theorem AckInv.step (hs : AckInv s) (hl : Ledger s) {a : Action υ} (hguard : s.Delivers a)
    (he : s.step a = some t) : AckInv t := by
  cases a with
  | connect user => exact hs.connect he
  | run i input =>
    obtain ⟨h, hh, he⟩ := Option.bind_eq_some_iff.mp he
    exact hs.advance hl hh hguard he
  | forward i written => exact hs.forward hguard he
  | release i => exact hs.release he
  | redeliver j deleted =>
    obtain ⟨task, ht, he⟩ := Option.bind_eq_some_iff.mp he
    exact hs.redeliver hl ht hguard he
  | expire m => exact hs.expire he

/-- As long as pushes and the ends of forward tasks cut nothing off, no acknowledged
message is lost. -/
theorem acked_safe (h : Server.machine.Reach Server.Delivers s) : ∀ m ∈ s.acked, s.Safe m := by
  have hinv : AckInv s := by
    refine h.invariant_of (fun t ht => ledger_of_reach ht) ?_ ?_
    · rintro _ rfl
      exact ackInv_start
    · intro s a t hl hs hguard he
      exact hs.step hl hguard he
  intro m hm
  exact hinv.safe (hinv.acked m hm)

section concrete

/-- Nothing fetched, acks take effect, publishes are stored. -/
def Input.quiet : Input Bool where
  available := 0
  removed := true
  event := none
  isContact := true
  publish := .stored
  sentAt := ""

/-- A `send` frame for `recipient`. -/
def Input.send (recipient : Bool) : Input Bool :=
  { Input.quiet with event := some (.send (some recipient) (some "")) }

/-- Connection `i` gets through its drain and reads. -/
def Action.opens (i : ℕ) : List (Action Bool) :=
  [.run i .quiet, .run i .quiet, .run i .quiet]

/-- Connection `i` reads a `send` frame, goes through its path and acks. -/
def Action.sends (i : ℕ) (recipient : Bool) : List (Action Bool) :=
  [.run i (.send recipient), .run i .quiet, .run i .quiet, .run i .quiet]

/-- The client of connection `i` is gone, and its task ends. -/
def Action.closes (i : ℕ) : List (Action Bool) :=
  [.run i .quiet, .run i .quiet, .run i .quiet]

/-- A message goes into the channel of a recipient who disconnects before it is written. -/
theorem acked_lost : ¬ ∀ s : Server Bool, Server.machine.Reach Machine.anyStep s →
    ∀ m ∈ s.acked, s.Safe m := by
  intro hall
  have hrun : ∃ s : Server Bool, Server.machine.Reach Machine.anyStep s ∧
      (s.acked.any fun m => (s.queue m.recipient).isEmpty && s.expired.isEmpty &&
        s.channels.all fun c => c.written.isEmpty &&
          (!decide c.live || c.frames.all fun f => !f.isMessage)) = true :=
    Machine.Reach.of_execIf (.connect true :: .connect false ::
      (Action.opens 0 ++ Action.opens 1 ++ Action.sends 1 true ++ Action.closes 0)) rfl (by decide)
  obtain ⟨s, hs, hp⟩ := hrun
  obtain ⟨m, hm, hp⟩ := List.any_eq_true.mp hp
  simp only [Bool.and_eq_true, List.isEmpty_iff, List.all_eq_true, Bool.or_eq_true,
    Bool.not_eq_true', decide_eq_false_iff_not] at hp
  obtain ⟨⟨hqueue, hexpired⟩, hchannels⟩ := hp
  rcases hall s hs m hm with h | h | ⟨i, c, hc, -, h⟩
  · rw [hqueue] at h
    cases h
  · rw [hexpired] at h
    cases h
  · obtain ⟨hwritten, hlive⟩ := hchannels c (List.mem_of_getElem? hc)
    rcases h with h | ⟨hl, h⟩
    · rw [hwritten] at h
      cases h
    · rcases hlive with hlive | hlive
      · exact hlive hl
      · cases hlive _ (List.takeWhile_subset _ h)

/-- A message is pushed into the channel of its recipient, acknowledged and written. -/
theorem acked_safe_first : ∃ s : Server Bool, (∃ m ∈ s.acked, ∃ c ∈ s.channels,
    Frame.text (.message m) ∈ c.written) ∧ ∀ m ∈ s.acked, s.Safe m := by
  have hrun : ∃ s : Server Bool, Server.machine.Reach Server.Delivers s ∧
      (s.acked.any fun m => s.channels.any fun c =>
        decide (Frame.text (.message m) ∈ c.written)) = true :=
    Machine.Reach.of_execIf (.connect true :: .connect false ::
      (Action.opens 0 ++ Action.opens 1 ++ Action.sends 1 true ++ [.forward 0 true])) rfl (by decide)
  obtain ⟨s, hs, hp⟩ := hrun
  simp only [List.any_eq_true, decide_eq_true_eq] at hp
  exact ⟨s, hp, acked_safe hs⟩

end concrete

end Epistl.Relay
