import Epistl.Relay.Acknowledged
import Epistl.Runs.Progress

/-! # What is acknowledged can be delivered

A recipient who connects is sent what is queued for them, a batch for each connection, and
the forward task of a channel writes what is in it. So an acknowledged message that has not
expired can be written to a transport of its recipient, whatever has happened before, and
without a message being lost on the way.
-/
namespace Epistl.Relay
variable {υ : Type} {s t : Server υ} {i : ℕ} {user : υ} {m : Message υ} {batch : List (Message υ)}
  {frames out : List (Frame υ)}

/-- The message was written to a transport of its recipient. -/
def Server.Written (s : Server υ) (m : Message υ) : Prop :=
  ∃ i c, s.channels[i]? = some c ∧ s.Owns m.recipient i ∧ .text (.message m) ∈ c.written

namespace Server

theorem accepts_running (hc : s.channels[i]? = some ⟨frames, .running, out⟩) :
    s.accepts i = true := by
  rw [accepts, hc]
  rfl

theorem channels_deliver (hc : s.channels[i]? = some ⟨frames, .running, out⟩) :
    (s.deliver i m).channels[i]? = some ⟨frames ++ [.text (.message m)], .running, out⟩ := by
  rw [deliver, push, List.getElem?_modify_eq, hc]
  rfl

/-- A channel waits until the task of its connection has gone on. -/
def Begun (s : Server υ) : Prop :=
  ∀ (i : ℕ) (c : Channel υ), s.channels[i]? = some c → c.forward = .waiting →
    ∃ user previous, s.handlers[i]? = some ⟨user, .inserted previous⟩

/-- A channel that waits has waited before. -/
def Waited (s t : Server υ) (i : ℕ) : Prop :=
  ∀ d : Channel υ, t.channels[i]? = some d → d.forward = .waiting →
    ∃ c : Channel υ, s.channels[i]? = some c ∧ c.forward = .waiting

namespace Waited
variable {u : Server υ} {j : ℕ}

theorem of_eq (h : t.channels = s.channels) : Waited s t i := by
  intro d hd hw
  exact ⟨d, h ▸ hd, hw⟩

theorem trans (hst : Waited s t i) (htu : Waited t u i) : Waited s u i := by
  intro d hd hw
  obtain ⟨c, hc, hw⟩ := htu d hd hw
  exact hst c hc hw

theorem modify {f : Channel υ → Channel υ} (h : t.channels = s.channels.modify j f)
    (hf : ∀ c : Channel υ, (f c).forward = .waiting → c.forward = .waiting) : Waited s t i := by
  intro d hd hw
  rw [h, List.getElem?_modify] at hd
  obtain ⟨c, hc, rfl⟩ := Option.map_eq_some_iff.mp hd
  refine ⟨c, hc, ?_⟩
  split at hw
  · exact hf c hw
  · exact hw

theorem set {d : Channel υ} (h : t.channels = s.channels.set j d) (hd : d.forward ≠ .waiting) :
    Waited s t i := by
  intro e he hw
  rw [h] at he
  rcases getElem?_set_cases he with ⟨-, rfl⟩ | ⟨-, he⟩
  · exact absurd hw hd
  · exact ⟨e, he, hw⟩

theorem push (frame : Frame υ) : Waited s (s.push j frame) i := by
  refine .modify rfl fun c hw => ?_
  split at hw <;> exact hw

theorem closePrevious (previous : Option ℕ) : Waited s (s.closePrevious previous) i := by
  cases previous with
  | none => exact .of_eq rfl
  | some j => exact .trans (t := s.push j .replaced) (.push .replaced) (.of_eq rfl)

end Waited

variable [DecidableEq υ]

/-- The forward task writes the frames at the head of its channel. -/
theorem leads_forward (pre post : List (Frame υ))
    (hc : s.channels[i]? = some ⟨pre ++ post, .running, out⟩)
    (hopen : ∀ f ∈ pre, f.isClose = false) : ∃ t, machine.Leads Delivers s t ∧
      t.channels[i]? = some ⟨post, .running, out ++ pre⟩ ∧ t.handlers = s.handlers ∧
      t.queue = s.queue := by
  induction pre generalizing s out with
  | nil => exact ⟨s, .refl s, by rw [List.append_nil]; exact hc, rfl, rfl⟩
  | cons f pre ih =>
    have hrunning : f.isClose = false := hopen f List.mem_cons_self
    have he : s.step (.forward i true) = some { s with
        channels := s.channels.set i ⟨pre ++ post, .running, out ++ [f]⟩ } := by
      simp only [step, forward, hc, List.cons_append, hrunning]
      rfl
    obtain ⟨t, hst, ht, hhandlers, hqueue⟩ := ih
      (s := { s with channels := s.channels.set i ⟨pre ++ post, .running, out ++ [f]⟩ })
      (List.getElem?_set_self (List.getElem?_eq_some_iff.mp hc).1)
      fun g hg => hopen g (List.mem_cons_of_mem f hg)
    have hfirst : machine.Leads Delivers s _ :=
      Machine.Leads.single (a := Action.forward i true) (Or.inl rfl) he
    refine ⟨t, hfirst.trans hst, ?_, hhandlers, hqueue⟩
    rw [ht, List.append_assoc]
    rfl

/-- Acks take effect. -/
def fetches (available : ℕ) : Input υ where
  available := available
  removed := true
  event := none
  isContact := true
  publish := .stored
  sentAt := ""

omit [DecidableEq υ] in
/-- A connection's task that neither pushes a message nor ends loses nothing. -/
theorem delivers_quiet {input : Input υ} {h : Handler υ} (hh : s.handlers[i]? = some h)
    (htarget : h.stage.target i = none) (hstage : h.stage ≠ .dropping) :
    s.Delivers (.run i input) := by
  intro g hg
  cases hh.symm.trans hg
  refine ⟨fun j hj => ?_, fun hdropping => absurd hdropping hstage⟩
  rw [htarget] at hj
  cases hj

/-- Connection `i` is in its drain, and its channel carries messages only. -/
structure Drains (s : Server υ) (user : υ) (i : ℕ) (batch : List (Message υ))
    (frames out : List (Frame υ)) : Prop where
  handler : s.handlers[i]? = some ⟨user, .draining batch⟩
  channel : s.channels[i]? = some ⟨frames, .running, out⟩
  opens : ∀ f ∈ frames, f.isClose = false

/-- One message of the batch is pushed and acked. -/
theorem Drains.next (h : s.Drains user i (m :: batch) frames out) (hm : m.recipient = user) :
    ∃ t, machine.Leads Delivers s t ∧
      t.Drains user i batch (frames ++ [.text (.message m)]) out ∧
      t.queue user = (s.queue user).filter fun q => decide (q ≠ m) := by
  have hlt := (List.getElem?_eq_some_iff.mp h.handler).1
  have hpush : s.step (.run i (fetches 0)) =
      some ((s.deliver i m).enter i user (.acking m batch)) := by
    rw [step, h.handler]
    exact if_pos (accepts_running h.channel)
  have htakes : s.Delivers (.run i (fetches 0)) := by
    intro g hg
    cases h.handler.symm.trans hg
    refine ⟨fun j hj c hc => ?_, fun hdropping => by cases hdropping⟩
    cases hj
    cases h.channel.symm.trans hc
    exact .inr ⟨.inr rfl, h.opens⟩
  have hhandler : ((s.deliver i m).enter i user (.acking m batch)).handlers[i]? =
      some ⟨user, .acking m batch⟩ := List.getElem?_set_self hlt
  have hack : ((s.deliver i m).enter i user (.acking m batch)).step (.run i (fetches 0)) =
      some ((((s.deliver i m).enter i user (.acking m batch)).remove m).enter i user
        (.draining batch)) := by
    rw [step, hhandler]
    rfl
  have hquiet : ((s.deliver i m).enter i user (.acking m batch)).Delivers (.run i (fetches 0)) :=
    delivers_quiet hhandler rfl (by simp)
  refine ⟨_, (Machine.Leads.single htakes hpush).trans (Machine.Leads.single hquiet hack), ?_, ?_⟩
  · refine ⟨List.getElem?_set_self (by simpa [enter, deliver, push, remove] using hlt),
      channels_deliver h.channel, fun f hf => ?_⟩
    rcases List.mem_append.mp hf with hf | hf
    · exact h.opens f hf
    · cases List.mem_singleton.mp hf
      rfl
  · subst hm
    exact Function.update_self _ _ _

/-- The whole batch is pushed, and leaves the queue. -/
theorem Drains.all (h : s.Drains user i batch frames out) (hm : ∀ m ∈ batch, m.recipient = user) :
    ∃ t, machine.Leads Delivers s t ∧
      t.Drains user i [] (frames ++ batch.map fun m => .text (.message m)) out ∧
      t.queue user = (s.queue user).filter fun q => decide (q ∉ batch) := by
  induction batch generalizing s frames with
  | nil =>
    refine ⟨s, .refl s, ?_, ?_⟩
    · simpa using h
    · simp
  | cons m batch ih =>
    obtain ⟨t, hst, ht, hqueue⟩ := h.next (hm m List.mem_cons_self)
    obtain ⟨u, htu, hu, hqueue'⟩ := ih ht fun n hn => hm n (List.mem_cons_of_mem m hn)
    refine ⟨u, hst.trans htu, ?_, ?_⟩
    · simpa using hu
    · rw [hqueue', hqueue, List.filter_filter]
      congr 1
      funext q
      simp [Bool.and_comm]

/-- A new connection of the user fetches a batch. -/
theorem leads_drains (hs : Ledger s) (user : υ) (available : ℕ) :
    ∃ t, machine.Leads Delivers s t ∧ t.Drains user s.handlers.length
      ((s.queue user).take (min available maxQueuedMessagesPerFetch)) [] [] ∧
      t.queue = s.queue := by
  let i := s.handlers.length
  let s1 : Server υ := { s with
    handlers := s.handlers ++ [⟨user, .inserted (s.registry user)⟩]
    channels := s.channels ++ [⟨[], .waiting, []⟩]
    registry := Function.update s.registry user (some i) }
  let s2 : Server υ := ((s1.closePrevious (s.registry user)).startForward i).enter i user .fetching
  have h1 : s1.handlers[i]? = some ⟨user, .inserted (s.registry user)⟩ :=
    List.getElem?_concat_length
  have he1 : s1.step (.run i (fetches 0)) = some s2 := by
    rw [step, h1]
    rfl
  have hprevious : (s1.closePrevious (s.registry user)).handlers = s1.handlers ∧
      (s1.closePrevious (s.registry user)).queue = s1.queue ∧
      (s1.closePrevious (s.registry user)).channels[i]? = some ⟨[], .waiting, []⟩ := by
    have hc : s1.channels[i]? = some ⟨[], .waiting, []⟩ := by
      rw [show i = s.channels.length from hs.length.symm]
      exact List.getElem?_concat_length
    cases hr : s.registry user with
    | none => exact ⟨rfl, rfl, hc⟩
    | some j =>
      obtain ⟨h, hj, -⟩ := hs.registry user j hr
      have hne : j ≠ i := Nat.ne_of_lt (List.getElem?_eq_some_iff.mp hj).1
      refine ⟨rfl, rfl, ?_⟩
      rw [closePrevious, push, List.getElem?_modify_ne _ _ hne]
      exact hc
  have h2 : s2.handlers[i]? = some ⟨user, .fetching⟩ := by
    refine List.getElem?_set_self ?_
    rw [startForward, hprevious.1]
    exact (List.getElem?_eq_some_iff.mp h1).1
  have hc2 : s2.channels[i]? = some ⟨[], .running, []⟩ := by
    simp only [s2, enter, startForward, List.getElem?_modify_eq, hprevious.2.2]
    rfl
  have hq2 : s2.queue = s.queue := hprevious.2.1
  have he2 : s2.step (.run i (fetches available)) = some (s2.enter i user (.draining
      ((s2.queue user).take (min available maxQueuedMessagesPerFetch)))) := by
    rw [step, h2]
    rfl
  have hquiet1 : s1.Delivers (.run i (fetches 0)) := delivers_quiet h1 rfl (by simp)
  have hquiet2 : s2.Delivers (.run i (fetches available)) := delivers_quiet h2 rfl (by simp)
  refine ⟨_, ((Machine.Leads.single (a := Action.connect user) trivial rfl).trans
    (Machine.Leads.single hquiet1 he1)).trans (Machine.Leads.single hquiet2 he2),
    ⟨?_, hc2, fun f hf => by cases hf⟩, hq2⟩
  rw [← hq2]
  exact List.getElem?_set_self (List.getElem?_eq_some_iff.mp h2).1

/-- A batch of what is queued is written to a new connection, and leaves the queue. -/
theorem leads_batch (hs : Ledger s) {user : υ} (hne : s.queue user ≠ []) :
    ∃ t, machine.Leads Delivers s t ∧ (t.queue user).length < (s.queue user).length ∧
      ∀ m ∈ s.queue user, t.Written m ∨ m ∈ t.queue user := by
  obtain ⟨t, hst, ht, hqueue⟩ := leads_drains hs user (s.queue user).length
  generalize hbatch : (s.queue user).take (min (s.queue user).length maxQueuedMessagesPerFetch) =
    batch at ht
  have hsub : batch ⊆ s.queue user := hbatch ▸ List.take_subset _ _
  have hrecipient : ∀ m ∈ s.queue user, m.recipient = user := fun m hm => (hs.queued user m hm).1
  obtain ⟨u, htu, hu, huqueue⟩ := ht.all fun m hm => hrecipient m (hsub hm)
  obtain ⟨v, huv, hv, hhandlers, hvqueue⟩ :=
    leads_forward (batch.map fun m => .text (.message m)) []
      (by simpa using hu.channel) (by simp [Frame.isClose])
  have hremoved : v.queue user = (s.queue user).filter fun q => decide (q ∉ batch) := by
    rw [hvqueue, huqueue, hqueue]
  refine ⟨v, (hst.trans htu).trans huv, ?_, fun m hm => ?_⟩
  · obtain ⟨m, rest, hcons⟩ := List.exists_cons_of_ne_nil hne
    have hm : m ∈ batch := by
      rw [← hbatch, hcons, List.length_cons, maxQueuedMessagesPerFetch, Nat.succ_min_succ]
      exact List.mem_cons_self
    rw [hremoved, List.length_filter_lt_length_iff_exists]
    exact ⟨m, hsub hm, by simpa using hm⟩
  · by_cases hin : m ∈ batch
    · refine .inl ⟨_, _, hv, ⟨_, hhandlers ▸ hu.handler, (hrecipient m hm).symm⟩, ?_⟩
      simpa using hin
    · refine .inr ?_
      rw [hremoved]
      exact List.mem_filter.mpr ⟨hm, by simpa using hin⟩

/-- What is queued can be written. -/
theorem queued_can {G : Server υ → Action υ → Prop} (hs : machine.Reach G s)
    (hG : ∀ s a, Delivers s a → G s a) (hm : m ∈ s.queue m.recipient) :
    machine.Can Delivers s (·.Written m) := by
  refine Machine.Can.of_variant (I := fun t => machine.Reach G t ∧ m ∈ t.queue m.recipient)
    (fun t => (t.queue m.recipient).length) ?_ ⟨hs, hm⟩
  rintro s ⟨hs, hm⟩
  obtain ⟨t, hst, hlt, ht⟩ := leads_batch (ledger_of_reach hs) (List.ne_nil_of_mem hm)
  refine ⟨t, hst, (ht m hm).imp id fun hmem => ⟨⟨?_, hmem⟩, hlt⟩⟩
  exact hs.leads (hst.mono hG)

theorem waited_advance {j : ℕ} {stage : Stage υ} {input : Input υ}
    (he : s.advance j user input stage = some t) : Waited s t i ∧
      ∀ previous, stage = .inserted previous → ∀ d : Channel υ, t.channels[j]? = some d →
        d.forward ≠ .waiting := by
  unfold advance at he
  split at he
  · rename_i previous
    cases he
    refine ⟨.trans (.closePrevious previous) (.modify rfl nofun), fun _ _ d hd => ?_⟩
    rw [show (((s.closePrevious previous).startForward j).enter j user .fetching).channels =
      (s.closePrevious previous).channels.modify j _ from rfl, List.getElem?_modify_eq] at hd
    obtain ⟨c, -, rfl⟩ := Option.map_eq_some_iff.mp hd
    exact nofun
  · cases he
    exact ⟨.of_eq rfl, nofun⟩
  · cases he
    exact ⟨.of_eq rfl, nofun⟩
  · rename_i m rest
    split at he <;> cases he
    · exact ⟨.trans (t := s.push j (.text (.message m))) (.push _) (.of_eq rfl), nofun⟩
    · exact ⟨.of_eq rfl, nofun⟩
  · cases he
    cases input.removed <;> exact ⟨.of_eq rfl, nofun⟩
  · split at he
    · cases he
      exact ⟨.of_eq rfl, nofun⟩
    · split at he <;> cases he <;> exact ⟨.of_eq rfl, nofun⟩
  · split at he <;> cases he <;> exact ⟨.of_eq rfl, nofun⟩
  · rename_i m k
    split at he <;> cases he
    · exact ⟨.trans (t := s.push k (.text (.message m))) (.push _) (.of_eq rfl), nofun⟩
    · exact ⟨.of_eq rfl, nofun⟩
  · split at he <;> cases he <;> exact ⟨.of_eq rfl, nofun⟩
  · rename_i m
    split at he <;> cases he
    · exact ⟨.trans (t := s.push j (.text (.ack m.recipient))) (.push _) (.of_eq rfl), nofun⟩
    · exact ⟨.of_eq rfl, nofun⟩
  · rename_i r
    split at he <;> cases he
    · exact ⟨.trans (t := s.push j (.text (.error r))) (.push _) (.of_eq rfl), nofun⟩
    · exact ⟨.of_eq rfl, nofun⟩
  · cases he
    exact ⟨.of_eq rfl, nofun⟩
  · cases he
    refine ⟨.modify rfl fun c hw => ?_, nofun⟩
    dsimp only at hw
    split at hw <;> cases hw
  · cases he

/-- The other actions leave the tasks of the connections alone. -/
theorem waited_step {a : Action υ} (he : s.step a = some t) (hconnect : ∀ user, a ≠ .connect user)
    (hrun : ∀ j input, a ≠ .run j input) : Waited s t i ∧ t.handlers = s.handlers := by
  cases a with
  | connect user => exact absurd rfl (hconnect user)
  | run j input => exact absurd rfl (hrun j input)
  | forward j written =>
    simp only [step, forward] at he
    split at he <;> cases he
    refine ⟨.set rfl ?_, rfl⟩
    dsimp only
    split <;> simp
  | release j =>
    simp only [step, release] at he
    split at he <;> cases he
    exact ⟨.set rfl (by simp), rfl⟩
  | redeliver j deleted =>
    obtain ⟨task, -, he⟩ := Option.bind_eq_some_iff.mp he
    unfold redeliver at he
    split at he
    · split at he <;> cases he <;> exact ⟨.of_eq rfl, rfl⟩
    · rename_i m k
      split at he <;> cases he
      · exact ⟨.trans (t := s.push k (.text (.message m))) (.push _) (.of_eq rfl), rfl⟩
      · exact ⟨.of_eq rfl, rfl⟩
    · cases he
      cases deleted <;> exact ⟨.of_eq rfl, rfl⟩
    · cases he
  | expire m =>
    simp only [step] at he
    split at he <;> cases he
    exact ⟨.of_eq rfl, rfl⟩

theorem Begun.step (hs : s.Begun) (hl : Ledger s) {a : Action υ} (he : s.step a = some t) :
    t.Begun := by
  intro i d hd hw
  cases a with
  | connect user =>
    cases he
    rcases getElem?_concat_cases hd with ⟨rfl, -⟩ | hd
    · refine ⟨user, s.registry user, ?_⟩
      rw [hl.length]
      exact List.getElem?_concat_length
    · obtain ⟨u, previous, hh⟩ := hs i d hd hw
      exact ⟨u, previous, (List.getElem?_append_left (lt_length_of_getElem? hh)).trans hh⟩
  | run j input =>
    obtain ⟨g, hg, he⟩ := Option.bind_eq_some_iff.mp he
    obtain ⟨hwaited, hbegins⟩ := waited_advance (i := i) he
    obtain ⟨c, hc, hcw⟩ := hwaited d hd hw
    obtain ⟨u, previous, hh⟩ := hs i c hc hcw
    obtain ⟨next, hnext⟩ := advance_handlers he
    have hij : i ≠ j := by
      rintro rfl
      cases hh.symm.trans hg
      exact hbegins previous rfl d hd hw
    refine ⟨u, previous, ?_⟩
    rw [hnext, List.getElem?_set_ne (Ne.symm hij)]
    exact hh
  | _ =>
    obtain ⟨hwaited, hhandlers⟩ := waited_step (i := i) he (by simp) (by simp)
    obtain ⟨c, hc, hcw⟩ := hwaited d hd hw
    rw [hhandlers]
    exact hs i c hc hcw

theorem begun_of_reach {G : Server υ → Action υ → Prop} (h : machine.Reach G s) : s.Begun := by
  refine h.invariant_of (fun t ht => ledger_of_reach ht) ?_ ?_
  · rintro _ rfl i c hc
    cases hc
  · intro s a t hl hs _ he
    exact hs.step hl he

/-- A running channel writes what it has ahead. -/
theorem running_can {ahead : List (Frame υ)} (behind : List (Frame υ))
    (hc : s.channels[i]? = some ⟨ahead ++ behind, .running, out⟩)
    (hopen : ∀ f ∈ ahead, f.isClose = false) (howns : s.Owns m.recipient i)
    (hm : .text (.message m) ∈ ahead) : machine.Can Delivers s (·.Written m) := by
  obtain ⟨t, hst, ht, hhandlers, -⟩ := leads_forward ahead behind hc hopen
  obtain ⟨h, hh, huser⟩ := howns
  exact ⟨t, hst, i, _, ht, ⟨h, hhandlers ▸ hh, huser⟩, List.mem_append_right _ hm⟩

omit [DecidableEq υ] in
/-- The `Close` for the previous connection can only come behind what is in a channel. -/
theorem channels_closePrevious (previous : Option ℕ) {c : Channel υ}
    (hc : s.channels[i]? = some c) (hwaiting : c.forward = .waiting) :
    ∃ more, (s.closePrevious previous).channels[i]? =
      some ⟨c.frames ++ more, .waiting, c.written⟩ := by
  obtain ⟨frames, forward, out⟩ := c
  cases hwaiting
  cases previous with
  | none =>
    refine ⟨[], ?_⟩
    rw [List.append_nil]
    exact hc
  | some j =>
    rw [closePrevious, push, List.getElem?_modify, hc]
    by_cases hij : j = i
    · exact ⟨[.replaced], by rw [hij]; simp⟩
    · exact ⟨[], by simp [hij]⟩

/-- What is in a channel ahead of a `Close` can be written. -/
theorem ahead_can {c : Channel υ} (hs : s.Begun) (hc : s.channels[i]? = some c)
    (howns : s.Owns m.recipient i) (hlive : c.live) (hm : .text (.message m) ∈ c.ahead) :
    machine.Can Delivers s (·.Written m) := by
  have hopen : ∀ f ∈ c.ahead, f.isClose = false := by
    intro f hf
    simpa using List.mem_takeWhile_imp hf
  have hframes : c.frames = c.ahead ++ c.behind := List.takeWhile_append_dropWhile.symm
  rcases hlive with hwaiting | hrunning
  · obtain ⟨user, previous, hh⟩ := hs i c hc hwaiting
    obtain ⟨more, hmore⟩ := channels_closePrevious previous hc hwaiting
    have he : s.step (.run i (fetches 0)) =
        some (((s.closePrevious previous).startForward i).enter i user .fetching) := by
      rw [step, hh]
      rfl
    have hquiet : s.Delivers (.run i (fetches 0)) := delivers_quiet hh rfl (by simp)
    have hrunning :
        (((s.closePrevious previous).startForward i).enter i user .fetching).channels[i]? =
        some ⟨c.ahead ++ (c.behind ++ more), .running, c.written⟩ := by
      simp only [enter, startForward, List.getElem?_modify_eq, hmore]
      rw [← List.append_assoc, ← hframes]
      rfl
    have howns : (((s.closePrevious previous).startForward i).enter i user .fetching).Owns
        m.recipient i := howns.step he
    exact .of_leads (.single hquiet he) (running_can _ hrunning hopen howns hm)
  · have hc : s.channels[i]? = some ⟨c.ahead ++ c.behind, .running, c.written⟩ := by
      rw [← hframes, ← hrunning]
      exact hc
    exact running_can c.behind hc hopen howns hm

theorem ackInv_of_reach (h : machine.Reach Delivers s) : AckInv s := by
  refine h.invariant_of (fun t ht => ledger_of_reach ht) ?_ ?_
  · rintro _ rfl
    exact ackInv_start
  · intro s a t hl hs hguard he
    exact hs.step hl hguard he

/-- In every run that loses nothing, an acknowledged message has expired or can still be written
to a transport of its recipient, by a continuation that loses nothing either. -/
theorem acked_can (h : machine.Reach Delivers s) (hm : m ∈ s.acked) :
    m ∈ s.expired ∨ machine.Can Delivers s (·.Written m) := by
  have hinv := ackInv_of_reach h
  rcases hinv.safe (hinv.acked m hm) with hqueued | hexpired |
    ⟨i, c, hc, howns, hwritten | ⟨hlive, hahead⟩⟩
  · exact .inr (queued_can h (fun _ _ => id) hqueued)
  · exact .inl hexpired
  · exact .inr ⟨s, .refl s, i, c, hc, howns, hwritten⟩
  · exact .inr (ahead_can (begun_of_reach h) hc howns hlive hahead)

/-- A message that was pushed and acknowledged, and is not written yet. -/
theorem acked_can_first : ∃ (s : Server Bool) (m : Message Bool), m ∈ s.acked ∧ m ∉ s.expired ∧
    m ∉ s.queue m.recipient ∧ (∀ c ∈ s.channels, Frame.text (.message m) ∉ c.written) ∧
    machine.Can Delivers s (·.Written m) := by
  have hrun : ∃ s : Server Bool, machine.Reach Delivers s ∧
      (s.acked.any fun m => s.expired.isEmpty && (s.queue m.recipient).isEmpty &&
        s.channels.all fun c => decide (Frame.text (.message m) ∉ c.written)) = true :=
    Machine.Reach.of_execIf (.connect true :: .connect false ::
      (Action.opens 0 ++ Action.opens 1 ++ Action.sends 1 true)) rfl (by decide)
  obtain ⟨s, hs, hp⟩ := hrun
  simp only [List.any_eq_true, Bool.and_eq_true, List.isEmpty_iff, List.all_eq_true,
    decide_eq_true_eq] at hp
  obtain ⟨m, hm, ⟨hexpired, hqueue⟩, hwritten⟩ := hp
  have hlive : m ∉ s.expired := by
    rw [hexpired]
    exact List.not_mem_nil
  refine ⟨s, m, hm, hlive, ?_, hwritten, (acked_can hs hm).resolve_left hlive⟩
  rw [hqueue]
  exact List.not_mem_nil

end Server

end Epistl.Relay
