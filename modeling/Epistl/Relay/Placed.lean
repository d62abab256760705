import Epistl.Relay.Once

/-! # Where pushed messages are

A push puts a message frame into one channel, and nothing else does. While no message is pushed
twice, none is in two channels or twice in one. What was written to a transport stays written.
-/
namespace Epistl.Relay
variable {υ : Type} {s t u : Server υ} {i j : ℕ} {m : Message υ}

def Frame.message? : Frame υ → Option (Message υ)
  | .text (.message m) => some m
  | _ => none

/-- The messages that were written from a channel or are in it. -/
def Channel.messages (c : Channel υ) : List (Message υ) :=
  (c.written ++ c.frames).filterMap Frame.message?

namespace Server

/-- The messages that went into channel `i` and were not dropped with it. -/
def placed (s : Server υ) (i : ℕ) : List (Message υ) :=
  (s.channels[i]?.map Channel.messages).getD []

/-- What was written to the transport of connection `i`. -/
def writtenTo (s : Server υ) (i : ℕ) : List (Frame υ) :=
  (s.channels[i]?.map Channel.written).getD []

end Server

/-- What a push puts into channel `i`. -/
def pushedInto (i : ℕ) : Option (ℕ × Message υ) → List (Message υ)
  | some (j, m) => if j = i then [m] else []
  | none => []

/-- What a step does to the channels. -/
structure Moves (s t : Server υ) (push : Option (ℕ × Message υ)) : Prop where
  pushed : t.pushed = s.pushed ++ (push.map Prod.snd).toList
  placed (i : ℕ) : (t.placed i).Sublist (s.placed i ++ pushedInto i push)
  written (i : ℕ) : s.writtenTo i <+: t.writtenTo i

namespace Moves
variable {pushes : Option (ℕ × Message υ)} {d : Channel υ}

/-- Channel by channel, where a channel that is new holds no message. -/
theorem of_channels (hpushed : t.pushed = s.pushed ++ (pushes.map Prod.snd).toList)
    (hold : ∀ (i : ℕ) (c : Channel υ), s.channels[i]? = some c → ∃ d : Channel υ,
      t.channels[i]? = some d ∧ d.messages.Sublist (c.messages ++ pushedInto i pushes) ∧
        c.written <+: d.written)
    (hnew : ∀ (i : ℕ) (d : Channel υ), s.channels[i]? = none → t.channels[i]? = some d →
      d.messages = []) : Moves s t pushes where
  pushed := hpushed
  placed i := by
    rw [Server.placed, Server.placed]
    cases hc : s.channels[i]? with
    | none =>
      cases hd : t.channels[i]? with
      | none => simp
      | some d => simp [hnew i d hc hd]
    | some c =>
      obtain ⟨d, hd, hsub, -⟩ := hold i c hc
      rw [hd]
      exact hsub
  written i := by
    rw [Server.writtenTo, Server.writtenTo]
    cases hc : s.channels[i]? with
    | none => simp
    | some c =>
      obtain ⟨d, hd, -, hprefix⟩ := hold i c hc
      rw [hd]
      exact hprefix

theorem of_eq (hpushed : t.pushed = s.pushed) (h : t.channels = s.channels) :
    Moves s t none where
  pushed := by simpa using hpushed
  placed i := by simp [Server.placed, h, pushedInto]
  written i := by simp [Server.writtenTo, h]

theorem trans (hst : Moves s t none) (htu : Moves t u pushes) : Moves s u pushes where
  pushed := by simpa [hst.pushed] using htu.pushed
  placed i := by
    have hfirst := hst.placed i
    rw [pushedInto, List.append_nil] at hfirst
    exact (htu.placed i).trans (hfirst.append_right _)
  written i := (hst.written i).trans (htu.written i)

/-- One channel changes. -/
theorem modify {f : Channel υ → Channel υ}
    (hpushed : t.pushed = s.pushed ++ (pushes.map Prod.snd).toList)
    (h : t.channels = s.channels.modify j f)
    (hmessages : ∀ c : Channel υ, (f c).messages.Sublist (c.messages ++ pushedInto j pushes))
    (hwritten : ∀ c : Channel υ, c.written <+: (f c).written) : Moves s t pushes := by
  refine of_channels hpushed (fun i c hc => ?_) fun i d hc hd => ?_
  · refine ⟨if j = i then f c else c, ?_, ?_⟩
    · rw [h, List.getElem?_modify, hc]
      rfl
    · split
      · rename_i hij
        subst hij
        exact ⟨hmessages c, hwritten c⟩
      · exact ⟨List.sublist_append_left _ _, List.prefix_rfl⟩
  · rw [h, List.getElem?_modify, hc] at hd
    cases hd

theorem set {c : Channel υ} (hpushed : t.pushed = s.pushed) (hc : s.channels[j]? = some c)
    (h : t.channels = s.channels.set j d) (hmessages : d.messages.Sublist c.messages)
    (hwritten : c.written <+: d.written) : Moves s t none := by
  have hlt := (List.getElem?_eq_some_iff.mp hc).1
  refine of_channels (by simpa using hpushed) (fun i c' hc' => ?_) fun i d' hc' hd' => ?_
  · by_cases hij : j = i
    · subst hij
      cases hc.symm.trans hc'
      refine ⟨d, by rw [h, List.getElem?_set_self hlt], ?_, hwritten⟩
      exact hmessages.trans (List.sublist_append_left _ _)
    · exact ⟨c', by rw [h, List.getElem?_set_ne hij, hc'], List.sublist_append_left _ _,
        List.prefix_rfl⟩
  · rw [h] at hd'
    rcases getElem?_set_cases hd' with ⟨rfl, -⟩ | ⟨-, hd'⟩
    · cases hc.symm.trans hc'
    · cases hc'.symm.trans hd'

/-- A forward task is started or stopped. -/
theorem still {f : Forward → Forward}
    (h : t.channels = s.channels.modify j fun c => { c with forward := f c.forward })
    (hpushed : t.pushed = s.pushed) : Moves s t none :=
  modify (by simpa using hpushed) h (fun _ => List.sublist_append_left _ _)
    fun _ => List.prefix_rfl

/-- A frame is pushed. -/
theorem pushFrame {frame : Frame υ} (hframe : frame.message? = pushes.map Prod.snd)
    (hinto : ∀ p ∈ pushes, p.1 = j)
    (hpushed : t.pushed = s.pushed ++ (pushes.map Prod.snd).toList)
    (h : t.channels = (s.push j frame).channels) : Moves s t pushes := by
  refine modify hpushed h (fun c => ?_) fun c => ?_
  · split
    · exact List.sublist_append_left _ _
    · have hmessages : ([frame].filterMap Frame.message?) = pushedInto j pushes := by
        cases pushes with
        | none => simp [pushedInto, hframe]
        | some p =>
          obtain rfl := hinto p rfl
          simp [pushedInto, hframe]
      have hframes : Channel.messages { c with frames := c.frames ++ [frame] } =
          c.messages ++ pushedInto j pushes := by
        rw [Channel.messages, Channel.messages, ← hmessages, ← List.filterMap_append,
          List.append_assoc]
      rw [hframes]
  · split <;> exact List.prefix_rfl

theorem push {frame : Frame υ} (hframe : frame.message? = none) (hpushed : t.pushed = s.pushed)
    (h : t.channels = (s.push j frame).channels) : Moves s t none :=
  pushFrame hframe (fun p hp => by cases hp) (by simpa using hpushed) h

theorem deliver (hpushed : t.pushed = s.pushed ++ [m])
    (h : t.channels = (s.push j (.text (.message m))).channels) : Moves s t (some (j, m)) :=
  pushFrame rfl (fun p hp => by cases hp; rfl) hpushed h

theorem closePrevious (previous : Option ℕ) : Moves s (s.closePrevious previous) none := by
  cases previous with
  | none => exact .of_eq rfl rfl
  | some j => exact Moves.push (j := j) rfl rfl rfl

end Moves

namespace Server
variable [DecidableEq υ] {user : υ} {stage : Stage υ} {input : Input υ}

/-- What is pushed goes to a connection of its recipient. -/
def Aimed (s : Server υ) (push : Option (ℕ × Message υ)) : Prop :=
  ∀ j m, push = some (j, m) → s.Owns m.recipient j

theorem advance_moves (hl : Ledger s) {h : Handler υ} (hh : s.handlers[i]? = some h)
    (he : s.advance i h.user input h.stage = some t) :
    ∃ push, Moves s t push ∧ s.Aimed push := by
  have hnone : s.Aimed none := fun j m hm => by cases hm
  have hquiet (hmoves : Moves s t none) : ∃ push, Moves s t push ∧ s.Aimed push :=
    ⟨none, hmoves, hnone⟩
  have hfetched := hl.fetched i h hh
  have hrelaying := hl.relaying i h
  unfold advance at he
  split at he
  · rename_i previous hstage
    cases he
    exact hquiet ((Moves.closePrevious previous).trans (.still (f := fun _ => .running) rfl rfl))
  · cases he
    exact hquiet (.of_eq rfl rfl)
  · cases he
    exact hquiet (.of_eq rfl rfl)
  · rename_i m rest hstage
    split at he <;> cases he
    · refine ⟨_, .deliver rfl rfl, fun j n hpush => ?_⟩
      cases hpush
      rw [hstage] at hfetched
      exact ⟨h, hh, (hfetched m List.mem_cons_self).1.symm⟩
    · exact hquiet (.of_eq rfl rfl)
  · cases he
    exact hquiet (.of_eq (by split <;> rfl) (by split <;> rfl))
  · split at he
    · cases he
      exact hquiet (.of_eq rfl rfl)
    · split at he <;> cases he <;> exact hquiet (.of_eq rfl rfl)
  · split at he <;> cases he <;> exact hquiet (.of_eq rfl rfl)
  · rename_i m j hstage
    split at he <;> cases he
    · refine ⟨_, .deliver rfl rfl, fun k n hpush => ?_⟩
      cases hpush
      exact hrelaying m j hh hstage
    · exact hquiet (.of_eq rfl rfl)
  · split at he <;> cases he <;> exact hquiet (.of_eq rfl rfl)
  · rename_i m hstage
    split at he <;> cases he
    · exact hquiet (.push rfl rfl rfl)
    · exact hquiet (.of_eq rfl rfl)
  · rename_i r hstage
    split at he <;> cases he
    · exact hquiet (.push rfl rfl rfl)
    · exact hquiet (.of_eq rfl rfl)
  · cases he
    exact hquiet (.of_eq rfl rfl)
  · cases he
    exact hquiet (.still (f := fun forward => if forward = .closed then .closed else .stopped)
      rfl rfl)
  · cases he

theorem redeliver_moves (hl : Ledger s) {task : Task υ} (ht : s.tasks[j]? = some task)
    {deleted : Bool} (he : s.redeliver j deleted task = some t) :
    ∃ push, Moves s t push ∧ s.Aimed push := by
  have hquiet (hmoves : Moves s t none) : ∃ push, Moves s t push ∧ s.Aimed push :=
    ⟨none, hmoves, fun j m hm => by cases hm⟩
  cases task with
  | looking m =>
    simp only [redeliver] at he
    split at he <;> cases he <;> exact hquiet (.of_eq rfl rfl)
  | relaying m i =>
    simp only [redeliver] at he
    split at he <;> cases he
    · refine ⟨_, .deliver rfl rfl, fun k n hpush => ?_⟩
      cases hpush
      exact hl.redelivering m i (List.mem_of_getElem? ht)
    · exact hquiet (.of_eq rfl rfl)
  | deleting m =>
    cases he
    cases deleted <;> exact hquiet (.of_eq rfl rfl)
  | done m => cases he

theorem step_moves (hl : Ledger s) {a : Action υ} (he : s.step a = some t) :
    ∃ push, Moves s t push ∧ s.Aimed push := by
  have hquiet (hmoves : Moves s t none) : ∃ push, Moves s t push ∧ s.Aimed push :=
    ⟨none, hmoves, fun j m hm => by cases hm⟩
  cases a with
  | connect user =>
    cases he
    refine hquiet (.of_channels (by simp) (fun i c hc => ⟨c, ?_, ?_, ?_⟩) fun i d hc hd => ?_)
    · rw [List.getElem?_append_left (lt_length_of_getElem? hc), hc]
    · exact List.sublist_append_left _ _
    · exact List.prefix_rfl
    · rcases getElem?_concat_cases hd with ⟨-, rfl⟩ | hd
      · rfl
      · cases hc.symm.trans hd
  | run i input =>
    obtain ⟨h, hh, he⟩ := Option.bind_eq_some_iff.mp he
    exact advance_moves hl hh he
  | forward i written =>
    simp only [step, forward] at he
    split at he
    · rename_i frame frames out hc
      cases he
      refine hquiet (.set rfl hc rfl ?_ ?_)
      · cases written
        · exact ((List.sublist_cons_self frame frames).append_left out).filterMap _
        · simp [Channel.messages]
      · cases written
        · exact List.prefix_rfl
        · exact List.prefix_append _ _
    · cases he
  | release i =>
    simp only [step, release] at he
    split at he
    · rename_i frames out hc
      cases he
      refine hquiet (.set rfl hc rfl ?_ List.prefix_rfl)
      exact ((List.nil_sublist frames).append_left out).filterMap _
    · cases he
  | redeliver j deleted =>
    obtain ⟨task, ht, he⟩ := Option.bind_eq_some_iff.mp he
    exact redeliver_moves hl ht he
  | expire m =>
    simp only [step] at he
    split at he <;> cases he
    exact hquiet (.of_eq rfl rfl)

omit [DecidableEq υ] in
theorem mem_placed {push : Option (ℕ × Message υ)} (he : Moves s t push)
    (hm : m ∈ t.placed i) : m ∈ s.placed i ∨ push = some (i, m) := by
  rcases List.mem_append.mp ((he.placed i).subset hm) with hm | hm
  · exact .inl hm
  · right
    cases push with
    | none => cases hm
    | some p =>
      obtain ⟨j, n⟩ := p
      rw [pushedInto] at hm
      split at hm
      · rename_i hij
        rw [hij, List.mem_singleton.mp hm]
      · cases hm

omit [DecidableEq υ] in
/-- What is in the channels was pushed. -/
theorem placed_subset {push : Option (ℕ × Message υ)} (h : ∀ i, s.placed i ⊆ s.pushed)
    (he : Moves s t push) (i : ℕ) : t.placed i ⊆ t.pushed := by
  intro m hm
  rw [he.pushed]
  rcases mem_placed he hm with hm | hpush
  · exact List.mem_append_left _ (h i hm)
  · rw [hpush]
    exact List.mem_append_right _ (List.mem_singleton_self m)

/-- What is in a channel is for its user. -/
theorem placed_owns {push : Option (ℕ × Message υ)} {a : Action υ}
    (h : ∀ i, ∀ m ∈ s.placed i, s.Owns m.recipient i) (he : s.step a = some t)
    (hmoves : Moves s t push) (haimed : s.Aimed push) :
    ∀ i, ∀ m ∈ t.placed i, t.Owns m.recipient i := by
  intro i m hm
  rcases mem_placed hmoves hm with hm | hpush
  · exact (h i m hm).step he
  · exact (haimed i m hpush).step he

/-- No message is in two places. -/
structure Placed (s : Server υ) : Prop where
  pushed (i : ℕ) : s.placed i ⊆ s.pushed
  nodup (i : ℕ) : (s.placed i).Nodup
  apart {i j : ℕ} {m : Message υ} : m ∈ s.placed i → m ∈ s.placed j → i = j

omit [DecidableEq υ] in
theorem Placed.step {push : Option (ℕ × Message υ)} (h : s.Placed) (he : Moves s t push)
    (hnodup : t.pushed.Nodup) : t.Placed := by
  -- what is pushed now was not pushed before
  have hnew {i : ℕ} {m : Message υ} (hpush : push = some (i, m)) : m ∉ s.pushed := by
    have hlog := he.pushed ▸ hnodup
    rw [hpush] at hlog
    exact fun hm => List.disjoint_of_nodup_append hlog hm (List.mem_singleton_self m)
  refine ⟨placed_subset h.pushed he, fun i => ?_, fun {i j m} hi hj => ?_⟩
  · refine List.Nodup.sublist (he.placed i) (List.nodup_append'.mpr ⟨h.nodup i, ?_, ?_⟩)
    · cases push with
      | none => exact List.nodup_nil
      | some p =>
        obtain ⟨j, n⟩ := p
        rw [pushedInto]
        split
        · exact List.nodup_singleton n
        · exact List.nodup_nil
    · intro m hm hm'
      cases push with
      | none => cases hm'
      | some p =>
        obtain ⟨j, n⟩ := p
        rw [pushedInto] at hm'
        split at hm'
        · cases List.mem_singleton.mp hm'
          exact hnew rfl (h.pushed i hm)
        · cases hm'
  · rcases mem_placed he hi with hi | hi
    · rcases mem_placed he hj with hj | hj
      · exact h.apart hi hj
      · exact absurd (h.pushed i hi) (hnew hj)
    · rcases mem_placed he hj with hj | hj
      · exact absurd (h.pushed j hj) (hnew hi)
      · exact congrArg Prod.fst (Option.some.inj (hi.symm.trans hj))

theorem onceInv_of_reach (h : machine.Reach Exclusive s) : OnceInv s.post := by
  refine h.invariant_of (I := fun s : Server υ => OnceInv s.post)
    (fun t ht => ledger_of_reach ht) ?_ ?_
  · rintro _ rfl
    exact onceInv_start
  · intro s a t hl hs hguard he
    exact hs.step hl hguard (step_post he)

theorem placed_of_reach (h : machine.Reach Exclusive s) : s.Placed := by
  induction h with
  | init h =>
    cases h
    exact ⟨fun i => by simp [placed, start], fun i => by simp [placed, start],
      fun hm => by simp [placed, start] at hm⟩
  | step hr hg he ih =>
    obtain ⟨push, hmoves, -⟩ := step_moves (ledger_of_reach hr) he
    exact ih.step hmoves (onceInv_of_reach (.step hr hg he)).pushed

end Server
end Epistl.Relay
