import Epistl.Relay.Ownership

/-! # Connections that stay

A registered connection stays until its client hangs up or another connection of its user
takes its place: its task does not leave its loop, its forward task does not stop and nothing
that was put into its channel is lost.
-/
namespace Epistl.Relay
variable {υ : Type} {s t : Server υ} {i j : ℕ} {user : υ} {h : Handler υ} {stage : Stage υ}

namespace Stage

/-- The task is on its way out. -/
def leaves : Stage υ → Bool
  | leaving => true
  | dropping => true
  | gone => true
  | _ => false

/-- From the insert to the end of the drain. -/
def drains : Stage υ → Bool
  | inserted _ => true
  | fetching => true
  | draining _ => true
  | acking _ _ => true
  | _ => false

end Stage

namespace Server

structure Alive (s : Server υ) (user : υ) (i : ℕ) : Prop where
  handler : ∃ h, s.handlers[i]? = some h ∧ h.user = user ∧ h.stage.leaves = false
  channel : ∃ c, s.channels[i]? = some c ∧ c.live

/-- A live channel stays live, with what was put into it. -/
def KeepsLive (s t : Server υ) (i : ℕ) : Prop :=
  ∀ c : Channel υ, s.channels[i]? = some c → c.live →
    ∃ d : Channel υ, t.channels[i]? = some d ∧ d.live ∧ c.content <+: d.content

theorem KeepsLive.of_eq (h : t.channels = s.channels) : KeepsLive s t i := by
  intro c hc hlive
  exact ⟨c, h ▸ hc, hlive, List.prefix_rfl⟩

theorem KeepsLive.trans {u : Server υ} (hst : KeepsLive s t i) (htu : KeepsLive t u i) :
    KeepsLive s u i := by
  intro c hc hlive
  obtain ⟨d, hd, hlive, hcd⟩ := hst c hc hlive
  obtain ⟨e, he, hlive, hde⟩ := htu d hd hlive
  exact ⟨e, he, hlive, hcd.trans hde⟩

theorem KeepsLive.modify {f : Channel υ → Channel υ} (h : t.channels = s.channels.modify j f)
    (hf : i = j → ∀ c : Channel υ, c.live → (f c).live ∧ c.content <+: (f c).content) :
    KeepsLive s t i := by
  intro c hc hlive
  refine ⟨if j = i then f c else c, ?_, ?_⟩
  · rw [h, List.getElem?_modify, hc]
    rfl
  · split
    · rename_i hji
      exact hf hji.symm c hlive
    · exact ⟨hlive, List.prefix_rfl⟩

theorem KeepsLive.push (frame : Frame υ) : KeepsLive s (s.push j frame) i := by
  refine .modify rfl fun _ c hlive => ?_
  split
  · exact ⟨hlive, List.prefix_rfl⟩
  · refine ⟨hlive, ?_⟩
    rw [Channel.content, Channel.content, ← List.append_assoc]
    exact List.prefix_append _ _

theorem KeepsLive.closePrevious (previous : Option ℕ) :
    KeepsLive s (s.closePrevious previous) i := by
  cases previous with
  | none => exact .of_eq rfl
  | some j => exact .trans (t := s.push j .replaced) (.push .replaced) (.of_eq rfl)

theorem accepts_of_live {c : Channel υ} (hc : s.channels[i]? = some c) (hlive : c.live) :
    s.accepts i = true := by
  unfold accepts
  rw [hc]
  rcases hlive with h | h <;> simp [h]

variable [DecidableEq υ] {input : Input υ}

theorem keepsLive_advance (hstage : i = j → stage ≠ .dropping)
    (he : s.advance j user input stage = some t) : KeepsLive s t i := by
  unfold advance at he
  split at he
  · rename_i previous
    cases he
    refine .trans (.closePrevious previous) (.modify rfl fun _ c _ => ?_)
    exact ⟨.inr rfl, List.prefix_rfl⟩
  · cases he
    exact .of_eq rfl
  · cases he
    exact .of_eq rfl
  · rename_i m rest
    split at he <;> cases he
    · exact .trans (t := s.push j (.text (.message m))) (.push _) (.of_eq rfl)
    · exact .of_eq rfl
  · cases he
    cases input.removed <;> exact .of_eq rfl
  · split at he
    · cases he
      exact .of_eq rfl
    · split at he <;> cases he <;> exact .of_eq rfl
  · split at he <;> cases he <;> exact .of_eq rfl
  · rename_i m k
    split at he <;> cases he
    · exact .trans (t := s.push k (.text (.message m))) (.push _) (.of_eq rfl)
    · exact .of_eq rfl
  · split at he <;> cases he <;> exact .of_eq rfl
  · rename_i m
    split at he <;> cases he
    · exact .trans (t := s.push j (.text (.ack m.recipient))) (.push _) (.of_eq rfl)
    · exact .of_eq rfl
  · rename_i r
    split at he <;> cases he
    · exact .trans (t := s.push j (.text (.error r))) (.push _) (.of_eq rfl)
    · exact .of_eq rfl
  · cases he
    exact .of_eq rfl
  · cases he
    refine .modify rfl fun hij => ?_
    exact absurd rfl (hstage hij)
  · cases he

/-- The forward task of connection `i` ends only with a `Close` or a failed write, and its
channel only when its task is gone. -/
theorem keepsLive_step {a : Action υ} (he : s.step a = some t)
    (hhandler : ∀ h, s.handlers[i]? = some h → h.stage.leaves = false)
    (hwritten : ∀ w, a = .forward i w → w = true)
    (hclose : ∀ c : Channel υ, s.channels[i]? = some c → ∀ f ∈ c.frames, f.isClose = false) :
    KeepsLive s t i := by
  cases a with
  | connect user =>
    cases he
    intro c hc hlive
    exact ⟨c, (List.getElem?_append_left (lt_length_of_getElem? hc)).trans hc, hlive,
      List.prefix_rfl⟩
  | run j input =>
    obtain ⟨h, hh, he⟩ := Option.bind_eq_some_iff.mp he
    refine keepsLive_advance (fun hij => ?_) he
    subst hij
    intro hstage
    have := hhandler h hh
    rw [hstage] at this
    cases this
  | forward j written =>
    simp only [step, forward] at he
    split at he
    · rename_i frame frames out hj
      cases he
      intro c hc hlive
      by_cases hij : i = j
      · subst hij
        cases hj.symm.trans hc
        obtain rfl := hwritten written rfl
        refine ⟨_, List.getElem?_set_self (lt_length_of_getElem? hj), .inr ?_, ?_⟩
        · simp [hclose _ hj frame List.mem_cons_self]
        · simp [Channel.content]
      · exact ⟨c, (List.getElem?_set_ne (Ne.symm hij)).trans hc, hlive, List.prefix_rfl⟩
    · cases he
  | release j =>
    simp only [step, release] at he
    split at he
    · rename_i frames out hj
      cases he
      intro c hc hlive
      have hij : i ≠ j := by
        rintro rfl
        cases hj.symm.trans hc
        rcases hlive with h | h <;> cases h
      exact ⟨c, (List.getElem?_set_ne (Ne.symm hij)).trans hc, hlive, List.prefix_rfl⟩
    · cases he
  | redeliver j deleted =>
    obtain ⟨task, -, he⟩ := Option.bind_eq_some_iff.mp he
    unfold redeliver at he
    split at he
    · split at he <;> cases he <;> exact .of_eq rfl
    · rename_i m k
      split at he <;> cases he
      · exact .trans (t := s.push k (.text (.message m))) (.push _) (.of_eq rfl)
      · exact .of_eq rfl
    · cases he
      cases deleted <;> exact .of_eq rfl
    · cases he
  | expire m =>
    simp only [step] at he
    split at he <;> cases he
    exact .of_eq rfl

/-- Where the task of connection `i` goes on; it leaves only when its client's stream ends or
its channel is gone. -/
theorem stage_advance (he : s.advance i user input stage = some t) :
    ∃ next, t.handlers = s.handlers.set i ⟨user, next⟩ ∧
      (stage.drains = false → next.drains = false) ∧
      (stage.leaves = false → s.accepts i = true → (stage = .reading → input.event ≠ none) →
        next.leaves = false) := by
  cases stage with
  | inserted previous =>
    cases he
    refine ⟨.fetching, ?_, id, fun h _ _ => h⟩
    cases previous <;> rfl
  | fetching =>
    cases he
    exact ⟨_, rfl, id, fun _ _ _ => rfl⟩
  | draining batch =>
    cases batch with
    | nil =>
      cases he
      exact ⟨_, rfl, fun _ => rfl, fun _ _ _ => rfl⟩
    | cons m rest =>
      simp only [advance] at he
      split at he <;> cases he
      · exact ⟨_, rfl, id, fun _ _ _ => rfl⟩
      · exact ⟨_, rfl, fun _ => rfl, fun _ _ _ => rfl⟩
  | acking m rest =>
    cases he
    refine ⟨.draining rest, ?_, id, fun _ _ _ => rfl⟩
    cases input.removed <;> rfl
  | reading =>
    simp only [advance] at he
    split at he
    · rename_i hevent
      cases he
      exact ⟨_, rfl, fun _ => rfl, fun _ _ h => absurd hevent (h rfl)⟩
    · split at he <;> cases he <;> exact ⟨_, rfl, fun _ => rfl, fun _ _ _ => rfl⟩
  | looking m =>
    simp only [advance] at he
    split at he <;> cases he <;> exact ⟨_, rfl, fun _ => rfl, fun _ _ _ => rfl⟩
  | relaying m k =>
    simp only [advance] at he
    split at he <;> cases he <;> exact ⟨_, rfl, fun _ => rfl, fun _ _ _ => rfl⟩
  | publishing m =>
    simp only [advance] at he
    split at he <;> cases he <;> exact ⟨_, rfl, fun _ => rfl, fun _ _ _ => rfl⟩
  | acknowledging m =>
    simp only [advance] at he
    split at he <;> cases he
    · exact ⟨_, rfl, fun _ => rfl, fun _ _ _ => rfl⟩
    · rename_i hclosed
      exact ⟨_, rfl, fun _ => rfl, fun _ hopen _ => absurd hopen hclosed⟩
  | refusing r =>
    simp only [advance] at he
    split at he <;> cases he
    · exact ⟨_, rfl, fun _ => rfl, fun _ _ _ => rfl⟩
    · rename_i hclosed
      exact ⟨_, rfl, fun _ => rfl, fun _ hopen _ => absurd hopen hclosed⟩
  | leaving =>
    cases he
    exact ⟨_, rfl, fun _ => rfl, fun h _ _ => (by cases h)⟩
  | dropping =>
    cases he
    exact ⟨_, rfl, fun _ => rfl, fun h _ _ => (by cases h)⟩
  | gone => cases he

/-- What a step makes of the task of connection `i`. -/
theorem handler_step {a : Action υ} (he : s.step a = some t) (hh : s.handlers[i]? = some h) :
    ∃ stage, t.handlers[i]? = some ⟨h.user, stage⟩ ∧
      (h.stage.drains = false → stage.drains = false) ∧
      (h.stage.leaves = false → s.accepts i = true →
        (∀ input, a = .run i input → h.stage = .reading → input.event ≠ none) →
          stage.leaves = false) := by
  have hstill (hhandlers : t.handlers = s.handlers) : ∃ stage,
      t.handlers[i]? = some ⟨h.user, stage⟩ ∧
      (h.stage.drains = false → stage.drains = false) ∧
      (h.stage.leaves = false → s.accepts i = true →
        (∀ input, a = .run i input → h.stage = .reading → input.event ≠ none) →
          stage.leaves = false) :=
    ⟨h.stage, hhandlers ▸ hh, id, fun h _ _ => h⟩
  cases a with
  | connect user =>
    cases he
    exact ⟨h.stage, (List.getElem?_append_left (lt_length_of_getElem? hh)).trans hh, id,
      fun h _ _ => h⟩
  | run j input =>
    obtain ⟨g, hg, he⟩ := Option.bind_eq_some_iff.mp he
    obtain ⟨stage, ht, hdrains, hleaves⟩ := stage_advance he
    by_cases hij : i = j
    · subst hij
      cases hh.symm.trans hg
      refine ⟨stage, ?_, hdrains, fun h1 h2 h3 => hleaves h1 h2 (h3 input rfl)⟩
      rw [ht, List.getElem?_set_self (lt_length_of_getElem? hh)]
    · refine ⟨h.stage, ?_, id, fun h _ _ => h⟩
      rw [ht, List.getElem?_set_ne (Ne.symm hij)]
      exact hh
  | forward j written =>
    simp only [step, forward] at he
    split at he <;> cases he
    exact hstill rfl
  | release j =>
    simp only [step, release] at he
    split at he <;> cases he
    exact hstill rfl
  | redeliver j deleted =>
    obtain ⟨task, -, he⟩ := Option.bind_eq_some_iff.mp he
    unfold redeliver at he
    split at he
    · split at he <;> cases he <;> exact hstill rfl
    · split at he <;> cases he <;> exact hstill rfl
    · cases he
      cases deleted <;> exact hstill rfl
    · cases he
  | expire m =>
    simp only [step] at he
    split at he <;> cases he
    exact hstill rfl

/-- A connection that was there before the step, or the one that was inserted. -/
theorem handler_step_cases {a : Action υ} (he : s.step a = some t) (hh : t.handlers[i]? = some h) :
    i = s.handlers.length ∧ a = .connect h.user ∨
      ∃ g, s.handlers[i]? = some g ∧ g.user = h.user := by
  by_cases hlt : i < s.handlers.length
  · have hg : s.handlers[i]? = some s.handlers[i] := List.getElem?_eq_getElem hlt
    obtain ⟨stage, ht, -⟩ := handler_step he hg
    cases hh.symm.trans ht
    exact .inr ⟨_, hg, rfl⟩
  · have hh : t.roster.handlers[i]? = some h := hh
    have hlt : ¬ i < s.roster.handlers.length := hlt
    have hstep := step_roster he
    generalize t.roster = q at hstep hh
    cases hstep with
    | still => exact absurd (lt_length_of_getElem? hh) hlt
    | connect =>
      rcases getElem?_concat_cases hh with ⟨hi, rfl⟩ | hh
      · exact .inl ⟨hi, rfl⟩
      · exact absurd (lt_length_of_getElem? hh) hlt
    | follow => exact absurd (by simpa using lt_length_of_getElem? hh) hlt
    | move => exact absurd (by simpa using lt_length_of_getElem? hh) hlt
    | leave => exact absurd (by simpa using lt_length_of_getElem? hh) hlt

omit [DecidableEq υ] in
/-- No `Close` was put into the channel of a registered connection. -/
theorem closes_eq_zero (hr : RosterInv s.roster) (hcounted : s.Counted)
    (hi : s.registry user = some i) {c : Channel υ} (hc : s.channels[i]? = some c) :
    ∀ f ∈ c.frames ++ c.written, f.isClose = false := by
  have hnot : i ∉ s.replaced := fun hmem => (hr.closing i (.inl hmem)).2 user hi
  have hzero : c.closes = 0 := by
    have := hcounted i c hc
    rw [List.count_eq_zero_of_not_mem hnot] at this
    exact Nat.le_zero.mp this
  intro f hf
  exact Bool.eq_false_iff.mpr fun hclose => (List.countP_eq_zero.mp hzero) f hf hclose

/-- A registered connection stays alive and registered, and loses no frame. -/
theorem Alive.step (hs : s.Alive user i) (hr : RosterInv s.roster) (hcounted : s.Counted)
    (hi : s.registry user = some i) {a : Action υ} (he : s.step a = some t)
    (hother : a ≠ .connect user)
    (hread : ∀ input h, a = .run i input → s.handlers[i]? = some h → h.stage = .reading →
      input.event ≠ none)
    (hwritten : ∀ w, a = .forward i w → w = true) :
    t.Alive user i ∧ t.registry user = some i ∧ KeepsLive s t i := by
  obtain ⟨h, hh, rfl, hstays⟩ := hs.handler
  obtain ⟨c, hc, hlive⟩ := hs.channel
  have hopen := accepts_of_live hc hlive
  obtain ⟨stage, ht, -, hstage⟩ := handler_step he hh
  have hstage := hstage hstays hopen fun input ha hreading => hread input h ha hh hreading
  have hkeeps : KeepsLive s t i := by
    refine keepsLive_step he ?_ hwritten ?_
    · intro g hg
      cases hh.symm.trans hg
      exact hstays
    · intro d hd f hf
      exact closes_eq_zero hr hcounted hi hd f (List.mem_append_left _ hf)
  have hchannel : ∃ d, t.channels[i]? = some d ∧ d.live := by
    obtain ⟨d, hd, hlive, -⟩ := hkeeps c hc hlive
    exact ⟨d, hd, hlive⟩
  refine ⟨⟨⟨_, ht, rfl, hstage⟩, hchannel⟩, ?_, hkeeps⟩
  have hlast := ((hr.registered h.user i).mp hi).2
  refine ((hr.step (step_roster he)).registered h.user i).mpr ⟨⟨_, ht, rfl, ?_⟩, ?_⟩
  · cases stage <;> first | rfl | cases hstage
  · intro j g hj hg
    rcases handler_step_cases he hj with ⟨-, ha⟩ | ⟨g', hg', hu⟩
    · rw [hg] at ha
      exact absurd ha hother
    · exact hlast j g' hg' (hu.trans hg)

end Server

end Epistl.Relay
