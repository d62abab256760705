import Epistl.Relay.Ownership
import Epistl.Runs.Recurrence
import Mathlib.Data.List.Induction

/-! # The `Close` of a displaced connection

An insert returns the connection it displaces, and the task of the new connection then pushes
a `Close` 4002 into the channel of the old one. In every run there is at most one such push
into a channel, and none that no insert asked for.
-/
namespace Epistl.Relay
variable {υ : Type} [DecidableEq υ] {s t u : Server υ} {i j n : ℕ} {user : υ} {a : Action υ}
  {as : List (Action υ)}

/-- In the run `as` an insert returned connection `i`. -/
def Server.Displaced (as : List (Action υ)) (i : ℕ) : Prop :=
  ∃ before user after t, as = before ++ .connect user :: after ∧
    Server.machine.exec Server.start before = some t ∧ t.registry user = some i

/-- The step of a task whose insert returned connection `i` puts a `Close` 4002 behind the
frames of channel `i`; a channel whose receiver was dropped takes no frame. -/
structure Server.PushesClose (s : Server υ) (a : Action υ) (t : Server υ) (i : ℕ) : Prop where
  follows : ∃ (j : ℕ) (input : Input υ) (h : Handler υ), a = .run j input ∧
    s.handlers[j]? = some h ∧ h.stage = .inserted (some i)
  channel : ∃ c d : Channel υ, s.channels[i]? = some c ∧ t.channels[i]? = some d ∧
    d.forward = c.forward ∧ d.written = c.written ∧
      d.frames = if c.forward = .closed then c.frames
        else c.frames ++ [.close 4002 "replaced by a new connection"]

/-- Step `n` of the run `as` pushes a `Close` into channel `i`. -/
def Server.ClosedAt (as : List (Action υ)) (n i : ℕ) : Prop :=
  ∃ a s t, as[n]? = some a ∧ Server.machine.exec Server.start (as.take n) = some s ∧
    s.step a = some t ∧ s.PushesClose a t i

/-- Connection `i` has run its `remove_if_current`. -/
def Server.Left (s : Server υ) (i : ℕ) : Prop :=
  ∃ h, s.handlers[i]? = some h ∧ h.stage.cleanedUp = true

/-- What holds of the registry after the run `as`. -/
structure Server.Owned (as : List (Action υ)) (s : Server υ) : Prop where
  /-- the entry of a user names the connection inserted last, until that one cleans up -/
  registered : ∀ (user : υ) (i : ℕ), s.registry user = some i ↔
    s.Owns user i ∧ (∀ j, s.Owns user j → j ≤ i) ∧ ¬ s.Left i
  /-- a cleanup leaves the entries of other connections alone -/
  stale : ∀ (i : ℕ) (h : Handler υ) (input : Input υ) (t : Server υ), s.handlers[i]? = some h →
    h.stage = .leaving → s.step (.run i input) = some t → ∀ user j, j ≠ i →
      (t.registry user = some j ↔ s.registry user = some j)
  /-- at most one step of the run pushes a `Close` into a channel -/
  once : ∀ i m n, Server.ClosedAt as m i → Server.ClosedAt as n i → m = n
  /-- a channel and its transport hold at most one `Close`, and none without a displacement -/
  counted : ∀ (i : ℕ) (c : Channel υ), s.channels[i]? = some c →
    c.closes ≤ 1 ∧ (¬ Server.Displaced as i → c.closes = 0)
  asked : ∀ i n, Server.ClosedAt as n i → Server.Displaced as i
  /-- once every push after an insert has run -/
  displaced : (∀ h ∈ s.handlers, h.stage.displaces = none) →
    ∀ i, Server.Displaced as i → ∃ n, Server.ClosedAt as n i

/-- An insert returns an earlier connection. -/
def Roster.Prior (r : Roster υ) : Prop :=
  ∀ (j : ℕ) (h : Handler υ) (i : ℕ), r.handlers[j]? = some h → h.stage.displaces = some i → i < j

theorem Roster.Prior.step {r q : Roster υ} (hp : r.Prior) (hr : RosterInv r) (he : r.Step a q) :
    q.Prior := by
  intro j h i hj hd
  cases he with
  | still => exact hp j h i hj hd
  | connect =>
    rcases getElem?_concat_cases hj with ⟨rfl, rfl⟩ | hj
    · exact hr.lt_length hd
    · exact hp j h i hj hd
  | follow => exact hp j h i (displaces_set_cases rfl hj hd).2 hd
  | move _ _ hto => exact hp j h i (displaces_set_cases hto hj hd).2 hd
  | leave => exact hp j h i (displaces_set_cases rfl hj hd).2 hd

omit [DecidableEq υ] in
/-- The push after an insert reaches the channel of the connection that was returned. -/
theorem pushesClose_of_inserted {input : Input υ} {h : Handler υ} {c : Channel υ}
    (hh : s.handlers[j]? = some h) (hstage : h.stage = .inserted (some i))
    (hc : s.channels[i]? = some c) (hij : i ≠ j) :
    s.PushesClose (.run j input) (((s.closePrevious (some i)).startForward j).enter j user .fetching)
      i where
  follows := ⟨j, input, h, rfl, hh, hstage⟩
  channel := by
    have hd : (((s.closePrevious (some i)).startForward j).enter j user .fetching).channels[i]? =
        some (c.pushed .replaced) := by
      simp only [Server.enter, Server.startForward, Server.closePrevious, Server.push,
        List.getElem?_modify, hc]
      simp [Ne.symm hij, Channel.pushed]
    refine ⟨c, c.pushed .replaced, hc, hd, ?_⟩
    unfold Channel.pushed
    split
    · exact ⟨rfl, rfl, rfl⟩
    · exact ⟨rfl, rfl, rfl⟩

/-- The step after an insert. -/
theorem step_inserted {input : Input υ} {h : Handler υ} {previous : Option ℕ}
    (hh : s.handlers[j]? = some h) (hstage : h.stage = .inserted previous)
    (he : s.step (.run j input) = some t) :
    t = ((s.closePrevious previous).startForward j).enter j h.user .fetching := by
  obtain ⟨g, hg, he⟩ := Option.bind_eq_some_iff.mp he
  cases hh.symm.trans hg
  rw [hstage] at he
  exact (Option.some.inj he).symm

/-- What a step adds to the log of the connections that were sent a `Close`. -/
theorem mem_replaced_step (hl : Ledger s) (hr : RosterInv s.roster) (hp : s.roster.Prior)
    (he : s.step a = some t) : i ∈ t.replaced ↔ i ∈ s.replaced ∨ s.PushesClose a t i := by
  have hstep := Server.step_roster he
  have hold : ∀ q : Roster υ, s.roster.Step a q → i ∈ s.replaced → i ∈ q.replaced := by
    intro q hq hi
    cases hq with
    | follow => exact List.mem_append_left _ hi
    | _ => exact hi
  constructor
  · intro hi
    generalize hq : t.roster = q at hstep
    have hi : i ∈ q.replaced := hq ▸ hi
    cases hstep with
    | @follow j input h previous hh hstage =>
      rcases List.mem_append.mp hi with hi | hi
      · exact .inl hi
      · obtain rfl : previous = some i := Option.mem_toList.mp hi
        have hdisplaces : h.stage.displaces = some i := by rw [hstage]; rfl
        have hlt : i < s.channels.length := hl.length ▸ (hr.closing i (.inr ⟨j, h, hh, hdisplaces⟩)).1
        have hij : i < j := hp j h i hh hdisplaces
        refine .inr ?_
        rw [step_inserted hh hstage he]
        exact pushesClose_of_inserted hh hstage (List.getElem?_eq_getElem hlt) (Nat.ne_of_lt hij)
    | _ => exact .inl hi
  · rintro (hi | hi)
    · exact hold _ hstep hi
    · obtain ⟨j, input, h, rfl, hh, hstage⟩ := hi.follows
      rw [step_inserted hh hstage he]
      exact List.mem_append_right _ (List.mem_singleton_self i)

/-- The pushes of a run that was continued by a step. -/
theorem closedAt_concat (hs : Server.machine.exec Server.start as = some s)
    (he : s.step a = some t) : Server.ClosedAt (as ++ [a]) n i ↔
      Server.ClosedAt as n i ∨ n = as.length ∧ s.PushesClose a t i := by
  constructor
  · rintro ⟨b, u, v, hb, hu, hv, hpush⟩
    rcases getElem?_concat_cases hb with ⟨rfl, rfl⟩ | hb
    · rw [List.take_left] at hu
      cases hs.symm.trans hu
      cases he.symm.trans hv
      exact .inr ⟨rfl, hpush⟩
    · rw [List.take_append_of_le_length (Nat.le_of_lt (lt_length_of_getElem? hb))] at hu
      exact .inl ⟨b, u, v, hb, hu, hv, hpush⟩
  · rintro (⟨b, u, v, hb, hu, hv, hpush⟩ | ⟨rfl, hpush⟩)
    · have hlt := lt_length_of_getElem? hb
      refine ⟨b, u, v, ?_, ?_, hv, hpush⟩
      · rw [List.getElem?_append_left hlt, hb]
      · rw [List.take_append_of_le_length (Nat.le_of_lt hlt), hu]
    · refine ⟨a, s, t, List.getElem?_concat_length, ?_, he, hpush⟩
      rw [List.take_left, hs]

theorem closedAt_lt (h : Server.ClosedAt as n i) : n < as.length := by
  obtain ⟨a, s, t, ha, -⟩ := h
  exact lt_length_of_getElem? ha

/-- The log names the channels into which a `Close` was pushed, each once. -/
structure Logged (as : List (Action υ)) (s : Server υ) : Prop where
  prior : s.roster.Prior
  mem : ∀ i, i ∈ s.replaced ↔ ∃ n, Server.ClosedAt as n i
  once : ∀ i m n, Server.ClosedAt as m i → Server.ClosedAt as n i → m = n

theorem Logged.concat (hs : Logged as s) (hexec : Server.machine.exec Server.start as = some s)
    (hl : Ledger s) (hr : RosterInv s.roster) (he : s.step a = some t) : Logged (as ++ [a]) t := by
  have hfresh {i : ℕ} (hpush : s.PushesClose a t i) : ∀ n, ¬ Server.ClosedAt as n i := by
    intro n hn
    obtain ⟨j, input, h, -, hh, hstage⟩ := hpush.follows
    have hdisplaces : h.stage.displaces = some i := by rw [hstage]; rfl
    exact (hr.pending j h i hh hdisplaces).1 ((hs.mem i).mpr ⟨n, hn⟩)
  constructor
  · exact hs.prior.step hr (Server.step_roster he)
  · intro i
    rw [mem_replaced_step hl hr hs.prior he, hs.mem]
    constructor
    · rintro (⟨n, hn⟩ | hpush)
      · exact ⟨n, (closedAt_concat hexec he).mpr (.inl hn)⟩
      · exact ⟨as.length, (closedAt_concat hexec he).mpr (.inr ⟨rfl, hpush⟩)⟩
    · rintro ⟨n, hn⟩
      rcases (closedAt_concat hexec he).mp hn with hn | ⟨-, hpush⟩
      · exact .inl ⟨n, hn⟩
      · exact .inr hpush
  · intro i m n hm hn
    rcases (closedAt_concat hexec he).mp hm with hm | ⟨rfl, hpush⟩
    · rcases (closedAt_concat hexec he).mp hn with hn | ⟨-, hpush⟩
      · exact hs.once i m n hm hn
      · exact absurd hm (hfresh hpush m)
    · rcases (closedAt_concat hexec he).mp hn with hn | ⟨rfl, -⟩
      · exact absurd hn (hfresh hpush n)
      · rfl

theorem displaced_concat (hs : Server.machine.exec Server.start as = some s) :
    Server.Displaced (as ++ [a]) i ↔
      Server.Displaced as i ∨ ∃ user, a = .connect user ∧ s.registry user = some i := by
  constructor
  · rintro ⟨before, user, after, t, has, ht, hi⟩
    rcases concat_eq_append_cons has with ⟨-, rfl, ha⟩ | ⟨after, -, has⟩
    · cases hs.symm.trans ht
      exact .inr ⟨user, ha.symm, hi⟩
    · exact .inl ⟨before, user, after, t, has, ht, hi⟩
  · rintro (⟨before, user, after, t, has, ht, hi⟩ | ⟨user, rfl, hi⟩)
    · exact ⟨before, user, after ++ [a], t, by rw [has]; simp, ht, hi⟩
    · exact ⟨as, user, [], s, rfl, hs, hi⟩

/-- The invariants along a run, with the connections that an insert returned. -/
theorem roster_of_exec (h : Server.machine.exec Server.start as = some s) :
    RosterInv s.roster ∧ s.Counted ∧ (∀ i, s.roster.Closing i ↔ Server.Displaced as i) ∧
      Logged as s := by
  induction as using List.reverseRecOn generalizing s with
  | nil =>
    cases h
    refine ⟨rosterInv_start, ?_, fun i => ⟨?_, ?_⟩, ?_⟩
    · intro i c hc
      cases hc
    · rintro (hi | ⟨j, g, hj, -⟩)
      · cases hi
      · cases hj
    · rintro ⟨before, user, after, t, has, -⟩
      simp at has
    · have hnone (i n : ℕ) : ¬ Server.ClosedAt ([] : List (Action υ)) n i := fun hn =>
        absurd (closedAt_lt hn) (Nat.not_lt_zero n)
      constructor
      · intro j g i hj
        cases hj
      · refine fun i => ⟨?_, ?_⟩
        · intro hi
          cases hi
        · rintro ⟨n, hn⟩
          exact absurd hn (hnone i n)
      · intro i m n hm
        exact absurd hm (hnone i m)
  | append_singleton as a ih =>
    obtain ⟨t, ht, he⟩ := Machine.exec_concat.mp h
    obtain ⟨hroster, hcounted, hclosing, hlogged⟩ := ih ht
    have hledger : Ledger t := ledger_of_reach ((Machine.Reach.init rfl).exec ht)
    have hstep : t.roster.Step a s.roster := Server.step_roster he
    refine ⟨hroster.step hstep, hcounted.step he, fun i => ?_, hlogged.concat ht hledger hroster he⟩
    rw [RosterInv.closing_iff hstep, hclosing, displaced_concat ht]
    rfl

omit [DecidableEq υ] in
theorem holds_iff : Holds s.handlers user i ↔
    s.Owns user i ∧ (∀ j, s.Owns user j → j ≤ i) ∧ ¬ s.Left i := by
  constructor
  · rintro ⟨⟨h, hh, hu, hclean⟩, hlast⟩
    refine ⟨⟨h, hh, hu⟩, ?_, ?_⟩
    · rintro j ⟨g, hg, hgu⟩
      exact hlast j g hg hgu
    · rintro ⟨g, hg, hleft⟩
      cases hh.symm.trans hg
      rw [hclean] at hleft
      cases hleft
  · rintro ⟨⟨h, hh, hu⟩, hlast, hleft⟩
    refine ⟨⟨h, hh, hu, ?_⟩, fun j g hg hgu => hlast j ⟨g, hg, hgu⟩⟩
    exact Bool.eq_false_iff.mpr fun hclean => hleft ⟨h, hh, hclean⟩

/-- After every run, the registry names the connections inserted last, and the others were
sent their `Close`. -/
theorem ownership (h : Server.machine.exec (Server.start : Server υ) as = some s) :
    s.Owned as := by
  obtain ⟨hroster, hcounted, hclosing, hlogged⟩ := roster_of_exec h
  constructor
  · intro user i
    rw [← holds_iff]
    exact hroster.registered user i
  · intro i g input t hg hstage he user j hne
    obtain ⟨k, hk, he⟩ := Option.bind_eq_some_iff.mp he
    cases hg.symm.trans hk
    rw [hstage] at he
    cases he
    simp only [Server.enter, Server.removeIfCurrent]
    split
    · rename_i hi
      by_cases hu : user = g.user
      · subst hu
        rw [Function.update_self, hi]
        simp [Ne.symm hne]
      · rw [Function.update_of_ne hu]
    · rfl
  · exact hlogged.once
  · intro i c hc
    refine ⟨(hcounted i c hc).trans (List.nodup_iff_count_le_one.mp hroster.once i), fun hnot => ?_⟩
    have hlog : i ∉ s.replaced := fun hi => hnot ((hclosing i).mp (.inl hi))
    have hle := hcounted i c hc
    rw [List.count_eq_zero.mpr hlog] at hle
    exact Nat.le_zero.mp hle
  · intro i n hn
    exact (hclosing i).mp (.inl ((hlogged.mem i).mpr ⟨n, hn⟩))
  · intro hnone i hi
    rcases (hclosing i).mpr hi with hi | ⟨j, g, hj, hd⟩
    · exact (hlogged.mem i).mp hi
    · rw [hnone g (List.mem_of_getElem? hj)] at hd
      cases hd

/-- Two connections of one user, the first of which is replaced and cleans up. -/
theorem ownership_replaced : ∃ s : Server Bool, Server.machine.exec Server.start
    (.connect true :: .connect true :: (Action.opens 0 ++ Action.opens 1 ++ Action.closes 0)) = some s ∧
      s.Owned (.connect true :: .connect true ::
        (Action.opens 0 ++ Action.opens 1 ++ Action.closes 0)) :=
  ⟨_, rfl, ownership rfl⟩

end Epistl.Relay
