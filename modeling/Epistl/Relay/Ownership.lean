import Epistl.Relay.Acknowledged

/-! # Who holds the registry entry

Connections are numbered in the order of their inserts. The entry of a user names the
connection that was inserted last until that connection cleans up, and no connection is
to be sent a second `Close`.
-/
namespace Epistl.Relay
variable {υ : Type} {s t : Server υ} {i j : ℕ} {user : υ} {h : Handler υ} {stage : Stage υ}
  {as : List (Action υ)}

namespace Stage

/-- The connection to which the `Close` of an insert is still to be sent. -/
def displaces : Stage υ → Option ℕ
  | inserted previous => previous
  | _ => none

/-- `remove_if_current` has run. -/
def cleanedUp : Stage υ → Bool
  | dropping => true
  | gone => true
  | _ => false

end Stage

/-- The part of the relay that decides who is registered. -/
structure Roster (υ : Type) where
  handlers : List (Handler υ)
  registry : υ → Option ℕ
  replaced : List ℕ

def Server.roster (s : Server υ) : Roster υ where
  handlers := s.handlers
  registry := s.registry
  replaced := s.replaced

namespace Roster
variable [DecidableEq υ]

/-- The kinds of steps. -/
inductive Step (r : Roster υ) : Action υ → Roster υ → Prop
  | still {a : Action υ} : (∀ user, a ≠ .connect user) → Step r a r
  | connect {user : υ} : Step r (.connect user) {
      handlers := r.handlers ++ [⟨user, .inserted (r.registry user)⟩]
      registry := Function.update r.registry user (some r.handlers.length)
      replaced := r.replaced }
  /-- the push that follows an insert -/
  | follow {i : ℕ} {input : Input υ} {h : Handler υ} {previous : Option ℕ} :
      r.handlers[i]? = some h → h.stage = .inserted previous → Step r (.run i input) {
        handlers := r.handlers.set i ⟨h.user, .fetching⟩
        registry := r.registry
        replaced := r.replaced ++ previous.toList }
  | move {i : ℕ} {input : Input υ} {h : Handler υ} {stage : Stage υ} :
      r.handlers[i]? = some h → h.stage.displaces = none → stage.displaces = none →
        stage.cleanedUp = h.stage.cleanedUp → Step r (.run i input) {
          handlers := r.handlers.set i ⟨h.user, stage⟩
          registry := r.registry
          replaced := r.replaced }
  /-- the cleanup -/
  | leave {i : ℕ} {input : Input υ} {h : Handler υ} :
      r.handlers[i]? = some h → h.stage = .leaving → Step r (.run i input) {
        handlers := r.handlers.set i ⟨h.user, .dropping⟩
        registry := if r.registry h.user = some i then Function.update r.registry h.user none
          else r.registry
        replaced := r.replaced }

end Roster

namespace Server
variable [DecidableEq υ] {input : Input υ}

theorem advance_roster (hh : s.handlers[i]? = some h)
    (he : s.advance i h.user input h.stage = some t) :
    s.roster.Step (.run i input) t.roster := by
  have hh' : s.roster.handlers[i]? = some h := hh
  have hmove {next : Stage υ} (hfrom : h.stage.displaces = none) (hto : next.displaces = none)
      (hclean : next.cleanedUp = h.stage.cleanedUp) : s.roster.Step (.run i input)
        ⟨s.handlers.set i ⟨h.user, next⟩, s.registry, s.replaced⟩ := .move hh' hfrom hto hclean
  cases hstage : h.stage with
  | inserted previous =>
    rw [hstage] at he
    cases he
    have hfollow : s.roster.Step (.run i input) _ := .follow hh' hstage
    cases previous with
    | none =>
      rw [Option.toList_none, List.append_nil] at hfollow
      exact hfollow
    | some j => exact hfollow
  | fetching =>
    rw [hstage] at he hmove
    cases he
    exact hmove rfl rfl rfl
  | draining batch =>
    rw [hstage] at he hmove
    cases batch with
    | nil =>
      cases he
      exact hmove rfl rfl rfl
    | cons m rest =>
      simp only [advance] at he
      split at he <;> cases he <;> exact hmove rfl rfl rfl
  | acking m rest =>
    rw [hstage] at he hmove
    cases he
    cases input.removed <;> exact hmove rfl rfl rfl
  | reading =>
    rw [hstage] at he hmove
    simp only [advance] at he
    split at he
    · cases he
      exact hmove rfl rfl rfl
    · split at he <;> cases he <;> exact hmove rfl rfl rfl
  | looking m =>
    rw [hstage] at he hmove
    simp only [advance] at he
    split at he <;> cases he <;> exact hmove rfl rfl rfl
  | relaying m j =>
    rw [hstage] at he hmove
    simp only [advance] at he
    split at he <;> cases he <;> exact hmove rfl rfl rfl
  | publishing m =>
    rw [hstage] at he hmove
    simp only [advance] at he
    split at he <;> cases he <;> exact hmove rfl rfl rfl
  | acknowledging m =>
    rw [hstage] at he hmove
    simp only [advance] at he
    split at he <;> cases he <;> exact hmove rfl rfl rfl
  | refusing r =>
    rw [hstage] at he hmove
    simp only [advance] at he
    split at he <;> cases he <;> exact hmove rfl rfl rfl
  | leaving =>
    rw [hstage] at he
    cases he
    exact .leave hh' hstage
  | dropping =>
    rw [hstage] at he hmove
    cases he
    exact hmove rfl rfl rfl
  | gone =>
    rw [hstage] at he
    cases he

/-- Every step of the relay treats the registry in one of these ways. -/
theorem step_roster {a : Action υ} (he : s.step a = some t) : s.roster.Step a t.roster := by
  cases a with
  | connect user =>
    cases he
    exact .connect
  | run i input =>
    obtain ⟨h, hh, he⟩ := Option.bind_eq_some_iff.mp he
    exact advance_roster hh he
  | forward i written =>
    simp only [step, forward] at he
    split at he <;> cases he
    exact .still fun user ha => by cases ha
  | release i =>
    simp only [step, release] at he
    split at he <;> cases he
    exact .still fun user ha => by cases ha
  | redeliver j deleted =>
    obtain ⟨task, -, he⟩ := Option.bind_eq_some_iff.mp he
    have hroster : t.roster = s.roster := by
      unfold redeliver at he
      split at he
      · split at he <;> cases he <;> rfl
      · split at he <;> cases he <;> rfl
      · cases he
        cases deleted <;> rfl
      · cases he
    rw [hroster]
    exact .still fun user ha => by cases ha
  | expire m =>
    simp only [step] at he
    split at he <;> cases he
    exact .still fun user ha => by cases ha

end Server

/-- Of the connections of `user`, `i` was inserted last, and it has not cleaned up. -/
def Holds (handlers : List (Handler υ)) (user : υ) (i : ℕ) : Prop :=
  (∃ h : Handler υ, handlers[i]? = some h ∧ h.user = user ∧ h.stage.cleanedUp = false) ∧
    ∀ (j : ℕ) (g : Handler υ), handlers[j]? = some g → g.user = user → j ≤ i

/-- Connection `i` was sent a `Close`, or the push is still to come. -/
def Roster.Closing (r : Roster υ) (i : ℕ) : Prop :=
  i ∈ r.replaced ∨ ∃ (j : ℕ) (h : Handler υ), r.handlers[j]? = some h ∧ h.stage.displaces = some i

theorem holds_set {handlers : List (Handler υ)} (hh : handlers[i]? = some h) :
    Holds (handlers.set i ⟨h.user, stage⟩) user j ↔
      (if j = i then h.user = user ∧ stage.cleanedUp = false else
        ∃ g : Handler υ, handlers[j]? = some g ∧ g.user = user ∧ g.stage.cleanedUp = false) ∧
      ∀ (k : ℕ) (g : Handler υ), handlers[k]? = some g → g.user = user → k ≤ j := by
  have hlt := lt_length_of_getElem? hh
  refine and_congr ?_ ?_
  · split
    · rename_i hji
      subst hji
      simp [List.getElem?_set_self hlt]
    · rename_i hji
      rw [List.getElem?_set_ne (Ne.symm hji)]
  · constructor
    · intro hlast k g hk hg
      by_cases hki : k = i
      · subst hki
        cases hh.symm.trans hk
        exact hlast k _ (List.getElem?_set_self hlt) hg
      · exact hlast k g ((List.getElem?_set_ne (Ne.symm hki)).trans hk) hg
    · intro hlast k g hk hg
      rcases getElem?_set_cases hk with ⟨rfl, rfl⟩ | ⟨-, hk⟩
      · exact hlast k h hh hg
      · exact hlast k g hk hg

theorem holds_move {handlers : List (Handler υ)} (hh : handlers[i]? = some h)
    (hclean : stage.cleanedUp = h.stage.cleanedUp) :
    Holds (handlers.set i ⟨h.user, stage⟩) user j ↔ Holds handlers user j := by
  rw [holds_set hh]
  refine and_congr_left fun _ => ?_
  split
  · rename_i hji
    subst hji
    rw [hclean, hh]
    simp
  · rfl

/-- A new connection holds the entry of its user and changes nothing for the others. -/
theorem holds_concat [DecidableEq υ] {handlers : List (Handler υ)} {previous : Option ℕ} {u : υ} :
    Holds (handlers ++ [⟨user, .inserted previous⟩]) u j ↔
      if u = user then j = handlers.length else Holds handlers u j := by
  have hnew : (handlers ++ [⟨user, .inserted previous⟩])[handlers.length]? =
      some ⟨user, .inserted previous⟩ := List.getElem?_concat_length
  have hold {k : ℕ} {g : Handler υ} (hk : handlers[k]? = some g) :
      (handlers ++ [⟨user, .inserted previous⟩])[k]? = some g := by
    rw [List.getElem?_append_left (lt_length_of_getElem? hk), hk]
  constructor
  · rintro ⟨⟨g, hg, hu, hclean⟩, hlast⟩
    rcases getElem?_concat_cases hg with ⟨rfl, rfl⟩ | hg
    · rw [if_pos hu.symm]
    · split
      · rename_i huser
        have := hlast _ _ hnew huser.symm
        have := lt_length_of_getElem? hg
        omega
      · exact ⟨⟨g, hg, hu, hclean⟩, fun k g' hk hg' => hlast k g' (hold hk) hg'⟩
  · split
    · rename_i huser
      rintro rfl
      refine ⟨⟨_, hnew, huser.symm, rfl⟩, fun k g hk _ => ?_⟩
      have := lt_length_of_getElem? hk
      rw [List.length_append, List.length_singleton] at this
      omega
    · rename_i huser
      rintro ⟨⟨g, hg, hu, hclean⟩, hlast⟩
      refine ⟨⟨g, hold hg, hu, hclean⟩, fun k g' hk hg' => ?_⟩
      rcases getElem?_concat_cases hk with ⟨rfl, rfl⟩ | hk
      · exact absurd hg'.symm huser
      · exact hlast k g' hk hg'

structure RosterInv (r : Roster υ) : Prop where
  registered : ∀ (user : υ) (i : ℕ), r.registry user = some i ↔ Holds r.handlers user i
  /-- a connection that is sent a `Close` is not registered anymore -/
  closing : ∀ i, r.Closing i → i < r.handlers.length ∧ ∀ user, r.registry user ≠ some i
  /-- a `Close` that is still to be sent is the first one -/
  pending : ∀ (j : ℕ) (h : Handler υ) (i : ℕ), r.handlers[j]? = some h →
    h.stage.displaces = some i → i ∉ r.replaced ∧ ∀ (k : ℕ) (g : Handler υ),
      r.handlers[k]? = some g → g.stage.displaces = some i → k = j
  once : r.replaced.Nodup

/-- The part of `closing` and `pending` that concerns connection `i`. -/
theorem displaces_set_cases {handlers : List (Handler υ)} {k : ℕ} {g : Handler υ}
    (hnone : stage.displaces = none) (hk : (handlers.set i ⟨user, stage⟩)[k]? = some g)
    (hg : g.stage.displaces = some j) : k ≠ i ∧ handlers[k]? = some g := by
  rcases getElem?_set_cases hk with ⟨-, rfl⟩ | hk
  · rw [hnone] at hg
    cases hg
  · exact hk

namespace RosterInv
variable [DecidableEq υ] {r q : Roster υ} {a : Action υ}

/-- What a step adds to the connections that are sent a `Close`. -/
theorem closing_iff (he : r.Step a q) : q.Closing i ↔
    r.Closing i ∨ ∃ user, a = .connect user ∧ r.registry user = some i := by
  cases he with
  | still hne =>
    refine ⟨.inl, ?_⟩
    rintro (hr | ⟨user, ha, -⟩)
    · exact hr
    · exact absurd ha (hne user)
  | @connect user =>
    constructor
    · rintro (hr | ⟨j, h, hj, hd⟩)
      · exact .inl (.inl hr)
      · rcases getElem?_concat_cases hj with ⟨-, rfl⟩ | hj
        · exact .inr ⟨user, rfl, hd⟩
        · exact .inl (.inr ⟨j, h, hj, hd⟩)
    · rintro ((hr | ⟨j, h, hj, hd⟩) | ⟨u, hu, hd⟩)
      · exact .inl hr
      · exact .inr ⟨j, h, by rw [List.getElem?_append_left (lt_length_of_getElem? hj), hj], hd⟩
      · cases hu
        exact .inr ⟨r.handlers.length, _, List.getElem?_concat_length, hd⟩
  | @follow k input h previous hh hstage =>
    have hprevious : h.stage.displaces = previous := by
      rw [hstage]
      rfl
    constructor
    · rintro (hr | ⟨j, g, hj, hd⟩)
      · rcases List.mem_append.mp hr with hr | hr
        · exact .inl (.inl hr)
        · refine .inl (.inr ⟨k, h, hh, ?_⟩)
          rw [hprevious]
          exact Option.mem_toList.mp hr
      · exact .inl (.inr ⟨j, g, (displaces_set_cases rfl hj hd).2, hd⟩)
    · rintro ((hr | ⟨j, g, hj, hd⟩) | ⟨u, hu, -⟩)
      · exact .inl (List.mem_append_left _ hr)
      · by_cases hjk : j = k
        · subst hjk
          cases hh.symm.trans hj
          refine .inl (List.mem_append_right _ (Option.mem_toList.mpr ?_))
          rw [← hprevious]
          exact hd
        · exact .inr ⟨j, g, (List.getElem?_set_ne (Ne.symm hjk)).trans hj, hd⟩
      · cases hu
  | @move k input h stage hh hfrom hto _ =>
    constructor
    · rintro (hr | ⟨j, g, hj, hd⟩)
      · exact .inl (.inl hr)
      · exact .inl (.inr ⟨j, g, (displaces_set_cases hto hj hd).2, hd⟩)
    · rintro ((hr | ⟨j, g, hj, hd⟩) | ⟨u, hu, -⟩)
      · exact .inl hr
      · have hjk : k ≠ j := by
          rintro rfl
          cases hh.symm.trans hj
          rw [hfrom] at hd
          cases hd
        exact .inr ⟨j, g, (List.getElem?_set_ne hjk).trans hj, hd⟩
      · cases hu
  | @leave k input h hh hstage =>
    constructor
    · rintro (hr | ⟨j, g, hj, hd⟩)
      · exact .inl (.inl hr)
      · exact .inl (.inr ⟨j, g, (displaces_set_cases rfl hj hd).2, hd⟩)
    · rintro ((hr | ⟨j, g, hj, hd⟩) | ⟨u, hu, -⟩)
      · exact .inl hr
      · have hjk : k ≠ j := by
          rintro rfl
          cases hh.symm.trans hj
          rw [hstage] at hd
          cases hd
        exact .inr ⟨j, g, (List.getElem?_set_ne hjk).trans hj, hd⟩
      · cases hu

omit [DecidableEq υ] in
theorem user_unique (hr : RosterInv r) {u : υ} (hu : r.registry user = some i)
    (hv : r.registry u = some i) : user = u := by
  obtain ⟨⟨h, hh, huser, -⟩, -⟩ := (hr.registered user i).mp hu
  obtain ⟨⟨g, hg, hv, -⟩, -⟩ := (hr.registered u i).mp hv
  cases hh.symm.trans hg
  exact huser.symm.trans hv

omit [DecidableEq υ] in
theorem lt_length (hr : RosterInv r) (hu : r.registry user = some i) : i < r.handlers.length := by
  obtain ⟨⟨h, hh, -⟩, -⟩ := (hr.registered user i).mp hu
  exact lt_length_of_getElem? hh

theorem connect (hr : RosterInv r) (he : r.Step (.connect user) q) : RosterInv q := by
  have hclosing {i : ℕ} := closing_iff (i := i) he
  cases he with
  | still hne => exact absurd rfl (hne user)
  | connect =>
    constructor
    · intro u i
      rw [holds_concat]
      by_cases hu : u = user
      · subst hu
        simp [eq_comm]
      · simpa [hu] using hr.registered u i
    · intro i hi
      have hne {u : υ} (hlt : i < r.handlers.length) (hother : u ≠ user → r.registry u ≠ some i) :
          Function.update r.registry user (some r.handlers.length) u ≠ some i := by
        by_cases hu : u = user
        · subst hu
          rw [Function.update_self]
          intro hi
          have := Option.some.inj hi
          omega
        · rw [Function.update_of_ne hu]
          exact hother hu
      rw [List.length_append]
      rcases hclosing.mp hi with hi | ⟨u, hu, hi⟩
      · obtain ⟨hlt, hnot⟩ := hr.closing i hi
        exact ⟨Nat.lt_add_right _ hlt, fun v => hne hlt fun _ => hnot v⟩
      · cases hu
        have hlt := hr.lt_length hi
        exact ⟨Nat.lt_add_right _ hlt, fun v => hne hlt fun hv hi' => hv (hr.user_unique hi' hi)⟩
    · intro j h i hj hd
      rcases getElem?_concat_cases hj with ⟨rfl, rfl⟩ | hj
      · have hnot : ¬ r.Closing i := fun hi => (hr.closing i hi).2 user hd
        refine ⟨fun hi => hnot (.inl hi), fun k g hk hg => ?_⟩
        rcases getElem?_concat_cases hk with ⟨hk, -⟩ | hk
        · exact hk
        · exact absurd (.inr ⟨k, g, hk, hg⟩) hnot
      · obtain ⟨hsent, honly⟩ := hr.pending j h i hj hd
        refine ⟨hsent, fun k g hk hg => ?_⟩
        rcases getElem?_concat_cases hk with ⟨-, rfl⟩ | hk
        · exact absurd hg ((hr.closing i (.inr ⟨j, h, hj, hd⟩)).2 user)
        · exact honly k g hk hg
    · exact hr.once

theorem step (hr : RosterInv r) (he : r.Step a q) : RosterInv q := by
  have hclosing {i : ℕ} := closing_iff (i := i) he
  cases he with
  | still => exact hr
  | connect => exact hr.connect .connect
  | @follow i input h previous hh hstage =>
    have hclean : (Stage.fetching : Stage υ).cleanedUp = h.stage.cleanedUp := by
      rw [hstage]
      rfl
    have hpending (j : ℕ) (hj : j ∈ previous.toList) : h.stage.displaces = some j := by
      rw [hstage]
      exact Option.mem_toList.mp hj
    constructor
    · intro u j
      rw [holds_move hh hclean]
      exact hr.registered u j
    · intro j hj
      rcases hclosing.mp hj with hj | ⟨u, hu, -⟩
      · rw [List.length_set]
        exact hr.closing j hj
      · cases hu
    · intro j g k hj hg
      obtain ⟨hji, hj⟩ := displaces_set_cases rfl hj hg
      obtain ⟨hsent, honly⟩ := hr.pending j g k hj hg
      refine ⟨?_, fun l g' hl hg' => honly l g' (displaces_set_cases rfl hl hg').2 hg'⟩
      intro hk
      rcases List.mem_append.mp hk with hk | hk
      · exact hsent hk
      · exact hji (honly i h hh (hpending k hk)).symm
    · refine List.nodup_append.mpr ⟨hr.once, ?_, ?_⟩
      · cases previous with
        | none => exact List.nodup_nil
        | some j => exact List.nodup_singleton j
      · rintro j hj _ hj' rfl
        exact (hr.pending i h j hh (hpending j hj')).1 hj
  | @move i input h stage hh hfrom hto hclean =>
    constructor
    · intro u j
      rw [holds_move hh hclean]
      exact hr.registered u j
    · intro j hj
      rcases hclosing.mp hj with hj | ⟨u, hu, -⟩
      · rw [List.length_set]
        exact hr.closing j hj
      · cases hu
    · intro j g k hj hg
      obtain ⟨hsent, honly⟩ := hr.pending j g k (displaces_set_cases hto hj hg).2 hg
      exact ⟨hsent, fun l g' hl hg' => honly l g' (displaces_set_cases hto hl hg').2 hg'⟩
    · exact hr.once
  | @leave i input h hh hstage =>
    have hclean : h.stage.cleanedUp = false := by
      rw [hstage]
      rfl
    have hregistry (u : υ) (j : ℕ) : (if r.registry h.user = some i then
        Function.update r.registry h.user none else r.registry) u = some j ↔
          r.registry u = some j ∧ j ≠ i := by
      constructor
      · intro hj
        split at hj
        · rename_i hi
          by_cases hu : u = h.user
          · subst hu
            simp at hj
          · rw [Function.update_of_ne hu] at hj
            exact ⟨hj, by rintro rfl; exact hu (hr.user_unique hj hi)⟩
        · rename_i hi
          refine ⟨hj, ?_⟩
          rintro rfl
          obtain ⟨⟨g, hg, hu, -⟩, -⟩ := (hr.registered u j).mp hj
          cases hh.symm.trans hg
          subst hu
          exact hi hj
      · rintro ⟨hj, hne⟩
        split
        · rename_i hi
          by_cases hu : u = h.user
          · subst hu
            exact absurd (Option.some.inj (hj.symm.trans hi)) hne
          · rw [Function.update_of_ne hu]
            exact hj
        · exact hj
    constructor
    · intro u j
      rw [hregistry, hr.registered, holds_set hh]
      by_cases hji : j = i
      · simp [hji, Stage.cleanedUp]
      · simp [hji, Holds]
    · intro j hj
      rcases hclosing.mp hj with hj | ⟨u, hu, -⟩
      · rw [List.length_set]
        obtain ⟨hlt, hnot⟩ := hr.closing j hj
        exact ⟨hlt, fun u hu => hnot u ((hregistry u j).mp hu).1⟩
      · cases hu
    · intro j g k hj hg
      obtain ⟨hsent, honly⟩ := hr.pending j g k (displaces_set_cases rfl hj hg).2 hg
      exact ⟨hsent, fun l g' hl hg' => honly l g' (displaces_set_cases rfl hl hg').2 hg'⟩
    · exact hr.once

end RosterInv

theorem rosterInv_start : RosterInv (Server.start : Server υ).roster where
  registered user i := by
    constructor
    · intro h
      cases h
    · rintro ⟨⟨h, hh, -⟩, -⟩
      cases hh
  closing i h := by
    rcases h with h | ⟨j, h, hj, -⟩
    · cases h
    · cases hj
  pending _ _ _ h := by cases h
  once := List.nodup_nil

/-- The `Close` frames in the channel and on the transport. -/
def Channel.closes (c : Channel υ) : ℕ := (c.frames ++ c.written).countP Frame.isClose

/-- No channel has seen more `Close` frames than were sent to it. -/
def Server.Counted (s : Server υ) : Prop :=
  ∀ (i : ℕ) (c : Channel υ), s.channels[i]? = some c → c.closes ≤ s.replaced.count i

namespace Server.Counted

/-- One channel changes and gets no `Close`. -/
theorem modify (hs : s.Counted) {f : Channel υ → Channel υ}
    (hf : ∀ c, s.channels[i]? = some c → (f c).closes ≤ c.closes)
    (ht : t.channels = s.channels.modify i f) (hr : t.replaced = s.replaced) : t.Counted := by
  intro j c hc
  rw [ht] at hc
  rw [hr]
  obtain ⟨d, hd, rfl⟩ := getElem?_modify_cases hc
  split
  · rename_i hij
    subst hij
    exact (hf d hd).trans (hs i d hd)
  · exact hs j d hd

theorem of_eq (hs : s.Counted) (ht : t.channels = s.channels) (hr : t.replaced = s.replaced) :
    t.Counted := by
  intro j c hc
  rw [ht] at hc
  rw [hr]
  exact hs j c hc

theorem closes_push (c : Channel υ) (body : Relayed υ) :
    (if c.forward = .closed then c else { c with frames := c.frames ++ [.text body] }).closes ≤
      c.closes := by
  split
  · exact Nat.le_refl _
  · simp [Channel.closes, Frame.isClose]

/-- A text frame is pushed. -/
theorem push (hs : s.Counted) {body : Relayed υ}
    (ht : t.channels = (s.push i (.text body)).channels) (hr : t.replaced = s.replaced) :
    t.Counted :=
  hs.modify (fun c _ => closes_push c body) ht hr

theorem closePrevious (hs : s.Counted) (previous : Option ℕ) :
    (s.closePrevious previous).Counted := by
  cases previous with
  | none => exact hs
  | some j =>
    intro k c hc
    obtain ⟨d, hd, rfl⟩ := getElem?_modify_cases hc
    have hle := hs k d hd
    simp only [Server.closePrevious, List.count_append]
    split
    · rename_i hjk
      subst hjk
      rw [List.count_singleton_self]
      split
      · exact Nat.le_add_right_of_le hle
      · have hcloses : Channel.closes { d with frames := d.frames ++ [.replaced] } = d.closes + 1 := by
          simp only [Channel.closes, List.countP_append, List.countP_singleton]
          simp [Frame.replaced, Frame.isClose]
          omega
        rw [hcloses]
        exact Nat.add_le_add_right hle 1
    · exact Nat.le_add_right_of_le hle

variable [DecidableEq υ] {input : Input υ}

theorem advance (hs : s.Counted) (he : s.advance i user input stage = some t) : t.Counted := by
  unfold Server.advance at he
  split at he
  · rename_i previous
    cases he
    refine (hs.closePrevious previous).modify ?_ rfl rfl
    exact fun c _ => Nat.le_refl c.closes
  · cases he
    exact hs.of_eq rfl rfl
  · cases he
    exact hs.of_eq rfl rfl
  · split at he <;> cases he
    · exact hs.push rfl rfl
    · exact hs.of_eq rfl rfl
  · cases he
    cases input.removed <;> exact hs.of_eq rfl rfl
  · split at he
    · cases he
      exact hs.of_eq rfl rfl
    · split at he <;> cases he <;> exact hs.of_eq rfl rfl
  · split at he <;> cases he <;> exact hs.of_eq rfl rfl
  · split at he <;> cases he
    · exact hs.push rfl rfl
    · exact hs.of_eq rfl rfl
  · split at he <;> cases he <;> exact hs.of_eq rfl rfl
  · split at he <;> cases he
    · exact hs.push rfl rfl
    · exact hs.of_eq rfl rfl
  · split at he <;> cases he
    · exact hs.push rfl rfl
    · exact hs.of_eq rfl rfl
  · cases he
    exact hs.of_eq rfl rfl
  · cases he
    refine hs.modify ?_ rfl rfl
    exact fun c _ => Nat.le_refl c.closes
  · cases he

omit [DecidableEq υ] in
theorem forward (hs : s.Counted) {written : Bool} (he : s.forward i written = some t) :
    t.Counted := by
  unfold Server.forward at he
  split at he
  · rename_i frame frames out hc
    cases he
    intro k c hk
    rcases getElem?_set_cases hk with ⟨rfl, rfl⟩ | ⟨-, hk⟩
    · refine Nat.le_trans ?_ (hs k _ hc)
      simp only [Channel.closes, List.countP_append, List.countP_cons]
      cases written
      · simp only [Bool.false_eq_true, if_false]
        omega
      · simp only [if_true, List.countP_append, List.countP_singleton]
        omega
    · exact hs k c hk
  · cases he

omit [DecidableEq υ] in
theorem release (hs : s.Counted) (he : s.release i = some t) : t.Counted := by
  unfold Server.release at he
  split at he
  · rename_i frames out hc
    cases he
    intro k c hk
    rcases getElem?_set_cases hk with ⟨rfl, rfl⟩ | ⟨-, hk⟩
    · refine Nat.le_trans ?_ (hs k _ hc)
      simp [Channel.closes]
    · exact hs k c hk
  · cases he

theorem step (hs : s.Counted) {a : Action υ} (he : s.step a = some t) : t.Counted := by
  cases a with
  | connect user =>
    cases he
    intro k c hk
    rcases getElem?_concat_cases hk with ⟨-, rfl⟩ | hk
    · exact Nat.zero_le _
    · exact hs k c hk
  | run i input =>
    obtain ⟨h, -, he⟩ := Option.bind_eq_some_iff.mp he
    exact hs.advance he
  | forward i written => exact hs.forward he
  | release i => exact hs.release he
  | redeliver j deleted =>
    obtain ⟨task, -, he⟩ := Option.bind_eq_some_iff.mp he
    unfold Server.redeliver at he
    split at he
    · split at he <;> cases he <;> exact hs.of_eq rfl rfl
    · split at he <;> cases he
      · exact hs.push rfl rfl
      · exact hs.of_eq rfl rfl
    · cases he
      cases deleted <;> exact hs.of_eq rfl rfl
    · cases he
  | expire m =>
    simp only [Server.step] at he
    split at he <;> cases he
    exact hs.of_eq rfl rfl

end Server.Counted

end Epistl.Relay
