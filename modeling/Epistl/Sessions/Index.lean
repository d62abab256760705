import Epistl.Runs.Machine
import Epistl.Sessions.Clear

/-! # The index of the sessions

`saveSession` writes the session of a contact, reads the index and writes it back with the
contact. The calls of different contacts interleave at these accesses, and the app can go
away after any of them. The index lists every stored session as long as no call writes back
an index that has changed since it was read, and the app goes away only when no stored
session waits to be listed.
-/
namespace Epistl.Sessions

inductive Stage
  | writing (text : JsString)
  | reading
  /-- with the index that was read -/
  | updating (index : List JsString)
  | settled
  deriving DecidableEq

/-- The session is written, and the index is not yet. -/
def Stage.behind : Stage → Bool
  | reading | updating _ => true
  | writing _ | settled => false

/-- The index a call is about to write back. -/
def Stage.index? : Stage → Option (List JsString)
  | updating index => some index
  | _ => none

/-- A `saveSession`. -/
structure Call where
  contactUserId : JsString
  stage : Stage

structure State where
  store : SecureStore
  calls : List Call

inductive Action
  | saveSession (contactUserId text : JsString)
  | run (i : ℕ)
  | crash

namespace State

def put (s : State) (i : ℕ) (contactUserId : JsString) (stage : Stage) (store : SecureStore) : State :=
  ⟨store, s.calls.set i ⟨contactUserId, stage⟩⟩

/-- The next access of a call, or what follows its read of the index. -/
def advance (s : State) (i : ℕ) (contactUserId : JsString) : Stage → Option State
  | .writing text => some (s.put i contactUserId .reading
      (s.store.setItem (sessionStorageKey contactUserId) text))
  | .reading =>
    match s.store.readIndex with
    | none => some (s.put i contactUserId .settled s.store)
    | some index =>
      if contactUserId ∈ index then some (s.put i contactUserId .settled s.store)
      else some (s.put i contactUserId (.updating index) s.store)
  | .updating index =>
    some (s.put i contactUserId .settled (s.store.addToSessionIndex contactUserId index))
  | .settled => none

def pending (s : State) (contactUserId : JsString) : Bool :=
  s.calls.any fun call => call.contactUserId = contactUserId && call.stage ≠ .settled

def step (s : State) : Action → Option State
  | .saveSession contactUserId text =>
    if s.pending contactUserId then none
    else some { s with calls := s.calls ++ [⟨contactUserId, .writing text⟩] }
  | .run i => s.calls[i]?.bind fun call => s.advance i call.contactUserId call.stage
  | .crash => some { s with calls := [] }

end State

/-- Every stored session is listed. -/
def Listed (store : SecureStore) : Prop :=
  ∃ index, store.readIndex = some index ∧
    ∀ c, store (sessionStorageKey c) ≠ none → c ∈ index

def machine : Machine State Action where
  init s := s.calls = [] ∧ Listed s.store
  step := State.step

/-- The index a call writes back is still the stored one, and the app does not go away while a
session waits to be listed. -/
def Fit (s : State) : Action → Prop
  | .saveSession _ _ => True
  | .run i => ∀ call ∈ s.calls[i]?, ∀ index ∈ call.stage.index?, s.store.readIndex = some index
  | .crash => ∀ call ∈ s.calls, call.stage.behind = true →
    call.contactUserId ∈ s.store.readIndex.getD []

/-- A call of the contact is still to list it. -/
def Behind (calls : List Call) (c : JsString) : Prop :=
  ∃ call ∈ calls, call.contactUserId = c ∧ call.stage.behind = true

/-- Every stored session is listed, or a call is still to list it. -/
def Tracked (s : State) : Prop :=
  ∃ index, s.store.readIndex = some index ∧
    ∀ c, s.store (sessionStorageKey c) ≠ none → c ∈ index ∨ Behind s.calls c

variable {s t : State} {calls : List Call} {i : ℕ} {c d : JsString} {stage stage' : Stage}
  {store : SecureStore} {index : List JsString}

/-- The calls of other contacts go on as they were. -/
theorem Behind.set (h : Behind calls d) (hi : calls[i]? = some ⟨c, stage⟩) (hd : d ≠ c) :
    Behind (calls.set i ⟨c, stage'⟩) d := by
  obtain ⟨call, hcall, hcontact, hbehind⟩ := h
  obtain ⟨j, hj⟩ := List.mem_iff_getElem?.mp hcall
  have hne : i ≠ j := by
    rintro rfl
    rw [hi] at hj
    cases hj
    exact hd hcontact.symm
  refine ⟨call, List.mem_iff_getElem?.mpr ⟨j, ?_⟩, hcontact, hbehind⟩
  rw [List.getElem?_set_ne hne, hj]

theorem behind_set_self (hi : calls[i]? = some ⟨c, stage⟩) (hstage : stage'.behind = true) :
    Behind (calls.set i ⟨c, stage'⟩) c := by
  obtain ⟨hlt, -⟩ := List.getElem?_eq_some_iff.mp hi
  exact ⟨⟨c, stage'⟩, List.mem_set hlt _, rfl, hstage⟩

/-- A move of one call, after which its contact is listed or still to be listed. -/
theorem Tracked.put {index' : List JsString} (h : Tracked s) (hi : s.calls[i]? = some ⟨c, stage⟩)
    (hread : s.store.readIndex = some index) (hread' : store.readIndex = some index')
    (hsubset : index ⊆ index')
    (hstored : ∀ d, d ≠ c → store (sessionStorageKey d) = s.store (sessionStorageKey d))
    (hc : c ∈ index' ∨ stage'.behind = true) : Tracked (s.put i c stage' store) := by
  obtain ⟨index, hindex, htracked⟩ := h
  cases hindex.symm.trans hread
  refine ⟨index', hread', fun d hd => ?_⟩
  by_cases hdc : d = c
  · subst hdc
    exact hc.imp_right (behind_set_self hi)
  · have hold : s.store (sessionStorageKey d) ≠ none := hstored d hdc ▸ hd
    rcases htracked d hold with hlisted | hbehind
    · exact Or.inl (hsubset hlisted)
    · exact Or.inr (hbehind.set hi hdc)

theorem readIndex_addToSessionIndex (hread : store.readIndex = some index) :
    ∃ index', (store.addToSessionIndex c index).readIndex = some index' ∧ index ⊆ index' ∧
      c ∈ index' := by
  unfold SecureStore.addToSessionIndex
  split
  · rename_i hc
    exact ⟨index, hread, List.Subset.refl _, hc⟩
  · exact ⟨index ++ [c], SecureStore.readIndex_setIndex _ _, List.subset_append_left _ _, by simp⟩

theorem Tracked.advance (h : Tracked s) (hi : s.calls[i]? = some ⟨c, stage⟩)
    (hfit : Fit s (.run i)) (he : s.advance i c stage = some t) : Tracked t := by
  obtain ⟨index, hread, -⟩ := id h
  cases stage with
  | writing text =>
    cases he
    apply h.put hi hread (hread ▸ SecureStore.readIndex_setSession _ _ _) (List.Subset.refl _)
    · intro d hd
      exact SecureStore.setItem_of_ne (sessionStorageKey_injective.ne hd)
    · exact Or.inr rfl
  | reading =>
    rw [State.advance, hread] at he
    dsimp only at he
    split at he
    · rename_i hc
      cases he
      exact h.put hi hread hread (List.Subset.refl _) (fun _ _ => rfl) (Or.inl hc)
    · cases he
      exact h.put hi hread hread (List.Subset.refl _) (fun _ _ => rfl) (Or.inr rfl)
  | updating old =>
    cases he
    have hold : s.store.readIndex = some old := hfit _ hi old rfl
    obtain ⟨index', hread', hsubset, hc⟩ := readIndex_addToSessionIndex (c := c) hold
    cases hold.symm.trans hread
    exact h.put hi hread hread' hsubset (fun d _ => SecureStore.addToSessionIndex_session d) (Or.inl hc)
  | settled => cases he

theorem Tracked.step {a : Action} (h : Tracked s) (hfit : Fit s a) (he : s.step a = some t) :
    Tracked t := by
  cases a with
  | saveSession contactUserId text =>
    rw [State.step] at he
    split at he
    · cases he
    · cases he
      obtain ⟨index, hread, htracked⟩ := h
      refine ⟨index, hread, fun c hc => (htracked c hc).imp_right ?_⟩
      rintro ⟨call, hcall, hbehind⟩
      exact ⟨call, List.mem_append_left _ hcall, hbehind⟩
  | run i =>
    obtain ⟨⟨c, stage⟩, hi, he⟩ := Option.bind_eq_some_iff.mp he
    exact h.advance hi hfit he
  | crash =>
    cases he
    obtain ⟨index, hread, htracked⟩ := h
    refine ⟨index, hread, fun c hc => ?_⟩
    rcases htracked c hc with hlisted | ⟨call, hcall, rfl, hbehind⟩
    · exact Or.inl hlisted
    · have hlisted := hfit call hcall hbehind
      rw [hread] at hlisted
      exact Or.inl hlisted

theorem tracked (h : machine.Reach Fit s) : Tracked s := by
  apply h.invariant
  · rintro s ⟨-, index, hread, hlisted⟩
    exact ⟨index, hread, fun c hc => Or.inl (hlisted c hc)⟩
  · intro s a t htracked hfit he
    exact htracked.step hfit he

/-- No call is under way. -/
def Settled (s : State) : Prop := ∀ call ∈ s.calls, call.stage = .settled

/-- In a run of fitting steps every stored session is listed once the calls are over, so that a
wipe whose deletes succeed leaves none. -/
theorem listed_of_fit (h : machine.Reach Fit s) (hsettled : Settled s) :
    Listed s.store ∧ ∀ deletes : JsString → Option Unit, (∀ c, fails deletes c = false) →
      ∀ c, (clearAllSessions deletes s.store).2 (sessionStorageKey c) = none := by
  obtain ⟨index, hread, htracked⟩ := tracked h
  have hlisted : ∀ c, s.store (sessionStorageKey c) ≠ none → c ∈ index := by
    intro c hc
    refine (htracked c hc).resolve_right ?_
    rintro ⟨call, hcall, -, hbehind⟩
    rw [hsettled call hcall] at hbehind
    cases hbehind
  refine ⟨⟨index, hread, hlisted⟩, fun deletes hdeletes c => ?_⟩
  rw [(clearAllSessions_spec deletes hread).1 c]
  split
  · rfl
  · rename_i hc
    by_contra hstored
    exact hc ⟨hlisted c hstored, hdeletes c⟩

def noSessions : State := ⟨fun _ => none, []⟩

theorem noSessions_init : machine.init noSessions := ⟨rfl, [], rfl, fun _ h => absurd rfl h⟩

instance decidableSettled (s : State) : Decidable (Settled s) :=
  inferInstanceAs (Decidable (∀ call ∈ s.calls, call.stage = .settled))

instance decidableFit (s : State) : ∀ a, Decidable (Fit s a)
  | .saveSession _ _ => isTrue trivial
  | .run i => inferInstanceAs
    (Decidable (∀ call ∈ s.calls[i]?, ∀ index ∈ call.stage.index?, s.store.readIndex = some index))
  | .crash => inferInstanceAs (Decidable (∀ call ∈ s.calls, call.stage.behind = true →
    call.contactUserId ∈ s.store.readIndex.getD []))

/-- Two calls of which the second reads the index after the first has written it. -/
def consecutive : List Action :=
  [.saveSession [0x61] [0x31], .saveSession [0x62] [0x32], .run 0, .run 1, .run 0, .run 0, .run 1,
    .run 1, .crash]

theorem listed_of_fit_consecutive : ∃ s, machine.Reach Fit s ∧ Settled s ∧ Listed s.store ∧
    ∀ deletes : JsString → Option Unit, (∀ c, fails deletes c = false) →
      ∀ c, (clearAllSessions deletes s.store).2 (sessionStorageKey c) = none := by
  obtain ⟨s, hs, hsettled⟩ := Machine.Reach.of_execIf (M := machine) (G := Fit) consecutive
    noSessions_init (p := fun s => decide (Settled s)) (by decide +kernel)
  have h := of_decide_eq_true hsettled
  exact ⟨s, hs, h, listed_of_fit hs h⟩

/-- The app goes away between the two writes. -/
def interrupted : List Action := [.saveSession [0x61] [0x31], .run 0, .crash]

/-- Both calls read the index before one of them writes it. -/
def overlapping : List Action :=
  [.saveSession [0x61] [0x31], .saveSession [0x62] [0x32], .run 0, .run 1, .run 0, .run 1, .run 0,
    .run 1]

/-- The calls are over, and the contact's session is stored and not listed. -/
def unlisted (c : JsString) (s : State) : Bool :=
  decide (Settled s) && (s.store (sessionStorageKey c)).isSome &&
    decide (c ∉ s.store.readIndex.getD [])

theorem not_listed_of_unlisted (h : unlisted c s = true) : Settled s ∧ ¬Listed s.store := by
  simp only [unlisted, Bool.and_eq_true, decide_eq_true_eq] at h
  obtain ⟨⟨hsettled, hstored⟩, hc⟩ := h
  refine ⟨hsettled, ?_⟩
  rintro ⟨index, hread, hlisted⟩
  rw [hread] at hc
  exact hc (hlisted c (Option.isSome_iff_ne_none.mp hstored))

/-- A session is left out of the index after a crash, and after two calls that overlap. -/
theorem unlisted_session :
    (∃ s, machine.exec noSessions interrupted = some s ∧ Settled s ∧ ¬Listed s.store) ∧
      ∃ s, machine.exec noSessions overlapping = some s ∧ Settled s ∧ ¬Listed s.store := by
  obtain ⟨s, hs, hunlisted⟩ := (Option.any_eq_true (unlisted [0x61])
    (machine.exec noSessions interrupted)).mp (by decide +kernel)
  obtain ⟨t, ht, hunlisted'⟩ := (Option.any_eq_true (unlisted [0x61])
    (machine.exec noSessions overlapping)).mp (by decide +kernel)
  exact ⟨⟨s, hs, not_listed_of_unlisted hunlisted⟩, ⟨t, ht, not_listed_of_unlisted hunlisted'⟩⟩

end Epistl.Sessions
