import Epistl.Deletion.Phone
import Epistl.Deletion.Sweep
import Epistl.Inbox.Messenger

/-! # What a resolved wipe leaves

The wipe reaches everything that was stored before the access that deletes it. A run that
ends after the wipe leaves no secret exactly if all its steps were in time: no call that was
under way stored anything behind the wipe's back.
-/
namespace Epistl.Deletion.Phone
variable {S : Suite} {s t : Phone S} {a : Action S}

/-- What a step does to the storage and the wipe. -/
inductive Effect (s : Phone S) (a : Action S) (t : Phone S) : Prop
  /-- the step of a call, with what it stores -/
  | call : (∀ b, a ≠ .wipe b) → t.wipe = s.wipe →
      t.storage = (s.stores a).elim s.storage s.storage.put → Effect s a t
  | confirmDelete : (∀ b, a ≠ .wipe b) → s.stores a = none → s.wipe = none →
      t.wipe = some .start → t.storage = s.storage → Effect s a t
  | wipe {b : Wipe.Action} {w w' : Wipe} : a = .wipe b → s.wipe = some w → t.wipe = some w' →
      w.step s.storage b = some (w', t.storage) → Effect s a t

/-- A step that leaves storage and wipe alone. -/
theorem Effect.none_stored (ha : ∀ b, a ≠ .wipe b) (hstores : s.stores a = none)
    (hwipe : t.wipe = s.wipe) (hstorage : t.storage = s.storage) : Effect s a t := by
  refine .call ha hwipe ?_
  rw [hstores]
  exact hstorage

/-- A step that stores a secret. -/
theorem Effect.some_stored {x : Secret S} (ha : ∀ b, a ≠ .wipe b) (hstores : s.stores a = some x)
    (hwipe : t.wipe = s.wipe) (hstorage : t.storage = s.storage.put x) : Effect s a t := by
  refine .call ha hwipe ?_
  rw [hstores]
  exact hstorage

theorem ensureLocalIdentity_frame (s : Phone S) :
    s.ensureLocalIdentity.1.wipe = s.wipe ∧ s.ensureLocalIdentity.1.storage = s.storage := by
  unfold ensureLocalIdentity
  split <;> exact ⟨rfl, rfl⟩

theorem loadContext_frame (s : Phone S) :
    s.loadContext.1.wipe = s.wipe ∧ s.loadContext.1.storage = s.storage := by
  unfold loadContext
  split
  · exact ⟨rfl, rfl⟩
  · exact s.ensureLocalIdentity_frame

theorem settle_frame (s : Phone S) (i : ℕ) (contactUserId createdAt : JsString)
    (result : Except Thrown (Option (DecodeResult S))) :
    (s.settle i contactUserId createdAt result).wipe = s.wipe ∧
      (s.settle i contactUserId createdAt result).storage = s.storage := by
  unfold settle
  split <;> exact ⟨rfl, rfl⟩

/-- A resumed call stores what `stores` tells. -/
theorem resume_effect {i : ℕ} {newDhs : S.X25519Secret} {random : SendRandom S} {call : Call S}
    (hi : s.calls[i]? = some call) (he : s.resume i newDhs random call = some t) :
    Effect s (.resume i newDhs random) t := by
  have ha : ∀ b, Action.resume i newDhs random ≠ Action.wipe b := fun b h => by cases h
  unfold resume at he
  split at he
  · split at he
    · cases he
      exact .none_stored ha (by rw [stores, hi]) rfl rfl
    · cases he
      exact .none_stored ha (by rw [stores, hi]) (settle_frame ..).1 (settle_frame ..).2
  · cases he
    exact .none_stored ha (by rw [stores, hi]) rfl rfl
  · cases he
  · cases he
    exact .none_stored ha (by rw [stores, hi]) (settle_frame ..).1 (settle_frame ..).2
  · split at he
    · cases he
      exact .none_stored ha (by rw [stores, hi]) rfl rfl
    · cases he
      exact .none_stored ha (by rw [stores, hi]) rfl rfl
  · cases he
    exact .some_stored ha (by rw [stores, hi]) rfl rfl
  · split at he
    · cases he
      exact .none_stored ha (by rw [stores, hi]) rfl rfl
    · cases he
      exact .none_stored ha (by rw [stores, hi]) rfl rfl
  · cases he
    exact .some_stored ha (by rw [stores, hi]) rfl rfl
  · cases he
    exact .some_stored ha (by rw [stores, hi]) rfl rfl
  · rename_i event
    cases he
    cases event with
    | none => exact .none_stored ha (by rw [stores, hi]) rfl rfl
    | some event => exact .none_stored ha (by rw [stores, hi]) rfl rfl
  · cases he

/-- Writing one entry of the identity stores that entry. -/
theorem persistKey_effect {identity : ℕ} {name : KeyName}
    (he : s.step (.persistKey identity name) = some t) :
    Effect s (.persistKey identity name) t := by
  have ha : ∀ b, Action.persistKey identity name ≠ (Action.wipe b : Action S) :=
    fun b h => by cases h
  simp only [step] at he
  split at he
  · rename_i keys left htask
    split at he
    · rename_i hmem
      have hstores : s.stores (.persistKey identity name) = some (.key name (keys name)) := by
        rw [stores, htask]
        exact if_pos hmem
      split at he
      · cases he
        exact .some_stored ha hstores rfl rfl
      · cases he
        exact .some_stored ha hstores rfl rfl
    · cases he
  · cases he

theorem step_effect (he : s.step a = some t) : Effect s a t := by
  cases a with
  | receive frame createdAt =>
    simp only [step] at he
    split at he
    · cases he
      exact .none_stored (fun b h => by cases h) rfl s.loadContext_frame.1 s.loadContext_frame.2
    · cases he
  | readUserId context =>
    simp only [step] at he
    split at he
    · cases he
      exact .none_stored (fun b h => by cases h) rfl rfl rfl
    · cases he
  | readKey identity name =>
    simp only [step] at he
    split at he
    · split at he
      · cases he
        exact .none_stored (fun b h => by cases h) rfl rfl rfl
      · cases he
    · cases he
  | keysRead identity kyber dilithium x25519 =>
    simp only [step] at he
    split at he
    · split at he
      · split at he
        · cases he
          exact .none_stored (fun b h => by cases h) rfl rfl rfl
        · cases he
          exact .none_stored (fun b h => by cases h) rfl rfl rfl
      · cases he
    · cases he
  | persistKey identity name => exact persistKey_effect he
  | contextLoaded i =>
    simp only [step] at he
    split at he
    · split at he
      · cases he
        exact .none_stored (fun b h => by cases h) rfl rfl rfl
      · cases he
    · cases he
  | found i bundle =>
    simp only [step] at he
    split at he
    · cases he
      exact .none_stored (fun b h => by cases h) rfl rfl rfl
    · cases he
  | send contactUserId draft createdAt connected screen =>
    simp only [step] at he
    split at he
    · cases he
      exact .none_stored (fun b h => by cases h) rfl rfl rfl
    · split at he
      · cases he
        exact .none_stored (fun b h => by cases h) rfl rfl rfl
      · cases he
        exact .none_stored (fun b h => by cases h) rfl rfl rfl
  | resume i newDhs random =>
    simp only [step] at he
    split at he
    · cases he
    · rename_i call hi
      exact resume_effect hi he
  | stopInboxListener =>
    cases he
    exact .none_stored (fun b h => by cases h) rfl rfl rfl
  | confirmDelete =>
    simp only [step] at he
    split at he
    · rename_i hwipe
      cases he
      exact .confirmDelete (fun b h => by cases h) rfl hwipe rfl rfl
    · cases he
  | wipe b =>
    simp only [step] at he
    split at he
    · cases he
    · rename_i w hwipe
      split at he
      · rename_i w' storage hstep
        cases he
        exact .wipe rfl hwipe rfl hstep
      · cases he

/-- A wipe that has started keeps what it has deleted away. -/
def Kept (s : Phone S) : Prop := ∀ w, s.wipe = some w → w.Keeps s.storage

/-- A secret is stored that the wipe has missed. -/
def Missed (s : Phone S) : Prop := ∃ w, s.wipe = some w ∧ w.Leaves s.storage

theorem Kept.step (hs : s.Kept) (htime : s.InTime a) (he : (machine S).step s a = some t) :
    t.Kept := by
  intro w hw
  cases step_effect he with
  | call ha hwipe hstorage =>
    rw [hwipe] at hw
    rw [hstorage]
    cases hstores : s.stores a with
    | none => exact hs w hw
    | some x => exact (hs w hw).put (htime.1 x w hstores hw)
  | confirmDelete ha hstores hnone hwipe hstorage =>
    rw [hwipe] at hw
    cases hw
    exact Wipe.start_keeps _
  | @wipe b w₀ w' ha hbefore hafter hstep =>
    rw [hafter] at hw
    cases hw
    exact (hs w₀ hbefore).step (htime.2 b ha) hstep

theorem Missed.step (hs : s.Missed) (he : (machine S).step s a = some t) : t.Missed := by
  obtain ⟨w, hw, hleaves⟩ := hs
  cases step_effect he with
  | call ha hwipe hstorage =>
    refine ⟨w, hwipe.trans hw, ?_⟩
    rw [hstorage]
    cases s.stores a with
    | none => exact hleaves
    | some x => exact hleaves.put x
  | confirmDelete ha hstores hnone hwipe hstorage =>
    rw [hw] at hnone
    cases hnone
  | @wipe b w₀ w' ha hbefore hafter hstep =>
    rw [hw] at hbefore
    cases hbefore
    exact ⟨w', hafter, hleaves.step hstep⟩

/-- A step that is not in time leaves something the wipe misses. -/
theorem missed_of_late (hlate : ¬s.InTime a) (he : (machine S).step s a = some t) : t.Missed := by
  cases step_effect he with
  | call ha hwipe hstorage =>
    have hstored : ∃ x w, s.stores a = some x ∧ s.wipe = some w ∧ ¬w.Covers x := by
      by_contra hnone
      refine hlate ⟨fun x w hx hw => ?_, fun b hb => absurd hb (ha b)⟩
      by_contra hcovers
      exact hnone ⟨x, w, hx, hw, hcovers⟩
    obtain ⟨x, w, hx, hw, hcovers⟩ := hstored
    refine ⟨w, hwipe.trans hw, ?_⟩
    rw [hstorage, hx]
    exact .of_put hcovers
  | confirmDelete ha hstores hnone hwipe hstorage =>
    refine absurd ⟨fun x w hx => ?_, fun b hb => absurd hb (ha b)⟩ hlate
    rw [hstores] at hx
    cases hx
  | @wipe b w w' ha hbefore hafter hstep =>
    refine ⟨w', hafter, Wipe.Leaves.of_unlisted (fun hfit => hlate ⟨fun x w hx => ?_, ?_⟩) hstep⟩
    · rw [ha] at hx
      cases hx
    · intro b' hb'
      rw [ha] at hb'
      cases hb'
      exact hfit

/-- After a resolved wipe the device is clean exactly if every step so far was in time. -/
theorem clean_iff {as : List (Action S)} (hinit : (machine S).init s)
    (he : (machine S).exec s as = some t) (hwiped : t.Wiped) :
    t.storage.Clean ↔ (machine S).Obeys InTime s as := by
  obtain ⟨w, hw, hresolved⟩ := hwiped
  constructor
  · intro hclean
    by_contra hlate
    obtain ⟨u, a, v, bs, hnot, hstep, hrun⟩ := Machine.exists_of_not_obeys hlate he
    obtain ⟨w', hw', hleaves⟩ := Machine.exec_invariant (fun _ _ _ hs he => Missed.step hs he)
      (missed_of_late hnot hstep) hrun
    exact hleaves.not_clean hclean
  · intro hobeys
    have hstart : s.Kept := by
      intro w hw
      rw [hinit.wipe] at hw
      cases hw
    have hkept := hobeys.invariant (fun _ _ _ hs htime he => Kept.step hs htime he) hstart he
    exact (hkept w hw).clean hresolved

/-- A session that has a sending chain. -/
def someSession : RatchetState Symbolic.suite where
  rootKey := .handshake 0 0 [] []
  dhsPublicKey := []
  dhsSecretKey := (TwoParty.someone .alice).x25519SecretKey
  dhrPublicKey := none
  sendingChainKey := some (.handshake 0 0 [] [])
  receivingChainKey := none
  sendMessageNumber := 0
  receiveMessageNumber := 0
  previousSendingChainLength := 0

/-- A phone with one contact, and nothing running. -/
def somePhone : Phone Symbolic.suite where
  storage := {
    userId := some []
    keys := fun name => some (generateIdentity (TwoParty.someone .alice).kyberSecretKey
      (TwoParty.someone .alice).dilithiumSecretKey (TwoParty.someone .alice).x25519SecretKey name)
    sessions := Function.update (fun _ => none) [98] (some someSession)
    sessionIndex := [[98]]
    messages := [] }
  wipe := none
  subscribed := true
  contextPromise := none
  inFlight := none
  contexts := []
  identities := []
  calls := []
  events := []

theorem init_somePhone : (machine Symbolic.suite).init somePhone :=
  ⟨rfl, rfl, rfl, rfl, rfl, rfl⟩

/-- The send goes on. -/
def sendResumed : Action Symbolic.suite :=
  .resume 0 (TwoParty.someone .alice).x25519SecretKey
    ⟨(TwoParty.someone .alice).x25519SecretKey, [], TwoParty.someRandom⟩

/-- A send to the contact, up to the write of its session. -/
def sendStarted : List (Action Symbolic.suite) :=
  [.send [98] [104, 105] [] true
      (some (TwoParty.someone .alice, (TwoParty.someone .bob).keyBundle [])), sendResumed]

/-- The whole wipe, of a device with the one contact in its index. -/
def wipeAll : List (Action Symbolic.suite) :=
  .confirmDelete :: .wipe .clearSession :: KeyName.all.map (fun name => .wipe (.deleteKey name)) ++
    [.wipe .readIndex, .wipe (.deleteSession [98] true), .wipe .settled, .wipe .deleteIndex,
      .wipe .clearAllMessages]

theorem wiped_of_any (h : s.wipe.any Wipe.resolved = true) : s.Wiped := by
  obtain ⟨w, hw, hresolved⟩ := (Option.any_eq_true Wipe.resolved s.wipe).mp h
  exact ⟨w, hw, hresolved⟩

/-- The send was under way and has stored nothing. -/
theorem clean_iff_started : ∃ t : Phone Symbolic.suite,
    (machine Symbolic.suite).exec somePhone (sendStarted ++ wipeAll) = some t ∧ t.Wiped ∧
      (t.storage.Clean ↔ (machine Symbolic.suite).Obeys InTime somePhone
        (sendStarted ++ wipeAll)) := by
  obtain ⟨t, ht, hp⟩ := (Option.any_eq_true (fun t => t.wipe.any Wipe.resolved)
    ((machine Symbolic.suite).exec somePhone (sendStarted ++ wipeAll))).mp (by decide)
  exact ⟨t, ht, wiped_of_any hp, clean_iff init_somePhone ht (wiped_of_any hp)⟩

/-- A send that was under way stores its session after the wipe has resolved. -/
theorem send_outlives : ∃ u t : Phone Symbolic.suite,
    (machine Symbolic.suite).init somePhone ∧
      (machine Symbolic.suite).exec somePhone (sendStarted ++ wipeAll) = some u ∧ u.Wiped ∧
      (machine Symbolic.suite).step u sendResumed = some t ∧ t.Wiped ∧
      t.storage.sessions [98] ≠ none ∧ ¬t.storage.Clean := by
  obtain ⟨u, hu, hp⟩ := (Option.any_eq_true (fun u => u.wipe.any Wipe.resolved &&
      ((machine Symbolic.suite).step u sendResumed).any fun t =>
        t.wipe.any Wipe.resolved && (t.storage.sessions [98]).isSome)
    ((machine Symbolic.suite).exec somePhone (sendStarted ++ wipeAll))).mp (by decide)
  obtain ⟨hwiped, hstep⟩ := (Bool.and_eq_true _ _).mp hp
  obtain ⟨t, ht, hp'⟩ := (Option.any_eq_true _ _).mp hstep
  obtain ⟨hwiped', hstored⟩ := (Bool.and_eq_true _ _).mp hp'
  have hne : t.storage.sessions [98] ≠ none := Option.isSome_iff_ne_none.mp hstored
  exact ⟨u, t, init_somePhone, hu, wiped_of_any hwiped, ht, wiped_of_any hwiped', hne,
    fun hclean => hne (hclean.sessions _)⟩

end Epistl.Deletion.Phone
