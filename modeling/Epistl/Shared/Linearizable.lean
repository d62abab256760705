import Epistl.Ratchet.Agreement
import Epistl.Shared.Invariant

/-! # The shared session is linearizable

Whatever the processes do at the same time, the store goes through undivided calls of
`receiveLocked`, each of them at the moment at which its process returns. The lock plays
no part.
-/
namespace Epistl.Shared
variable {S : Suite}

/-- The event is how a request came to this plaintext. -/
def Event.Answers (r : Request) (plaintext : Bytes) : Event S → Prop
  | .advanced r' _ _ plaintext' | .replied r' plaintext' => r' = r ∧ plaintext' = plaintext
  | .deleted _ => False

namespace System
variable (deps : Deps) (contact : Identity S)

/-- No two envelopes of the contact have one digest. -/
def CollisionFree (s : System S) : Prop :=
  ∀ x ∈ s.produced, ∀ y ∈ s.produced,
    deps.sha256 (x.envelope contact) = deps.sha256 (y.envelope contact) →
    x.envelope contact = y.envelope contact

structure Linearizable (session : Option (StoredSession S)) (s : System S) : Prop where
  /-- What happened is a run of undivided calls, and it ends in what is stored. -/
  atomic : (atomic deps session).exec ⟨session, fun _ => none⟩ s.history = some s.store
  /-- A call that returns a plaintext takes its place in that run as it returns. -/
  returns {a : Action S} {t : System S} {i : ℕ} {r : Request} {plaintext : Bytes} :
    s.Permits contact a → s.step deps a = some t → s.calls[i]? ≠ t.calls[i]? →
    t.calls[i]? = some (.returned (some r) (.success plaintext)) →
    ∃ event, t.history = s.history ++ [event] ∧ event.Answers r plaintext
  /-- An advance is decoded from the session it replaces, and raises the generation by one. -/
  advance {a : Action S} {t : System S} {r : Request} {senderKey : Bytes}
    {newDhs : S.X25519Secret} {plaintext : Bytes} :
    s.Permits contact a → s.step deps a = some t →
    t.history = s.history ++ [.advanced r senderKey newDhs plaintext] →
    ∃ (i : ℕ) (stored : StoredSession S) (nextState : RatchetState S),
      s.calls[i]? = some (.writing r stored senderKey newDhs plaintext nextState) ∧
      s.store.session = some stored ∧ t.store.session = some ⟨nextState, stored.generation + 1⟩ ∧
      decode deps r stored senderKey newDhs = .ok (plaintext, nextState)
  /-- No envelope advances the ratchet twice. -/
  once : (s.advances.map fun a => a.1.envelope).Nodup
  /-- A plaintext from the cache was decrypted from an envelope with the same digest. -/
  cached {r : Request} {plaintext : Bytes} : .replied r plaintext ∈ s.history →
    ∃ r', (r', plaintext) ∈ s.advances ∧ r'.digest deps = r.digest deps
  /-- A returned plaintext is the envelope's own. -/
  own {r : Request} {plaintext : Bytes} :
    .returned (some r) (.success plaintext) ∈ s.calls → s.CollisionFree deps contact →
    ∀ message ∈ s.produced, message.envelope contact = r.envelope → message.plaintext = plaintext

variable {deps : Deps} {contact : Identity S} {session : Option (StoredSession S)}
  {s t : System S} {r : Request} {stored : StoredSession S} {senderKey plaintext : Bytes}
  {newDhs : S.X25519Secret} {nextState : RatchetState S} {store : SessionStore S} {call : Call S}
  {i : ℕ}

/-- The plaintext a call has returned. -/
def answered : Call S → Option (Request × Bytes)
  | .returned (some r) (.success plaintext) => some (r, plaintext)
  | _ => none

/-- What a step does to the calls and to the history. -/
inductive Effect (deps : Deps) (s t : System S) : Prop
  | environment : t.calls = s.calls → t.history = s.history → Effect deps s t
  | deleted (messageId : JsString) : t.calls = s.calls →
      t.history = s.history ++ [.deleted messageId] → Effect deps s t
  | entered (call : Call S) : answered call = none → t.calls = s.calls ++ [call] →
      t.history = s.history → Effect deps s t
  | moved (i : ℕ) (call : Call S) : answered call = none → t.calls = s.calls.set i call →
      t.history = s.history → Effect deps s t
  | replied (i : ℕ) (r : Request) (plaintext : Bytes) :
      t.calls = s.calls.set i (.returned (some r) (.success plaintext)) →
      t.history = s.history ++ [.replied r plaintext] → Effect deps s t
  | advanced (i : ℕ) (r : Request) (stored : StoredSession S) (senderKey : Bytes)
      (newDhs : S.X25519Secret) (plaintext : Bytes) (nextState : RatchetState S)
      (result : ReceiveResult) :
      s.calls[i]? = some (.writing r stored senderKey newDhs plaintext nextState) →
      writeDecoded deps r stored plaintext nextState s.store = some t.store →
      result = .success plaintext ∨ result = .failure .storageError →
      t.calls = s.calls.set i (.returned (some r) result) →
      t.history = s.history ++ [.advanced r senderKey newDhs plaintext] → Effect deps s t

theorem step_effect {a : Action S} (ht : s.step deps a = some t) : Effect deps s t := by
  cases a with
  | generate secret | produce message =>
    cases ht
    exact .environment rfl rfl
  | deleteDecrypted messageId =>
    cases ht
    exact .deleted messageId rfl rfl
  | notificationDecrypt | receiveEnvelopeShared r =>
    cases ht
    exact .entered _ rfl rfl rfl
  | fetched i r =>
    simp only [System.step] at ht
    split at ht
    · cases ht
      exact .moved i _ rfl rfl rfl
    · cases ht
      exact .moved i _ rfl rfl rfl
    · cases ht
  | acquired i granted =>
    simp only [System.step] at ht
    split at ht
    · cases ht
      split
      · exact .moved i _ rfl rfl rfl
      · exact .moved i _ rfl rfl rfl
    · cases ht
  | read i throws =>
    simp only [System.step] at ht
    split at ht
    · split at ht
      · cases ht
        exact .moved i _ rfl rfl rfl
      · split at ht
        · cases ht
          exact .moved i _ rfl rfl rfl
        · cases ht
          exact .moved i _ rfl rfl rfl
    · cases ht
  | checked i throws =>
    simp only [System.step] at ht
    split at ht
    · cases ht
      split
      · exact .moved i _ rfl rfl rfl
      · unfold System.check
        split
        · exact .replied i _ _ rfl rfl
        · split
          · exact .moved i _ rfl rfl rfl
          · exact .moved i _ rfl rfl rfl
    · cases ht
  | resolved i senderKey newDhs =>
    simp only [System.step] at ht
    split at ht
    · cases ht
      exact .moved i _ rfl rfl rfl
    · cases ht
      unfold System.resolve
      split
      · exact .moved i _ rfl rfl rfl
      · split
        · exact .moved i _ rfl rfl rfl
        · exact .moved i _ rfl rfl rfl
    · cases ht
  | wrote i answer =>
    simp only [System.step] at ht
    split at ht
    · rename_i hi
      cases ht
      unfold System.write
      split
      · exact .moved i _ rfl rfl rfl
      · exact .moved i _ rfl rfl rfl
      · rename_i hw
        exact .advanced i _ _ _ _ _ _ _ hi hw (.inl rfl) rfl rfl
      · exact .moved i _ rfl rfl rfl
      · rename_i hw
        exact .advanced i _ _ _ _ _ _ _ hi hw (.inr rfl) rfl rfl
    · cases ht
  | rechecked i throws =>
    simp only [System.step] at ht
    split at ht
    · split at ht
      · cases ht
        exact .moved i _ rfl rfl rfl
      · split at ht
        · cases ht
          exact .replied i _ _ rfl rfl
        · cases ht
          exact .moved i _ rfl rfl rfl
    · cases ht

/-- A call that changed is the one that was set. -/
theorem eq_of_changed {calls : List (Call S)} {j : ℕ} {new : Call S}
    (hne : calls[i]? ≠ (calls.set j new)[i]?) (hi : (calls.set j new)[i]? = some call) :
    call = new := by
  by_cases hij : j = i
  · subst hij
    rw [List.getElem?_set_self'] at hi
    obtain ⟨_, -, rfl⟩ := Option.map_eq_some_iff.mp hi
    rfl
  · rw [List.getElem?_set_ne hij] at hne
    exact absurd rfl hne

theorem Effect.returns (h : Effect deps s t) (hne : s.calls[i]? ≠ t.calls[i]?)
    (hi : t.calls[i]? = some (.returned (some r) (.success plaintext))) :
    ∃ event, t.history = s.history ++ [event] ∧ event.Answers r plaintext := by
  cases h with
  | environment hcalls | deleted _ hcalls =>
    rw [hcalls] at hne
    exact absurd rfl hne
  | entered call hcall hcalls =>
    exfalso
    rw [hcalls] at hne hi
    by_cases hlt : i < s.calls.length
    · exact hne (List.getElem?_append_left hlt).symm
    · rw [List.getElem?_append_right (Nat.le_of_not_lt hlt)] at hi
      obtain rfl := List.mem_singleton.mp (List.mem_of_getElem? hi)
      cases hcall
  | moved j call hcall hcalls =>
    rw [hcalls] at hne hi
    rw [← eq_of_changed hne hi] at hcall
    cases hcall
  | replied j r' p hcalls hhistory =>
    rw [hcalls] at hne hi
    cases eq_of_changed hne hi
    exact ⟨_, hhistory, rfl, rfl⟩
  | advanced j r' stored senderKey newDhs p nextState result _ _ hresult hcalls hhistory =>
    rw [hcalls] at hne hi
    cases eq_of_changed hne hi
    rcases hresult with hp | hp
    · cases hp
      exact ⟨_, hhistory, rfl, rfl⟩
    · cases hp

/-- The step of an advance is the write of the call that decoded it. -/
theorem Effect.advance (h : Effect deps s t)
    (hhistory : t.history = s.history ++ [.advanced r senderKey newDhs plaintext]) :
    ∃ (i : ℕ) (stored : StoredSession S) (nextState : RatchetState S),
      s.calls[i]? = some (.writing r stored senderKey newDhs plaintext nextState) ∧
      writeDecoded deps r stored plaintext nextState s.store = some t.store := by
  have hlast {event : Event S} (he : t.history = s.history ++ [event]) :
      event = .advanced r senderKey newDhs plaintext :=
    List.singleton_inj.mp (List.append_cancel_left (he.symm.trans hhistory))
  have hsame (he : t.history = s.history) : False := by
    rw [he] at hhistory
    simp at hhistory
  cases h with
  | environment _ he | entered _ _ _ he | moved _ _ _ _ he => exact (hsame he).elim
  | deleted _ _ he => cases hlast he
  | replied _ _ _ _ he => cases hlast he
  | advanced i r' stored senderKey newDhs p nextState result hi hw _ _ he =>
    cases hlast he
    exact ⟨i, stored, nextState, hi, hw⟩

/-- For any number of processes and in every order of their store operations, a broken
lock included, the shared session is linearizable. -/
theorem linearizable (hS : S.Ideal) (h : (machine deps session).Reach (Permits contact) s) :
    Linearizable deps contact session s where
  atomic := (inv_of_reach hS h).atomic
  returns _ ht hne hi := (step_effect ht).returns hne hi
  advance {a t r senderKey newDhs plaintext} hp ht hhistory := by
    obtain ⟨i, stored, nextState, hi, hw⟩ := (step_effect ht).advance hhistory
    obtain ⟨-, hseen, -, -, hdecode, -, -⟩ :=
      (inv_of_reach hS h).sound _ (List.mem_of_getElem? hi)
    refine ⟨i, stored, nextState, hi, hseen.written hw, ?_, hdecode⟩
    rw [(writeDecoded_some hw).2]
  once := (inv_of_reach hS h).once
  cached hr := (inv_of_reach hS h).cached _ _ hr
  own {r plaintext} hcall hfree message hm he := by
    have hinv := inv_of_reach hS h
    obtain ⟨-, r', hr', hdigest⟩ := hinv.sound _ hcall
    obtain ⟨x, hx, hxe⟩ := hinv.honest _ hr'
    have hsame : x.envelope contact = message.envelope contact := by
      refine hfree x hx message hm ?_
      rw [hxe, he]
      exact hdigest
    exact hinv.own _ hr' message (hsame.symm.trans hxe)

/-- Two calls on one envelope, both past the lock and both with the envelope decoded, when
neither has written yet. -/
def contest (s : System S) (r : Request) (stored : StoredSession S) (senderKey plaintext : Bytes)
    (newDhs newDhs' : S.X25519Secret) (nextState nextState' : RatchetState S) : System S :=
  { s with
    calls := [.writing r stored senderKey newDhs plaintext nextState,
      .writing r stored senderKey newDhs' plaintext nextState']
    ours := newDhs' :: newDhs :: s.ours }

/-- The lock is of no use and both calls decode the envelope. -/
theorem reach_contest {newDhs' : S.X25519Secret} {nextState' : RatchetState S}
    (hinit : Init (some stored) s) (hr : s.Honest contact r)
    (hversion : refusedVersion r.envelope = none)
    (hdecode : decode deps r stored senderKey newDhs = .ok (plaintext, nextState))
    (hdecode' : decode deps r stored senderKey newDhs' = .ok (plaintext, nextState'))
    (hp : s.Permits contact (.resolved 0 (some (some senderKey)) newDhs))
    (hp' : s.Permits contact (.resolved 1 (some (some senderKey)) newDhs'))
    (hne : newDhs' ≠ newDhs) :
    (machine deps (some stored)).Reach (Permits contact)
      (s.contest r stored senderKey plaintext newDhs newDhs' nextState nextState') := by
  let R := (machine deps (some stored)).Reach (Permits contact)
  have h0 : R s := .init hinit
  obtain ⟨store, calls, ours, theirs, produced, history⟩ := s
  obtain rfl : store = ⟨some stored, fun _ => none⟩ := hinit.store
  obtain rfl : calls = [] := hinit.calls
  let f : List (Call S) → List S.X25519Secret → System S := fun calls ours =>
    ⟨⟨some stored, fun _ => none⟩, calls, ours, theirs, produced, history⟩
  have h1 : R (f [.fetching] ours) := .step (a := .notificationDecrypt) h0 trivial rfl
  have h2 : R (f [.acquiring r] ours) := .step (a := .fetched 0 (some r)) h1 hr rfl
  have h3 : R (f [.acquiring r, .acquiring r] ours) :=
    .step (a := .receiveEnvelopeShared r) h2 hr rfl
  have h4 : R (f [.reading r, .acquiring r] ours) := .step (a := .acquired 0 true) h3 trivial rfl
  have h5 : R (f [.reading r, .reading r] ours) := .step (a := .acquired 1 true) h4 trivial rfl
  have h6 : R (f [.checking r stored, .reading r] ours) :=
    .step (a := .read 0 false) h5 trivial rfl
  have h7 : R (f [.checking r stored, .checking r stored] ours) :=
    .step (a := .read 1 false) h6 trivial rfl
  have hcheck (i : ℕ) (calls : List (Call S)) :
      (f calls ours).check deps i r stored = f (calls.set i (.resolving r stored)) ours := by
    simp only [System.check, cachedFor, f, hversion]
    rfl
  have h8 : R (f [.resolving r stored, .checking r stored] ours) :=
    .step (a := .checked 0 false) h7 trivial
      (congrArg some (hcheck 0 [.checking r stored, .checking r stored]))
  have h9 : R (f [.resolving r stored, .resolving r stored] ours) :=
    .step (a := .checked 1 false) h8 trivial
      (congrArg some (hcheck 1 [.resolving r stored, .checking r stored]))
  have h10 : R (f [.writing r stored senderKey newDhs plaintext nextState, .resolving r stored]
      (newDhs :: ours)) := by
    refine .step (a := .resolved 0 (some (some senderKey)) newDhs) h9 hp ?_
    simp only [machine, System.step, System.resolve, f, List.getElem?_cons_zero, hdecode]
    rfl
  refine .step (a := .resolved 1 (some (some senderKey)) newDhs') h10
    ⟨fun hmem => ?_, hp'.2.1, hp'.2.2⟩ ?_
  · rcases List.mem_cons.mp hmem with heq | hmem
    · exact hne heq
    · exact hp'.1 hmem
  · simp only [machine, System.step, System.resolve, f, List.getElem?_cons_succ,
      List.getElem?_cons_zero, hdecode']
    rfl

/-- One of the two wins, and the other finds what the winner stored. -/
theorem reach_settled {newDhs' : S.X25519Secret} {nextState' : RatchetState S}
    (h : (machine deps session).Reach (Permits contact)
      (s.contest r stored senderKey plaintext newDhs newDhs' nextState nextState'))
    (hstored : s.store = ⟨some stored, fun _ => none⟩) (hhistory : s.history = []) :
    ∃ t, (machine deps session).Reach (Permits contact) t ∧
      t.history = [.advanced r senderKey newDhs plaintext, .replied r plaintext] := by
  obtain ⟨store, calls, ours, theirs, produced, history⟩ := s
  obtain rfl : store = ⟨some stored, fun _ => none⟩ := hstored
  obtain rfl : history = [] := hhistory
  let won : SessionStore S := ⟨some ⟨nextState, stored.generation + 1⟩,
    Function.update (fun _ => none) r.messageId (some ⟨r.digest deps, plaintext⟩)⟩
  have hwon : writeDecoded deps r stored plaintext nextState ⟨some stored, fun _ => none⟩ =
      some won := writeDecoded_self rfl plaintext nextState
  have hlost : writeDecoded deps r stored plaintext nextState' won = none := by
    simp [writeDecoded, SessionStore.write, SessionStore.generation, won]
  have hcached : cachedFor deps won r = some plaintext := by
    simp [cachedFor, won, bytesEqual_iff.mpr]
  let f : List (Call S) → List (Event S) → System S := fun calls history =>
    ⟨won, calls, newDhs' :: newDhs :: ours, theirs, produced, history⟩
  have h1 : (machine deps session).Reach (Permits contact)
      (f [.returned (some r) (.success plaintext),
        .writing r stored senderKey newDhs' plaintext nextState']
        [.advanced r senderKey newDhs plaintext]) := by
    refine .step (a := .wrote 0 .result) h trivial ?_
    simp only [machine, System.step, System.write, contest, List.getElem?_cons_zero, hwon]
    rfl
  have h2 : (machine deps session).Reach (Permits contact)
      (f [.returned (some r) (.success plaintext), .rechecking r]
        [.advanced r senderKey newDhs plaintext]) := by
    refine .step (a := .wrote 1 .result) h1 trivial ?_
    simp only [machine, System.step, System.write, f, List.getElem?_cons_succ,
      List.getElem?_cons_zero, hlost]
    rfl
  refine ⟨f [.returned (some r) (.success plaintext), .returned (some r) (.success plaintext)]
    [.advanced r senderKey newDhs plaintext, .replied r plaintext],
    .step (a := .rechecked 1 false) h2 trivial ?_, rfl⟩
  simp only [machine, System.step, f, List.getElem?_cons_succ, List.getElem?_cons_zero, hcached,
    Bool.false_eq_true, if_false]
  rfl

theorem refusedVersion_ratchet {envelope : Bytes}
    (h : envelope.head? = some ratchetEnvelopeVersion) : refusedVersion envelope = none := by
  cases envelope with
  | nil => cases h
  | cons b rest =>
    cases h
    have hne : ratchetEnvelopeVersion ≠ handshakeEnvelopeVersion := by decide
    simp [refusedVersion, hne]

/-- Alice's message 0, decoded by two processes of Bob's at once. -/
theorem linearizable_raced :
    ∃ (deps : Deps) (session : Option (StoredSession Symbolic.suite)) (s : System Symbolic.suite)
      (r : Request) (senderKey plaintext : Bytes) (newDhs : Symbolic.Secret),
      s.history = [.advanced r senderKey newDhs plaintext, .replied r plaintext] ∧
      Linearizable deps (TwoParty.someone .alice) session s := by
  have hS := Symbolic.suite_ideal
  let alice := TwoParty.someone .alice
  let bob := TwoParty.someone .bob
  let secret (n : ℕ) (h : n < 256 ^ 32) : Symbolic.suite.X25519Secret := ⟨n, h⟩
  obtain ⟨c, hc, hpeer, hroot⟩ := Chain.exists_of_secrets hS (secret 2 (by decide))
    (secret 3 (by decide)) (Symbolic.Key.handshake 0 0 [] [])
  let stored : StoredSession Symbolic.suite := {
    state := {
      rootKey := .handshake 0 0 [] []
      dhsPublicKey := Symbolic.publicKey (secret 3 (by decide))
      dhsSecretKey := secret 3 (by decide)
      dhrPublicKey := none
      sendingChainKey := none
      receivingChainKey := none
      sendMessageNumber := 0
      receiveMessageNumber := 0
      previousSendingChainLength := 0 }
    generation := 1 }
  let deps : Deps := ⟨fun envelope => envelope, bob.userId, alice.userId⟩
  let message : Encoded Symbolic.suite := .ratchet c 0 0 [104, 105] bob.userId TwoParty.someRandom
  let d : Direction Symbolic.suite := ⟨alice.userId, bob.userId, alice.dilithiumSecretKey⟩
  let m : Sent := ⟨message.envelope alice, c.publicKey, [104, 105]⟩
  let r : Request := ⟨[], message.envelope alice⟩
  let senderKey := Symbolic.suite.dilithiumPublicKey alice.dilithiumSecretKey
  let s : System Symbolic.suite :=
    ⟨⟨some stored, fun _ => none⟩, [], [secret 3 (by decide)], [secret 2 (by decide)], [message], []⟩
  have hdecode (newDhs : Symbolic.suite.X25519Secret) :
      ∃ next, decode deps r stored senderKey newDhs = .ok ([104, 105], next) := by
    have hm : IsRatchet d c 0 m := ⟨rfl, 0, TwoParty.someRandom, rfl⟩
    obtain ⟨f, -, -, -, hd⟩ :=
      decode_new (y := stored.state) hS newDhs hm (by simp [stored]) hpeer hroot
    exact ⟨_, decode_eq_ok.mpr hd⟩
  have hinit : Init (some stored) s := by
    refine ⟨rfl, rfl, rfl, ?_, ?_, ?_⟩
    · rintro _ ⟨⟩
      exact List.mem_singleton_self _
    · intro x hx hx'
      cases (List.mem_singleton.mp hx).symm.trans (List.mem_singleton.mp hx')
    · intro x hx
      cases List.mem_singleton.mp hx
      exact List.mem_singleton.mpr hc
  have hfresh (i n : ℕ) (h : n < 256 ^ 32) (hn : 3 < n) :
      s.Permits alice (.resolved i (some (some senderKey)) (secret n h)) := by
    refine ⟨fun hx => ?_, fun hx => ?_, fun x hx heq => ?_⟩
    · have := congrArg Symbolic.Secret.val (List.mem_singleton.mp hx)
      simp only [secret] at this
      omega
    · have := congrArg Symbolic.Secret.val (List.mem_singleton.mp hx)
      simp only [secret] at this
      omega
    · cases List.mem_singleton.mp hx
      have := congrArg Symbolic.Secret.val (hpeer.symm.trans heq)
      simp only [secret] at this
      omega
  obtain ⟨next, hd⟩ := hdecode (secret 4 (by decide))
  obtain ⟨next', hd'⟩ := hdecode (secret 5 (by decide))
  have hhonest : s.Honest alice r := ⟨message, List.mem_singleton_self _, rfl⟩
  have hcontest := reach_contest (s := s) hinit hhonest
    (refusedVersion_ratchet rfl) hd hd' (hfresh 0 4 (by decide) (by omega))
    (hfresh 1 5 (by decide) (by omega)) (by simp [secret])
  obtain ⟨t, ht, hhistory⟩ := reach_settled hcontest rfl rfl
  exact ⟨deps, some stored, t, r, senderKey, [104, 105], secret 4 (by decide), hhistory,
    linearizable hS ht⟩

end System
end Epistl.Shared
