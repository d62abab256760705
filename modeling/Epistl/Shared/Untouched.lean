import Epistl.Shared.Injected

/-! # What a receive leaves behind

Whatever the dependencies return or throw, a receive returns. Its log shows what it did: a
failure wrote nothing, a success wrote nothing or the advanced state with the plaintext,
and a lock that was handed out was released once.
-/
namespace Epistl.Shared
open NotificationDecryptDeps
variable {S : Suite} {σ ρ : Type} (deps : NotificationDecryptDeps S σ ρ)

/-- The envelope of `r` advances `stored` to `nextState` and holds `plaintext`. -/
def Decodes (contactUserId : JsString) (r : Request) (newDhs : S.X25519Secret)
    (stored : StoredSession S) (plaintext : Bytes) (nextState : RatchetState S) : Prop :=
  ∃ senderKey, decodeRatchetEnvelope r.envelope
    ⟨stored.state, senderKey, deps.selfUserId, contactUserId⟩ newDhs =
      .ok (.success plaintext nextState)

/-- The record that is written for `r`. -/
def recordOf (r : Request) (plaintext : Bytes) : StoredDecrypted :=
  ⟨deps.sha256 r.envelope, plaintext⟩

/-- What is logged between the lock and its release. -/
inductive Held (contactUserId : JsString) (r : Request) (newDhs : S.X25519Secret) :
    ReceiveResult → List (Effect S ρ) → Prop
  /-- the read found nothing or threw -/
  | unread {result : ReceiveResult} : Held contactUserId r newDhs result []
  /-- it ended before the write -/
  | unwritten {result : ReceiveResult} (stored : StoredSession S) :
      Held contactUserId r newDhs result [.read contactUserId stored]
  /-- the write had no effect -/
  | refused {result : ReceiveResult} (stored : StoredSession S) (state : RatchetState S)
      (record : StoredDecrypted) {answer : Option WriteResult} :
      (∀ generation, answer ≠ some (.written generation)) →
        Held contactUserId r newDhs result [.read contactUserId stored,
          .wrote contactUserId state stored.generation r.messageId record answer]
  | advanced {stored : StoredSession S} {plaintext : Bytes} {nextState : RatchetState S}
      (generation : ℕ) : Decodes deps contactUserId r newDhs stored plaintext nextState →
        Held contactUserId r newDhs (.success plaintext) [.read contactUserId stored,
          .wrote contactUserId nextState stored.generation r.messageId
            (recordOf deps r plaintext) (some (.written generation))]

/-- The log of a call of `receiveLocked`. -/
inductive Traced (contactUserId : JsString) (r : Request) (newDhs : S.X25519Secret) :
    ReceiveResult → List (Effect S ρ) → Prop
  /-- no lock was handed out -/
  | refused : Traced contactUserId r newDhs (.failure .lockTimeout) []
  | held {result : ReceiveResult} {log : List (Effect S ρ)} (lock : ρ) :
      Held deps contactUserId r newDhs result log →
        Traced contactUserId r newDhs result (.acquired lock :: log ++ [.released lock])

variable {deps} {contactUserId : JsString} {r : Request} {newDhs : S.X25519Secret}
  {log log' : List (Effect S ρ)} {stored : StoredSession S} {plaintext : Bytes}
  {nextState : RatchetState S}

/-- The log is `log` so far. -/
def Logged (log : List (Effect S ρ)) (w : World S σ ρ) : Prop := w.log = log

/-- The log went on in one of the ways of `T`. -/
def Extends (log : List (Effect S ρ)) (T : List (Effect S ρ) → Prop) (w : World S σ ρ) : Prop :=
  ∃ more, w.log = log ++ more ∧ T more

theorem ensures_perform {α : Type} {call : EStateM Thrown σ α} {returned : α → List (Effect S ρ)}
    {threw : List (Effect S ρ)} :
    Ensures (Logged log) (perform call returned threw)
      (fun a => Logged (log ++ returned a)) (Logged (log ++ threw)) := by
  intro w hw
  rw [perform]
  generalize call w.inner = result
  cases result with
  | ok a t => exact congrArg (· ++ returned a) hw
  | error e t => exact congrArg (· ++ threw) hw

/-- A call that is not logged. -/
theorem ensures_silent {α : Type} {call : EStateM Thrown σ α} :
    Ensures (Logged log) (perform call (fun _ => []) []) (fun _ => Logged log) (Logged log) :=
  ensures_perform.mono (fun _ h => h) (fun _ _ h => by rwa [List.append_nil] at h)
    (fun _ h => by rwa [List.append_nil] at h)

theorem ensures_cachedFor {messageId : JsString} {digest : Bytes} :
    Ensures (Logged log) (deps.cachedFor contactUserId messageId digest)
      (fun _ => Logged log) (Logged log) := by
  refine ensures_silent.bind fun cached => ?_
  cases cached with
  | none => exact .pure fun _ h => h
  | some cached => exact .pure fun _ h => h

/-- What the `try` block ensures when `before` is logged and, from there on, `more`. -/
def Receives (deps : NotificationDecryptDeps S σ ρ) (contactUserId : JsString) (r : Request)
    (newDhs : S.X25519Secret) (before more : List (Effect S ρ))
    (m : EStateM Thrown (World S σ ρ) ReceiveResult) : Prop :=
  Ensures (Logged (before ++ more)) m
    (fun result => Extends before (Held deps contactUserId r newDhs result))
    (Extends before (Held deps contactUserId r newDhs (.failure .storageError)))

variable {before more : List (Effect S ρ)}

theorem Logged.extends {T : List (Effect S ρ) → Prop} {w : World S σ ρ}
    (h : Logged (before ++ more) w) (hT : T more) : Extends before T w :=
  ⟨more, h, hT⟩

theorem receives_ended {result : ReceiveResult}
    (h : Held deps contactUserId r newDhs result more) :
    Receives deps contactUserId r newDhs before more (return result) :=
  .pure fun _ hw => hw.extends h

theorem receives_decoded (hdecodes : Decodes deps contactUserId r newDhs stored plaintext nextState) :
    Receives deps contactUserId r newDhs before [.read contactUserId stored]
      (deps.receiveDecoded contactUserId r stored plaintext nextState) := by
  have hwrite : Ensures (Logged (before ++ [.read contactUserId stored]))
      (deps.writeSession contactUserId nextState stored.generation r.messageId
        (recordOf deps r plaintext))
      (fun answer => Logged (before ++ [.read contactUserId stored,
        .wrote contactUserId nextState stored.generation r.messageId
          (recordOf deps r plaintext) (some answer)]))
      (Extends before (Held deps contactUserId r newDhs (.failure .storageError))) := by
    apply ensures_perform.mono (fun _ h => h)
    · intro answer w hw
      rwa [List.append_assoc] at hw
    · intro w hw
      rw [List.append_assoc] at hw
      exact hw.extends (.refused stored nextState _ fun _ h => by cases h)
  refine hwrite.bind fun answer => ?_
  cases answer with
  | written generation => exact receives_ended (.advanced generation hdecodes)
  | stale =>
    have hrefused : ∀ result, Held deps contactUserId r newDhs result
        [.read contactUserId stored, .wrote contactUserId nextState stored.generation r.messageId
          (recordOf deps r plaintext) (some .stale)] :=
      fun _ => .refused stored nextState _ fun _ h => by cases h
    refine (ensures_cachedFor.mono (fun _ h => h) (fun _ _ h => h)
      fun _ hw => hw.extends (hrefused _)).bind fun winner => ?_
    cases winner with
    | none => exact receives_ended (hrefused _)
    | some winner => exact receives_ended (hrefused _)

theorem receives_resolved :
    Receives deps contactUserId r newDhs before [.read contactUserId stored]
      (deps.receiveResolved contactUserId r stored newDhs) := by
  refine (ensures_silent.mono (fun _ h => h) (fun _ _ h => h)
    fun _ hw => hw.extends (.unwritten stored)).bind fun senderKey => ?_
  cases senderKey with
  | none => exact receives_ended (.unwritten stored)
  | some senderKey =>
    dsimp only
    split
    · exact .throw fun _ hw => hw.extends (.unwritten stored)
    · exact receives_ended (.unwritten stored)
    · rename_i hdecode
      exact receives_decoded ⟨senderKey, hdecode⟩

variable (deps contactUserId r newDhs before)

theorem receives_held :
    Receives deps contactUserId r newDhs before [] (deps.receiveHeld contactUserId r newDhs) := by
  have hread : Ensures (Logged (before ++ [])) (deps.readSession contactUserId)
      (fun stored => Logged (before ++ stored.toList.map (.read contactUserId)))
      (Extends before (Held deps contactUserId r newDhs (.failure .storageError))) := by
    apply ensures_perform.mono (fun _ h => h)
    · intro stored w hw
      rwa [List.append_nil] at hw
    · intro w hw
      rw [List.append_nil] at hw
      exact hw.extends .unread
  refine hread.bind fun stored => ?_
  cases stored with
  | none => exact receives_ended .unread
  | some stored =>
    refine (ensures_cachedFor.mono (fun _ h => h) (fun _ _ h => h)
      fun _ hw => hw.extends (.unwritten stored)).bind fun cached => ?_
    cases cached with
    | some cached => exact receives_ended (.unwritten stored)
    | none =>
      dsimp only
      cases refusedVersion r.envelope with
      | some reason => exact receives_ended (.unwritten stored)
      | none => exact receives_resolved

/-- The lock is released whether or not that throws. -/
theorem ensures_release (lock : ρ) (result : ReceiveResult) :
    Ensures (Extends (before ++ [.acquired lock]) (Held deps contactUserId r newDhs result))
      (tryCatch (deps.releaseLock lock) fun _ => return ())
      (fun _ => Extends before (Traced deps contactUserId r newDhs result)) (fun _ => False) := by
  rintro w ⟨more, hlog, hheld⟩
  have hrelease : Ensures (Logged w.log) (tryCatch (deps.releaseLock lock) fun _ => return ())
      (fun _ => Logged (w.log ++ [.released lock])) (fun _ => False) :=
    ensures_perform.tryCatch fun _ => .pure fun _ h => h
  refine (hrelease.mono (fun _ h => h) ?_ fun _ h => h) w rfl
  intro _ t ht
  refine ⟨_, ?_, .held lock hheld⟩
  rw [ht, hlog, List.append_assoc, List.append_assoc, List.cons_append, List.cons_append,
    List.nil_append]

/-- `receiveLocked` returns, with one of the logs of `Traced`. -/
theorem ensures_receiveLocked :
    Ensures (Logged before) (deps.receiveLocked contactUserId r newDhs)
      (fun result => Extends before (Traced deps contactUserId r newDhs result))
      (fun _ => False) := by
  have hacquire : Ensures (Logged before) (deps.acquireLock contactUserId)
      (fun lock => Logged (before ++ lock.toList.map .acquired)) (Logged before) :=
    ensures_perform.mono (fun _ h => h) (fun _ _ h => h) fun _ h => by rwa [List.append_nil] at h
  have hcaught : Ensures (Logged before)
      (tryCatch (deps.acquireLock contactUserId) fun _ => return none)
      (fun lock => Logged (before ++ lock.toList.map .acquired)) (fun _ => False) := by
    refine hacquire.tryCatch fun _ => .pure fun w hw => ?_
    exact hw.trans (List.append_nil _).symm
  refine hcaught.bind fun lock => ?_
  cases lock with
  | none => exact .pure fun _ hw => hw.extends .refused
  | some lock =>
    have hheld : Ensures (Logged (before ++ [.acquired lock]))
        (tryCatch (deps.receiveHeld contactUserId r newDhs) fun _ => return .failure .storageError)
        (fun result => Extends (before ++ [.acquired lock]) (Held deps contactUserId r newDhs result))
        (fun _ => False) := by
      have hreceives := receives_held deps contactUserId r newDhs (before ++ [.acquired lock])
      rw [Receives, List.append_nil] at hreceives
      exact hreceives.tryCatch fun _ => .pure fun _ h => h
    refine hheld.bind fun result => ?_
    exact (ensures_release deps contactUserId r newDhs before lock result).bind fun _ =>
      .pure fun _ h => h

variable {deps contactUserId r newDhs before} {result : ReceiveResult}

/-- What a receive with this log may have done. -/
structure Settled (deps : NotificationDecryptDeps S σ ρ) (contactUserId : JsString) (r : Request)
    (newDhs : S.X25519Secret) (result : ReceiveResult) (log : List (Effect S ρ)) : Prop where
  failure {reason : NotificationDecryptFailureReason} : result = .failure reason →
    ∀ stores, applied log stores = stores
  success {plaintext : Bytes} : result = .success plaintext →
    (∀ stores, applied log stores = stores) ∨
      ∃ stored nextState, Effect.read contactUserId stored ∈ log ∧
        Decodes deps contactUserId r newDhs stored plaintext nextState ∧
        ∀ stores, applied log stores = Function.update stores contactUserId {
          session := some ⟨nextState, stored.generation + 1⟩
          decrypted := Function.update (stores contactUserId).decrypted r.messageId
            (some ⟨deps.sha256 r.envelope, plaintext⟩) }
  locked : (log.filterMap Effect.lockAcquired).length ≤ 1
  released : log.filterMap Effect.lockReleased = log.filterMap Effect.lockAcquired

theorem applied_append (log log' : List (Effect S ρ)) (stores : JsString → SessionStore S) :
    applied (log ++ log') stores = applied log' (applied log stores) :=
  List.foldl_append

/-- Locking has no effect on what is stored. -/
theorem applied_locked (lock : ρ) (log : List (Effect S ρ)) (stores : JsString → SessionStore S) :
    applied (.acquired lock :: log ++ [.released lock]) stores = applied log stores := by
  rw [List.cons_append]
  exact applied_append log [.released lock] stores

theorem Held.no_lock {log : List (Effect S ρ)} (h : Held deps contactUserId r newDhs result log) :
    log.filterMap Effect.lockAcquired = [] ∧ log.filterMap Effect.lockReleased = [] := by
  cases h <;> exact ⟨rfl, rfl⟩

/-- A write that is refused leaves the store as it is. -/
theorem applied_refused {state : RatchetState S} {record : StoredDecrypted}
    {answer : Option WriteResult} {generation : ℕ} {messageId : JsString}
    (h : ∀ generation, answer ≠ some (.written generation)) (stores : JsString → SessionStore S) :
    (Effect.wrote contactUserId state generation messageId record answer : Effect S ρ).apply
      stores = stores := by
  cases answer with
  | none => rfl
  | some answer =>
    cases answer with
    | written generation => exact absurd rfl (h generation)
    | stale => rfl

theorem Held.applied {log : List (Effect S ρ)} (h : Held deps contactUserId r newDhs result log) :
    (∀ stores, Shared.applied log stores = stores) ∨
      ∃ stored plaintext nextState, result = .success plaintext ∧
        Effect.read contactUserId stored ∈ log ∧
        Decodes deps contactUserId r newDhs stored plaintext nextState ∧
        ∀ stores, Shared.applied log stores = Function.update stores contactUserId {
          session := some ⟨nextState, stored.generation + 1⟩
          decrypted := Function.update (stores contactUserId).decrypted r.messageId
            (some ⟨deps.sha256 r.envelope, plaintext⟩) } := by
  cases h with
  | unread => exact .inl fun _ => rfl
  | unwritten stored => exact .inl fun _ => rfl
  | refused stored state record hanswer => exact .inl fun stores => applied_refused hanswer stores
  | @advanced stored plaintext nextState generation hdecodes =>
    exact .inr ⟨stored, plaintext, nextState, rfl, List.mem_cons_self, hdecodes, fun _ => rfl⟩

theorem Traced.settled {log : List (Effect S ρ)}
    (h : Traced deps contactUserId r newDhs result log) :
    Settled deps contactUserId r newDhs result log := by
  cases h with
  | refused => exact ⟨fun _ _ => rfl, fun _ => .inl fun _ => rfl, Nat.zero_le _, rfl⟩
  | @held _ log lock hheld =>
    obtain ⟨hacquired, hreleased⟩ := hheld.no_lock
    refine ⟨?_, ?_, ?_, ?_⟩
    · intro reason he stores
      rw [applied_locked]
      rcases hheld.applied with hkept | ⟨_, _, _, he', -⟩
      · exact hkept stores
      · rw [he] at he'
        cases he'
    · intro plaintext he
      rcases hheld.applied with hkept | ⟨stored, _, nextState, he', hread, hdecodes, hwritten⟩
      · left
        intro stores
        rw [applied_locked]
        exact hkept stores
      · rw [he] at he'
        cases he'
        right
        refine ⟨stored, nextState, ?_, hdecodes, fun stores => ?_⟩
        · exact List.mem_append_left _ (List.mem_cons_of_mem _ hread)
        · rw [applied_locked]
          exact hwritten stores
    · simp only [List.cons_append, List.filterMap_cons, List.filterMap_append, List.filterMap_nil,
        Effect.lockAcquired, hacquired, List.append_nil, List.length_singleton, Nat.le_refl]
    · simp only [List.cons_append, List.filterMap_cons, List.filterMap_append, List.filterMap_nil,
        Effect.lockAcquired, Effect.lockReleased, hacquired, hreleased, List.nil_append,
        List.append_nil]

variable (deps newDhs)

theorem receiveLocked_returns (contactUserId : JsString) (r : Request) (w : World S σ ρ) :
    ∃ result t log, deps.receiveLocked contactUserId r newDhs w = .ok result t ∧
      t.log = w.log ++ log ∧ Settled deps contactUserId r newDhs result log := by
  obtain ⟨result, t, hrun, log, hlog, htraced⟩ :=
    (ensures_receiveLocked deps contactUserId r newDhs w.log).returns (s := w) rfl
  exact ⟨result, t, log, hrun, hlog, htraced.settled⟩

/-- `receiveEnvelopeShared` is `receiveLocked`. -/
theorem receiveEnvelopeShared_eq (contactUserId : JsString) (r : Request) (w : World S σ ρ) :
    deps.receiveEnvelopeShared contactUserId r newDhs w =
      deps.receiveLocked contactUserId r newDhs w := by
  rw [receiveEnvelopeShared]
  cases h : deps.receiveLocked contactUserId r newDhs w with
  | ok result t =>
    rw [bind_of_ok h]
    cases result <;> rfl
  | error e t => exact bind_of_error h

/-- Whatever the dependencies do, every receive returns and is settled. A fetch that fails
leaves nothing behind. -/
theorem receives_settle (w : World S σ ρ) :
    (∀ contactUserId r, ∃ result t log,
      deps.receiveLocked contactUserId r newDhs w = .ok result t ∧ t.log = w.log ++ log ∧
        Settled deps contactUserId r newDhs result log) ∧
    (∀ contactUserId r, ∃ result t log,
      deps.receiveEnvelopeShared contactUserId r newDhs w = .ok result t ∧ t.log = w.log ++ log ∧
        Settled deps contactUserId r newDhs result log) ∧
    ∀ fromUserId, ∃ result t log,
      deps.notificationDecrypt fromUserId newDhs w = .ok (result.preview fromUserId) t ∧
        t.log = w.log ++ log ∧
        match deps.fetchEnvelope fromUserId w.inner with
        | .ok (some r) _ => Settled deps fromUserId r newDhs result log
        | _ => result = .failure .fetchFailed ∧ log = [] := by
  refine ⟨fun contactUserId r => receiveLocked_returns deps newDhs contactUserId r w, ?_, ?_⟩
  · intro contactUserId r
    rw [receiveEnvelopeShared_eq]
    exact receiveLocked_returns deps newDhs contactUserId r w
  · intro fromUserId
    rw [notificationDecrypt]
    cases hfetch : deps.fetchEnvelope fromUserId w.inner with
    | error e t =>
      have hcaught : tryCatch (perform (deps.fetchEnvelope fromUserId) (fun _ => []) [])
          (fun _ => return none) w = .ok none ⟨t, w.log ++ []⟩ := by
        rw [tryCatch_apply, perform, hfetch]
        rfl
      rw [bind_of_ok hcaught]
      exact ⟨.failure .fetchFailed, ⟨t, w.log ++ []⟩, [], rfl, rfl, rfl, rfl⟩
    | ok r t =>
      have hfetched : tryCatch (perform (deps.fetchEnvelope fromUserId) (fun _ => []) [])
          (fun _ => return none) w = .ok r ⟨t, w.log ++ []⟩ := by
        rw [tryCatch_apply, perform, hfetch]
      rw [bind_of_ok hfetched]
      cases r with
      | none => exact ⟨.failure .fetchFailed, ⟨t, w.log ++ []⟩, [], rfl, rfl, rfl, rfl⟩
      | some r =>
        obtain ⟨result, t', log, hrun, hlog, hsettled⟩ :=
          receiveLocked_returns deps newDhs fromUserId r ⟨t, w.log ++ []⟩
        refine ⟨result, t', log, bind_of_ok hrun, ?_, hsettled⟩
        rw [hlog, List.append_nil]

end Epistl.Shared
