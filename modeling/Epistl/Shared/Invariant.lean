import Epistl.Ratchet.Once
import Epistl.Shared.Calls
import Mathlib.Data.List.Nodup

/-! # What holds of a shared session

A call that read a session can only win while that session is the stored one, since
every write raises the generation. What the store has been through is a run of undivided
calls of `receiveLocked`.
-/
namespace Epistl.Shared
variable {S : Suite}

/-- The requests that advanced the ratchet, with the plaintexts they yielded. -/
def System.advances (s : System S) : List (Request × Bytes) := s.history.filterMap Event.advance

variable {deps : Deps} {contact : Identity S} {session : Option (StoredSession S)}
  {s t : System S} {r : Request} {stored : StoredSession S} {senderKey plaintext : Bytes}
  {newDhs : S.X25519Secret} {nextState : RatchetState S} {store : SessionStore S} {call : Call S}
  {i : ℕ}

section store

theorem cachedFor_some (h : cachedFor deps store r = some plaintext) :
    store.decrypted r.messageId = some ⟨r.digest deps, plaintext⟩ := by
  unfold cachedFor at h
  split at h
  · cases h
  · rename_i cached hc
    split at h
    · rename_i hd
      cases h
      rw [hc, ← bytesEqual_iff.mp hd]
    · cases h

theorem cachedFor_congr {store' : SessionStore S}
    (h : store'.decrypted r.messageId = store.decrypted r.messageId) :
    cachedFor deps store' r = cachedFor deps store r := by
  simp only [cachedFor, h]

theorem cachedFor_deleteDecrypted (messageId : JsString) (h : cachedFor deps store r = none) :
    cachedFor deps (store.deleteDecrypted messageId) r = none := by
  by_cases hr : r.messageId = messageId
  · simp [cachedFor, SessionStore.deleteDecrypted, hr]
  · rw [← h]
    apply cachedFor_congr
    exact Function.update_of_ne hr _ _

/-- A write succeeds at the generation that was read. -/
theorem writeDecoded_some {store' : SessionStore S}
    (h : writeDecoded deps r stored plaintext nextState store = some store') :
    store.generation = stored.generation ∧
      store' = ⟨some ⟨nextState, stored.generation + 1⟩,
        Function.update store.decrypted r.messageId (some ⟨r.digest deps, plaintext⟩)⟩ := by
  simp only [writeDecoded, SessionStore.write] at h
  split at h
  · rename_i hg
    exact ⟨hg, (Option.some.inj h).symm⟩
  · cases h

theorem writeDecoded_self (h : store.session = some stored) (plaintext : Bytes)
    (nextState : RatchetState S) :
    writeDecoded deps r stored plaintext nextState store =
      some ⟨some ⟨nextState, stored.generation + 1⟩,
        Function.update store.decrypted r.messageId (some ⟨r.digest deps, plaintext⟩)⟩ := by
  have hg : store.generation = stored.generation := by simp only [SessionStore.generation, h]
  simp only [writeDecoded, SessionStore.write, if_pos hg]

theorem decode_eq_ok : decode deps r stored senderKey newDhs = .ok (plaintext, nextState) ↔
    decodeRatchetEnvelope r.envelope ⟨stored.state, senderKey, deps.selfUserId, deps.contactUserId⟩
      newDhs = .ok (.success plaintext nextState) := by
  unfold decode
  constructor
  · intro h
    split at h
    · cases h
    · cases h
    · cases h
      assumption
  · intro h
    rw [h]

/-- An undivided call that advances the ratchet. -/
theorem receiveLocked_advanced (hsession : store.session = some stored)
    (hcached : cachedFor deps store r = none) (hversion : refusedVersion r.envelope = none)
    (hdecode : decode deps r stored senderKey newDhs = .ok (plaintext, nextState)) :
    receiveLocked deps r (some senderKey) newDhs store =
      (⟨some ⟨nextState, stored.generation + 1⟩,
        Function.update store.decrypted r.messageId (some ⟨r.digest deps, plaintext⟩)⟩,
        .success plaintext) := by
  simp only [receiveLocked, hsession, hcached, hversion, hdecode,
    writeDecoded_self hsession plaintext nextState]

/-- An undivided call that finds its plaintext in the cache. -/
theorem receiveLocked_cached (hsession : store.session.isSome = true)
    (hcached : cachedFor deps store r = some plaintext) (senderKey : Option Bytes)
    (newDhs : S.X25519Secret) :
    receiveLocked deps r senderKey newDhs store = (store, .success plaintext) := by
  obtain ⟨stored, hstored⟩ := Option.isSome_iff_exists.mp hsession
  simp only [receiveLocked, hstored, hcached]

/-- The events that answer a request are the undivided calls that return a plaintext. -/
theorem receiveLocked_success {store' : SessionStore S}
    (h : receiveLocked deps r (some senderKey) newDhs store = (store', .success plaintext)) :
    Event.step deps store (.advanced r senderKey newDhs plaintext) = some store' ∨
      store' = store ∧ Event.step deps store (.replied r plaintext) = some store := by
  cases hsession : store.session with
  | none => simp [receiveLocked, hsession] at h
  | some stored =>
    cases hcached : cachedFor deps store r with
    | none => exact .inl (by simp [Event.step, h, hcached])
    | some p =>
      rw [receiveLocked_cached (by rw [hsession]; rfl) hcached] at h
      cases h
      exact .inr ⟨rfl, if_pos ⟨by rw [hsession]; rfl, hcached⟩⟩

end store

section encoded
variable {message : Encoded S} {params : DecodeRatchetParams S}

/-- The contact's envelope is behind the session. -/
def Encoded.Behind (y : RatchetState S) : Encoded S → Prop
  | .handshake .. => True
  | .ratchet chain _ messageNumber .. => chain.Behind messageNumber y

/-- Only ratchet envelopes are accepted. -/
theorem Encoded.accepted (hd : decodeRatchetEnvelope (message.envelope contact) params newDhs =
      .ok (.success plaintext nextState)) :
    ∃ n, MadeRatchet contact message.chain n (message.envelope contact) ∧
      ∀ y, message.Behind y ↔ message.chain.Behind n y := by
  cases message with
  | handshake c kct p contactUserId random =>
    have hrefused : ∃ reason, decodeRatchetEnvelope
        ((Encoded.handshake c kct p contactUserId random).envelope contact) params newDhs =
          .ok (.failure reason) := decodeRatchetEnvelope_handshake params
    obtain ⟨reason, hr⟩ := hrefused
    cases hr.symm.trans hd
  | ratchet c pcl n p contactUserId random =>
    exact ⟨n, ⟨contactUserId, pcl, p, random, rfl⟩, fun _ => Iff.rfl⟩

theorem Encoded.plaintext_eq (hS : S.Ideal)
    (hd : decodeRatchetEnvelope (message.envelope contact) params newDhs =
      .ok (.success plaintext nextState)) : message.plaintext = plaintext := by
  cases message with
  | handshake c kct p contactUserId random =>
    obtain ⟨n, hm, -⟩ := Encoded.accepted hd
    cases hm.head
  | ratchet c pcl n p contactUserId random =>
    exact (decodeRatchetEnvelope_plaintext hS (c.length_publicKey hS) hd).symm

end encoded

namespace System

/-- The session was stored when it was read. -/
def Seen (s : System S) (stored : StoredSession S) : Prop :=
  s.store.session = some stored ∨
    ∃ current, s.store.session = some current ∧ stored.generation < current.generation

/-- What holds of everything but the calls. -/
structure Stored (deps : Deps) (contact : Identity S) (session : Option (StoredSession S))
    (s : System S) : Prop where
  atomic : (atomic deps session).exec ⟨session, fun _ => none⟩ s.history = some s.store
  disjoint : ∀ secret ∈ s.ours, secret ∉ s.theirs
  ours : ∀ stored, s.store.session = some stored → stored.state.dhsSecretKey ∈ s.ours
  produced : ∀ message ∈ s.produced, message.chain.secret ∈ s.theirs
  records : ∀ messageId record, s.store.decrypted messageId = some record →
    ∃ r, (r, record.plaintext) ∈ s.advances ∧ r.digest deps = record.envelopeDigest
  honest : ∀ a ∈ s.advances, s.Honest contact a.1
  own : ∀ a ∈ s.advances, ∀ message : Encoded S, message.envelope contact = a.1.envelope →
    message.plaintext = a.2
  behind : ∀ stored, s.store.session = some stored → ∀ a ∈ s.advances, ∃ message ∈ s.produced,
    message.envelope contact = a.1.envelope ∧ message.Behind stored.state
  once : (s.advances.map fun a => a.1.envelope).Nodup
  cached : ∀ r plaintext, .replied r plaintext ∈ s.history →
    ∃ r', (r', plaintext) ∈ s.advances ∧ r'.digest deps = r.digest deps

/-- What holds of a call. Where it read `stored`, that session is still the stored one
or the call is going to lose. -/
def Sound (deps : Deps) (contact : Identity S) (s : System S) : Call S → Prop
  | .fetching | .returned none _ | .returned (some _) (.failure _) => True
  | .acquiring r | .reading r => s.Honest contact r
  | .rechecking r => s.Honest contact r ∧ ∃ stored, s.Seen stored
  | .checking r stored => s.Honest contact r ∧ s.Seen stored
  | .resolving r stored => s.Honest contact r ∧ s.Seen stored ∧
      refusedVersion r.envelope = none ∧
      (s.store.session = some stored → cachedFor deps s.store r = none)
  | .writing r stored senderKey newDhs plaintext nextState => s.Honest contact r ∧ s.Seen stored ∧
      refusedVersion r.envelope = none ∧
      (s.store.session = some stored → cachedFor deps s.store r = none) ∧
      decode deps r stored senderKey newDhs = .ok (plaintext, nextState) ∧ newDhs ∈ s.ours ∧
      (s.store.session = some stored → ∀ a ∈ s.advances, ∃ message ∈ s.produced,
        message.envelope contact = a.1.envelope ∧ message.Behind stored.state ∧
          message.chain.peer ≠ newDhs)
  | .returned (some r) (.success plaintext) => s.Honest contact r ∧
      ∃ r', (r', plaintext) ∈ s.advances ∧ r'.digest deps = r.digest deps

structure Inv (deps : Deps) (contact : Identity S) (session : Option (StoredSession S))
    (s : System S) : Prop extends Stored deps contact session s where
  sound : ∀ call ∈ s.calls, s.Sound deps contact call

/-- What a step leaves of the state it starts from: the session stays, and no record is
added, or the generation goes up. -/
structure Grows (deps : Deps) (s t : System S) : Prop where
  ours : s.ours ⊆ t.ours
  produced : s.produced ⊆ t.produced
  advances : s.advances ⊆ t.advances
  store : (t.store.session = s.store.session ∧ t.advances = s.advances ∧
      ∀ r, cachedFor deps s.store r = none → cachedFor deps t.store r = none) ∨
    ∃ current new, s.store.session = some current ∧ t.store.session = some new ∧
      current.generation < new.generation

/-- A step that leaves the store and the advances alone. -/
theorem Grows.of_same (ours : s.ours ⊆ t.ours) (produced : s.produced ⊆ t.produced)
    (store : t.store = s.store) (advances : t.advances = s.advances) : Grows deps s t where
  ours := ours
  produced := produced
  advances := advances ▸ List.Subset.refl _
  store := .inl ⟨by rw [store], advances, fun r hr => by rw [store, hr]⟩

theorem Grows.honest (h : Grows deps s t) (hr : s.Honest contact r) : t.Honest contact r := by
  obtain ⟨message, hm, he⟩ := hr
  exact ⟨message, h.produced hm, he⟩

theorem Grows.seen (h : Grows deps s t) (hs : s.Seen stored) : t.Seen stored := by
  rcases h.store with ⟨hsession, -, -⟩ | ⟨current, new, hc, hn, hlt⟩
  · simpa only [Seen, hsession] using hs
  · refine .inr ⟨new, hn, ?_⟩
    rcases hs with hs | ⟨current', hc', hlt'⟩
    · cases hc.symm.trans hs
      exact hlt
    · cases hc.symm.trans hc'
      exact Nat.lt_trans hlt' hlt

/-- While a session that was read is the stored one, nothing has advanced since. -/
theorem Grows.unchanged (h : Grows deps s t) (hs : s.Seen stored)
    (ht : t.store.session = some stored) : s.store.session = some stored ∧
      t.advances = s.advances ∧
      ∀ r, cachedFor deps s.store r = none → cachedFor deps t.store r = none := by
  rcases h.store with ⟨hsession, hadvances, hcached⟩ | ⟨current, new, hc, hn, hlt⟩
  · exact ⟨hsession ▸ ht, hadvances, hcached⟩
  · exfalso
    cases hn.symm.trans ht
    rcases hs with hs | ⟨current', hc', hlt'⟩
    · cases hc.symm.trans hs
      exact Nat.lt_irrefl _ hlt
    · cases hc.symm.trans hc'
      omega

theorem Sound.grows (hs : s.Sound deps contact call) (h : Grows deps s t) :
    t.Sound deps contact call := by
  cases call with
  | fetching => trivial
  | acquiring r | reading r => exact h.honest hs
  | rechecking r =>
    obtain ⟨hr, stored, hseen⟩ := hs
    exact ⟨h.honest hr, stored, h.seen hseen⟩
  | checking r stored => exact ⟨h.honest hs.1, h.seen hs.2⟩
  | resolving r stored =>
    obtain ⟨hr, hseen, hversion, hcached⟩ := hs
    refine ⟨h.honest hr, h.seen hseen, hversion, fun ht => ?_⟩
    obtain ⟨hsession, -, hkeep⟩ := h.unchanged hseen ht
    exact hkeep r (hcached hsession)
  | writing r stored senderKey newDhs plaintext nextState =>
    obtain ⟨hr, hseen, hversion, hcached, hdecode, hours, hbehind⟩ := hs
    refine ⟨h.honest hr, h.seen hseen, hversion, fun ht => ?_, hdecode, h.ours hours,
      fun ht a ha => ?_⟩
    · obtain ⟨hsession, -, hkeep⟩ := h.unchanged hseen ht
      exact hkeep r (hcached hsession)
    · obtain ⟨hsession, hadvances, -⟩ := h.unchanged hseen ht
      obtain ⟨message, hm, hrest⟩ := hbehind hsession a (hadvances ▸ ha)
      exact ⟨message, h.produced hm, hrest⟩
  | returned r result =>
    cases r with
    | none => trivial
    | some r =>
      cases result with
      | failure reason => trivial
      | success plaintext =>
        obtain ⟨hr, r', hr', hdigest⟩ := hs
        exact ⟨h.honest hr, r', h.advances hr', hdigest⟩

/-- A call moves on after a step on everything else. -/
theorem Inv.put (h : Inv deps contact session s) (hg : Grows deps s t)
    (ht : Stored deps contact session t) (hcalls : t.calls = s.calls)
    (hc : t.Sound deps contact call) : Inv deps contact session (t.put i call) where
  toStored := ⟨ht.1, ht.2, ht.3, ht.4, ht.5, ht.6, ht.7, ht.8, ht.9, ht.10⟩
  sound c hm := by
    have hput : Grows deps t (t.put i call) := .of_same (fun _ => id) (fun _ => id) rfl rfl
    rcases List.mem_or_eq_of_mem_set hm with hm | rfl
    · exact ((h.sound c (hcalls ▸ hm)).grows hg).grows hput
    · exact hc.grows hput

/-- A call moves on and nothing else changes. -/
theorem Inv.move (h : Inv deps contact session s) (hc : s.Sound deps contact call) :
    Inv deps contact session (s.put i call) :=
  h.put (.of_same (fun _ => id) (fun _ => id) rfl rfl) h.toStored rfl hc

theorem Inv.fail (h : Inv deps contact session s) (i : ℕ) (r : Request)
    (reason : NotificationDecryptFailureReason) : Inv deps contact session (s.fail i r reason) :=
  h.move trivial

/-- A call is started. -/
theorem Inv.enter (h : Inv deps contact session s) (hc : s.Sound deps contact call) :
    Inv deps contact session { s with calls := s.calls ++ [call] } where
  toStored := ⟨h.1.1, h.1.2, h.1.3, h.1.4, h.1.5, h.1.6, h.1.7, h.1.8, h.1.9, h.1.10⟩
  sound c hm := by
    have hg : Grows deps s { s with calls := s.calls ++ [call] } :=
      .of_same (fun _ => id) (fun _ => id) rfl rfl
    rcases List.mem_append.mp hm with hm | hm
    · exact (h.sound c hm).grows hg
    · cases List.mem_singleton.mp hm
      exact hc.grows hg

/-- The environment moves. -/
theorem Inv.environment (h : Inv deps contact session s) (hg : Grows deps s t)
    (ht : Stored deps contact session t) (hcalls : t.calls = s.calls) :
    Inv deps contact session t where
  toStored := ht
  sound c hm := (h.sound c (hcalls ▸ hm)).grows hg

/-- One more event, at the end of the run. -/
theorem Stored.event (h : Stored deps contact session s) {event : Event S}
    {store : SessionStore S} (he : Event.step deps s.store event = some store) :
    (Shared.atomic deps session).exec ⟨session, fun _ => none⟩ (s.history ++ [event]) =
      some store :=
  Machine.exec_concat.mpr ⟨s.store, h.atomic, he⟩

theorem Inv.generate (h : Inv deps contact session s) {secret : S.X25519Secret}
    (hfresh : secret ∉ s.ours) :
    Inv deps contact session { s with theirs := secret :: s.theirs } := by
  refine h.environment (.of_same (fun _ => id) (fun _ => id) rfl rfl) ?_ rfl
  refine ⟨h.1.1, fun a ha ht => ?_, h.1.3, fun message hm => ?_, h.1.5, h.1.6, h.1.7, h.1.8, h.1.9,
    h.1.10⟩
  · rcases List.mem_cons.mp ht with rfl | ht
    · exact hfresh ha
    · exact h.disjoint a ha ht
  · exact List.mem_cons_of_mem _ (h.produced message hm)

theorem Inv.produce (h : Inv deps contact session s) {message : Encoded S}
    (hsecret : message.chain.secret ∈ s.theirs) :
    Inv deps contact session { s with produced := s.produced ++ [message] } := by
  have hg : Grows deps s { s with produced := s.produced ++ [message] } :=
    .of_same (fun _ => id) (List.subset_append_left _ _) rfl rfl
  refine h.environment hg ?_ rfl
  refine ⟨h.1.1, h.1.2, h.1.3, fun x hx => ?_, h.1.5, fun a ha => hg.honest (h.honest a ha), h.1.7,
    fun stored hs a ha => ?_, h.1.9, h.1.10⟩
  · rcases List.mem_append.mp hx with hx | hx
    · exact h.produced x hx
    · rw [List.mem_singleton.mp hx]
      exact hsecret
  · obtain ⟨x, hx, hrest⟩ := h.behind stored hs a ha
    exact ⟨x, hg.produced hx, hrest⟩

/-- An event that is no advance. -/
theorem advances_concat {event : Event S} (he : event.advance = none) :
    ({ s with history := s.history ++ [event] } : System S).advances = s.advances := by
  simp only [advances, List.filterMap_append, List.filterMap_cons, he, List.filterMap_nil,
    List.append_nil]

/-- An event that is no advance, with the same session and no new record. -/
theorem Stored.unadvanced (h : Stored deps contact session s) {event : Event S}
    (he : event.advance = none) (hstep : Event.step deps s.store event = some store)
    (hsession : store.session = s.store.session)
    (hrecords : ∀ id record, store.decrypted id = some record →
      s.store.decrypted id = some record)
    (hcached : ∀ r p, .replied r p = event →
      ∃ r', (r', p) ∈ s.advances ∧ r'.digest deps = r.digest deps) :
    Stored deps contact session { s with
      store := store
      history := s.history ++ [event] } := by
  have hadvances : ({ s with store := store, history := s.history ++ [event] } :
      System S).advances = s.advances := advances_concat (s := s) he
  constructor
  case atomic => exact h.event hstep
  case disjoint => exact h.disjoint
  case ours => exact fun stored hs => h.ours stored (hsession ▸ hs)
  case produced => exact h.produced
  case records =>
    rw [hadvances]
    exact fun id record hr => h.records id record (hrecords id record hr)
  case honest =>
    rw [hadvances]
    exact h.honest
  case own =>
    rw [hadvances]
    exact h.own
  case behind =>
    rw [hadvances]
    exact fun stored hs => h.behind stored (hsession ▸ hs)
  case once =>
    rw [hadvances]
    exact h.once
  case cached =>
    rw [hadvances]
    intro r p hm
    rcases List.mem_append.mp hm with hm | hm
    · exact h.cached r p hm
    · exact hcached r p (List.mem_singleton.mp hm)

theorem Inv.delete (h : Inv deps contact session s) (messageId : JsString) :
    Inv deps contact session { s with
      store := s.store.deleteDecrypted messageId
      history := s.history ++ [.deleted messageId] } := by
  have hadvances : ({ s with
      store := s.store.deleteDecrypted messageId
      history := s.history ++ [.deleted messageId] } : System S).advances = s.advances :=
    advances_concat (s := s) rfl
  refine h.environment ⟨fun _ => id, fun _ => id, hadvances ▸ List.Subset.refl _, .inl ⟨rfl,
    hadvances, fun r => cachedFor_deleteDecrypted messageId⟩⟩ ?_ rfl
  refine h.toStored.unadvanced rfl rfl rfl (fun id record hr => ?_) (fun r p hm => by cases hm)
  by_cases hid : id = messageId
  · simp [SessionStore.deleteDecrypted, hid] at hr
  · rwa [← show (s.store.deleteDecrypted messageId).decrypted id = s.store.decrypted id from
      Function.update_of_ne hid _ _]

/-- A call finds the plaintext of its envelope. -/
theorem Inv.reply (h : Inv deps contact session s) (hr : s.Honest contact r)
    (hsession : s.store.session.isSome = true)
    (hcached : cachedFor deps s.store r = some plaintext) :
    Inv deps contact session (s.reply i r plaintext) := by
  have hadvances : ({ s with history := s.history ++ [.replied r plaintext] } : System S).advances =
    s.advances := advances_concat rfl
  obtain ⟨r', hr', hdigest⟩ := h.records _ _ (cachedFor_some hcached)
  have hg : Grows deps s { s with history := s.history ++ [.replied r plaintext] } :=
    .of_same (fun _ => id) (fun _ => id) rfl hadvances
  refine h.put (t := { s with history := s.history ++ [.replied r plaintext] }) hg ?_ rfl
    ⟨hr, r', hadvances ▸ hr', hdigest⟩
  refine h.toStored.unadvanced rfl (if_pos ⟨hsession, hcached⟩) rfl (fun _ _ => id)
    (fun r₂ p hm => ?_)
  cases hm
  exact ⟨r', hr', hdigest⟩

theorem Seen.isSome (hs : s.Seen stored) : s.store.session.isSome = true := by
  rcases hs with hs | ⟨current, hs, -⟩
  · rw [hs]
    rfl
  · rw [hs]
    rfl

/-- A write that succeeds replaces the very session its call has read. -/
theorem Seen.written {store : SessionStore S} (hs : s.Seen stored)
    (hw : writeDecoded deps r stored plaintext nextState s.store = some store) :
    s.store.session = some stored := by
  refine hs.resolve_right ?_
  rintro ⟨current, hc, hlt⟩
  have hg := (writeDecoded_some hw).1
  simp only [SessionStore.generation, hc] at hg
  omega

/-- A decoded session goes on with its ratchet secret or with the new one. -/
theorem dhsSecretKey_of_decode (hS : S.Ideal) {message : Encoded S}
    (he : message.envelope contact = r.envelope)
    (hd : decode deps r stored senderKey newDhs = .ok (plaintext, nextState)) :
    nextState.dhsSecretKey = stored.state.dhsSecretKey ∨ nextState.dhsSecretKey = newDhs := by
  have hd := decode_eq_ok.mp hd
  rw [← he] at hd
  obtain ⟨n, hm, -⟩ := Encoded.accepted hd
  obtain ⟨-, ⟨ck, -, -, -, rfl⟩ | ⟨g, f, -, -, -, hf, -, rfl⟩⟩ := hm.accepted hS hd
  · exact .inl rfl
  · exact .inr hf

/-- The session that a decoded envelope leaves has every earlier envelope behind it. -/
theorem behind_of_decode (hS : S.Ideal) {x message : Encoded S}
    (hx : x.Behind stored.state) (hsecret : x.chain.secret ≠ stored.state.dhsSecretKey)
    (hfresh : x.chain.peer ≠ newDhs) (he : message.envelope contact = r.envelope)
    (hd : decode deps r stored senderKey newDhs = .ok (plaintext, nextState)) :
    x.Behind nextState := by
  have hd := decode_eq_ok.mp hd
  rw [← he] at hd
  obtain ⟨n, hm, -⟩ := Encoded.accepted hd
  cases x with
  | handshake => trivial
  | ratchet c pcl n' p contactUserId random =>
    refine Chain.Behind.accept hS ?_ ?_ hfresh hm hd
    · exact hx
    · exact hsecret

/-- An envelope that is behind the session was not decoded from it. -/
theorem Encoded.Behind.not_decoded (hS : S.Ideal) {message : Encoded S}
    (hb : message.Behind stored.state) (hsecret : message.chain.secret ≠ stored.state.dhsSecretKey)
    (he : message.envelope contact = r.envelope) :
    decode deps r stored senderKey newDhs ≠ .ok (plaintext, nextState) := by
  intro hd
  have hd := decode_eq_ok.mp hd
  rw [← he] at hd
  obtain ⟨n, hm, hiff⟩ := Encoded.accepted hd
  exact Chain.Behind.refused hS ((hiff _).mp hb) hsecret hm hd

/-- The write of a call succeeds. -/
theorem Inv.commit (hS : S.Ideal) (h : Inv deps contact session s) {store : SessionStore S}
    (hsound : s.Sound deps contact (.writing r stored senderKey newDhs plaintext nextState))
    (hw : writeDecoded deps r stored plaintext nextState s.store = some store) :
    Stored deps contact session (s.commit store r senderKey newDhs plaintext) ∧
      Grows deps s (s.commit store r senderKey newDhs plaintext) := by
  obtain ⟨hr, hseen, hversion, hcached, hdecode, hours, hbehind⟩ := hsound
  obtain ⟨message, hm, he⟩ := id hr
  have hsession := hseen.written hw
  obtain ⟨-, rfl⟩ := writeDecoded_some hw
  have hadvances : (s.commit ⟨some ⟨nextState, stored.generation + 1⟩,
      Function.update s.store.decrypted r.messageId (some ⟨r.digest deps, plaintext⟩)⟩ r senderKey
        newDhs plaintext).advances = s.advances ++ [(r, plaintext)] := by
    simp [advances, System.commit, Event.advance]
  have hsecret {x : Encoded S} (hx : x ∈ s.produced) :
      x.chain.secret ≠ stored.state.dhsSecretKey := by
    intro heq
    exact h.disjoint _ (h.ours stored hsession) (heq ▸ h.produced x hx)
  have hnew {P : Request × Bytes → Prop} (hold : ∀ a ∈ s.advances, P a) (hlast : P (r, plaintext)) :
      ∀ a ∈ s.advances ++ [(r, plaintext)], P a := by
    intro a ha
    rcases List.mem_append.mp ha with ha | ha
    · exact hold a ha
    · exact List.mem_singleton.mp ha ▸ hlast
  refine ⟨⟨h.event ?_, h.1.2, ?_, h.1.4, ?_, ?_, ?_, ?_, ?_, ?_⟩, ⟨fun _ => id, fun _ => id, ?_,
    .inr ⟨stored, _, hsession, rfl, Nat.lt_succ_self _⟩⟩⟩
  · simp only [Event.step, receiveLocked_advanced hsession (hcached hsession) hversion hdecode,
      hcached hsession, and_self, if_true]
    rfl
  · rintro _ ⟨⟩
    rcases dhsSecretKey_of_decode hS he hdecode with heq | heq
    · exact heq ▸ h.ours stored hsession
    · exact heq ▸ hours
  · rw [hadvances]
    intro id record hrecord
    by_cases hid : id = r.messageId
    · subst hid
      simp only [System.commit, Function.update_self, Option.some.injEq] at hrecord
      subst hrecord
      exact ⟨r, by simp, rfl⟩
    · simp only [System.commit, Function.update_of_ne hid] at hrecord
      obtain ⟨r', hr', hdigest⟩ := h.records id record hrecord
      exact ⟨r', List.mem_append_left _ hr', hdigest⟩
  · rw [hadvances]
    exact hnew h.honest hr
  · rw [hadvances]
    refine hnew h.own fun x hx => ?_
    have hd := decode_eq_ok.mp hdecode
    rw [← hx] at hd
    exact Encoded.plaintext_eq hS hd
  · rw [hadvances]
    rintro _ ⟨⟩
    refine hnew (fun a ha => ?_) ?_
    · obtain ⟨x, hx, hxe, hxb, hxf⟩ := hbehind hsession a ha
      exact ⟨x, hx, hxe, behind_of_decode hS hxb (hsecret hx) hxf he hdecode⟩
    · have hd := decode_eq_ok.mp hdecode
      rw [← he] at hd
      obtain ⟨n, hmade, hiff⟩ := Encoded.accepted hd
      exact ⟨message, hm, he, (hiff _).mpr (hmade.behind hS hd)⟩
  · rw [hadvances, List.map_append, List.nodup_append]
    refine ⟨h.once, List.nodup_singleton _, fun envelope henv _ hlast => ?_⟩
    cases List.mem_singleton.mp hlast
    rintro rfl
    obtain ⟨a, ha, hae⟩ := List.mem_map.mp henv
    obtain ⟨x, hx, hxe, hxb, -⟩ := hbehind hsession a ha
    exact Encoded.Behind.not_decoded hS hxb (hsecret hx) (hxe.trans hae) hdecode
  · rw [hadvances]
    intro r₂ p hm₂
    rcases List.mem_append.mp hm₂ with hm₂ | hm₂
    · obtain ⟨r', hr', hdigest⟩ := h.cached r₂ p hm₂
      exact ⟨r', List.mem_append_left _ hr', hdigest⟩
    · cases List.mem_singleton.mp hm₂
  · rw [hadvances]
    exact List.subset_append_left _ _

/-- The state after a write that did not throw. -/
theorem Inv.write (hS : S.Ideal) (h : Inv deps contact session s) (answer : Answer)
    (hsound : s.Sound deps contact (.writing r stored senderKey newDhs plaintext nextState)) :
    Inv deps contact session
      (s.write deps i answer r stored senderKey newDhs plaintext nextState) := by
  unfold System.write
  split
  · exact h.fail i r .storageError
  · exact h.move ⟨hsound.1, stored, hsound.2.1⟩
  · rename_i store hw
    obtain ⟨hstored, hg⟩ := h.commit hS hsound hw
    refine h.put hg hstored rfl ⟨hg.honest hsound.1, r, ?_, rfl⟩
    simp [advances, System.commit, Event.advance]
  · exact h.fail i r .storageError
  · rename_i store hw
    obtain ⟨hstored, hg⟩ := h.commit hS hsound hw
    exact h.put hg hstored rfl trivial

theorem Inv.check (h : Inv deps contact session s)
    (hsound : s.Sound deps contact (.checking r stored)) :
    Inv deps contact session (s.check deps i r stored) := by
  obtain ⟨hr, hseen⟩ := hsound
  unfold System.check
  split
  · rename_i plaintext hcached
    exact h.reply hr hseen.isSome hcached
  · rename_i hcached
    split
    · exact h.fail i r _
    · rename_i hversion
      exact h.move ⟨hr, hseen, hversion, fun _ => hcached⟩

theorem Inv.resolve (h : Inv deps contact session s)
    (hsound : s.Sound deps contact (.resolving r stored)) (senderKey : Option Bytes)
    (hours : newDhs ∉ s.theirs) (hpeer : ∀ message ∈ s.produced, message.chain.peer ≠ newDhs) :
    Inv deps contact session
      { s.resolve deps i r stored senderKey newDhs with ours := newDhs :: s.ours } := by
  obtain ⟨hr, hseen, hversion, hcached⟩ := hsound
  have hg : Grows deps s { s with ours := newDhs :: s.ours } :=
    .of_same (List.subset_cons_self _ _) (fun _ => id) rfl rfl
  have hstored : Stored deps contact session { s with ours := newDhs :: s.ours } := by
    refine ⟨h.1.1, fun a ha => ?_, fun x hx => List.mem_cons_of_mem _ (h.ours x hx), h.1.4, h.1.5,
      h.1.6, h.1.7, h.1.8, h.1.9, h.1.10⟩
    rcases List.mem_cons.mp ha with rfl | ha
    · exact hours
    · exact h.disjoint a ha
  have hput {call : Call S} (hc : ({ s with ours := newDhs :: s.ours } : System S).Sound deps
      contact call) : Inv deps contact session { s.put i call with ours := newDhs :: s.ours } :=
    h.put hg hstored rfl hc
  unfold System.resolve
  split
  · exact hput trivial
  · split
    · exact hput trivial
    · rename_i hdecode
      refine hput ⟨hr, hseen, hversion, hcached, hdecode, List.mem_cons_self .., fun hs a ha => ?_⟩
      obtain ⟨message, hm, he, hb⟩ := h.behind stored hs a ha
      exact ⟨message, hm, he, hb, hpeer message hm⟩

theorem Inv.step (hS : S.Ideal) (h : Inv deps contact session s) {a : Action S}
    (hp : s.Permits contact a) (ht : s.step deps a = some t) : Inv deps contact session t := by
  have hcall {i : ℕ} {call : Call S} (hi : s.calls[i]? = some call) :
      s.Sound deps contact call := h.sound call (List.mem_of_getElem? hi)
  cases a with
  | generate secret =>
    cases ht
    exact h.generate hp.1
  | produce message =>
    cases ht
    exact h.produce hp
  | deleteDecrypted messageId =>
    cases ht
    exact h.delete messageId
  | notificationDecrypt =>
    cases ht
    exact h.enter trivial
  | receiveEnvelopeShared r =>
    cases ht
    exact h.enter hp
  | fetched i r =>
    simp only [System.step] at ht
    split at ht
    · cases ht
      exact h.move trivial
    · cases ht
      exact h.move hp
    · cases ht
  | acquired i granted =>
    simp only [System.step] at ht
    split at ht
    · rename_i r hi
      cases ht
      split
      · have hr : s.Honest contact r := hcall hi
        exact h.move hr
      · exact h.fail i r .lockTimeout
    · cases ht
  | read i throws =>
    simp only [System.step] at ht
    split at ht
    · rename_i r hi
      split at ht
      · cases ht
        exact h.fail i r .storageError
      · split at ht
        · cases ht
          exact h.fail i r .noSession
        · rename_i stored hstored
          cases ht
          exact h.move ⟨hcall hi, .inl hstored⟩
    · cases ht
  | checked i throws =>
    simp only [System.step] at ht
    split at ht
    · rename_i r stored hi
      cases ht
      split
      · exact h.fail i r .storageError
      · exact h.check (hcall hi)
    · cases ht
  | resolved i senderKey newDhs =>
    obtain ⟨-, htheirs, hpeer⟩ := hp
    simp only [System.step] at ht
    split at ht
    · cases ht
      exact h.fail i _ .storageError
    · rename_i r stored senderKey hi
      cases ht
      exact h.resolve (hcall hi) senderKey htheirs hpeer
    · cases ht
  | wrote i answer =>
    simp only [System.step] at ht
    split at ht
    · rename_i hi
      cases ht
      exact h.write hS answer (hcall hi)
    · cases ht
  | rechecked i throws =>
    simp only [System.step] at ht
    split at ht
    · rename_i r hi
      split at ht
      · cases ht
        exact h.fail i r .storageError
      · split at ht
        · rename_i plaintext hcached
          obtain ⟨hr, stored, hseen⟩ := hcall hi
          cases ht
          exact h.reply hr hseen.isSome hcached
        · cases ht
          exact h.fail i r .stateConflict
    · cases ht

theorem inv_init (h : Init session s) : Inv deps contact session s := by
  have hadvances : s.advances = [] := by simp [advances, h.history]
  refine ⟨⟨?_, h.disjoint, ?_, h.produced, ?_, ?_, ?_, ?_, ?_, ?_⟩, ?_⟩
  · rw [h.history, h.store]
    rfl
  · rw [h.store]
    exact h.ours
  · intro messageId record hr
    rw [h.store] at hr
    cases hr
  · simp [hadvances]
  · simp [hadvances]
  · simp [hadvances]
  · simp [hadvances]
  · simp [h.history]
  · simp [h.calls]

theorem inv_of_reach (hS : S.Ideal)
    (h : (machine deps session).Reach (Permits contact) s) : Inv deps contact session s := by
  refine h.invariant ?_ ?_
  · exact fun s hs => inv_init hs
  · exact fun s a t hs hp ht => hs.step hS hp ht

end System
end Epistl.Shared
