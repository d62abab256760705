import Epistl.Keys.Registered

/-! # A marker that has gone stale

When the identity of a device is cleared with another account than the one the marker names,
that account keeps its old bundle: its next login reads the marker and uploads nothing.
-/
namespace Epistl.KeyRegistration
open Deletion (IdentityKeys KeyName generateIdentity)
open KeyDirectory
variable {S : Suite} {D : Type}

/-- The call has nothing to do with a registration. -/
def Call.Idle : Call S → Prop
  | deleting _ | wiping _ _ | settled => True
  | registering _ | ensuring _ | resolving _ _ | uploading _ _ | awaiting _ _ | marking _ => False

/-- The device is in nobody's registration and the other devices have not this account. -/
structure System.AtRest (s : System S D) (d : D) (userId : JsString) : Prop where
  calls {call : Call S} : call ∈ (s.phones d).calls → call.Idle
  tokens {d' : D} : d' ≠ d → (s.phones d').token ≠ some userId
  requests {r : Request} {payload : UploadKeysPayload} : r ∈ s.requests → r.user = userId →
    r.body = .keys payload → r.answer ≠ none

/-- The device is used with this account only, no other device is, and keys that are drawn are
new. -/
def OneAccount (d : D) (userId : JsString) (bundle : Option ContactKeyBundle) (_ : System S D) :
    Action S D → Prop
  | .login d' userId' => userId' = userId ↔ d' = d
  | .identity d' (.loaded _ kyber dilithium x25519) => d' = d → ∀ b ∈ bundle,
    generateIdentity kyber dilithium x25519 .dilithiumPublicKey ≠ b.dilithiumPublicKey
  | _ => True

/-- Neither the stored entries nor the writes that are out have the signing key of the bundle. -/
structure Replaced (bundle : Option ContactKeyBundle) (s : Identities.Device S) : Prop where
  store {e : Identities.Entry S .dilithiumPublicKey} : s.store .dilithiumPublicKey = some e →
    ∀ b ∈ bundle, e.value ≠ b.dilithiumPublicKey
  out {i : ℕ} {attempt : Identities.Attempt S} {keys : IdentityKeys S} :
    s.attempts[i]? = some attempt → attempt.stage.out ≠ [] → attempt.generated = some keys →
    ∀ b ∈ bundle, keys .dilithiumPublicKey ≠ b.dilithiumPublicKey

/-- Nothing will replace the listed bundle, which is not that of the device. -/
structure Stale (d : D) (userId : JsString) (bundle : Option ContactKeyBundle) (s : System S D) :
    Prop where
  marker : (s.phones d).keysUploadedForUserId = some userId
  listed : listed s.userKeys userId = bundle
  identity : Replaced bundle (s.phones d).identity
  calls {call : Call S} : call ∈ (s.phones d).calls → call = .registering userId ∨ call.Idle
  tokens {d' : D} : d' ≠ d → (s.phones d').token ≠ some userId
  requests {r : Request} {payload : UploadKeysPayload} : r ∈ s.requests → r.user = userId →
    r.body = .keys payload → r.answer ≠ none

theorem System.AtRest.stale {s : System S D} {d : D} {userId : JsString} (h : s.AtRest d userId)
    (hmarker : (s.phones d).keysUploadedForUserId = some userId)
    (hidentity : (s.phones d).identity.Clear) :
    Stale d userId (KeyDirectory.listed s.userKeys userId) s where
  marker := hmarker
  listed := rfl
  identity.store he := by
    cases (hidentity.store _).symm.trans he
  identity.out hi hout := absurd (hidentity.out _ (List.mem_of_getElem? hi)) hout
  calls hcall := .inr (h.calls hcall)
  tokens := h.tokens
  requests := h.requests

variable {userId : JsString} {bundle : Option ContactKeyBundle}

namespace Replaced
variable {s t : Identities.Device S} {i : ℕ} {name : KeyName} {attempt : Identities.Attempt S}
  {keys : IdentityKeys S}

/-- A write of a call brings the key that the call generated. -/
theorem put (h : Replaced bundle s)
    (hkeys : ∀ b ∈ bundle, keys .dilithiumPublicKey ≠ b.dilithiumPublicKey) :
    Replaced bundle (s.put i name (keys name)) where
  store he := by
    rcases Identities.put_cases he with he | ⟨-, hvalue⟩
    · exact h.store he
    · rw [hvalue]
      exact hkeys
  out := h.out

/-- One call goes on, and it has not generated the key of the bundle if writes of it are out. -/
theorem advance (h : Replaced bundle s) {inFlight : Option ℕ}
    (hout : attempt.stage.out ≠ [] → ∀ keys, attempt.generated = some keys →
      ∀ b ∈ bundle, keys .dilithiumPublicKey ≠ b.dilithiumPublicKey) :
    Replaced bundle ⟨s.store, s.attempts.set i attempt, inFlight⟩ where
  store := h.store
  out hj hother hkeys := by
    rcases getElem?_set_cases hj with ⟨rfl, rfl⟩ | ⟨-, hj⟩
    · exact hout hother _ hkeys
    · exact h.out hj hother hkeys

theorem deleteKey (h : Replaced bundle s) (name : KeyName) : Replaced bundle (s.deleteKey name) where
  store he := by
    by_cases hname : KeyName.dilithiumPublicKey = name
    · subst hname
      cases Identities.store_deleteKey_self.symm.trans he
    · exact h.store ((Identities.store_deleteKey_ne hname).symm.trans he)
  out := h.out

theorem readKey (h : Replaced bundle s) (he : s.readKey i name attempt = some t) :
    Replaced bundle t := by
  unfold Identities.Device.readKey at he
  split at he
  · split at he
    · cases he
    · cases he
      exact h.advance fun hout => absurd rfl hout
  · cases he

theorem loaded (h : Replaced bundle s)
    (hkeys : ∀ b ∈ bundle, keys .dilithiumPublicKey ≠ b.dilithiumPublicKey)
    (he : s.loaded i keys attempt = some t) : Replaced bundle t := by
  unfold Identities.Device.loaded at he
  split at he
  · split at he
    · split at he
      · cases he
        exact h.advance fun hout => absurd rfl hout
      · cases he
        refine h.advance fun _ keys' hkeys' => ?_
        cases hkeys'
        exact hkeys
    · cases he
  · cases he

theorem write (h : Replaced bundle s) {succeeds : Bool} (hi : s.attempts[i]? = some attempt)
    (he : s.write i name succeeds attempt = some t) : Replaced bundle t := by
  have hkeys {left : List KeyName} {keys : IdentityKeys S} (hname : name ∈ left)
      (hgenerated : attempt.generated = some keys) (hout : attempt.stage.out = left) :
      ∀ b ∈ bundle, keys .dilithiumPublicKey ≠ b.dilithiumPublicKey :=
    h.out hi (hout ▸ List.ne_nil_of_mem hname) hgenerated
  have hadvance {u : Identities.Device S} (hu : Replaced bundle u) {inFlight : Option ℕ}
      {keys : IdentityKeys S} {stage : Identities.Stage S}
      (hkeys : ∀ b ∈ bundle, keys .dilithiumPublicKey ≠ b.dilithiumPublicKey) :
      Replaced bundle ⟨u.store, u.attempts.set i ⟨some keys, stage⟩, inFlight⟩ := by
    refine hu.advance fun _ keys' hkeys' => ?_
    cases hkeys'
    exact hkeys
  unfold Identities.Device.write at he
  split at he
  · rename_i keys left hgenerated hstage
    split at he
    · rename_i hname
      have hnew := hkeys hname hgenerated (by rw [hstage]; rfl)
      split at he
      · split at he
        · cases he
          exact hadvance (h.put hnew) hnew
        · cases he
          exact hadvance (h.put hnew) hnew
      · cases he
        exact hadvance h hnew
    · cases he
  · rename_i keys left hgenerated hstage
    split at he
    · rename_i hname
      have hnew := hkeys hname hgenerated (by rw [hstage]; rfl)
      split at he
      · cases he
        exact hadvance (h.put hnew) hnew
      · cases he
        exact hadvance h hnew
    · cases he
  · cases he

/-- An identity that is generated has another signing key. -/
theorem step (h : Replaced bundle s) {a : Identities.Action S}
    (ha : ∀ i kyber dilithium x25519, a = .loaded i kyber dilithium x25519 → ∀ b ∈ bundle,
      generateIdentity kyber dilithium x25519 .dilithiumPublicKey ≠ b.dilithiumPublicKey)
    (he : s.step a = some t) : Replaced bundle t := by
  cases a with
  | ensureLocalIdentity =>
    rw [Identities.Device.step] at he
    split at he
    · cases he
      exact h
    · cases he
      refine ⟨h.store, fun hj hout hkeys => ?_⟩
      rcases getElem?_concat_cases hj with ⟨-, rfl⟩ | hj
      · exact absurd rfl hout
      · exact h.out hj hout hkeys
  | readKey i name =>
    obtain ⟨attempt, -, he⟩ := Option.bind_eq_some_iff.mp he
    exact h.readKey he
  | loaded i kyber dilithium x25519 =>
    obtain ⟨attempt, -, he⟩ := Option.bind_eq_some_iff.mp he
    exact h.loaded (ha i kyber dilithium x25519 rfl) he
  | write i name succeeds =>
    obtain ⟨attempt, hi, he⟩ := Option.bind_eq_some_iff.mp he
    exact h.write hi he
  | restart =>
    cases he
    refine ⟨h.store, fun hj hout _ => ?_⟩
    rw [List.getElem?_map, Option.map_eq_some_iff] at hj
    obtain ⟨attempt, -, rfl⟩ := hj
    unfold Identities.Device.drop at hout
    split at hout <;> exact absurd rfl hout

end Replaced

variable [DecidableEq D] {s t : System S D} {d : D}

namespace Stale

/-- Only one device has changed, and if it is this one, nothing of it that matters. -/
theorem set (h : Stale d userId bundle s) {d' : D} {phone : Phone S}
    (hsame : d' = d → phone.keysUploadedForUserId = some userId ∧
      Replaced bundle phone.identity ∧
      ∀ call ∈ phone.calls, call = .registering userId ∨ call.Idle)
    (htoken : d' ≠ d → phone.token ≠ some userId) : Stale d userId bundle (s.set d' phone) := by
  have hphone : d' ≠ d → (s.set d' phone).phones d = s.phones d := fun hne =>
    System.phones_set_ne _ hne.symm
  constructor
  · by_cases hd : d' = d
    · subst hd
      rw [System.phones_set_self]
      exact (hsame rfl).1
    · rw [hphone hd]
      exact h.marker
  · exact h.listed
  · by_cases hd : d' = d
    · subst hd
      rw [System.phones_set_self]
      exact (hsame rfl).2.1
    · rw [hphone hd]
      exact h.identity
  · intro call hcall
    by_cases hd : d' = d
    · subst hd
      rw [System.phones_set_self] at hcall
      exact (hsame rfl).2.2 call hcall
    · rw [hphone hd] at hcall
      exact h.calls hcall
  · intro e he
    by_cases hd : d' = e
    · subst hd
      rw [System.phones_set_self]
      exact htoken he
    · rw [System.phones_set_ne _ (Ne.symm hd)]
      exact h.tokens he
  · exact h.requests

/-- A call has gone on that is none of this device, or has nothing to do with a registration. -/
theorem put (h : Stale d userId bundle s) {d' : D} {i : ℕ} {call : Call S}
    (hcall : d' = d → call.Idle) : Stale d userId bundle (s.put d' i call) := by
  refine h.set (fun heq => ?_) fun hne => h.tokens hne
  subst heq
  refine ⟨h.marker, h.identity, fun c hc => ?_⟩
  rcases List.mem_or_eq_of_mem_set hc with hc | rfl
  · exact h.calls hc
  · exact .inr (hcall rfl)

omit [DecidableEq D] in
theorem send (h : Stale d userId bundle s) {r : Request}
    (hr : ∀ payload, r.body = .keys payload → r.user ≠ userId) :
    Stale d userId bundle (s.send r) where
  marker := h.marker
  listed := h.listed
  identity := h.identity
  calls := h.calls
  tokens := h.tokens
  requests hmem huser hbody := by
    rcases List.mem_append.mp hmem with hmem | hlast
    · exact h.requests hmem huser hbody
    · cases List.mem_singleton.mp hlast
      exact absurd huser (hr _ hbody)

/-- The calls of `ensureLocalIdentity` on a device have taken a step. -/
theorem ensure (h : Stale d userId bundle s) {d' : D} {a : Identities.Action S}
    {identity : Identities.Device S}
    (ha : OneAccount d userId bundle s (.identity d' a))
    (he : (s.phones d').identity.step a = some identity) :
    Stale d userId bundle (s.set d' { s.phones d' with identity := identity }) := by
  refine h.set (fun heq => ?_) fun hne => h.tokens hne
  subst heq
  refine ⟨h.marker, h.identity.step ?_ he, fun _ => h.calls⟩
  rintro i kyber dilithium x25519 rfl
  exact ha rfl

omit [DecidableEq D] in
/-- The server leaves the row alone as long as the account is there. -/
theorem serve (h : Stale d userId bundle s) {n : ℕ} {r : Request} (succeeds : Bool)
    (hr : s.requests[n]? = some r) (hnone : r.answer = none) :
    userId ∈ (s.serve n succeeds r).deleted ∨ Stale d userId bundle (s.serve n succeeds r) := by
  have hreplaced {table : Table} {deleted : List JsString} {b : Bool}
      (hlisted : KeyDirectory.listed table userId = KeyDirectory.listed s.userKeys userId) :
      Stale d userId bundle { s with
        requests := s.requests.set n { r with answer := some b }
        userKeys := table
        deleted := deleted } := by
    refine ⟨h.marker, hlisted.trans h.listed, h.identity, h.calls, h.tokens, fun {r'} {payload} hmem huser hbody => ?_⟩
    rcases List.mem_or_eq_of_mem_set hmem with hmem | rfl
    · exact h.requests hmem huser hbody
    · exact nofun
  unfold System.serve
  split
  · exact .inr (hreplaced rfl)
  split
  · rename_i payload hbody
    have huser : userId ≠ r.user := fun heq =>
      h.requests (List.mem_of_getElem? hr) heq.symm hbody hnone
    rcases uploadKeys_cases s.userKeys r.user payload succeeds with ⟨row, -, -, he⟩ | ⟨-, answer, -, he⟩
    · rw [he]
      exact .inr (hreplaced (listed_update_ne _ _ huser))
    · rw [he]
      exact .inr (hreplaced rfl)
  · split
    · by_cases huser : userId = r.user
      · exact .inl (huser ▸ List.mem_cons_self)
      · exact .inr (hreplaced (listed_update_ne _ _ huser))
    · exact .inr (hreplaced rfl)

omit [DecidableEq D] in
/-- A call that goes on in a registration past the marker is none of this device. -/
theorem ne_of_call (h : Stale d userId bundle s) {d' : D} {i : ℕ} {call : Call S}
    (hc : (s.phones d').calls[i]? = some call) (hne : call ≠ .registering userId)
    (hidle : ¬call.Idle) : d' ≠ d := by
  rintro rfl
  exact (h.calls (List.mem_of_getElem? hc)).elim hne hidle

theorem step {a : Action S D} (h : Stale d userId bundle s)
    (ha : OneAccount d userId bundle s a) (he : s.step a = some t) :
    userId ∈ t.deleted ∨ Stale d userId bundle t := by
  cases System.step_moves he with
  | @login d' userId' hlive =>
    refine .inr (h.set (fun heq => ?_) fun hne htoken => hne (ha.mp (Option.some.inj htoken)))
    subst heq
    cases ha.mpr rfl
    refine ⟨h.marker, h.identity, fun call hcall => ?_⟩
    rcases List.mem_append.mp hcall with hold | hnew
    · exact h.calls hold
    · exact .inl (List.mem_singleton.mp hnew)
  | identity hidentity => exact .inr (h.ensure ha hidentity)
  | serve hr hnone => exact h.serve _ hr hnone
  | logOut =>
    refine .inr (h.set (fun heq => ?_) fun _ => nofun)
    subst heq
    exact ⟨h.marker, h.identity, fun _ => h.calls⟩
  | deleteAccount htoken =>
    refine .inr (send (h.set (fun heq => ?_) fun hne => ?_) fun payload hbody => nomatch hbody)
    · subst heq
      refine ⟨h.marker, h.identity, fun call hcall => ?_⟩
      rcases List.mem_append.mp hcall with hold | hnew
      · exact h.calls hold
      · cases List.mem_singleton.mp hnew
        exact .inr trivial
    · exact h.tokens hne
  | restart hidentity =>
    refine .inr (h.set (fun heq => ?_) fun hne => h.tokens hne)
    subst heq
    refine ⟨h.marker, h.identity.step ?_ hidentity, fun call hcall => ?_⟩
    · rintro _ _ _ _ ⟨⟩
    · cases hcall
  | settled => exact .inr (h.put fun _ => trivial)
  | @ensuring d' i userId' hc hmarker =>
    have hne : d' ≠ d := by
      rintro rfl
      rcases h.calls (List.mem_of_getElem? hc) with hcall | hidle
      · cases hcall
        exact hmarker h.marker
      · exact hidle
    exact .inr (h.put fun heq => absurd heq hne)
  | resolving hc hidentity =>
    have hne := h.ne_of_call hc nofun id
    exact .inr ((h.ensure (a := .ensureLocalIdentity) trivial hidentity).put fun heq => absurd heq hne)
  | uploading hc =>
    have hne := h.ne_of_call hc nofun id
    exact .inr (h.put fun heq => absurd heq hne)
  | @awaiting d' i entropy userId' user keys hc htoken =>
    have hne := h.ne_of_call hc nofun id
    refine .inr (send (h.put fun heq => absurd heq hne) fun _ _ huser => ?_)
    exact h.tokens hne (htoken.trans (congrArg some huser))
  | marking hc =>
    have hne := h.ne_of_call hc nofun id
    exact .inr (h.put fun heq => absurd heq hne)
  | wiping => exact .inr (h.put fun _ => trivial)
  | setMarker hc =>
    have hne := h.ne_of_call hc nofun id
    refine .inr (put (h.set (fun heq => ?_) fun _ => ?_) fun heq => ?_)
    · exact absurd heq hne
    · exact h.tokens hne
    · exact absurd heq hne
  | clearSession =>
    refine .inr (put (h.set (fun heq => ?_) fun _ htoken => ?_) fun _ => ?_)
    · subst heq
      exact ⟨h.marker, h.identity, fun _ => h.calls⟩
    · cases htoken
    · trivial
  | clearIdentity =>
    refine .inr (put (h.set (fun heq => ?_) fun hne => ?_) fun _ => ?_)
    · subst heq
      exact ⟨h.marker, h.identity.deleteKey _, fun _ => h.calls⟩
    · exact h.tokens hne
    · trivial

end Stale

omit [DecidableEq D] in
theorem System.deleted_serve (s : System S D) (n : ℕ) (succeeds : Bool) (r : Request)
    (h : userId ∈ s.deleted) : userId ∈ (s.serve n succeeds r).deleted := by
  unfold System.serve
  split
  · exact h
  split
  · exact h
  · split
    · exact List.mem_cons_of_mem _ h
    · exact h

theorem System.deleted_step {a : Action S D} (h : userId ∈ s.deleted) (he : s.step a = some t) :
    userId ∈ t.deleted := by
  cases System.step_moves he with
  | serve => exact System.deleted_serve _ _ _ _ h
  | _ => exact h

/-- Once the identity of a device is cleared while its marker names an account that goes on,
using that account never registers the new identity: its contacts decode the old bundle as
long as the account is there. -/
theorem stale_marker (hrest : s.AtRest d userId)
    (hmarker : (s.phones d).keysUploadedForUserId = some userId)
    (hidentity : (s.phones d).identity.Clear) {as : List (Action S D)}
    (has : (machine S D).Obeys (OneAccount d userId (listed s.userKeys userId)) s as)
    (hrun : (machine S D).exec s as = some t) (hlive : userId ∉ t.deleted) :
    (t.phones d).keysUploadedForUserId = some userId ∧
      listed t.userKeys userId = listed s.userKeys userId ∧
      ∀ keys entropy, (t.phones d).identity.held = some keys →
        listed t.userKeys userId ≠ some (keyBundle keys entropy) := by
  have hstale : userId ∈ t.deleted ∨ Stale d userId (listed s.userKeys userId) t := by
    refine Machine.Obeys.invariant (I := fun u => userId ∈ u.deleted ∨
      Stale d userId (listed s.userKeys userId) u) ?_ has (.inr (hrest.stale hmarker hidentity)) hrun
    rintro u a v (hdeleted | hu) ha he
    · exact .inl (System.deleted_step hdeleted he)
    · exact hu.step ha he
  have ht := hstale.resolve_left hlive
  refine ⟨ht.marker, ht.listed, fun keys entropy hkeys hlisted => ?_⟩
  rw [ht.listed] at hlisted
  obtain ⟨e, he, hvalue⟩ := Option.map_eq_some_iff.mp
    (Identities.held_eq_some.mp hkeys .dilithiumPublicKey)
  exact ht.identity.store he _ hlisted hvalue

/-- A second account cannot be registered on the device and is deleted there. -/
def secondAccount (userId : JsString) : List (Action S Unit) :=
  [.logOut (), .login () userId, .fail () 1, .deleteAccount (), .serve 1 true, .answered () 2,
    .clearSession () 2] ++ KeyName.all.map (.clearIdentity () 2)

/-- What is left of it. -/
def secondDeleted (s : System S Unit) (first second : JsString) (keys : IdentityKeys S)
    (store : Identities.Entries S) : System S Unit where
  phones _ := ⟨none, some first, ⟨store, [⟨some keys, .resolved keys⟩], none⟩,
    [.settled, .settled, .wiping false []]⟩
  requests := s.requests ++ [⟨second, .deleteAccount, some true⟩]
  userKeys := Function.update s.userKeys second none
  deleted := [second]

theorem exec_secondAccount (keys : IdentityKeys S) : ∃ store : Identities.Entries S,
    (machine S Unit).exec (registeredOnce [1] keys []) (secondAccount [2]) =
      some (secondDeleted (registeredOnce [1] keys []) [1] [2] keys store) ∧
    ∀ name, store name = none := by
  refine ⟨_, rfl, fun name => ?_⟩
  cases name <;> rfl

/-- The first account logs in again, and the inbox asks for the identity. -/
def loginAgain (userId : JsString) (kyber : S.KyberSecret) (dilithium : S.DilithiumSecret)
    (x25519 : S.X25519Secret) : List (Action S Unit) :=
  [.login () userId, .readMarker () 3, .identity () .ensureLocalIdentity] ++
    (Identities.wholeCall 1 kyber dilithium x25519).map (.identity ())

/-- The device when the second call of `ensureLocalIdentity` has begun. -/
def secondBegun (userId : JsString) (keys : IdentityKeys S) : Phone S where
  token := some userId
  keysUploadedForUserId := some userId
  identity := ⟨fun _ => none, [⟨some keys, .resolved keys⟩, ⟨none, .loading fun _ => none⟩], some 1⟩
  calls := [.settled, .settled, .wiping false [], .settled]

theorem exec_login (s : System S Unit) (keys : IdentityKeys S) :
    (machine S Unit).exec (secondDeleted s [1] [2] keys fun _ => none)
      [.login () [1], .readMarker () 3, .identity () .ensureLocalIdentity] =
      some ((secondDeleted s [1] [2] keys fun _ => none).set () (secondBegun [1] keys)) := by
  rfl

/-- The second call on a device whose entries were deleted. -/
theorem exec_second (keys : IdentityKeys S) (kyber : S.KyberSecret) (dilithium : S.DilithiumSecret)
    (x25519 : S.X25519Secret) : ∃ identity, (Identities.machine S).exec
      ⟨fun _ => none, [⟨some keys, .resolved keys⟩, ⟨none, .loading fun _ => none⟩], some 1⟩
      (Identities.wholeCall 1 kyber dilithium x25519) = some identity ∧
    identity.held = some (generateIdentity kyber dilithium x25519) := by
  refine ⟨_, rfl, Identities.held_eq_some.mpr fun name => ?_⟩
  cases name <;> rfl

theorem exec_loginAgain (s : System S Unit) (keys : IdentityKeys S) (kyber : S.KyberSecret)
    (dilithium : S.DilithiumSecret) (x25519 : S.X25519Secret) : ∃ t,
      (machine S Unit).exec (secondDeleted s [1] [2] keys fun _ => none)
        (loginAgain [1] kyber dilithium x25519) = some t ∧
      (t.phones ()).token = some [1] ∧ t.deleted = [[2]] ∧
      (t.phones ()).identity.held = some (generateIdentity kyber dilithium x25519) := by
  obtain ⟨identity, hidentity, hheld⟩ := exec_second keys kyber dilithium x25519
  refine ⟨(secondDeleted s [1] [2] keys fun _ => none).set ()
    { secondBegun [1] keys with identity := identity }, ?_, rfl, rfl, hheld⟩
  rw [loginAgain, Machine.exec_append, exec_login, Option.bind_some]
  exact exec_ensure _ (Identities.restart_notMem_wholeCall 1 kyber dilithium x25519) hidentity

/-- The device has a new identity and the old bundle is listed, after a login of its user. -/
theorem stale_marker_login : ∃ (s : System sizedSuite Unit) (userId : JsString),
    (machine sizedSuite Unit).Reach Machine.anyStep s ∧ (s.phones ()).token = some userId ∧
      (s.phones ()).keysUploadedForUserId = some userId ∧ userId ∉ s.deleted ∧
      ∃ keys bundle, (s.phones ()).identity.held = some keys ∧
        listed s.userKeys userId = some bundle ∧ ∀ entropy, bundle ≠ keyBundle keys entropy := by
  let kyber : Bytes := Symbolic.toBytes 1184 0
  let one : Symbolic.Secret := ⟨1, by decide⟩
  let two : Symbolic.Secret := ⟨2, by decide⟩
  have hfirst := (registeredOnce_reach [1] rfl (sized_sizedIdentity one)).mono
    (H := Machine.anyStep) fun _ _ _ => trivial
  obtain ⟨store, hsecond, hstore⟩ := exec_secondAccount (sizedIdentity one)
  obtain rfl : store = fun _ => none := funext hstore
  generalize hrested : secondDeleted _ [1] [2] (sizedIdentity one) _ = rested at hsecond
  have hlisted : listed rested.userKeys [1] = some (keyBundle (sizedIdentity one) []) := by
    rw [← hrested]
    exact (listed_update_ne _ _ (by decide)).trans (listed_update_self _ _ _)
  have hrest : rested.AtRest () [1] := by
    rw [← hrested]
    constructor
    · intro call hcall
      simp only [secondDeleted, List.mem_cons, List.not_mem_nil, or_false] at hcall
      rcases hcall with rfl | rfl | rfl <;> trivial
    · exact fun hne => absurd rfl hne
    · intro r payload hr huser hbody hnone
      simp only [secondDeleted, registeredOnce, List.cons_append, List.nil_append, List.mem_cons,
        List.not_mem_nil, or_false] at hr
      rcases hr with rfl | rfl
      · cases hnone
      · cases hbody
  have hclear : (rested.phones ()).identity.Clear := by
    rw [← hrested]
    refine ⟨fun _ => rfl, fun attempt hattempt => ?_⟩
    cases List.mem_singleton.mp hattempt
    rfl
  have hnew : ∀ b ∈ listed rested.userKeys [1],
      sizedIdentity two .dilithiumPublicKey ≠ b.dilithiumPublicKey := by
    rw [hlisted]
    rintro b hb heq
    cases hb
    exact absurd (List.cons.inj heq).1 (by decide)
  have hobeys : (machine sizedSuite Unit).Obeys
      (OneAccount () [1] (listed rested.userKeys [1])) rested (loginAgain [1] kyber two two) := by
    refine Machine.Obeys.of_forall (fun a ha s => ?_) rested
    rcases List.mem_append.mp ha with ha | ha
    · simp only [List.mem_cons, List.not_mem_nil, or_false] at ha
      rcases ha with rfl | rfl | rfl
      · exact ⟨fun _ => rfl, fun _ => rfl⟩
      · trivial
      · trivial
    · obtain ⟨b, hb, rfl⟩ := List.mem_map.mp ha
      cases b with
      | loaded =>
        simp only [Identities.wholeCall, Identities.written, List.mem_append, List.mem_cons,
          List.mem_map, Identities.Action.loaded.injEq, reduceCtorEq, and_false, exists_false,
          false_or, or_false] at hb
        obtain ⟨rfl, rfl, rfl, rfl⟩ := hb
        exact fun _ => hnew
      | _ => trivial
  obtain ⟨t, ht, htoken, hdeleted, hheld⟩ :=
    exec_loginAgain (registeredOnce [1] (sizedIdentity one) []) (sizedIdentity one) kyber two two
  rw [hrested] at ht
  have hlive : [1] ∉ t.deleted := by
    rw [hdeleted]
    decide
  have hmarked : (rested.phones ()).keysUploadedForUserId = some [1] := by
    rw [← hrested]
    rfl
  obtain ⟨hmarker, hsame, hne⟩ := stale_marker hrest hmarked hclear hobeys ht hlive
  refine ⟨t, [1], (hfirst.exec hsecond).exec ht, htoken, hmarker, hlive, sizedIdentity two, _,
    hheld, hsame.trans hlisted, fun entropy heq => hne _ entropy hheld ?_⟩
  exact (hsame.trans hlisted).trans (congrArg some heq)

end Epistl.KeyRegistration
