import Epistl.Keys.Registration

/-! # When the marker is right

The marker of a device names a user whose listed bundle should be that of the device's own
identity. This is kept while every account stays with one device, a registration goes out
under the token of its own user, an identity is generated only where earlier calls have left
nothing, and none is cleared that is still listed, or about to be, for an account that goes on.
-/
namespace Epistl.KeyRegistration
open Deletion (IdentityKeys KeyName generateIdentity)
open KeyDirectory
variable {S : Suite} {D : Type}

namespace System

@[simp] theorem phones_send (s : System S D) (r : Request) : (s.send r).phones = s.phones := rfl
@[simp] theorem userKeys_send (s : System S D) (r : Request) : (s.send r).userKeys = s.userKeys := rfl
@[simp] theorem deleted_send (s : System S D) (r : Request) : (s.send r).deleted = s.deleted := rfl

variable [DecidableEq D] {s t : System S D} {d d' : D}

@[simp] theorem requests_set (phone : Phone S) : (s.set d phone).requests = s.requests := rfl
@[simp] theorem userKeys_set (phone : Phone S) : (s.set d phone).userKeys = s.userKeys := rfl
@[simp] theorem deleted_set (phone : Phone S) : (s.set d phone).deleted = s.deleted := rfl

@[simp] theorem phones_set_self (phone : Phone S) : (s.set d phone).phones d = phone :=
  Function.update_self _ _ _

theorem phones_set_ne (phone : Phone S) (h : d' ≠ d) : (s.set d phone).phones d' = s.phones d' :=
  Function.update_of_ne h _ _

/-- What each enabled action does. -/
inductive Moves (s : System S D) : Action S D → System S D → Prop
  | login {d : D} {userId : JsString} : userId ∉ s.deleted → Moves s (.login d userId)
    (s.set d { s.phones d with
      token := some userId
      calls := (s.phones d).calls ++ [.registering userId] })
  | identity {d : D} {a : Identities.Action S} {identity : Identities.Device S} :
    (s.phones d).identity.step a = some identity →
    Moves s (.identity d a) (s.set d { s.phones d with identity := identity })
  | serve {n : ℕ} {succeeds : Bool} {r : Request} : s.requests[n]? = some r → r.answer = none →
    Moves s (.serve n succeeds) (s.serve n succeeds r)
  | logOut {d : D} : Moves s (.logOut d) (s.set d { s.phones d with token := none })
  | deleteAccount {d : D} {user : JsString} : (s.phones d).token = some user →
    Moves s (.deleteAccount d) ((s.set d { s.phones d with
      calls := (s.phones d).calls ++ [.deleting s.requests.length] }).send
        ⟨user, .deleteAccount, none⟩)
  | restart {d : D} {identity : Identities.Device S} :
    (s.phones d).identity.step .restart = some identity →
    Moves s (.restart d) (s.set d { s.phones d with identity := identity, calls := [] })
  /-- the call is over, and has changed nothing -/
  | settled {a : Action S D} {d : D} {i : ℕ} : target a = some (d, i) →
    Moves s a (s.put d i .settled)
  | ensuring {d : D} {i : ℕ} {userId : JsString} :
    (s.phones d).calls[i]? = some (.registering userId) →
    (s.phones d).keysUploadedForUserId ≠ some userId →
    Moves s (.readMarker d i) (s.put d i (.ensuring userId))
  | resolving {d : D} {i n : ℕ} {userId : JsString} {identity : Identities.Device S} :
    (s.phones d).calls[i]? = some (.ensuring userId) →
    (s.phones d).identity.step .ensureLocalIdentity = some identity → identity.inFlight = some n →
    Moves s (.ensureLocalIdentity d i)
      ((s.set d { s.phones d with identity := identity }).put d i (.resolving userId n))
  | uploading {d : D} {i n : ℕ} {userId : JsString} {keys : IdentityKeys S} :
    (s.phones d).calls[i]? = some (.resolving userId n) → (s.phones d).identity.Resolved n keys →
    Moves s (.ensured d i) (s.put d i (.uploading userId keys))
  | awaiting {d : D} {i : ℕ} {entropy : Bytes} {userId user : JsString} {keys : IdentityKeys S} :
    (s.phones d).calls[i]? = some (.uploading userId keys) → (s.phones d).token = some user →
    Moves s (.registerKeys d i entropy) ((s.put d i (.awaiting userId s.requests.length)).send
      ⟨user, .keys (registerKeysBody (keyBundle keys entropy)), none⟩)
  | marking {d : D} {i n : ℕ} {userId : JsString} :
    (s.phones d).calls[i]? = some (.awaiting userId n) →
    s.answer n = some true → Moves s (.answered d i) (s.put d i (.marking userId))
  | wiping {d : D} {i n : ℕ} : (s.phones d).calls[i]? = some (.deleting n) → s.answer n = some true →
    Moves s (.answered d i) (s.put d i (.wiping true KeyName.all))
  | setMarker {d : D} {i : ℕ} {userId : JsString} : (s.phones d).calls[i]? = some (.marking userId) →
    Moves s (.setMarker d i) ((s.set d { s.phones d with
      keysUploadedForUserId := some userId }).put d i .settled)
  | clearSession {d : D} {i : ℕ} {entries : List KeyName} :
    (s.phones d).calls[i]? = some (.wiping true entries) →
    Moves s (.clearSession d i) ((s.set d { s.phones d with token := none }).put d i
      (.wiping false entries))
  | clearIdentity {d : D} {i : ℕ} {session : Bool} {entries : List KeyName} {name : KeyName} :
    (s.phones d).calls[i]? = some (.wiping session entries) → name ∈ entries →
    Moves s (.clearIdentity d i name) ((s.set d { s.phones d with
      identity := (s.phones d).identity.deleteKey name }).put d i
        (.wiping session (entries.erase name)))

theorem ensure_eq_some {a : Identities.Action S} (h : s.ensure d a = some t) : ∃ identity,
    (s.phones d).identity.step a = some identity ∧
      t = s.set d { s.phones d with identity := identity } := by
  obtain ⟨identity, hidentity, rfl⟩ := Option.map_eq_some_iff.mp h
  exact ⟨identity, hidentity, rfl⟩

theorem resume_moves {a : Action S D} {i : ℕ} {call : Call S}
    (hc : (s.phones d).calls[i]? = some call) (ha : target a = some (d, i))
    (h : s.resume d i call a = some t) : Moves s a t := by
  cases a with
  | login | identity | serve | logOut | deleteAccount | restart => cases ha
  | readMarker =>
    cases ha
    cases call with
    | registering userId =>
      simp only [resume] at h
      split at h
      · cases h
        exact .settled rfl
      · rename_i hmarker
        cases h
        exact .ensuring hc hmarker
    | _ => cases h
  | ensureLocalIdentity =>
    cases ha
    cases call with
    | ensuring userId =>
      obtain ⟨u, hu, h⟩ := Option.bind_eq_some_iff.mp h
      obtain ⟨identity, hidentity, rfl⟩ := ensure_eq_some hu
      obtain ⟨n, hn, rfl⟩ := Option.map_eq_some_iff.mp h
      rw [phones_set_self] at hn
      exact .resolving hc hidentity hn
    | _ => cases h
  | ensured =>
    cases ha
    cases call with
    | resolving userId n =>
      simp only [resume] at h
      split at h
      · rename_i keys hstage
        obtain ⟨attempt, hn, hresolved⟩ := Option.map_eq_some_iff.mp hstage
        cases h
        exact .uploading hc ⟨attempt, hn, hresolved⟩
      · cases h
        exact .settled rfl
      · cases h
    | _ => cases h
  | registerKeys =>
    cases ha
    cases call with
    | uploading userId keys =>
      simp only [resume] at h
      split at h
      · rename_i user htoken
        cases h
        exact .awaiting hc htoken
      · cases h
        exact .settled rfl
    | _ => cases h
  | answered =>
    cases ha
    cases call with
    | awaiting userId n =>
      simp only [resume] at h
      split at h
      · rename_i hanswer
        cases h
        exact .marking hc hanswer
      · cases h
        exact .settled rfl
      · cases h
    | deleting n =>
      simp only [resume] at h
      split at h
      · rename_i hanswer
        cases h
        exact .wiping hc hanswer
      · cases h
        exact .settled rfl
      · cases h
    | _ => cases h
  | fail =>
    cases ha
    cases call with
    | resolving | wiping => cases h
    | _ =>
      cases h
      exact .settled rfl
  | setMarker =>
    cases ha
    cases call with
    | marking userId =>
      cases h
      exact .setMarker hc
    | _ => cases h
  | clearSession =>
    cases ha
    cases call with
    | wiping session entries =>
      cases session with
      | true =>
        cases h
        exact .clearSession hc
      | false => cases h
    | _ => cases h
  | clearIdentity =>
    cases ha
    cases call with
    | wiping session entries =>
      simp only [resume] at h
      split at h
      · rename_i hname
        cases h
        exact .clearIdentity hc hname
      · cases h
    | _ => cases h

theorem step_moves {a : Action S D} (h : s.step a = some t) : Moves s a t := by
  cases a with
  | login d userId =>
    simp only [step] at h
    split at h
    · cases h
    · rename_i hlive
      cases h
      exact .login hlive
  | identity d a =>
    cases a with
    | restart => cases h
    | _ =>
      obtain ⟨identity, hidentity, rfl⟩ := ensure_eq_some h
      exact .identity hidentity
  | serve n succeeds =>
    obtain ⟨r, hr, h⟩ := Option.bind_eq_some_iff.mp h
    split at h
    · rename_i hanswer
      cases h
      exact .serve hr hanswer
    · cases h
  | logOut =>
    cases h
    exact .logOut
  | deleteAccount =>
    obtain ⟨user, htoken, rfl⟩ := Option.map_eq_some_iff.mp h
    exact .deleteAccount htoken
  | restart =>
    simp only [step, Option.map_eq_some_iff] at h
    obtain ⟨identity, hidentity, rfl⟩ := h
    exact .restart hidentity
  | readMarker | ensureLocalIdentity | ensured | registerKeys | answered | fail | setMarker | clearSession
  | clearIdentity =>
    obtain ⟨call, hc, h⟩ := Option.bind_eq_some_iff.mp h
    exact resume_moves hc rfl h

end System

/-- The bundle of the device of the account is listed, unless the account is gone. -/
def System.Published (s : System S D) (home : JsString → D) (userId : JsString) : Prop :=
  userId ∉ s.deleted → ∃ keys entropy, (s.phones (home userId)).identity.held = some keys ∧
    listed s.userKeys userId = some (keyBundle keys entropy)

/-- What a call relies on. -/
def System.Sound (s : System S D) (home : JsString → D) (d : D) : Call S → Prop
  | .registering userId | .ensuring userId => home userId = d
  | .resolving userId n => home userId = d ∧ (userId ∉ s.deleted →
    ∀ keys, (s.phones d).identity.Resolved n keys → (s.phones d).identity.held = some keys)
  | .uploading userId keys =>
    home userId = d ∧ (userId ∉ s.deleted → (s.phones d).identity.held = some keys)
  | .awaiting userId n => home userId = d ∧ ∃ payload answer,
    s.requests[n]? = some ⟨userId, .keys payload, answer⟩ ∧
      (answer = some true → s.Published home userId)
  | .marking userId => home userId = d ∧ s.Published home userId
  | .deleting _ | .wiping _ _ | .settled => True

/-- An upload that is not served yet brings the bundle of the device it comes from. -/
def System.Pending (s : System S D) (home : JsString → D) (r : Request) : Prop :=
  ∀ payload, r.body = .keys payload → r.answer = none → r.user ∉ s.deleted →
    ∃ keys entropy, (s.phones (home r.user)).identity.held = some keys ∧
      payload = registerKeysBody (keyBundle keys entropy)

structure Registered (home : JsString → D) (s : System S D) : Prop where
  identity (d : D) : Identities.Kept (s.phones d).identity
  token {d : D} {userId : JsString} : (s.phones d).token = some userId → home userId = d
  calls {d : D} {call : Call S} : call ∈ (s.phones d).calls → s.Sound home d call
  requests {r : Request} : r ∈ s.requests → s.Pending home r
  marker {d : D} {userId : JsString} : (s.phones d).keysUploadedForUserId = some userId →
    home userId = d ∧ s.Published home userId

/-- Nothing is at work on the entries of the device, and nothing of its identity is listed, or on
its way, for an account that goes on. -/
structure System.Unused (s : System S D) (home : JsString → D) (d : D) : Prop where
  quiet : (s.phones d).identity.Quiet
  marker {userId : JsString} :
    (s.phones d).keysUploadedForUserId = some userId → userId ∈ s.deleted
  resolving {userId : JsString} {n : ℕ} :
    .resolving userId n ∈ (s.phones d).calls → userId ∈ s.deleted
  uploading {userId : JsString} {keys : IdentityKeys S} :
    .uploading userId keys ∈ (s.phones d).calls → userId ∈ s.deleted
  awaiting {userId : JsString} {n : ℕ} :
    .awaiting userId n ∈ (s.phones d).calls → userId ∈ s.deleted
  marking {userId : JsString} : .marking userId ∈ (s.phones d).calls → userId ∈ s.deleted
  requests {r : Request} {payload : UploadKeysPayload} : r ∈ s.requests → r.body = .keys payload → r.answer = none →
    home r.user = d → r.user ∈ s.deleted

/-- Every account is used on its own device, an identity is generated where earlier calls have left
nothing, a registration is sent under the token of its user, and an entry is cleared when nothing
uses the identity. -/
def Careful (home : JsString → D) (s : System S D) : Action S D → Prop
  | .login d userId => home userId = d
  | .identity d a => Identities.Fit (s.phones d).identity a
  | .registerKeys d i _ => ∀ userId keys, (s.phones d).calls[i]? = some (.uploading userId keys) →
    ∀ user, (s.phones d).token = some user → user = userId
  | .clearIdentity d _ _ => s.Unused home d
  | _ => True

section Later
variable {home : JsString → D} {s t : System S D}

/-- What the calls rely on is kept from one state to the other. -/
structure Later (home : JsString → D) (s t : System S D) : Prop where
  identity (d : D) : (s.phones d).identity.Keeps (t.phones d).identity
  deleted {userId : JsString} : userId ∈ s.deleted → userId ∈ t.deleted
  published {userId : JsString} : s.Published home userId → t.Published home userId
  requests {n : ℕ} {userId : JsString} {payload : UploadKeysPayload} {answer : Option Bool} :
    s.requests[n]? = some ⟨userId, .keys payload, answer⟩ →
    ∃ answer', t.requests[n]? = some ⟨userId, .keys payload, answer'⟩ ∧
      (answer' = some true → answer = some true ∨ t.Published home userId)

theorem System.Sound.later {d : D} {call : Call S} (h : s.Sound home d call) (hl : Later home s t) :
    t.Sound home d call := by
  cases call with
  | registering | ensuring => exact h
  | resolving userId n =>
    refine ⟨h.1, fun hlive keys hr => ?_⟩
    rcases (hl.identity d).resolved hr with hold | hheld
    · exact (hl.identity d).held (h.2 (fun hdeleted => hlive (hl.deleted hdeleted)) keys hold)
    · exact hheld
  | uploading userId keys =>
    exact ⟨h.1, fun hlive => (hl.identity d).held (h.2 fun hdeleted => hlive (hl.deleted hdeleted))⟩
  | awaiting userId n =>
    obtain ⟨hhome, payload, answer, hr, hanswer⟩ := h
    obtain ⟨answer', hr', hanswer'⟩ := hl.requests hr
    exact ⟨hhome, payload, answer', hr', fun ha =>
      (hanswer' ha).elim (fun hold => hl.published (hanswer hold)) id⟩
  | marking userId => exact ⟨h.1, hl.published h.2⟩
  | deleting | wiping | settled => trivial

theorem System.Pending.later {r : Request} (h : s.Pending home r) (hl : Later home s t) :
    t.Pending home r := by
  intro payload hbody hanswer hlive
  obtain ⟨keys, entropy, hkeys, hpayload⟩ := h payload hbody hanswer fun hdeleted =>
    hlive (hl.deleted hdeleted)
  exact ⟨keys, entropy, (hl.identity _).held hkeys, hpayload⟩

/-- Only the devices have changed, and no identity was lost. -/
theorem Later.of_phones (hidentity : ∀ d, (s.phones d).identity.Keeps (t.phones d).identity)
    (hrequests : t.requests = s.requests) (hkeys : t.userKeys = s.userKeys)
    (hdeleted : t.deleted = s.deleted) : Later home s t where
  identity := hidentity
  deleted h := hdeleted ▸ h
  published h hlive := by
    obtain ⟨keys, entropy, hi, hlisted⟩ := h (hdeleted ▸ hlive)
    exact ⟨keys, entropy, (hidentity _).held hi, hkeys ▸ hlisted⟩
  requests h := ⟨_, hrequests ▸ h, .inl⟩

end Later

section Steps
variable [DecidableEq D] {home : JsString → D} {s t : System S D} {d : D}

theorem Later.set {phone : Phone S} (hidentity : (s.phones d).identity.Keeps phone.identity) :
    Later home s (s.set d phone) := by
  apply Later.of_phones
  · intro d'
    by_cases hd : d' = d
    · subst hd
      rw [System.phones_set_self]
      exact hidentity
    · rw [System.phones_set_ne _ hd]
      exact .refl _
  · rfl
  · rfl
  · rfl

omit [DecidableEq D] in
theorem Later.send (r : Request) : Later home s (s.send r) where
  identity _ := .refl _
  deleted h := h
  published h := h
  requests h :=
    ⟨_, (List.getElem?_append_left (List.getElem?_eq_some_iff.mp h).1).trans h, .inl⟩

/-- One device has changed, and kept its identity. -/
theorem Registered.set (h : Registered home s) {phone : Phone S}
    (hkept : Identities.Kept phone.identity)
    (hidentity : (s.phones d).identity.Keeps phone.identity)
    (htoken : ∀ userId, phone.token = some userId → home userId = d)
    (hcalls : ∀ call ∈ phone.calls, call ∈ (s.phones d).calls ∨ (s.set d phone).Sound home d call)
    (hmarker : ∀ userId, phone.keysUploadedForUserId = some userId →
      home userId = d ∧ s.Published home userId) : Registered home (s.set d phone) := by
  have hl : Later home s (s.set d phone) := .set hidentity
  constructor
  · intro d'
    by_cases hd : d' = d
    · subst hd
      rw [System.phones_set_self]
      exact hkept
    · rw [System.phones_set_ne _ hd]
      exact h.identity d'
  · intro d' userId hd'
    by_cases hd : d' = d
    · subst hd
      rw [System.phones_set_self] at hd'
      exact htoken userId hd'
    · rw [System.phones_set_ne _ hd] at hd'
      exact h.token hd'
  · intro d' call hcall
    by_cases hd : d' = d
    · subst hd
      rw [System.phones_set_self] at hcall
      exact (hcalls call hcall).elim (fun hold => (h.calls hold).later hl) id
    · rw [System.phones_set_ne _ hd] at hcall
      exact (h.calls hcall).later hl
  · intro r hr
    exact (h.requests hr).later hl
  · intro d' userId hd'
    by_cases hd : d' = d
    · subst hd
      rw [System.phones_set_self] at hd'
      exact (hmarker userId hd').imp id hl.published
    · rw [System.phones_set_ne _ hd] at hd'
      exact (h.marker hd').imp id hl.published

/-- One device has changed, but not its entries. -/
theorem Registered.update (h : Registered home s) {phone : Phone S}
    (hsame : phone.identity = (s.phones d).identity)
    (htoken : ∀ userId, phone.token = some userId → home userId = d)
    (hcalls : ∀ call ∈ phone.calls, call ∈ (s.phones d).calls ∨ (s.set d phone).Sound home d call)
    (hmarker : ∀ userId, phone.keysUploadedForUserId = some userId →
      home userId = d ∧ s.Published home userId) : Registered home (s.set d phone) := by
  refine h.set ?_ ?_ htoken hcalls hmarker
  · rw [hsame]
    exact h.identity d
  · rw [hsame]
    exact .refl _

omit [DecidableEq D] in
theorem Registered.send (h : Registered home s) {r : Request} (hr : s.Pending home r) :
    Registered home (s.send r) where
  identity := h.identity
  token := h.token
  calls hcall := (h.calls hcall).later (.send r)
  requests hmem := (List.mem_append.mp hmem).elim h.requests fun hlast =>
    List.mem_singleton.mp hlast ▸ hr
  marker := h.marker

/-- A call has gone on. -/
theorem Registered.put (h : Registered home s) {i : ℕ} {call : Call S}
    (hcall : s.Sound home d call) : Registered home (s.put d i call) := by
  refine h.update rfl (fun _ => h.token) (fun c hc => ?_) fun _ => h.marker
  rcases List.mem_or_eq_of_mem_set hc with hc | rfl
  · exact .inl hc
  · exact .inr (hcall.later (.set (.refl _)))

/-- The calls of `ensureLocalIdentity` on a device have taken a step. -/
theorem Registered.ensure (h : Registered home s) {a : Identities.Action S}
    {identity : Identities.Device S} (hfit : Identities.Fit (s.phones d).identity a)
    (he : (s.phones d).identity.step a = some identity) :
    Registered home (s.set d { s.phones d with identity := identity }) :=
  Registered.set h ((h.identity d).step hfit he) ((h.identity d).keeps hfit he) (fun _ => h.token)
    (fun _ => .inl) fun _ => h.marker

omit [DecidableEq D] in
/-- A request was answered. -/
theorem Registered.answered (h : Registered home s) {n : ℕ} {r : Request} {b : Bool}
    (hr : s.requests[n]? = some r) (hphones : t.phones = s.phones)
    (hrequests : t.requests = s.requests.set n { r with answer := some b })
    (hdeleted : ∀ userId ∈ s.deleted, userId ∈ t.deleted)
    (hpublished : ∀ userId, s.Published home userId → t.Published home userId)
    (hanswer : ∀ payload, r.body = .keys payload → b = true → t.Published home r.user) :
    Registered home t := by
  have hl : Later home s t := by
    refine ⟨fun d => hphones ▸ .refl _, hdeleted _, hpublished _, fun {n'} {userId} {payload} {answer} h' => ?_⟩
    rw [hrequests, List.getElem?_set]
    split
    · rename_i heq
      subst heq
      cases hr.symm.trans h'
      rw [if_pos (List.getElem?_eq_some_iff.mp hr).1]
      exact ⟨_, rfl, fun hb => .inr (hanswer payload rfl (Option.some.inj hb))⟩
    · exact ⟨_, h', .inl⟩
  constructor
  · rw [hphones]
    exact h.identity
  · rw [hphones]
    exact h.token
  · intro d call hcall
    rw [hphones] at hcall
    exact (h.calls hcall).later hl
  · intro r' hr'
    rw [hrequests] at hr'
    rcases List.mem_or_eq_of_mem_set hr' with hr' | rfl
    · exact (h.requests hr').later hl
    · intro _ _ hnone
      cases hnone
  · intro d userId hmarker
    rw [hphones] at hmarker
    exact (h.marker hmarker).imp id hl.published

omit [DecidableEq D] in
theorem Registered.serve (h : Registered home s) {n : ℕ} {r : Request} (succeeds : Bool)
    (hr : s.requests[n]? = some r) (hnone : r.answer = none) :
    Registered home (s.serve n succeeds r) := by
  unfold System.serve
  split
  · exact h.answered hr rfl rfl (fun _ => id) (fun _ => id) fun _ _ hb => nomatch hb
  rename_i hlive
  split
  · rename_i payload hbody
    obtain ⟨keys, entropy, hkeys, hpayload⟩ :=
      h.requests (List.mem_of_getElem? hr) payload hbody hnone hlive
    rcases uploadKeys_cases s.userKeys r.user payload succeeds with ⟨row, hrow, -, he⟩ |
      ⟨-, answer, hanswer, he⟩
    · obtain ⟨hrow, -⟩ := parse_eq_ok.mp hrow
      have hbundle := registerKeysBody_injective (hrow.symm.trans hpayload)
      rw [he]
      have hown : System.Published { s with
          requests := s.requests.set n { r with answer := some (Answer.ok == Answer.ok) }
          userKeys := Function.update s.userKeys r.user (some row) } home r.user := by
        intro _
        refine ⟨keys, entropy, hkeys, ?_⟩
        exact (listed_update_self _ _ _).trans (congrArg some hbundle)
      refine h.answered hr rfl rfl (fun _ => id) (fun userId hpub => ?_) fun _ _ _ => hown
      by_cases huser : userId = r.user
      · exact huser ▸ hown
      · intro hlive'
        obtain ⟨keys', entropy', hkeys', hlisted⟩ := hpub hlive'
        exact ⟨keys', entropy', hkeys', (listed_update_ne _ _ huser).trans hlisted⟩
    · rw [he]
      refine h.answered hr rfl rfl (fun _ => id) (fun _ => id) fun _ _ hb => ?_
      exact absurd (beq_iff_eq.mp hb) hanswer
  · rename_i hbody
    split
    · refine h.answered hr rfl rfl (fun _ => List.mem_cons_of_mem _) (fun userId hpub hlive' => ?_)
        fun _ hkeys => nomatch hbody.symm.trans hkeys
      obtain ⟨hne, hlive'⟩ := not_or.mp (List.mem_cons.not.mp hlive')
      obtain ⟨keys', entropy', hkeys', hlisted⟩ := hpub hlive'
      exact ⟨keys', entropy', hkeys', (listed_update_ne _ _ hne).trans hlisted⟩
    · exact h.answered hr rfl rfl (fun _ => id) (fun _ => id) fun _ _ hb => nomatch hb

/-- An entry is gone, and nothing of the identity was in use. -/
theorem Registered.clearIdentity (h : Registered home s) (hunused : s.Unused home d)
    (name : KeyName) : Registered home
      (s.set d { s.phones d with identity := (s.phones d).identity.deleteKey name }) := by
  generalize hphone : { s.phones d with identity := (s.phones d).identity.deleteKey name } = phone
  have hother {d' : D} (hne : d' ≠ d) : (s.set d phone).phones d' = s.phones d' :=
    System.phones_set_ne _ hne
  have hpub {userId : JsString} (hne : home userId = d → userId ∈ s.deleted)
      (hp : s.Published home userId) : (s.set d phone).Published home userId := by
    intro hlive
    obtain ⟨keys, entropy, hkeys, hlisted⟩ := hp hlive
    refine ⟨keys, entropy, ?_, hlisted⟩
    rw [hother fun heq => hlive (hne heq)]
    exact hkeys
  constructor
  · intro d'
    by_cases hd : d' = d
    · subst hd
      rw [System.phones_set_self, ← hphone]
      exact (h.identity d').deleteKey hunused.quiet name
    · rw [hother hd]
      exact h.identity d'
  · intro d' userId htoken
    by_cases hd : d' = d
    · subst hd
      rw [System.phones_set_self, ← hphone] at htoken
      exact h.token htoken
    · rw [hother hd] at htoken
      exact h.token htoken
  · intro d' call hcall
    by_cases hd : d' = d
    · subst hd
      rw [System.phones_set_self, ← hphone] at hcall
      have hsound := h.calls hcall
      cases call with
      | registering | ensuring => exact hsound
      | resolving => exact ⟨hsound.1, fun hlive => absurd (hunused.resolving hcall) hlive⟩
      | uploading => exact ⟨hsound.1, fun hlive => absurd (hunused.uploading hcall) hlive⟩
      | awaiting userId n =>
        obtain ⟨hhome, payload, answer, hr, hp⟩ := hsound
        exact ⟨hhome, payload, answer, hr, fun ha => hpub (fun _ => hunused.awaiting hcall) (hp ha)⟩
      | marking => exact ⟨hsound.1, hpub (fun _ => hunused.marking hcall) hsound.2⟩
      | deleting | wiping | settled => trivial
    · rw [hother hd] at hcall
      have hsound := h.calls hcall
      cases call with
      | registering | ensuring => exact hsound
      | resolving | uploading =>
        refine ⟨hsound.1, fun hlive => ?_⟩
        rw [hother hd]
        exact hsound.2 hlive
      | awaiting userId n =>
        obtain ⟨hhome, payload, answer, hr, hp⟩ := hsound
        exact ⟨hhome, payload, answer, hr, fun ha =>
          hpub (fun heq => absurd (hhome.symm.trans heq) hd) (hp ha)⟩
      | marking =>
        exact ⟨hsound.1, hpub (fun heq => absurd (hsound.1.symm.trans heq) hd) hsound.2⟩
      | deleting | wiping | settled => trivial
  · intro r hr payload hbody hnone hlive
    obtain ⟨keys, entropy, hkeys, hpayload⟩ := h.requests hr payload hbody hnone hlive
    refine ⟨keys, entropy, ?_, hpayload⟩
    rw [hother fun heq => hlive (hunused.requests hr hbody hnone heq)]
    exact hkeys
  · intro d' userId hmarker
    by_cases hd : d' = d
    · subst hd
      rw [System.phones_set_self, ← hphone] at hmarker
      exact (h.marker hmarker).imp id (hpub fun _ => hunused.marker hmarker)
    · rw [hother hd] at hmarker
      obtain ⟨hhome, hp⟩ := h.marker hmarker
      exact ⟨hhome, hpub (fun heq => absurd (hhome.symm.trans heq) hd) hp⟩

theorem Registered.step {a : Action S D} (h : Registered home s) (hcareful : Careful home s a)
    (he : s.step a = some t) : Registered home t := by
  cases System.step_moves he with
  | login hlive =>
    refine h.update rfl (fun userId htoken => ?_) (fun call hcall => ?_) fun _ => h.marker
    · cases htoken
      exact hcareful
    · rcases List.mem_append.mp hcall with hold | hnew
      · exact .inl hold
      · cases List.mem_singleton.mp hnew
        exact .inr hcareful
  | identity hidentity => exact h.ensure hcareful hidentity
  | serve hr hnone => exact h.serve _ hr hnone
  | logOut =>
    refine h.update rfl (fun userId htoken => ?_) (fun _ => .inl) fun _ => h.marker
    cases htoken
  | deleteAccount htoken =>
    refine Registered.send (Registered.update h ?_ ?_ (fun call hcall => ?_) ?_) ?_
    · rfl
    · exact fun _ => h.token
    · rcases List.mem_append.mp hcall with hold | hnew
      · exact .inl hold
      · cases List.mem_singleton.mp hnew
        exact .inr trivial
    · exact fun _ => h.marker
    · intro payload hbody
      cases hbody
  | @restart d identity hidentity =>
    have hfit : Identities.Fit (s.phones d).identity .restart := trivial
    refine h.set ((h.identity d).step hfit hidentity) ((h.identity d).keeps hfit hidentity)
      (fun _ => h.token) (fun call hcall => ?_) fun _ => h.marker
    cases hcall
  | settled => exact h.put trivial
  | @ensuring d i userId hc hmarker =>
    have hhome : home userId = d := h.calls (List.mem_of_getElem? hc)
    exact h.put hhome
  | @resolving d i n userId identity hc hidentity hflight =>
    have hhome : home userId = d := h.calls (List.mem_of_getElem? hc)
    have hfit : Identities.Fit (s.phones d).identity .ensureLocalIdentity := trivial
    refine (h.ensure hfit hidentity).put ⟨hhome, fun _ keys hr => ?_⟩
    rw [System.phones_set_self] at hr
    exact absurd hr (((h.identity d).step hfit hidentity).not_resolved hflight)
  | uploading hc hr =>
    obtain ⟨hhome, hheld⟩ := h.calls (List.mem_of_getElem? hc)
    exact h.put ⟨hhome, fun hlive => hheld hlive _ hr⟩
  | @awaiting d i entropy userId user keys hc htoken =>
    obtain ⟨hhome, hkeys⟩ := h.calls (List.mem_of_getElem? hc)
    cases hcareful userId keys hc user htoken
    refine Registered.put (h.send ?_) ⟨hhome, _, none, List.getElem?_concat_length, nofun⟩
    intro payload hbody _ hlive
    cases hbody
    subst hhome
    exact ⟨keys, entropy, hkeys hlive, rfl⟩
  | marking hc hanswer =>
    obtain ⟨hhome, payload, answer, hr, hpub⟩ := h.calls (List.mem_of_getElem? hc)
    rw [System.answer, hr] at hanswer
    exact h.put ⟨hhome, hpub hanswer⟩
  | wiping => exact h.put trivial
  | @setMarker d i userId hc =>
    refine Registered.put (Registered.update h ?_ ?_ ?_ ?_) ?_
    · rfl
    · exact fun _ => h.token
    · exact fun _ => .inl
    · rintro _ ⟨⟩
      exact h.calls (List.mem_of_getElem? hc)
    · trivial
  | clearSession =>
    refine Registered.put (Registered.update h ?_ ?_ ?_ ?_) ?_
    · rfl
    · intro userId htoken
      cases htoken
    · exact fun _ => .inl
    · exact fun _ => h.marker
    · trivial
  | clearIdentity => exact Registered.put (h.clearIdentity hcareful _) trivial

end Steps

variable [DecidableEq D] {home : JsString → D} {s : System S D}

theorem registered (h : (machine S D).Reach (Careful home) s) : Registered home s := by
  apply h.invariant
  · rintro s rfl
    exact ⟨fun _ => .fresh, nofun, nofun, nofun, nofun⟩
  · intro s a t hs hcareful he
    exact hs.step hcareful he

/-- The marker of a device names an account of its own whose contacts decode the bundle of the
identity that the device has now. -/
theorem listed_of_marker (h : (machine S D).Reach (Careful home) s) {d : D} {userId : JsString}
    (hmarker : (s.phones d).keysUploadedForUserId = some userId) (hlive : userId ∉ s.deleted) :
    home userId = d ∧ ∃ keys entropy, (s.phones d).identity.held = some keys ∧
      listed s.userKeys userId = some (keyBundle keys entropy) := by
  obtain ⟨rfl, hpub⟩ := (registered h).marker hmarker
  exact ⟨rfl, hpub hlive⟩

theorem System.set_set (s : System S D) (d : D) (phone phone' : Phone S) :
    (s.set d phone).set d phone' = s.set d phone' :=
  congrArg (System.mk · _ _ _) (Function.update_idem _ _ _)

theorem step_ensure {d : D} {a : Identities.Action S} {identity : Identities.Device S}
    {phone : Phone S} (ha : a ≠ .restart) (he : phone.identity.step a = some identity) :
    (machine S D).step (s.set d phone) (.identity d a) =
      some (s.set d { phone with identity := identity }) := by
  have hensure : (s.set d phone).ensure d a = some (s.set d { phone with identity := identity }) := by
    rw [System.ensure, System.phones_set_self, he, Option.map_some, System.set_set]
  cases a with
  | restart => exact absurd rfl ha
  | _ => exact hensure

/-- A run of the calls of `ensureLocalIdentity` on one device. -/
theorem exec_ensure {d : D} {as : List (Identities.Action S)} {identity : Identities.Device S}
    (phone : Phone S) (has : .restart ∉ as)
    (he : (Identities.machine S).exec phone.identity as = some identity) :
    (machine S D).exec (s.set d phone) (as.map (.identity d)) =
      some (s.set d { phone with identity := identity }) := by
  induction as generalizing phone with
  | nil =>
    cases he
    rfl
  | cons a as ih =>
    obtain ⟨ha, has⟩ := not_or.mp (List.mem_cons.not.mp has)
    obtain ⟨device, hdevice, he⟩ := Option.bind_eq_some_iff.mp he
    have hstep := step_ensure (s := s) (d := d) (Ne.symm ha) hdevice
    exact (congrArg (Option.bind · _) hstep).trans (ih { phone with identity := device } has he)

/-- The same run, careful. -/
theorem reach_ensure {d : D} {as : List (Identities.Action S)} (phone : Phone S)
    (identity : Identities.Device S) (h : (machine S D).Reach (Careful home) (s.set d phone))
    (has : .restart ∉ as)
    (he : (Identities.machine S).execIf Identities.Fit phone.identity as = some identity) :
    (machine S D).Reach (Careful home) (s.set d { phone with identity := identity }) := by
  induction as generalizing phone with
  | nil =>
    cases he
    exact h
  | cons a as ih =>
    obtain ⟨ha, has⟩ := not_or.mp (List.mem_cons.not.mp has)
    simp only [Machine.execIf] at he
    split at he
    · rename_i hfit
      obtain ⟨device, hdevice, he⟩ := Option.bind_eq_some_iff.mp he
      have hcareful : Careful home (s.set d phone) (.identity d a) := by
        rw [Careful, System.phones_set_self]
        exact hfit
      exact ih { phone with identity := device }
        (h.step hcareful (step_ensure (Ne.symm ha) hdevice)) has he
    · cases he

/-- The server stores the bundle of an upload. -/
theorem System.step_serve (s : System S D) (n : ℕ) (userId : JsString) {bundle : ContactKeyBundle}
    (hr : s.requests[n]? = some ⟨userId, .keys (registerKeysBody bundle), none⟩)
    (hlive : userId ∉ s.deleted) (hsized : Sized bundle) :
    s.step (.serve n true) = some { s with
      requests := s.requests.set n ⟨userId, .keys (registerKeysBody bundle), some true⟩
      userKeys := Function.update s.userKeys userId (some ⟨bundle.x25519PublicKey,
        bundle.kyberPublicKey, bundle.dilithiumPublicKey, bundle.prekeySignature⟩) } := by
  have hparse : parse (registerKeysBody bundle) = .ok ⟨bundle.x25519PublicKey,
    bundle.kyberPublicKey, bundle.dilithiumPublicKey, bundle.prekeySignature⟩ :=
    parse_eq_ok.mpr ⟨rfl, hsized⟩
  rw [System.step, hr]
  simp only [Option.bind_some, System.serve, if_neg hlive, uploadKeys, hparse, if_true]
  rfl

/-- The device after its first registration. -/
def registeredOnce (userId : JsString) (keys : IdentityKeys S) (entropy : Bytes) : System S Unit :=
  let bundle := keyBundle keys entropy
  { phones := fun _ => ⟨some userId, some userId, .firstStored keys, [.settled]⟩
    requests := [⟨userId, .keys (registerKeysBody bundle), some true⟩]
    userKeys := Function.update (fun _ => none) userId (some ⟨bundle.x25519PublicKey,
        bundle.kyberPublicKey, bundle.dilithiumPublicKey, bundle.prekeySignature⟩)
    deleted := [] }

theorem registeredOnce_reach (userId : JsString) {kyber : S.KyberSecret}
    {dilithium : S.DilithiumSecret} {x25519 : S.X25519Secret} {keys : IdentityKeys S}
    {entropy : Bytes} (hkeys : generateIdentity kyber dilithium x25519 = keys)
    (hsized : Sized (keyBundle keys entropy)) :
    (machine S Unit).Reach (Careful fun _ => ()) (registeredOnce userId keys entropy) := by
  have hlogin := Machine.Reach.step (M := machine S Unit) (G := Careful fun _ => ())
    (a := Action.login () userId) (.init rfl) rfl rfl
  have hmarker := hlogin.step (a := Action.readMarker () 0) trivial rfl
  have hjoined := hmarker.step (a := Action.ensureLocalIdentity () 0) trivial rfl
  let resolving : Phone S := ⟨some userId, none, .first, [.resolving userId 0]⟩
  have hstored := reach_ensure resolving (.firstStored keys) hjoined
    (Identities.restart_notMem_wholeCall 0 kyber dilithium x25519)
    (hkeys ▸ Identities.execIf_first kyber dilithium x25519)
  have hensured := hstored.step (a := Action.ensured () 0) trivial rfl
  let sent : System S Unit := {
    phones := fun _ => ⟨some userId, none, .firstStored keys, [.awaiting userId 0]⟩
    requests := [⟨userId, .keys (registerKeysBody (keyBundle keys entropy)), none⟩]
    userKeys := fun _ => none
    deleted := [] }
  have hsent : (machine S Unit).Reach (Careful fun _ => ()) sent := by
    refine hensured.step (a := Action.registerKeys () 0 entropy) ?_ rfl
    intro u keys hc user htoken
    cases hc
    cases htoken
    rfl
  have hserve := System.step_serve sent 0 userId rfl List.not_mem_nil hsized
  have hserved := hsent.step (a := Action.serve 0 true) trivial hserve
  have hanswered := hserved.step (a := Action.answered () 0) trivial rfl
  exact hanswered.step (a := Action.setMarker () 0) trivial rfl

/-- Keys of the lengths that the server asks for. -/
abbrev sizedSuite : Suite :=
  { Symbolic.suite with dilithiumPublicKey := fun sk => Symbolic.toBytes 1952 sk.val }

def sizedIdentity (secret : Symbolic.Secret) : IdentityKeys sizedSuite :=
  generateIdentity (Symbolic.toBytes 1184 0) secret secret

theorem sized_sizedIdentity (secret : Symbolic.Secret) :
    Sized (keyBundle (sizedIdentity secret) []) where
  x25519PublicKey := Symbolic.length_publicKey secret
  kyberPublicKey := Symbolic.length_toBytes 1184 0
  dilithiumPublicKey := Symbolic.length_toBytes 1952 secret.val
  prekeySignature := Symbolic.length_toBytes 3309 secret.val

theorem listed_of_marker_first : ∃ (s : System sizedSuite Unit) (userId : JsString),
    (s.phones ()).keysUploadedForUserId = some userId ∧
      ∃ keys entropy, (s.phones ()).identity.held = some keys ∧
        listed s.userKeys userId = some (keyBundle keys entropy) := by
  have hreach := registeredOnce_reach [1] rfl (sized_sizedIdentity ⟨1, by decide⟩)
  exact ⟨_, [1], rfl, (listed_of_marker hreach (d := ()) rfl List.not_mem_nil).2⟩

end Epistl.KeyRegistration
