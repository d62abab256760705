import Epistl.Contacts.Invariant

/-! # A contact request is resolved once

The runs are those of `accept_contact_request`, `decline_contact_request` and
`cancel_contact_request` on one request. Whoever commits first has the row of the request,
and finds it pending; whoever comes later finds it resolved and rolls back.
-/
namespace Epistl.Contacts
variable {υ : Type} [DecidableEq υ]

/-- The calls are on this request. -/
def OnRequest (requestId : ℕ) (_ : System υ) : System.Action υ → Prop
  | .resolve _ id _ => id = requestId
  | .proceed _ | .fail _ => True
  | _ => False

/-- Call `i` returned 204. -/
def System.Succeeded (s : System υ) (i : ℕ) (operation : Operation υ) : Prop :=
  s.calls[i]? = some (.returned operation .noContent)

/-- What a resolution leaves of the tables. -/
structure Result (db db' : Database υ) (requestId : ℕ) (how : Resolution)
    (request : ContactRequestRow υ) : Prop where
  resolved : db'.request requestId = how.resolved request
  others (id : ℕ) : id ≠ requestId → db'.request id = db.request id
  contacts (a b : υ) : (db'.contacts a b).committed = some () ↔
    how = .accept ∧ SamePair request.requesterUserId request.recipientUserId a b ∨
      (db.contacts a b).committed = some ()

structure ResolvedOnce (lower : Bytes → Bytes) (db : Database υ) (requestId : ℕ) (s : System υ) :
    Prop where
  /-- At most one call returns 204. -/
  once {i j : ℕ} {operation operation' : Operation υ} :
    s.Succeeded i operation → s.Succeeded j operation' → i = j
  /-- It is the call of a party of the pending request, and the tables are as it left them. -/
  resolved {i : ℕ} {operation : Operation υ} : s.Succeeded i operation →
    ∃ how request, operation = .resolve how requestId (how.party request) ∧
      db.request requestId = some request ∧ request.status = .pending ∧
      Result db s.db requestId how request
  /-- Without it they are as they were. -/
  unresolved : (∀ i operation, ¬s.Succeeded i operation) →
    SameTables db s.db
  /-- Only a step in which a call returns 204 changes the tables. -/
  unchanged {a : System.Action υ} {t : System υ} : OnRequest requestId s a →
    s.step lower a = some t → SameTables s.db t.db ∨
      ∃ i operation, a = .proceed i ∧ t.Succeeded i operation
  /-- A call that has returned has no rows left to commit. -/
  released {i : ℕ} {operation : Operation υ} {response : Response} :
    s.calls[i]? = some (.returned operation response) →
    (∀ a b v, (s.db.contacts a b).writer ≠ some (i, v)) ∧
      ∀ row ∈ s.db.contactRequests, ∀ v, row.writer ≠ some (i, v)

/-- Call `t` inserted the row, or found it. -/
def Sees (db : Database υ) (t : ℕ) (a b : υ) : Prop :=
  (db.contacts a b).committed = some () ∨ (db.contacts a b).writer = some (t, some ())

/-- What call `t` knows of the request, and what it has inserted. -/
inductive Knows (db₀ db : Database υ) (r t : ℕ) : Call υ → Prop
  | loading {how : Resolution} {caller : υ} : Knows db₀ db r t (.loading how r caller)
  | inserting {x y : υ} : db₀.request r = some ⟨x, y, .pending⟩ →
      Knows db₀ db r t (.inserting r x y)
  | insertingSecond {x y : υ} {inserted : Bool} : db₀.request r = some ⟨x, y, .pending⟩ →
      Sees db t x y → Knows db₀ db r t (.insertingSecond r x y inserted)
  | checkingUsers {x y : υ} : db₀.request r = some ⟨x, y, .pending⟩ →
      Sees db t x y → Sees db t y x → Knows db₀ db r t (.checkingUsers r x y)
  | resolving {how : Resolution} {request : ContactRequestRow υ} :
      db₀.request r = some request → request.status = .pending →
      (how = .accept → Sees db t request.requesterUserId request.recipientUserId ∧
        Sees db t request.recipientUserId request.requesterUserId) →
      Knows db₀ db r t (.resolving how r (how.party request))
  | committing {how : Resolution} {request : ContactRequestRow υ} :
      db₀.request r = some request → request.status = .pending →
      (how = .accept → Sees db t request.requesterUserId request.recipientUserId ∧
        Sees db t request.recipientUserId request.requesterUserId) →
      Knows db₀ db r t (.committing (.resolve how r (how.party request)))
  | dropped {how : Resolution} {caller : υ} {response : Response} :
      Knows db₀ db r t (.dropped (.resolve how r caller) response)
  | returned {how : Resolution} {caller : υ} {response : Response} :
      Knows db₀ db r t (.returned (.resolve how r caller) response)

/-- No call returned 204 yet, or one did. -/
inductive Won (db₀ : Database υ) (r : ℕ) (s : System υ) : Prop
  | open : (∀ i operation, ¬s.Succeeded i operation) →
      SameTables db₀ s.db → Won db₀ r s
  | by {i : ℕ} {how : Resolution} {request : ContactRequestRow υ} :
      s.Succeeded i (.resolve how r (how.party request)) →
      (∀ j operation, s.Succeeded j operation → j = i) →
      db₀.request r = some request → request.status = .pending → Result db₀ s.db r how request →
      Won db₀ r s

structure Resolving (db₀ : Database υ) (r : ℕ) (s : System υ) : Prop where
  inv : Inv s
  knows {t : ℕ} {call : Call υ} : s.calls[t]? = some call → Knows db₀ s.db r t call
  won : Won db₀ r s

variable {lower : Bytes → Bytes} {db₀ db db' : Database υ} {s t : System υ} {r i j : ℕ} {a b x y : υ}
  {call call' : Call υ} {how : Resolution} {request : ContactRequestRow υ} {row row' : Row ℕ Unit}
  {inserted : Bool}

omit [DecidableEq υ] in
/-- A request that is pending has not been resolved. -/
theorem Won.pending (h : Won db₀ r s) (hrequest : s.db.request r = some request)
    (hstatus : request.status = .pending) : SameTables db₀ s.db ∧
      ∀ i operation, ¬s.Succeeded i operation := by
  cases h with
  | «open» hnone hsame => exact ⟨hsame, hnone⟩
  | «by» _ _ _ _ hresult =>
    exact absurd hstatus
      (Resolution.not_pending_of_resolved (hresult.resolved.symm.trans hrequest))

theorem sees_insert (h : (db.contacts a b).insert i () = some (row, inserted)) :
    Sees (db.putContact a b row) i a b := by
  unfold Sees
  rw [Database.contacts_putContact_self]
  obtain ⟨-, ⟨-, -, rfl⟩ | ⟨-, rfl, ⟨⟩, hvisible⟩⟩ := Row.insert_eq_some h
  · exact .inr rfl
  · exact Row.visible_eq_some hvisible

theorem Sees.insert (hs : Sees db i x y) (h : (db.contacts a b).insert i () = some (row, inserted)) :
    Sees (db.putContact a b row) i x y := by
  by_cases hxy : x = a ∧ y = b
  · obtain ⟨rfl, rfl⟩ := hxy
    exact sees_insert h
  · unfold Sees
    rw [Database.contacts_putContact_of_ne hxy]
    exact hs

omit [DecidableEq υ] in
/-- Another call's statement leaves what call `t` inserted or found, as long as no row goes. -/
theorem Sees.frame (hs : Sees db j a b) (hframe : Frame i db db') (hj : j ≠ i)
    (hgrows : (db.contacts a b).committed = some () → (db'.contacts a b).committed = some ()) :
    Sees db' j a b := by
  obtain hcommitted | hw := hs
  · exact .inl (hgrows hcommitted)
  · right
    rw [hframe.contact a b j _ hj (.inl hw)]
    exact hw

namespace Knows

omit [DecidableEq υ] in
theorem mono (h : Knows db₀ db r j call) (hsees : ∀ a b, Sees db j a b → Sees db' j a b) :
    Knows db₀ db' r j call := by
  cases h with
  | loading => exact .loading
  | inserting hrequest => exact .inserting hrequest
  | insertingSecond hrequest hxy => exact .insertingSecond hrequest (hsees _ _ hxy)
  | checkingUsers hrequest hxy hyx =>
    exact .checkingUsers hrequest (hsees _ _ hxy) (hsees _ _ hyx)
  | resolving hrequest hstatus hpair =>
    exact .resolving hrequest hstatus fun h => ⟨hsees _ _ (hpair h).1, hsees _ _ (hpair h).2⟩
  | committing hrequest hstatus hpair =>
    exact .committing hrequest hstatus fun h => ⟨hsees _ _ (hpair h).1, hsees _ _ (hpair h).2⟩
  | dropped => exact .dropped
  | returned => exact .returned

omit [DecidableEq υ] in
theorem operation (h : Knows db₀ db r i call) : ∃ how caller, call.operation = .resolve how r caller := by
  cases h <;> exact ⟨_, _, rfl⟩

omit [DecidableEq υ] in
theorem not_autocommits (h : Knows db₀ db r i call) : call.autocommits = false := by
  cases h <;> rfl

omit [DecidableEq υ] in
theorem ended (h : Knows db₀ db r i call) (hends : call.Ends call') : Knows db₀ db r i call' := by
  cases hends with
  | answered response hcall =>
    rw [h.not_autocommits] at hcall
    cases hcall
  | dropped response =>
    obtain ⟨how, caller, hop⟩ := h.operation
    rw [hop]
    exact .dropped

omit [DecidableEq υ] in
theorem afterInsert (hrequest : db₀.request r = some ⟨x, y, .pending⟩) (hxy : Sees db i x y)
    (hyx : Sees db i y x) :
    Knows db₀ db r i (if inserted then .checkingUsers r x y else .resolving .accept r y) := by
  cases inserted with
  | true => exact .checkingUsers hrequest hxy hyx
  | false => exact .resolving hrequest rfl fun _ => ⟨hxy, hyx⟩

/-- A statement of call `i` keeps what call `i` knows. -/
theorem move (h : Knows db₀ db r i call) (hmove : Move i db call db' call')
    (hpending : ∀ request, db.request r = some request → request.status = .pending →
      db₀.request r = some request) : Knows db₀ db' r i call' := by
  cases hmove with
  | ended hends => exact h.ended hends
  | lookedUp | checkedContact | checkedIncoming | requested | deletedUser => cases h
  | removed | removedReverse => cases h
  | loadedAccept hrequest =>
    cases h
    exact .inserting (hpending _ hrequest rfl)
  | loaded hhow hrequest hparty hstatus =>
    cases h
    subst hparty
    exact .resolving (hpending _ hrequest hstatus) hstatus fun h => absurd h hhow
  | insertedFirst hrow =>
    cases h with
    | inserting hrequest => exact .insertingSecond hrequest (sees_insert hrow)
  | insertedSecond hrow =>
    cases h with
    | insertingSecond hrequest hxy =>
      exact .afterInsert hrequest (hxy.insert hrow) (sees_insert hrow)
  | insertedBoth hrow hrow' =>
    cases h with
    | inserting hrequest =>
      exact .afterInsert hrequest ((sees_insert hrow).insert hrow') (sees_insert hrow')
  | checkedUsers =>
    cases h with
    | checkingUsers hrequest hxy hyx =>
      exact .resolving hrequest rfl fun _ => ⟨hxy, hyx⟩
  | resolved =>
    cases h with
    | resolving hrequest hstatus hpair => exact .committing hrequest hstatus hpair
  | committed =>
    cases h
    exact .returned
  | rolledBack =>
    cases h
    exact .returned

end Knows

namespace Resolving

theorem pending (h : Resolving db₀ r s) (hrequest : s.db.request r = some request)
    (hstatus : request.status = .pending) : db₀.request r = some request := by
  obtain ⟨hsame, -⟩ := h.won.pending hrequest hstatus
  exact (hsame.request r).symm.trans hrequest

/-- The call that is about to commit has the pending request, and leaves its result. -/
theorem result {operation : Operation υ} (h : Resolving db₀ r s)
    (hcall : s.calls[i]? = some (.committing operation)) : ∃ how request,
      operation = .resolve how r (how.party request) ∧ db₀.request r = some request ∧
      request.status = .pending ∧ (∀ j operation, ¬s.Succeeded j operation) ∧
      Result db₀ (s.db.commit i) r how request := by
  have ho := h.inv.owns hcall
  cases h.knows hcall with
  | @committing how request hrequest hstatus hpair =>
    refine ⟨how, request, rfl, hrequest, hstatus, ?_⟩
    obtain ⟨request', hpending, hstatus', hresolved⟩ := ho.commit_resolve
    obtain ⟨hsame, hnone⟩ := h.won.pending hpending hstatus'
    cases hrequest.symm.trans (h.pending hpending hstatus')
    refine ⟨hnone, hresolved, fun j hj => ?_, fun a b => ?_⟩
    · obtain hj' | ⟨how', caller, request', -, -, -, hr⟩ := ho.request_commit j
      · exact hj'.trans (hsame.request j)
      · cases hr
        exact absurd rfl hj
    · obtain ⟨v, hw, hcommit⟩ | ⟨hnot, hcommit⟩ := committed_commit_contacts s.db i a b
      · rw [hcommit]
        cases ho.contact hw with
        | accepted hab =>
          exact ⟨fun _ => .inl ⟨rfl, hab.2 request hpending⟩, fun _ => rfl⟩
      · rw [hcommit, hsame.contacts]
        refine ⟨.inr, ?_⟩
        rintro (⟨hhow, hab⟩ | hab)
        · obtain ⟨hxy, hyx⟩ := hpair hhow
          have hsees : Sees s.db i a b := by
            obtain ⟨rfl, rfl⟩ | ⟨rfl, rfl⟩ := hab
            · exact hxy
            · exact hyx
          obtain hab | hab := hsees
          · exact (hsame.contacts a b).symm.trans hab
          · exact absurd hab (hnot _)
        · exact hab

/-- Only a commit changes what is committed. -/
theorem tables (h : Resolving db₀ r s) (hcall : s.calls[i]? = some call)
    (hmove : Move i s.db call db' call') : SameTables s.db db' ∨
      ∃ operation, call = .committing operation ∧ db' = s.db.commit i ∧
        call' = .returned operation .noContent := by
  obtain hsame | ⟨caller, target, rfl, -⟩ | ⟨caller, rfl, -⟩ | hcommit := hmove.tables
  · exact .inl hsame
  · cases h.knows hcall
  · cases h.knows hcall
  · exact .inr hcommit

/-- A contact row that is committed stays. -/
theorem grows (h : Resolving db₀ r s) (hcall : s.calls[i]? = some call)
    (hmove : Move i s.db call db' call') (hab : (s.db.contacts a b).committed = some ()) :
    (db'.contacts a b).committed = some () := by
  obtain hsame | ⟨operation, rfl, rfl, -⟩ := h.tables hcall hmove
  · rw [hsame.contacts, hab]
  · obtain ⟨v, hw, hcommit⟩ | ⟨-, hcommit⟩ := committed_commit_contacts s.db i a b
    · rw [hcommit]
      obtain ⟨how, request, rfl, -⟩ := h.result hcall
      cases (h.inv.owns hcall).contact hw
      rfl
    · rw [hcommit, hab]

end Resolving

omit [DecidableEq υ] in
theorem Result.same (h : Result db₀ db r how request) (hsame : SameTables db db') :
    Result db₀ db' r how request where
  resolved := (hsame.request r).trans h.resolved
  others id hid := (hsame.request id).trans (h.others id hid)
  contacts a b := by rw [hsame.contacts, h.contacts]

omit [DecidableEq υ] in
/-- The calls of the two states that returned 204 are the same. -/
theorem Won.same (h : Won db₀ r s) (hsame : SameTables s.db t.db)
    (hcalls : ∀ i operation, t.Succeeded i operation ↔ s.Succeeded i operation) : Won db₀ r t := by
  cases h with
  | «open» hnone htables =>
    exact .open (fun i operation hi => hnone i operation ((hcalls i operation).mp hi))
      (htables.trans hsame)
  | «by» hi honly hrequest hstatus hresult =>
    exact .by ((hcalls _ _).mpr hi) (fun j operation hj => honly j operation ((hcalls _ _).mp hj))
      hrequest hstatus (hresult.same hsame)

/-- A call returns 204 from a commit or from the deletion of an account. -/
theorem Move.of_noContent {operation : Operation υ} (ho : Owns db i call)
    (h : Move i db call db' (.returned operation .noContent)) :
    call = .committing operation ∧ db' = db.commit i ∨
      ∃ caller, call = .deletingAccount caller := by
  generalize hcall' : Call.returned operation .noContent = call' at h
  cases h with
  | ended hends =>
    cases hends with
    | answered response _ hresponse =>
      cases hcall'
      exact absurd rfl hresponse
    | dropped => cases hcall'
  | insertedSecond | insertedBoth => split at hcall' <;> cases hcall'
  | deletedUser => exact .inr ⟨_, rfl⟩
  | committed =>
    cases hcall'
    exact .inl ⟨rfl, rfl⟩
  | rolledBack =>
    cases hcall'
    cases ho.stage with
    | outside hcall => cases hcall
    | dropped hresponse => exact absurd rfl hresponse
  | _ => cases hcall'

/-- A call that has returned does not move. -/
theorem Move.not_returned {operation : Operation υ} {response : Response}
    (h : Move i db (.returned operation response) db' call') : False := by
  cases h with
  | ended hends => cases hends <;> contradiction

namespace Resolving

/-- Other steps than a commit leave who returned 204. -/
theorem succeeded_put (h : Resolving db₀ r s) (hcall : s.calls[i]? = some call)
    (hmove : Move i s.db call db' call')
    (hcommit : ¬∃ operation, call = .committing operation ∧ db' = s.db.commit i ∧
      call' = .returned operation .noContent) (j : ℕ) (operation : Operation υ) :
    (s.put i db' call').Succeeded j operation ↔ s.Succeeded j operation := by
  unfold System.Succeeded System.put
  constructor
  · intro hj
    obtain ⟨rfl, rfl⟩ | ⟨-, hj⟩ := getElem?_set_cases hj
    · obtain ⟨rfl, rfl⟩ | ⟨caller, rfl⟩ := hmove.of_noContent (h.inv.owns hcall)
      · exact absurd ⟨operation, rfl, rfl, rfl⟩ hcommit
      · cases h.knows hcall
    · exact hj
  · intro hj
    have hne : i ≠ j := by
      rintro rfl
      cases hcall.symm.trans hj
      exact hmove.not_returned
    rw [List.getElem?_set_ne hne]
    exact hj

theorem put (h : Resolving db₀ r s) (hcall : s.calls[i]? = some call)
    (hmove : Move i s.db call db' call') : Resolving db₀ r (s.put i db' call') where
  inv := h.inv.move hcall hmove
  knows {t c} ht := by
    obtain ⟨rfl, rfl⟩ | ⟨hne, ht⟩ := getElem?_set_cases ht
    · exact (h.knows hcall).move hmove fun request => h.pending
    · apply (h.knows ht).mono
      intro a b hsees
      exact hsees.frame (h.inv.frame hcall hmove) hne (h.grows hcall hmove)
  won := by
    by_cases hcommit : ∃ operation, call = .committing operation ∧ db' = s.db.commit i ∧
        call' = .returned operation .noContent
    · obtain ⟨operation, rfl, rfl, rfl⟩ := hcommit
      obtain ⟨how, request, rfl, hrequest, hstatus, hnone, hresult⟩ := h.result hcall
      refine @Won.by υ _ _ _ i _ _ ?_ (fun j operation hj => ?_) hrequest hstatus hresult
      · exact List.getElem?_set_self (lt_length_of_getElem? hcall)
      · obtain ⟨rfl, -⟩ | ⟨-, hj⟩ := getElem?_set_cases hj
        · rfl
        · exact absurd hj (hnone j operation)
    · obtain hsame | hcommit' := h.tables hcall hmove
      · exact h.won.same hsame (h.succeeded_put hcall hmove hcommit)
      · exact absurd hcommit' hcommit

theorem enter {caller : υ} (h : Resolving db₀ r s) :
    Resolving db₀ r (s.enter (.loading how r caller)) where
  inv := h.inv.enter (a := .resolve how r caller) rfl
  knows ht := by
    obtain ⟨-, rfl⟩ | ht := getElem?_concat_cases ht
    · exact .loading
    · exact h.knows ht
  won := by
    refine h.won.same (t := s.enter _) (.refl _) fun j operation => ?_
    constructor
    · intro hj
      obtain ⟨-, hj⟩ | hj := getElem?_concat_cases hj
      · cases hj
      · exact hj
    · intro hj
      exact (List.getElem?_append_left (lt_length_of_getElem? hj)).trans hj

theorem init (hdb : db.Quiescent) (r : ℕ) : Resolving db r (⟨db, []⟩ : System υ) where
  inv := .init hdb
  knows h := by cases h
  won := .open (fun _ _ h => by cases h) (.refl db)

theorem step {a : System.Action υ} (h : Resolving db₀ r s) (ha : OnRequest r s a)
    (ht : s.Effect a t) : Resolving db₀ r t := by
  cases ht with
  | signedUp => cases ha
  | entered hcall =>
    cases a with
    | resolve how id caller =>
      cases hcall
      cases ha
      exact h.enter
    | createContactRequest | removeContact | deleteAccount => cases ha
    | signUp | proceed | fail => cases hcall
  | moved hcall hmove => exact h.put hcall hmove
  | failed hcall hends => exact h.put hcall (.ended hends)

/-- A step that changes what is committed ends with a 204. -/
theorem unchanged {a : System.Action υ} (h : Resolving db₀ r s) (ha : OnRequest r s a)
    (ht : s.Effect a t) : SameTables s.db t.db ∨
      ∃ i operation, a = .proceed i ∧ t.Succeeded i operation := by
  cases ht with
  | signedUp => cases ha
  | entered => exact .inl (.refl _)
  | @moved i call call' db' hcall hmove =>
    obtain hsame | ⟨operation, -, -, rfl⟩ := h.tables hcall hmove
    · exact .inl hsame
    · exact .inr ⟨i, operation, rfl, List.getElem?_set_self (lt_length_of_getElem? hcall)⟩
  | failed => exact .inl (.refl _)

theorem released {operation : Operation υ} {response : Response} (h : Resolving db₀ r s)
    (hcall : s.calls[i]? = some (.returned operation response)) :
    (∀ a b v, (s.db.contacts a b).writer ≠ some (i, v)) ∧
      ∀ row ∈ s.db.contactRequests, ∀ v, row.writer ≠ some (i, v) := by
  have ho := h.inv.owns hcall
  refine ⟨fun a b v hw => ?_, fun row hrow v hw => ?_⟩
  · cases ho.contact hw
  · obtain ⟨id, hid⟩ := List.getElem?_of_mem hrow
    obtain ⟨how, caller, request, -, -, -, hr⟩ := ho.request hid hw
    cases hr

end Resolving

/-- Any number of accepts, declines and cancels of a request by any callers, whatever the
order of their statements and whichever of them fail. -/
theorem resolved_once (lower : Bytes → Bytes) (db : Database υ) (hdb : db.Quiescent)
    (requestId : ℕ) (s : System υ)
    (hs : (System.machine lower fun s => s = ⟨db, []⟩).Reach (OnRequest requestId) s) :
    ResolvedOnce lower db requestId s := by
  have h : Resolving db requestId s := by
    apply Machine.Reach.invariant _ _ hs
    · rintro s rfl
      exact .init hdb requestId
    · intro s a t h ha ht
      exact h.step ha (System.step_effect ht)
  refine ⟨fun {i j _ _} hi hj => ?_, fun {i operation} hi => ?_, fun hnone => ?_, fun ha ht => ?_,
    fun hcall => h.released hcall⟩
  · cases h.won with
    | «open» hnone => exact absurd hi (hnone _ _)
    | «by» _ honly => rw [honly i _ hi, honly j _ hj]
  · cases h.won with
    | «open» hnone => exact absurd hi (hnone _ _)
    | @«by» k how request hk honly hrequest hstatus hresult =>
      obtain rfl := honly i _ hi
      cases hk.symm.trans hi
      exact ⟨how, request, rfl, hrequest, hstatus, hresult⟩
  · cases h.won with
    | «open» _ hsame => exact hsame
    | «by» hi => exact absurd hi (hnone _ _)
  · exact h.unchanged ha (System.step_effect ht)

instance : ∀ (s : System υ) (a : System.Action υ), Decidable (OnRequest r s a) := by
  intro s a
  cases a <;> unfold OnRequest <;> infer_instance

/-- A pending request of the first user to the second. -/
def requestedOnce : Database Bool where
  users := [⟨false, [1], [1]⟩, ⟨true, [2], [2]⟩]
  contacts _ _ := Row.absent
  contactRequests := [⟨some ⟨false, true, .pending⟩, none⟩]
  keyShares := []

/-- An accept, a decline and a cancel that have all loaded the pending request. -/
theorem resolved_once_race : ∃ s : System Bool,
    s.calls = [.returned (.resolve .accept 0 true) .noContent,
      .returned (.resolve .decline 0 true) .requestNotFoundError,
      .returned (.resolve .cancel 0 false) .requestNotFoundError] ∧
    s.db.isContact false true = true ∧ s.db.isContact true false = true ∧
    ResolvedOnce id requestedOnce 0 s := by
  have hquiescent : requestedOnce.Quiescent := by
    refine ⟨fun _ _ => rfl, fun hrow => ?_, rfl, fun a b hab => by cases hab⟩
    rw [List.mem_singleton.mp hrow]
  obtain ⟨s, hs, hp⟩ := Machine.Reach.of_execIf (M := System.machine id fun s => s = ⟨requestedOnce, []⟩)
    (G := OnRequest 0) (p := fun s => decide (s.calls = [.returned (.resolve .accept 0 true) .noContent,
      .returned (.resolve .decline 0 true) .requestNotFoundError,
      .returned (.resolve .cancel 0 false) .requestNotFoundError]) &&
      (s.db.isContact false true && s.db.isContact true false))
    [.resolve .accept 0 true, .resolve .decline 0 true, .resolve .cancel 0 false,
      .proceed 0, .proceed 1, .proceed 2, .proceed 0, .proceed 0, .proceed 0, .proceed 0,
      .proceed 1, .proceed 2, .proceed 1, .proceed 2] rfl (by decide)
  rw [Bool.and_eq_true, Bool.and_eq_true, decide_eq_true_eq] at hp
  exact ⟨s, hp.1, hp.2.1, hp.2.2, resolved_once id requestedOnce hquiescent 0 s hs⟩

end Epistl.Contacts
