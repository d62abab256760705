import Epistl.Contacts.Invariant
import Epistl.Runs.Machine

/-! # Crossed and redundant requests

`create_contact_request` looks for a contact row and for a request the other way before it
inserts, in statements of their own. As long as both answers still hold when it inserts, two
users have at most one pending request between them, and none once they are contacts.
-/
namespace Epistl.Contacts
variable {υ : Type} [DecidableEq υ]

structure Database.Uncrossed (db : Database υ) : Prop where
  /-- Two users have at most one pending request, in whichever direction. -/
  once {i j : ℕ} {request request' : ContactRequestRow υ} :
    db.request i = some request → request.status = .pending →
    db.request j = some request' → request'.status = .pending →
    SamePair request.requesterUserId request.recipientUserId
      request'.requesterUserId request'.recipientUserId → i = j
  /-- They have no contact row. -/
  strangers {i : ℕ} {request : ContactRequestRow υ} {a b : υ} :
    db.request i = some request → request.status = .pending →
    SamePair request.requesterUserId request.recipientUserId a b →
    (db.contacts a b).committed = none

/-- What a `create_contact_request` has read is still true when its `INSERT` takes effect. -/
def answersHold (s : System υ) : System.Action υ → Bool
  | .proceed i =>
    match s.calls[i]? with
    | some (.requesting caller target) =>
      !s.db.isContact caller target && !s.db.isContact target caller &&
        (s.db.pendingRequest target caller).isNone
    | _ => true
  | _ => true

variable {db db' : Database υ} {s t : System υ} {i j : ℕ} {a b x y : υ} {call call' : Call υ}
  {request : ContactRequestRow υ} {operation : Operation υ}

omit [DecidableEq υ] in
theorem SamePair.trans {u v : υ} (h : SamePair x y a b) (h' : SamePair u v a b) :
    SamePair x y u v := by
  obtain ⟨rfl, rfl⟩ | ⟨rfl, rfl⟩ := h
  · obtain ⟨rfl, rfl⟩ | ⟨rfl, rfl⟩ := h'
    · exact .inl ⟨rfl, rfl⟩
    · exact .inr ⟨rfl, rfl⟩
  · obtain ⟨rfl, rfl⟩ | ⟨rfl, rfl⟩ := h'
    · exact .inr ⟨rfl, rfl⟩
    · exact .inl ⟨rfl, rfl⟩

theorem Database.not_pending_of_pendingRequest (h : db.pendingRequest x y = none) :
    db.request j ≠ some ⟨x, y, .pending⟩ := by
  intro hrequest
  obtain ⟨row, hrow, hcommitted⟩ := Option.bind_eq_some_iff.mp hrequest
  have hnone := List.findIdx?_eq_none_iff.mp h row (List.mem_of_getElem? hrow)
  simp [hcommitted] at hnone

namespace Database.Uncrossed

omit [DecidableEq υ] in
/-- Requests and contact rows that go leave it. -/
theorem mono (h : db.Uncrossed)
    (hrequest : ∀ i request, db'.request i = some request → request.status = .pending →
      db.request i = some request)
    (hcontact : ∀ a b i request, db'.request i = some request → request.status = .pending →
      SamePair request.requesterUserId request.recipientUserId a b →
      (db.contacts a b).committed = none → (db'.contacts a b).committed = none) :
    db'.Uncrossed where
  once hi hpi hj hpj hpair := h.once (hrequest _ _ hi hpi) hpi (hrequest _ _ hj hpj) hpj hpair
  strangers hi hpi hpair :=
    hcontact _ _ _ _ hi hpi hpair (h.strangers (hrequest _ _ hi hpi) hpi hpair)

omit [DecidableEq υ] in
theorem same (h : db.Uncrossed) (hsame : SameTables db db') : db'.Uncrossed := by
  apply h.mono
  · intro i request hi _
    exact (hsame.request i).symm.trans hi
  · intro a b _ _ _ _ _ hab
    exact (hsame.contacts a b).trans hab

omit [DecidableEq υ] in
theorem request_concat {caller target : υ} {j : ℕ} (hj : ({ db with contactRequests :=
      db.contactRequests ++ [⟨some ⟨caller, target, .pending⟩, none⟩] } : Database υ).request j =
        some request) :
    db.request j = some request ∨
      j = db.contactRequests.length ∧ request = ⟨caller, target, .pending⟩ := by
  obtain ⟨row, hrow, hcommitted⟩ := Option.bind_eq_some_iff.mp hj
  obtain ⟨rfl, rfl⟩ | hrow := getElem?_concat_cases hrow
  · cases hcommitted
    exact .inr ⟨rfl, rfl⟩
  · exact .inl (Option.bind_eq_some_iff.mpr ⟨row, hrow, hcommitted⟩)

/-- A request is inserted between two users who have none, and who are not contacts. -/
theorem insert {caller target : υ} (h : db.Uncrossed) (hnone : db.pendingRequest caller target = none)
    (hreverse : db.pendingRequest target caller = none)
    (hct : (db.contacts caller target).committed = none)
    (htc : (db.contacts target caller).committed = none) :
    Uncrossed { db with
      contactRequests := db.contactRequests ++ [⟨some ⟨caller, target, .pending⟩, none⟩] } := by
  have hfresh {j : ℕ} {request : ContactRequestRow υ} (hj : db.request j = some request)
      (hpending : request.status = .pending) :
      ¬SamePair request.requesterUserId request.recipientUserId caller target := by
    obtain ⟨x, y, status⟩ := request
    subst hpending
    rintro (⟨rfl, rfl⟩ | ⟨rfl, rfl⟩)
    · exact not_pending_of_pendingRequest hnone hj
    · exact not_pending_of_pendingRequest hreverse hj
  constructor
  · intro i j request request' hi hpi hj hpj hpair
    obtain hi | ⟨rfl, rfl⟩ := request_concat hi
    · obtain hj | ⟨rfl, rfl⟩ := request_concat hj
      · exact h.once hi hpi hj hpj hpair
      · exact absurd hpair (hfresh hi hpi)
    · obtain hj | ⟨rfl, -⟩ := request_concat hj
      · obtain ⟨hx, hy⟩ | ⟨hx, hy⟩ := hpair
        · exact absurd (.inl ⟨hx.symm, hy.symm⟩) (hfresh hj hpj)
        · exact absurd (.inr ⟨hy.symm, hx.symm⟩) (hfresh hj hpj)
      · rfl
  · intro i request a b hi hpi hpair
    obtain hi | ⟨rfl, rfl⟩ := request_concat hi
    · exact h.strangers hi hpi hpair
    · obtain ⟨rfl, rfl⟩ | ⟨rfl, rfl⟩ := hpair
      · exact hct
      · exact htc

theorem deleteUser {id : υ} (h : db.Uncrossed) (hdelete : db.deleteUser id = some db') :
    db'.Uncrossed := by
  apply h.mono
  · intro i request hi _
    exact request_deleteUser hdelete hi
  · intro a b _ _ _ _ _ hab
    rw [contacts_deleteUser hdelete, hab, ite_self]

omit [DecidableEq υ] in
/-- An accept that commits takes the one request between its two users along. -/
theorem commit (h : db.Uncrossed) (ho : Owns db i (.committing operation)) :
    (db.commit i).Uncrossed := by
  have hpending {j : ℕ} {request : ContactRequestRow υ}
      (hj : (db.commit i).request j = some request) (hp : request.status = .pending) :
      db.request j = some request := by
    obtain hsame | ⟨how, caller, old, -, -, hresolved, -⟩ := ho.request_commit j
    · exact hsame.symm.trans hj
    · exact absurd hp (Resolution.not_pending_of_resolved (hresolved.symm.trans hj))
  apply h.mono
  · intro j request
    exact hpending
  · intro a b j request hj hp hpair hab
    obtain ⟨v, hw, hcommit⟩ | ⟨-, hcommit⟩ := committed_commit_contacts db i a b
    · rw [hcommit]
      cases ho.contact hw with
      | removed => rfl
      | @accepted id caller _ _ hbetween =>
        exfalso
        obtain ⟨old, hold, hstatus, hgone⟩ := ho.commit_resolve
        obtain rfl : id = j :=
          h.once hold hstatus (hpending hj hp) hp ((hbetween.2 old hold).trans hpair)
        exact Resolution.not_pending_of_resolved (hgone.symm.trans hj) hp
    · rw [hcommit, hab]

theorem move (h : db.Uncrossed) (ho : Owns db i call) (hmove : Move i db call db' call')
    (hguard : ∀ caller target, call = .requesting caller target →
      db.isContact caller target = false ∧ db.isContact target caller = false ∧
        db.pendingRequest target caller = none) : db'.Uncrossed := by
  obtain hsame | ⟨caller, target, rfl, hnone, rfl, -⟩ | ⟨caller, -, hdelete, -⟩ |
    ⟨operation, rfl, rfl, -⟩ := hmove.tables
  · exact h.same hsame
  · obtain ⟨hct, htc, hreverse⟩ := hguard caller target rfl
    exact h.insert hnone hreverse (by simpa [isContact] using hct) (by simpa [isContact] using htc)
  · exact h.deleteUser hdelete
  · exact h.commit ho

end Database.Uncrossed

/-- The states before any call, with no request that is in the way. -/
def Unrequested (s : System υ) : Prop :=
  ∃ db : Database υ, db.Quiescent ∧ db.Uncrossed ∧ s = ⟨db, []⟩

/-- As long as every request is inserted while its answers hold, no requests cross and none is
redundant, whatever else happens. -/
theorem uncrossed (lower : Bytes → Bytes) (s : System υ)
    (hs : (System.machine lower Unrequested).Reach (fun s a => answersHold s a = true) s) :
    s.db.Uncrossed := by
  suffices h : Inv s ∧ s.db.Uncrossed from h.2
  apply Machine.Reach.invariant _ _ hs
  · rintro s ⟨db, hquiescent, huncrossed, rfl⟩
    exact ⟨.init hquiescent, huncrossed⟩
  · rintro s a t ⟨hinv, h⟩ hguard ht
    have heffect := System.step_effect ht
    refine ⟨hinv.effect heffect, ?_⟩
    cases heffect with
    | signedUp => exact h.mono (fun _ _ hi _ => hi) fun _ _ _ _ _ _ _ hab => hab
    | entered => exact h
    | moved hcall hmove =>
      apply h.move (hinv.owns hcall) hmove
      rintro caller target rfl
      simpa [answersHold, hcall, and_assoc] using hguard
    | failed => exact h

def twoUsers : Database Bool where
  users := [⟨false, [1], [1]⟩, ⟨true, [2], [2]⟩]
  contacts _ _ := Row.absent
  contactRequests := []
  keyShares := []

theorem unrequested_twoUsers : Unrequested (⟨twoUsers, []⟩ : System Bool) := by
  refine ⟨twoUsers, ⟨fun _ _ => rfl, fun hrow => ?_, rfl, fun a b hab => by cases hab⟩, ⟨?_, ?_⟩, rfl⟩
  · cases hrow
  · intro i j request request' hi
    cases hi
  · intro i request a b hi
    cases hi

/-- One user asks, and the other's request is refused. -/
theorem uncrossed_asked : ∃ s : System Bool,
    s.db.request 0 = some ⟨false, true, .pending⟩ ∧
    s.calls[1]? = some (.returned (.createContactRequest true) (.incomingRequestExists 0)) ∧
    s.db.Uncrossed := by
  obtain ⟨s, hs, hp⟩ := Machine.Reach.of_execIf (M := System.machine id Unrequested)
    (G := fun s a => answersHold s a = true) (p := fun s =>
      decide (s.db.request 0 = some ⟨false, true, .pending⟩) &&
      decide (s.calls[1]? =
        some (Call.returned (.createContactRequest true) (.incomingRequestExists 0))))
    [.createContactRequest false ⟨some [2], none⟩, .proceed 0, .proceed 0, .proceed 0, .proceed 0,
      .createContactRequest true ⟨some [1], none⟩, .proceed 1, .proceed 1, .proceed 1]
    unrequested_twoUsers (by decide)
  rw [Bool.and_eq_true, decide_eq_true_eq, decide_eq_true_eq] at hp
  exact ⟨s, hp.1, hp.2, uncrossed id s hs⟩

/-- Two users ask each other at once, and a request is inserted after the accept of another. -/
theorem crossed :
    (∃ s : System Bool, (System.machine id Unrequested).Reach Machine.anyStep s ∧
      s.db.request 0 = some ⟨false, true, .pending⟩ ∧
      s.db.request 1 = some ⟨true, false, .pending⟩) ∧
    ∃ s : System Bool, (System.machine id Unrequested).Reach Machine.anyStep s ∧
      s.db.request 1 = some ⟨false, true, .pending⟩ ∧
      s.db.isContact false true = true ∧ s.db.isContact true false = true := by
  constructor
  · obtain ⟨s, hs, hp⟩ := Machine.Reach.of_execIf (M := System.machine id Unrequested)
      (G := Machine.anyStep) (p := fun s =>
        decide (s.db.request 0 = some ⟨false, true, .pending⟩) &&
        decide (s.db.request 1 = some ⟨true, false, .pending⟩))
      [.createContactRequest false ⟨some [2], none⟩, .createContactRequest true ⟨some [1], none⟩,
        .proceed 0, .proceed 0, .proceed 0, .proceed 1, .proceed 1, .proceed 1, .proceed 0, .proceed 1]
      unrequested_twoUsers (by decide)
    rw [Bool.and_eq_true, decide_eq_true_eq, decide_eq_true_eq] at hp
    exact ⟨s, hs, hp⟩
  · obtain ⟨s, hs, hp⟩ := Machine.Reach.of_execIf (M := System.machine id Unrequested)
      (G := Machine.anyStep) (p := fun s =>
        decide (s.db.request 1 = some ⟨false, true, .pending⟩) &&
        (s.db.isContact false true && s.db.isContact true false))
      [.createContactRequest false ⟨some [2], none⟩, .createContactRequest false ⟨some [2], none⟩,
        .proceed 0, .proceed 0, .proceed 0, .proceed 1, .proceed 1, .proceed 1, .proceed 0,
        .resolve .accept 0 true, .proceed 2, .proceed 2, .proceed 2, .proceed 2, .proceed 2, .proceed 1]
      unrequested_twoUsers (by decide)
    rw [Bool.and_eq_true, Bool.and_eq_true, decide_eq_true_eq] at hp
    exact ⟨s, hs, hp⟩

end Epistl.Contacts
