import Epistl.Identity.Unmixed

/-! # The identity that a device holds

`loadStoredKeys` finds an identity when all six entries are there, and `clearIdentity` deletes
them one by one. As long as no call of `ensureLocalIdentity` is under way then, what a call
resolves to is the stored identity, and it stays there until it is cleared.
-/
namespace Epistl.Identities
open Deletion
variable {S : Suite}

namespace Device

/-- What `loadStoredKeys` would find now. -/
def held (s : Device S) : Option (IdentityKeys S) :=
  storedKeys fun name => some ((s.store name).map Entry.value)

/-- `deleteItemAsync` of one entry. -/
def deleteKey (s : Device S) (name : KeyName) : Device S :=
  { s with store := Function.update s.store name none }

/-- Call `i` of `ensureLocalIdentity` has resolved to these keys. -/
def Resolved (s : Device S) (i : ℕ) (keys : IdentityKeys S) : Prop :=
  ∃ attempt, s.attempts[i]? = some attempt ∧ attempt.stage = .resolved keys

/-- No call is under way, and no write of an earlier one is out. -/
def Quiet (s : Device S) : Prop :=
  ∀ attempt ∈ s.attempts, attempt.stage.active = false ∧ attempt.stage.out = []

/-- What callers rely on from one state to a later one. -/
structure Keeps (s t : Device S) : Prop where
  held {keys : IdentityKeys S} : s.held = some keys → t.held = some keys
  resolved {i : ℕ} {keys : IdentityKeys S} :
    t.Resolved i keys → s.Resolved i keys ∨ t.held = some keys

theorem Keeps.refl (s : Device S) : s.Keeps s where
  held := id
  resolved := .inl

end Device

/-- The entries are of one call, and the call in flight has not settled. -/
structure Kept (s : Device S) : Prop where
  unmixed : Unmixed s
  flight {i : ℕ} : s.inFlight = some i →
    ∃ attempt, s.attempts[i]? = some attempt ∧ attempt.stage.active = true

variable {s t : Device S} {i j : ℕ} {name : KeyName} {generated : Option (IdentityKeys S)}
  {stage : Stage S} {keys : IdentityKeys S} {a : Action S}

theorem store_deleteKey_self : (s.deleteKey name).store name = none := Function.update_self _ _ _

theorem store_deleteKey_ne {b : KeyName} (hb : b ≠ name) :
    (s.deleteKey name).store b = s.store b :=
  Function.update_of_ne hb _ _

theorem held_eq_some :
    s.held = some keys ↔ ∀ name, (s.store name).map Entry.value = some (keys name) := by
  constructor
  · intro h name
    exact Option.some.inj (storedKeys_some h name)
  · intro h
    have hread : (fun name => some ((s.store name).map Entry.value)) =
        fun name => some (some (keys name)) := funext fun name => congrArg some (h name)
    rw [Device.held, hread, storedKeys]
    refine congrArg some (funext fun name => ?_)
    cases name <;> rfl

theorem store_ne_none (h : s.held = some keys) (name : KeyName) : s.store name ≠ none := by
  intro hnone
  have := held_eq_some.mp h name
  rw [hnone] at this
  cases this

/-- All six entries stay as they are. -/
theorem Moves.held (hmove : Moves s i generated stage t) (hsound : stage.Sound s.store i generated)
    (h : s.held = some keys) : t.held = some keys := by
  cases hmove with
  | read | found | generated | failed | failedLate => exact h
  | wrote _ hname _ | wroteLast _ hname _ | wroteLate _ hname =>
    exact absurd (hsound.2.1 _ hname) (store_ne_none h _)

/-- A call resolves to what is stored then. -/
theorem Moves.resolved (hmove : Moves s i generated stage t)
    (hsound : stage.Sound s.store i generated) (hlt : i < s.attempts.length)
    (h : t.Resolved i keys) : stage = .resolved keys ∨ t.held = some keys := by
  obtain ⟨attempt, hi, hresolved⟩ := h
  cases hmove with
  | read | generated | wrote | failed | wroteLate | failedLate =>
    cases (List.getElem?_set_self hlt).symm.trans hi
    cases hresolved
  | found hkeys =>
    cases (List.getElem?_set_self hlt).symm.trans hi
    cases hresolved
    exact .inr (held_eq_some.mpr fun name => hsound.2 name _ (storedKeys_some hkeys name))
  | @wroteLast keys left name hgenerated hname hlast =>
    cases (List.getElem?_set_self hlt).symm.trans hi
    cases hresolved
    refine .inr (held_eq_some.mpr fun b => ?_)
    by_cases hb : b = name
    · subst hb
      exact congrArg (Option.map Entry.value) store_put_self
    · have hleft : b ∉ left := fun hmem => by
        have := (List.mem_erase_of_ne hb).mpr hmem
        rw [hlast] at this
        cases this
      exact congrArg (Option.map Entry.value)
        ((store_put_ne hb).trans (hsound.2.2 keys hgenerated b hleft))

/-- The other calls stay where they are, and a promise is in flight until it settles. -/
theorem Moves.others (hmove : Moves s i generated stage t) : ∃ attempt,
    t.attempts = s.attempts.set i attempt ∧ (t.inFlight = none ∨
      t.inFlight = s.inFlight ∧ (stage.active = true → attempt.stage.active = true)) := by
  cases hmove with
  | read | generated | wrote => exact ⟨_, rfl, .inr ⟨rfl, fun _ => rfl⟩⟩
  | found | wroteLast | failed => exact ⟨_, rfl, .inl rfl⟩
  | wroteLate | failedLate =>
    refine ⟨_, rfl, .inr ⟨rfl, fun hactive => ?_⟩⟩
    cases hactive

namespace Kept

theorem fresh : Kept (Device.fresh : Device S) where
  unmixed := .fresh
  flight hflight := by cases hflight

theorem step (h : Kept s) (hfit : Fit s a) (he : s.step a = some t) : Kept t := by
  refine ⟨h.unmixed.step hfit he, fun {n} hflight => ?_⟩
  cases step_effect hfit he with
  | joined => exact h.flight hflight
  | started =>
    cases hflight
    exact ⟨_, List.getElem?_concat_length, rfl⟩
  | @moved i attempt _ hi hmove =>
    obtain ⟨attempt', hattempts, hnone | ⟨hsame, hactive⟩⟩ := hmove.others
    · rw [hnone] at hflight
      cases hflight
    · obtain ⟨other, hother, hother'⟩ := h.flight (hsame.symm.trans hflight)
      rw [hattempts]
      by_cases hn : n = i
      · subst hn
        cases hi.symm.trans hother
        exact ⟨attempt', List.getElem?_set_self (lt_length_of_getElem? hi), hactive hother'⟩
      · exact ⟨other, (List.getElem?_set_ne (Ne.symm hn)).trans hother, hother'⟩
  | restarted => cases hflight

/-- What a call resolves to is the stored identity, and it stays there. -/
theorem keeps (h : Kept s) (hfit : Fit s a) (he : s.step a = some t) : s.Keeps t := by
  refine ⟨fun hheld => ?_, fun {j keys} hr => ?_⟩
  · cases step_effect hfit he with
    | joined | started | restarted => exact hheld
    | moved hi hmove => exact hmove.held (h.unmixed.sound hi) hheld
  cases step_effect hfit he with
  | joined => exact .inl hr
  | started =>
    obtain ⟨attempt, hj, hresolved⟩ := hr
    rcases getElem?_concat_cases hj with ⟨-, rfl⟩ | hj
    · cases hresolved
    · exact .inl ⟨attempt, hj, hresolved⟩
  | @moved i attempt _ hi hmove =>
    by_cases hij : j = i
    · subst hij
      exact (hmove.resolved (h.unmixed.sound hi) (lt_length_of_getElem? hi) hr).imp_left
        fun hstage => ⟨attempt, hi, hstage⟩
    · obtain ⟨attempt', hattempts, -⟩ := hmove.others
      obtain ⟨other, hother, hresolved⟩ := hr
      rw [hattempts, List.getElem?_set_ne (Ne.symm hij)] at hother
      exact .inl ⟨other, hother, hresolved⟩
  | restarted =>
    obtain ⟨attempt, hj, hresolved⟩ := hr
    rw [List.getElem?_map, Option.map_eq_some_iff] at hj
    obtain ⟨other, hother, rfl⟩ := hj
    refine .inl ⟨other, hother, ?_⟩
    unfold Device.drop at hresolved
    split at hresolved
    · rename_i hstage
      exact hstage.trans hresolved
    · cases hresolved

/-- The call that `ensureLocalIdentity` returns the promise of has not resolved yet. -/
theorem not_resolved (h : Kept s) (hflight : s.inFlight = some i) : ¬s.Resolved i keys := by
  rintro ⟨attempt, hi, hresolved⟩
  obtain ⟨other, hother, hactive⟩ := h.flight hflight
  cases hi.symm.trans hother
  rw [hresolved] at hactive
  cases hactive

/-- An entry that nothing is at work on is deleted. -/
theorem deleteKey (h : Kept s) (hquiet : s.Quiet) (name : KeyName) : Kept (s.deleteKey name) := by
  have hstored {b : KeyName} {e : Entry S b} (he : (s.deleteKey name).store b = some e) :
      s.store b = some e := by
    by_cases hb : b = name
    · subst hb
      cases store_deleteKey_self.symm.trans he
    · exact (store_deleteKey_ne hb).symm.trans he
  obtain ⟨k, hk⟩ := h.unmixed.one
  refine ⟨⟨h.unmixed.flight, fun he => h.unmixed.origin (hstored he),
    ⟨k, fun he => hk.store (hstored he), hk.out⟩, h.unmixed.drawn, fun {i attempt} hi => ?_⟩, h.flight⟩
  have hsound := h.unmixed.sound hi
  obtain ⟨hactive, hout⟩ := hquiet attempt (List.mem_of_getElem? hi)
  cases hstage : attempt.stage with
  | loading | persisting =>
    rw [hstage] at hactive
    cases hactive
  | rejected left =>
    rw [hstage] at hsound hout
    obtain rfl : left = [] := hout
    exact ⟨hsound.1, fun b hb => absurd hb List.not_mem_nil, hsound.2.2⟩
  | resolved keys =>
    rw [hstage] at hsound
    exact hsound
  | lost => trivial

end Kept

/-- A call of `ensureLocalIdentity`, from its first read to its last write. -/
def wholeCall (i : ℕ) (kyber : S.KyberSecret) (dilithium : S.DilithiumSecret)
    (x25519 : S.X25519Secret) : List (Action S) :=
  KeyName.all.map (.readKey i) ++ .loaded i kyber dilithium x25519 :: written i KeyName.all true

theorem restart_notMem_wholeCall (i : ℕ) (kyber : S.KyberSecret) (dilithium : S.DilithiumSecret)
    (x25519 : S.X25519Secret) : .restart ∉ wholeCall i kyber dilithium x25519 := by
  simp [wholeCall, written]

/-- The first call has begun. -/
def Device.first : Device S := ⟨fun _ => none, [⟨none, .loading fun _ => none⟩], some 0⟩

/-- It has stored these keys. -/
def Device.firstStored (keys : IdentityKeys S) : Device S :=
  ⟨fun name => some ⟨0, keys name⟩, [⟨some keys, .resolved keys⟩], none⟩

theorem execIf_first (kyber : S.KyberSecret) (dilithium : S.DilithiumSecret)
    (x25519 : S.X25519Secret) : (machine S).execIf Fit .first (wholeCall 0 kyber dilithium x25519) =
      some (.firstStored (generateIdentity kyber dilithium x25519)) := by
  let keys := generateIdentity kyber dilithium x25519
  obtain ⟨store, hrun, hstore⟩ : ∃ store : Entries S,
      (machine S).execIf Fit .first (wholeCall 0 kyber dilithium x25519) =
        some ⟨store, [⟨some keys, .resolved keys⟩], none⟩ ∧
      ∀ name, store name = some ⟨0, keys name⟩ := by
    refine ⟨_, rfl, fun name => ?_⟩
    cases name <;> rfl
  rw [hrun]
  exact congrArg some (congrArg (Device.mk · _ _) (funext hstore))

end Epistl.Identities
