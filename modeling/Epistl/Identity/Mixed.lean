import Epistl.Identity.Unmixed

/-! # Identities of two calls

Where a call generates an identity although an earlier one has left an entry, or has a write
out, the store can end up full with entries of both.
-/
namespace Epistl.Identities
open Deletion
variable {S : Suite} {s t : Device S} {i : ℕ} {name : KeyName} {keys : IdentityKeys S}

/-- The entries of two attempts make up all six. -/
def Device.Mixed (s : Device S) : Prop :=
  s.store.Full ∧ ∃ name other e f, s.store name = some e ∧ s.store other = some f ∧
    e.attempt ≠ f.attempt

/-- Some of its six writes, one after the other. -/
theorem exec_written (names : List KeyName) (hnodup : names.Nodup) (hname : name ∉ names) :
    ∀ {s : Device S} {left : List KeyName}, s.attempts[i]? = some ⟨some keys, .persisting left⟩ →
      name ∈ left → names ⊆ left → ∃ t, (machine S).exec s (written i names true) = some t ∧
        (∀ b, t.store b = if b ∈ names then some ⟨i, keys b⟩ else s.store b) ∧
        ∀ j, j ≠ i → t.attempts[j]? = s.attempts[j]? := by
  induction names with
  | nil =>
    intro s left _ _ _
    exact ⟨s, rfl, fun b => (if_neg List.not_mem_nil).symm, fun _ _ => rfl⟩
  | cons b names ih =>
    intro s left hi hleft hsub
    obtain ⟨hb, hnodup⟩ := List.nodup_cons.mp hnodup
    have hne : name ≠ b := fun h => hname (h ▸ List.mem_cons_self)
    have hleft' : name ∈ left.erase b := (List.mem_erase_of_ne hne).mpr hleft
    have hmem : b ∈ left := hsub List.mem_cons_self
    have hstep : s.step (.write i b true) =
        some ((s.put i b (keys b)).advance i ⟨some keys, .persisting (left.erase b)⟩) := by
      rw [Device.step, hi, Option.bind_some, Device.write]
      simp only [if_pos hmem, if_true, if_neg (List.ne_nil_of_mem hleft')]
    have hi' : ((s.put i b (keys b)).advance i ⟨some keys, .persisting (left.erase b)⟩).attempts[i]? =
        some ⟨some keys, .persisting (left.erase b)⟩ :=
      List.getElem?_set_self (lt_length_of_getElem? hi)
    have hsub' : names ⊆ left.erase b := by
      intro c hc
      have hcb : c ≠ b := fun h => hb (h ▸ hc)
      exact (List.mem_erase_of_ne hcb).mpr (hsub (List.mem_cons_of_mem b hc))
    obtain ⟨t, ht, hstore, hothers⟩ :=
      ih hnodup (fun h => hname (List.mem_cons_of_mem b h)) hi' hleft' hsub'
    refine ⟨t, ?_, fun c => ?_, fun j hj => ?_⟩
    · show ((machine S).step s (.write i b true)).bind _ = _
      exact (congrArg (Option.bind · _) hstep).trans ht
    · rw [hstore]
      by_cases hc : c = b
      · subst hc
        rw [if_neg hb, if_pos List.mem_cons_self]
        exact store_put_self
      · simp only [List.mem_cons, hc, false_or]
        split
        · rfl
        · exact store_put_ne hc
    · exact (hothers j hj).trans (List.getElem?_set_ne (Ne.symm hj))

theorem mem_erase_all {b : KeyName} : b ∈ KeyName.all.erase name ↔ b ≠ name := by
  rw [List.Nodup.mem_erase_iff (by decide), and_iff_left b.mem_all]

/-- Five entries of attempt `i` and one of another attempt. -/
theorem Device.Mixed.of_store {e : Entry S name} (hname : s.store name = some e)
    (hne : e.attempt ≠ i) (hothers : ∀ b, b ≠ name → s.store b = some ⟨i, keys b⟩) : s.Mixed := by
  constructor
  · intro b
    by_cases hb : b = name
    · subst hb
      rw [hname]
      exact Option.some_ne_none e
    · rw [hothers b hb]
      exact Option.some_ne_none _
  · obtain ⟨other, hother⟩ : ∃ other, other ≠ name := by
      by_cases h : KeyName.kyberSecretKey = name
      · exact ⟨.kyberPublicKey, fun h' => by cases h.trans h'.symm⟩
      · exact ⟨_, h⟩
    exact ⟨name, other, e, ⟨i, keys other⟩, hname, hothers other hother, hne⟩

/-- The five writes of a call next to an entry that it has not written. -/
theorem exec_five (name : KeyName) (hi : s.attempts[i]? = some ⟨some keys, .persisting KeyName.all⟩) :
    ∃ t, (machine S).exec s (written i (KeyName.all.erase name) true) = some t ∧
      (∀ b, b ≠ name → t.store b = some ⟨i, keys b⟩) ∧ t.store name = s.store name ∧
        ∀ j, j ≠ i → t.attempts[j]? = s.attempts[j]? := by
  have hnodup : KeyName.all.Nodup := by decide
  obtain ⟨t, ht, hstore, hothers⟩ := exec_written (KeyName.all.erase name) (hnodup.erase name)
    hnodup.not_mem_erase hi name.mem_all List.erase_subset
  refine ⟨t, ht, fun b hb => ?_, ?_, hothers⟩
  · rw [hstore, if_pos (mem_erase_all.mpr hb)]
  · rw [hstore, if_neg hnodup.not_mem_erase]

/-- A rejected call still writes an entry. -/
theorem step_late {attempt : Attempt S} {left : List KeyName} (hi : s.attempts[i]? = some attempt)
    (hgenerated : attempt.generated = some keys) (hstage : attempt.stage = .rejected left)
    (hname : name ∈ left) : ∃ t, s.step (.write i name true) = some t ∧
      t.store = (s.put i name (keys name)).store := by
  refine ⟨(s.put i name (keys name)).advance i ⟨some keys, .rejected (left.erase name)⟩, ?_, rfl⟩
  obtain ⟨generated, stage⟩ := attempt
  cases hgenerated
  cases hstage
  rw [Device.step, hi, Option.bind_some, Device.write]
  simp only [if_pos hname, if_true]

theorem loaded_generates {attempt : Attempt S} {identity : IdentityKeys S}
    (hgenerates : attempt.generates = true) (he : s.loaded i identity attempt = some t) :
    attempt.stage.active = true ∧ (∃ read, attempt.stage = .loading read) ∧
      t = s.advance i ⟨some identity, .persisting KeyName.all⟩ := by
  unfold Device.loaded at he
  split at he
  · rename_i read hstage
    have hnone : (storedKeys read).isNone = true := by
      rwa [Attempt.generates, hstage] at hgenerates
    rw [hstage]
    split at he
    · split at he
      · rename_i hkeys
        rw [hkeys] at hnone
        cases hnone
      · cases he
        exact ⟨rfl, ⟨read, rfl⟩, rfl⟩
    · cases he
  · cases he

/-- A write that is out without its call being in flight is that of a rejected call. -/
theorem Unmixed.late (h : Unmixed s) {attempt : Attempt S} (hi : s.attempts[i]? = some attempt)
    (hout : attempt.stage.out ≠ []) (hflight : s.inFlight ≠ some i) : ∃ name left keys,
      attempt.stage = .rejected left ∧ name ∈ left ∧ attempt.generated = some keys := by
  have hsound := h.sound hi
  cases hstage : attempt.stage with
  | loading | resolved | lost =>
    rw [hstage] at hout
    exact absurd rfl hout
  | persisting left => exact absurd (h.flight hi (by rw [hstage]; rfl)) hflight
  | rejected left =>
    rw [hstage] at hout hsound
    obtain ⟨name, hname⟩ := List.exists_mem_of_ne_nil left hout
    obtain ⟨keys, hkeys⟩ := Option.ne_none_iff_exists'.mp hsound.2.2
    exact ⟨name, left, keys, rfl, hname, hkeys⟩

/-- A call that does not find the entries clear can go on to a store of two calls. -/
theorem mixed_of_not_fit {a : Action S} (h : (machine S).Reach Fit s) (hfit : ¬Fit s a)
    (he : s.step a = some t) : ∃ as u, (machine S).exec t as = some u ∧ u.Mixed := by
  have hs := unmixed h
  cases a with
  | loaded i kyber dilithium x25519 =>
    obtain ⟨attempt, hi, he⟩ := Option.bind_eq_some_iff.mp he
    obtain ⟨hgenerates, hclear⟩ : attempt.generates = true ∧ ¬s.Clear := by
      by_contra hnot
      refine hfit fun other hother hgenerates => by_contra fun hclear => hnot ⟨?_, hclear⟩
      cases hi.symm.trans hother
      exact hgenerates
    obtain ⟨hactive, ⟨read, hread⟩, rfl⟩ := loaded_generates hgenerates he
    have hgenerated : attempt.generated = none := by
      have hsound := hs.sound hi
      rw [hread] at hsound
      exact hsound.1
    have hgiven : (s.advance i ⟨some (generateIdentity kyber dilithium x25519),
        .persisting KeyName.all⟩).attempts[i]? =
          some ⟨some (generateIdentity kyber dilithium x25519), .persisting KeyName.all⟩ :=
      List.getElem?_set_self (lt_length_of_getElem? hi)
    have hfive (name : KeyName) := exec_five name hgiven
    by_cases hleft : ∃ name e, s.store name = some e
    · -- an entry that is left
      obtain ⟨name, e, hname⟩ := hleft
      obtain ⟨u, hu, hothers, hsame, -⟩ := hfive name
      refine ⟨_, u, hu, .of_store (hsame.trans hname) ?_ hothers⟩
      intro hattempt
      obtain ⟨b, keys, hb, hkeys, -⟩ := hs.origin hname
      rw [hattempt, hi] at hb
      cases hb
      rw [hgenerated] at hkeys
      cases hkeys
    · -- a write that is out
      have hstore (name : KeyName) : s.store name = none := by
        by_contra hname
        obtain ⟨e, he⟩ := Option.ne_none_iff_exists'.mp hname
        exact hleft ⟨name, e, he⟩
      obtain ⟨other, hother, hout⟩ : ∃ other ∈ s.attempts, other.stage.out ≠ [] := by
        by_contra hnone
        refine hclear ⟨hstore, fun other hother => ?_⟩
        by_contra hout
        exact hnone ⟨other, hother, hout⟩
      obtain ⟨k, hk⟩ := List.mem_iff_getElem?.mp hother
      have hki : k ≠ i := by
        rintro rfl
        cases hi.symm.trans hk
        rw [hread] at hout
        exact hout rfl
      have hflight : s.inFlight ≠ some k := by
        rw [hs.flight hi hactive]
        exact fun h => hki (Option.some.inj h).symm
      obtain ⟨name, left, keys, hstage, hname, hkeys⟩ := hs.late hk hout hflight
      obtain ⟨u, hu, hothers, -, hattempts⟩ := hfive name
      have huk : u.attempts[k]? = some other :=
        (hattempts k hki).trans ((List.getElem?_set_ne (Ne.symm hki)).trans hk)
      obtain ⟨v, hv, hwritten⟩ := step_late huk hkeys hstage hname
      have hlate : v.store name = some ⟨k, keys name⟩ := by
        rw [hwritten]
        exact store_put_self
      have hkept (b : KeyName) (hb : b ≠ name) : v.store b = u.store b := by
        rw [hwritten]
        exact store_put_ne hb
      have hrun := (Machine.exec_concat (M := machine S) (a := .write k name true)).mpr ⟨u, hu, hv⟩
      exact ⟨_, v, hrun, .of_store hlate hki fun b hb => (hkept b hb).trans (hothers b hb)⟩
  | ensureLocalIdentity | readKey | write | restart => exact absurd trivial hfit

/-- One entry of the first attempt is stored before a write fails. The second attempt fails to
write that one and stores the other five, and a third one loads what is there. -/
def mixed : List (Action Symbolic.suite) :=
  begun 0 [1] ++ [.write 0 .kyberSecretKey true, .write 0 .kyberPublicKey false] ++
    begun 1 [2] ++ .write 1 .kyberSecretKey false :: written 1 KeyName.all.tail true ++ begun 2 [3]

def differ (a b : Bytes) : Bool := decide (a ≠ b)

theorem ne_of_differ {a b : Bytes} (h : differ a b = true) : a ≠ b := of_decide_eq_true h

/-- The stored Kyber keys are no pair. -/
def storedDiffer (s : Device Symbolic.suite) : Bool :=
  match s.store .kyberPublicKey, s.store .kyberSecretKey with
  | some publicKey, some secretKey => differ publicKey.value secretKey.value
  | _, _ => false

/-- The attempt has resolved to Kyber keys that are no pair. -/
def resolvedDiffer (attempt : Attempt Symbolic.suite) : Bool :=
  match attempt.stage with
  | .resolved keys => differ (keys .kyberPublicKey) (keys .kyberSecretKey)
  | _ => false

theorem not_matching_of_differ {keys : IdentityKeys Symbolic.suite}
    (h : differ (keys .kyberPublicKey) (keys .kyberSecretKey) = true) : ¬Matching keys :=
  fun hmatching => ne_of_differ h hmatching.kyber

/-- All six entries are there, of two different calls, and an attempt resolves to them. -/
theorem mixed_identity : ∃ s, (machine Symbolic.suite).exec Device.fresh mixed = some s ∧
    s.store.Full ∧
    (¬∃ keys, Drawn keys ∧ ∀ name, (s.store name).map Entry.value = some (keys name)) ∧
    ∃ attempt ∈ s.attempts, ∃ keys, attempt.stage = .resolved keys ∧ ¬Matching keys := by
  obtain ⟨s, hs, hp⟩ := (Option.any_eq_true (fun s : Device Symbolic.suite =>
    (KeyName.all.all fun name => (s.store name).isSome) && storedDiffer s &&
      s.attempts.any resolvedDiffer) ((machine Symbolic.suite).exec Device.fresh mixed)).mp
    (by decide +kernel)
  simp only [Bool.and_eq_true, List.all_eq_true, List.any_eq_true] at hp
  obtain ⟨⟨hfull, hstored⟩, attempt, hattempt, hresolved⟩ := hp
  refine ⟨s, hs, fun name => Option.isSome_iff_ne_none.mp (hfull name name.mem_all), ?_, attempt,
    hattempt, ?_⟩
  · rintro ⟨keys, hdrawn, hkeys⟩
    unfold storedDiffer at hstored
    split at hstored
    · rename_i publicKey secretKey hpublic hsecret
      have h1 := hkeys .kyberPublicKey
      have h2 := hkeys .kyberSecretKey
      rw [hpublic, Option.map_some, Option.some_inj] at h1
      rw [hsecret, Option.map_some, Option.some_inj] at h2
      rw [h1, h2] at hstored
      exact not_matching_of_differ hstored hdrawn.matching
    · cases hstored
  · unfold resolvedDiffer at hresolved
    split at hresolved
    · rename_i keys hstage
      exact ⟨keys, hstage, not_matching_of_differ hresolved⟩
    · cases hresolved

end Epistl.Identities
