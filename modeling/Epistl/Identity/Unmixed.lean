import Epistl.Identity.Attempts
import Epistl.Ratchet.Agreement
import Epistl.Runs.Milestone

/-! # The stored identity is of one call

As long as an identity is generated only where earlier calls have left nothing, all entries
and all writes that are out belong to one attempt. No entry is written twice, so that what an
attempt has read is still stored when it has read all six.
-/
namespace Epistl.Identities
open Deletion
variable {S : Suite}

/-- What a `generateIdentity` returns. -/
def Drawn (keys : IdentityKeys S) : Prop :=
  ∃ kyber dilithium x25519, keys = generateIdentity kyber dilithium x25519

variable {s t : Device S} {i j : ℕ} {name : KeyName} {attempt other : Attempt S}
  {keys identity : IdentityKeys S} {left : List KeyName}
  {read : (name : KeyName) → Option (Option (name.Value S))}

/-- What was read is stored, what is to be written is not, and what attempt `i` has written is. -/
def Stage.Sound (store : Entries S) (i : ℕ) (generated : Option (IdentityKeys S)) : Stage S → Prop
  | loading read => generated = none ∧
    ∀ name v, read name = some (some v) → (store name).map Entry.value = some v
  | persisting left => left.Nodup ∧ (∀ name ∈ left, store name = none) ∧
    ∀ keys, generated = some keys → ∀ name, name ∉ left → store name = some ⟨i, keys name⟩
  | rejected left => left.Nodup ∧ (∀ name ∈ left, store name = none) ∧ generated ≠ none
  | resolved keys => Drawn keys
  | lost => True

/-- All entries, and all writes that are out, are of attempt `i`. -/
structure Device.Of (s : Device S) (i : ℕ) : Prop where
  store {name : KeyName} {e : Entry S name} : s.store name = some e → e.attempt = i
  out {j : ℕ} {attempt : Attempt S} :
    s.attempts[j]? = some attempt → attempt.stage.out ≠ [] → j = i

structure Unmixed (s : Device S) : Prop where
  flight {i : ℕ} {attempt : Attempt S} :
    s.attempts[i]? = some attempt → attempt.stage.active = true → s.inFlight = some i
  origin {name : KeyName} {e : Entry S name} : s.store name = some e →
    ∃ attempt keys, s.attempts[e.attempt]? = some attempt ∧ attempt.generated = some keys ∧
      e.value = keys name
  one : ∃ i, s.Of i
  drawn {i : ℕ} {attempt : Attempt S} {keys : IdentityKeys S} :
    s.attempts[i]? = some attempt → attempt.generated = some keys → Drawn keys
  sound {i : ℕ} {attempt : Attempt S} :
    s.attempts[i]? = some attempt → attempt.stage.Sound s.store i attempt.generated

/-- The moves of one attempt. -/
inductive Moves (s : Device S) (i : ℕ) (generated : Option (IdentityKeys S)) :
    Stage S → Device S → Prop
  | read {read : (name : KeyName) → Option (Option (name.Value S))} (name : KeyName) :
    read name = none → Moves s i generated (.loading read) (s.advance i ⟨generated,
      .loading (Function.update read name (some ((s.store name).map Entry.value)))⟩)
  | found {read : (name : KeyName) → Option (Option (name.Value S))} {keys : IdentityKeys S} :
    storedKeys read = some keys →
    Moves s i generated (.loading read) (s.settle i ⟨generated, .resolved keys⟩)
  | generated {read : (name : KeyName) → Option (Option (name.Value S))} {keys : IdentityKeys S} :
    s.Clear → Drawn keys →
    Moves s i generated (.loading read) (s.advance i ⟨some keys, .persisting KeyName.all⟩)
  | wrote {keys : IdentityKeys S} {left : List KeyName} {name : KeyName} :
    generated = some keys → name ∈ left → left.erase name ≠ [] →
    Moves s i generated (.persisting left)
      ((s.put i name (keys name)).advance i ⟨some keys, .persisting (left.erase name)⟩)
  | wroteLast {keys : IdentityKeys S} {left : List KeyName} {name : KeyName} :
    generated = some keys → name ∈ left → left.erase name = [] →
    Moves s i generated (.persisting left)
      ((s.put i name (keys name)).settle i ⟨some keys, .resolved keys⟩)
  | failed {keys : IdentityKeys S} {left : List KeyName} {name : KeyName} :
    generated = some keys → name ∈ left →
    Moves s i generated (.persisting left) (s.settle i ⟨some keys, .rejected (left.erase name)⟩)
  | wroteLate {keys : IdentityKeys S} {left : List KeyName} {name : KeyName} :
    generated = some keys → name ∈ left →
    Moves s i generated (.rejected left)
      ((s.put i name (keys name)).advance i ⟨some keys, .rejected (left.erase name)⟩)
  | failedLate {keys : IdentityKeys S} {left : List KeyName} {name : KeyName} :
    generated = some keys → name ∈ left →
    Moves s i generated (.rejected left) (s.advance i ⟨some keys, .rejected (left.erase name)⟩)

theorem readKey_moves (h : s.readKey i name attempt = some t) :
    Moves s i attempt.generated attempt.stage t := by
  unfold Device.readKey at h
  split at h
  · rename_i read hstage
    split at h
    · cases h
    · rename_i hnone
      cases h
      rw [hstage]
      exact .read name (Option.not_isSome_iff_eq_none.mp hnone)
  · cases h

theorem loaded_moves (hclear : attempt.generates = true → s.Clear) (hdrawn : Drawn identity)
    (h : s.loaded i identity attempt = some t) :
    Moves s i attempt.generated attempt.stage t := by
  unfold Device.loaded at h
  split at h
  · rename_i read hstage
    rw [hstage]
    split at h
    · split at h
      · rename_i keys hkeys
        cases h
        exact .found hkeys
      · rename_i hnone
        cases h
        refine .generated (hclear ?_) hdrawn
        rw [Attempt.generates, hstage]
        exact Option.isNone_iff_eq_none.mpr hnone
    · cases h
  · cases h

theorem write_moves {succeeds : Bool} (h : s.write i name succeeds attempt = some t) :
    Moves s i attempt.generated attempt.stage t := by
  unfold Device.write at h
  split at h
  · rename_i keys left hgenerated hstage
    rw [hstage]
    split at h
    · rename_i hname
      split at h
      · split at h
        · rename_i hlast
          cases h
          exact .wroteLast hgenerated hname hlast
        · rename_i hlast
          cases h
          exact .wrote hgenerated hname hlast
      · cases h
        exact .failed hgenerated hname
    · cases h
  · rename_i keys left hgenerated hstage
    rw [hstage]
    split at h
    · rename_i hname
      split at h
      · cases h
        exact .wroteLate hgenerated hname
      · cases h
        exact .failedLate hgenerated hname
    · cases h
  · cases h

/-- What a step does. -/
inductive Effect (s : Device S) : Device S → Prop
  | joined {i : ℕ} : s.inFlight = some i → Effect s s
  | started : s.inFlight = none → Effect s { s with
      attempts := s.attempts ++ [⟨none, .loading fun _ => none⟩]
      inFlight := some s.attempts.length }
  | moved {i : ℕ} {attempt : Attempt S} {t : Device S} : s.attempts[i]? = some attempt →
    Moves s i attempt.generated attempt.stage t → Effect s t
  | restarted : Effect s { s with attempts := s.attempts.map Device.drop, inFlight := none }

theorem step_effect {a : Action S} (hfit : Fit s a) (he : s.step a = some t) : Effect s t := by
  cases a with
  | ensureLocalIdentity =>
    rw [Device.step] at he
    split at he
    · rename_i i hflight
      cases he
      exact .joined hflight
    · rename_i hnone
      cases he
      exact .started hnone
  | readKey i name =>
    obtain ⟨attempt, hi, he⟩ := Option.bind_eq_some_iff.mp he
    exact .moved hi (readKey_moves he)
  | loaded i kyber dilithium x25519 =>
    obtain ⟨attempt, hi, he⟩ := Option.bind_eq_some_iff.mp he
    exact .moved hi (loaded_moves (hfit attempt hi) ⟨kyber, dilithium, x25519, rfl⟩ he)
  | write i name succeeds =>
    obtain ⟨attempt, hi, he⟩ := Option.bind_eq_some_iff.mp he
    exact .moved hi (write_moves he)
  | restart =>
    cases he
    exact .restarted

/-- What is read of every entry is what was stored. -/
theorem storedKeys_some (h : storedKeys read = some keys) (name : KeyName) :
    read name = some (some (keys name)) := by
  obtain ⟨kyberSecretKey, h1, h⟩ := Option.bind_eq_some_iff.mp h
  obtain ⟨kyberPublicKey, h2, h⟩ := Option.bind_eq_some_iff.mp h
  obtain ⟨dilithiumSecretKey, h3, h⟩ := Option.bind_eq_some_iff.mp h
  obtain ⟨dilithiumPublicKey, h4, h⟩ := Option.bind_eq_some_iff.mp h
  obtain ⟨x25519SecretKey, h5, h⟩ := Option.bind_eq_some_iff.mp h
  obtain ⟨x25519PublicKey, h6, h⟩ := Option.bind_eq_some_iff.mp h
  cases h
  rw [Option.join_eq_some_iff] at h1 h2 h3 h4 h5 h6
  cases name <;> assumption

@[simp] theorem store_put_self {v : name.Value S} :
    (s.put i name v).store name = some ⟨i, v⟩ :=
  Function.update_self _ _ _

theorem store_put_ne {v : name.Value S} {b : KeyName} (hb : b ≠ name) :
    (s.put i name v).store b = s.store b :=
  Function.update_of_ne hb _ _

/-- An entry after a write is the one before it or the one that was written. -/
theorem put_cases {b : KeyName} {e : Entry S b} (he : (s.put i name (keys name)).store b = some e) :
    s.store b = some e ∨ e.attempt = i ∧ e.value = keys b := by
  by_cases hb : b = name
  · subst hb
    rw [store_put_self] at he
    cases he
    exact .inr ⟨rfl, rfl⟩
  · exact .inl ((store_put_ne hb).symm.trans he)

/-- Another attempt has nothing to write, and does not rely on an entry that is missing. -/
theorem Stage.Sound.put {stage : Stage S} {generated : Option (IdentityKeys S)} {v : name.Value S}
    (h : stage.Sound s.store j generated) (hout : stage.out = []) (hnone : s.store name = none) :
    stage.Sound (s.put i name v).store j generated := by
  have hkept {b : KeyName} {e : Entry S b} (hb : s.store b = some e) :
      (s.put i name v).store b = some e := by
    refine (store_put_ne ?_).trans hb
    rintro rfl
    rw [hnone] at hb
    cases hb
  cases stage with
  | loading read =>
    refine ⟨h.1, fun b v hv => ?_⟩
    obtain ⟨e, he, rfl⟩ := Option.map_eq_some_iff.mp (h.2 b v hv)
    rw [hkept he]
    rfl
  | persisting left =>
    obtain rfl : left = [] := hout
    exact ⟨h.1, nofun, fun keys hkeys b hb => hkept (h.2.2 keys hkeys b hb)⟩
  | rejected left =>
    obtain rfl : left = [] := hout
    exact ⟨h.1, nofun, h.2.2⟩
  | resolved keys => exact h
  | lost => trivial

/-- What is left to write after a write. -/
theorem unwritten_erase (hnodup : left.Nodup) (hleft : ∀ b ∈ left, s.store b = none)
    {v : name.Value S} : ∀ b ∈ left.erase name, (s.put i name v).store b = none := by
  intro b hb
  obtain ⟨hne, hb⟩ := hnodup.mem_erase_iff.mp hb
  exact (store_put_ne hne).trans (hleft b hb)

namespace Unmixed
variable {store : Entries S} {inFlight : Option ℕ} {attempt' : Attempt S}

/-- All six entries are of one attempt. -/
theorem full (h : Unmixed s) (hfull : s.store.Full) : ∃ i attempt keys,
    s.attempts[i]? = some attempt ∧ attempt.generated = some keys ∧
      ∀ name, s.store name = some ⟨i, keys name⟩ := by
  obtain ⟨i, hi⟩ := h.one
  obtain ⟨e, he⟩ := Option.ne_none_iff_exists'.mp (hfull .kyberSecretKey)
  obtain ⟨attempt, keys, hattempt, hkeys, -⟩ := h.origin he
  rw [hi.store he] at hattempt
  refine ⟨i, attempt, keys, hattempt, hkeys, fun name => ?_⟩
  obtain ⟨e', he'⟩ := Option.ne_none_iff_exists'.mp (hfull name)
  obtain ⟨b, keys', hb, hkeys', hvalue⟩ := h.origin he'
  have hname : e'.attempt = i := hi.store he'
  rw [hname, hattempt] at hb
  cases hb
  cases hkeys.symm.trans hkeys'
  rw [he', ← hname, ← hvalue]

/-- Where an attempt has read all six entries, it has read what one attempt generated. -/
theorem drawn_of_read (h : Unmixed s) {generated : Option (IdentityKeys S)}
    (hsound : (Stage.loading read).Sound s.store i generated) (hkeys : storedKeys read = some keys) :
    Drawn keys := by
  have hstored (name : KeyName) : (s.store name).map Entry.value = some (keys name) :=
    hsound.2 name _ (storedKeys_some hkeys name)
  have hfull : s.store.Full := by
    intro name hnone
    have := hstored name
    rw [hnone] at this
    cases this
  obtain ⟨k, attempt, keys', hattempt, hkeys', hall⟩ := h.full hfull
  have heq : keys = keys' := by
    funext name
    have := hstored name
    rw [hall name] at this
    exact (Option.some.inj this).symm
  rw [heq]
  exact h.drawn hattempt hkeys'

/-- One attempt moves, and writes at most its own. -/
theorem replace (h : Unmixed s) (hi : s.attempts[i]? = some attempt)
    (hkeep : ∀ keys, attempt.generated = some keys → attempt'.generated = some keys)
    (hdrawn : ∀ keys, attempt'.generated = some keys → Drawn keys)
    (hactive : attempt'.stage.active = true → inFlight = some i)
    (hflight : inFlight = s.inFlight ∨ attempt.stage.active = true)
    (hstore : ∀ name e, store name = some e → s.store name = some e ∨
      e.attempt = i ∧ ∃ keys, attempt'.generated = some keys ∧ e.value = keys name)
    (hone : ∃ k, Device.Of ⟨store, s.attempts.set i attempt', inFlight⟩ k)
    (hsound : attempt'.stage.Sound store i attempt'.generated)
    (hothers : ∀ j other, j ≠ i → s.attempts[j]? = some other →
      other.stage.Sound store j other.generated) :
    Unmixed ⟨store, s.attempts.set i attempt', inFlight⟩ where
  flight {j other} hj hother := by
    rcases getElem?_set_cases hj with ⟨rfl, rfl⟩ | ⟨hne, hj⟩
    · exact hactive hother
    · have hj' := h.flight hj hother
      rcases hflight with rfl | hiactive
      · exact hj'
      · have hi' := h.flight hi hiactive
        exact absurd (Option.some.inj (hj'.symm.trans hi')) hne
  origin {name e} he := by
    have hlt := lt_length_of_getElem? hi
    rcases hstore name e he with hold | ⟨hattempt, keys, hkeys, hvalue⟩
    · obtain ⟨b, keys, hb, hkeys, hvalue⟩ := h.origin hold
      by_cases hbi : e.attempt = i
      · rw [hbi, hi] at hb
        cases hb
        exact ⟨attempt', keys, by rw [hbi, List.getElem?_set_self hlt], hkeep keys hkeys, hvalue⟩
      · exact ⟨b, keys, by rw [List.getElem?_set_ne (Ne.symm hbi), hb], hkeys, hvalue⟩
    · exact ⟨attempt', keys, by rw [hattempt, List.getElem?_set_self hlt], hkeys, hvalue⟩
  one := hone
  drawn {j other keys} hj hkeys := by
    rcases getElem?_set_cases hj with ⟨rfl, rfl⟩ | ⟨-, hj⟩
    · exact hdrawn keys hkeys
    · exact h.drawn hj hkeys
  sound {j other} hj := by
    rcases getElem?_set_cases hj with ⟨rfl, rfl⟩ | ⟨hne, hj⟩
    · exact hsound
    · exact hothers j other hne hj

/-- A move that writes nothing. -/
theorem silent (h : Unmixed s) (hi : s.attempts[i]? = some attempt)
    (hgenerated : attempt'.generated = attempt.generated)
    (hactive : attempt'.stage.active = true → inFlight = some i)
    (hflight : inFlight = s.inFlight ∨ attempt.stage.active = true)
    (hout : attempt'.stage.out ≠ [] → attempt.stage.out ≠ [])
    (hsound : attempt'.stage.Sound s.store i attempt'.generated) :
    Unmixed ⟨s.store, s.attempts.set i attempt', inFlight⟩ := by
  obtain ⟨k, hk⟩ := h.one
  refine h.replace hi (fun _ hkeys => hgenerated.trans hkeys)
    (fun _ hkeys => h.drawn hi (hgenerated.symm.trans hkeys)) hactive hflight
    (fun _ _ he => .inl he) ⟨k, hk.store, fun {j other} hj hother => ?_⟩ hsound
    fun _ _ _ hj => h.sound hj
  rcases getElem?_set_cases hj with ⟨rfl, rfl⟩ | ⟨-, hj⟩
  · exact hk.out hi (hout hother)
  · exact hk.out hj hother

/-- Attempt `i` writes an entry that is missing. -/
theorem written (h : Unmixed s) (hi : s.attempts[i]? = some attempt)
    (hgenerated : attempt.generated = some keys) (hname : name ∈ attempt.stage.out)
    (hnone : s.store name = none) (hgenerated' : attempt'.generated = some keys)
    (hactive : attempt'.stage.active = true → inFlight = some i)
    (hflight : inFlight = s.inFlight ∨ attempt.stage.active = true)
    (hsound : attempt'.stage.Sound (s.put i name (keys name)).store i attempt'.generated) :
    Unmixed ⟨(s.put i name (keys name)).store, s.attempts.set i attempt', inFlight⟩ := by
  obtain ⟨k, hk⟩ := h.one
  obtain rfl : i = k := hk.out hi (List.ne_nil_of_mem hname)
  have hothers (j : ℕ) (other : Attempt S) (hj : j ≠ i) (hother : s.attempts[j]? = some other) :
      other.stage.out = [] := by
    by_contra hout
    exact hj (hk.out hother hout)
  refine h.replace hi (fun keys' hkeys' => ?_) (fun keys' hkeys' => ?_) hactive hflight
    (fun b e he => ?_) ⟨i, fun {b e} he => ?_, fun {j other} hj hother => ?_⟩ hsound
    fun j other hj hother => (h.sound hother).put (hothers j other hj hother) hnone
  · cases hgenerated.symm.trans hkeys'
    exact hgenerated'
  · cases hgenerated'.symm.trans hkeys'
    exact h.drawn hi hgenerated
  · exact (put_cases he).imp id fun hnew => ⟨hnew.1, keys, hgenerated', hnew.2⟩
  · exact (put_cases he).elim hk.store And.left
  · rcases getElem?_set_cases hj with ⟨rfl, rfl⟩ | ⟨-, hj⟩
    · rfl
    · exact hk.out hj hother

theorem move (h : Unmixed s) (hi : s.attempts[i]? = some attempt)
    (hmove : Moves s i attempt.generated attempt.stage t) : Unmixed t := by
  have hsound := h.sound hi
  generalize hstage : attempt.stage = stage at hmove hsound
  have hflight (hactive : stage.active = true) : s.inFlight = some i :=
    h.flight hi (hstage ▸ hactive)
  cases hmove with
  | @read read name hnone =>
    refine h.silent hi rfl (fun _ => hflight rfl) (.inl rfl) (fun hout => absurd rfl hout)
      ⟨hsound.1, fun b v hv => ?_⟩
    by_cases hb : b = name
    · subst hb
      rw [Function.update_self] at hv
      exact Option.some.inj hv
    · rw [Function.update_of_ne hb] at hv
      exact hsound.2 b v hv
  | found hkeys =>
    exact h.silent hi rfl (fun hactive => by cases hactive) (.inr (hstage ▸ rfl))
      (fun hout => absurd rfl hout) (h.drawn_of_read hsound hkeys)
  | generated hclear hdrawn =>
    obtain ⟨hstore, hout⟩ := hclear
    refine h.replace hi (fun keys' hkeys' => ?_) (fun keys' hkeys' => ?_) (fun _ => hflight rfl)
      (.inl rfl) (fun _ _ he => .inl he) ⟨i, fun {b e} he => ?_, fun {j other} hj hother => ?_⟩
      ⟨by decide, fun b _ => hstore b, fun _ _ b hb => absurd b.mem_all hb⟩
      fun _ _ _ hj => h.sound hj
    · rw [hsound.1] at hkeys'
      cases hkeys'
    · cases hkeys'
      exact hdrawn
    · rw [hstore b] at he
      cases he
    · rcases getElem?_set_cases hj with ⟨rfl, -⟩ | ⟨-, hj⟩
      · rfl
      · exact absurd (hout other (List.mem_of_getElem? hj)) hother
  | @wrote keys left name hgenerated hname _ =>
    obtain ⟨hnodup, hleft, hwritten⟩ := hsound
    refine h.written hi hgenerated (hstage ▸ hname) (hleft name hname) rfl (fun _ => hflight rfl)
      (.inl rfl) ⟨hnodup.erase name, unwritten_erase hnodup hleft, fun keys' hkeys' b hb => ?_⟩
    cases hkeys'
    by_cases hne : b = name
    · subst hne
      exact store_put_self
    · refine (store_put_ne hne).trans (hwritten keys hgenerated b fun hmem => hb ?_)
      exact hnodup.mem_erase_iff.mpr ⟨hne, hmem⟩
  | @wroteLast keys left name hgenerated hname _ =>
    exact h.written hi hgenerated (hstage ▸ hname) (hsound.2.1 name hname) rfl
      (fun hactive => by cases hactive) (.inr (hstage ▸ rfl)) (h.drawn hi hgenerated)
  | @failed keys left name hgenerated hname =>
    refine h.silent hi hgenerated.symm (fun hactive => by cases hactive) (.inr (hstage ▸ rfl))
      (fun _ => ?_) ⟨hsound.1.erase name, fun b hb => hsound.2.1 b (List.mem_of_mem_erase hb),
        Option.some_ne_none keys⟩
    rw [hstage]
    exact List.ne_nil_of_mem hname
  | @wroteLate keys left name hgenerated hname =>
    exact h.written hi hgenerated (hstage ▸ hname) (hsound.2.1 name hname) rfl
      (fun hactive => by cases hactive) (.inl rfl)
      ⟨hsound.1.erase name, unwritten_erase hsound.1 hsound.2.1, Option.some_ne_none keys⟩
  | @failedLate keys left name hgenerated hname =>
    refine h.silent hi hgenerated.symm (fun hactive => by cases hactive) (.inl rfl)
      (fun _ => ?_) ⟨hsound.1.erase name, fun b hb => hsound.2.1 b (List.mem_of_mem_erase hb),
        Option.some_ne_none keys⟩
    rw [hstage]
    exact List.ne_nil_of_mem hname

/-- A process that ends leaves no attempt under way. -/
theorem restart (h : Unmixed s) :
    Unmixed { s with attempts := s.attempts.map Device.drop, inFlight := none } := by
  have hdrop (attempt : Attempt S) : (Device.drop attempt).generated = attempt.generated ∧
      (Device.drop attempt).stage.active = false ∧ (Device.drop attempt).stage.out = [] ∧
        ((Device.drop attempt).stage = attempt.stage ∨ (Device.drop attempt).stage = .lost) := by
    unfold Device.drop
    split
    · rename_i keys hstage
      exact ⟨rfl, rfl, rfl, .inl hstage.symm⟩
    · exact ⟨rfl, rfl, rfl, .inr rfl⟩
  have hget {i : ℕ} {attempt : Attempt S}
      (hi : (s.attempts.map Device.drop)[i]? = some attempt) :
      ∃ b, s.attempts[i]? = some b ∧ Device.drop b = attempt := by
    rwa [List.getElem?_map, Option.map_eq_some_iff] at hi
  obtain ⟨k, hk⟩ := h.one
  refine ⟨fun hi hactive => ?_, fun he => ?_, ⟨k, hk.store, fun hj hother => ?_⟩, fun hi hkeys => ?_,
    fun hi => ?_⟩
  · obtain ⟨b, -, rfl⟩ := hget hi
    rw [(hdrop b).2.1] at hactive
    cases hactive
  · obtain ⟨b, keys, hb, hkeys, hvalue⟩ := h.origin he
    exact ⟨Device.drop b, keys, by rw [List.getElem?_map, hb]; rfl, (hdrop b).1.trans hkeys, hvalue⟩
  · obtain ⟨b, -, rfl⟩ := hget hj
    exact absurd (hdrop b).2.2.1 hother
  · obtain ⟨b, hb, rfl⟩ := hget hi
    exact h.drawn hb ((hdrop b).1.symm.trans hkeys)
  · obtain ⟨b, hb, rfl⟩ := hget hi
    rw [(hdrop b).1]
    rcases (hdrop b).2.2.2 with hsame | hlost
    · rw [hsame]
      exact h.sound hb
    · rw [hlost]
      trivial

theorem ensureLocalIdentity (h : Unmixed s) (hnone : s.inFlight = none) :
    Unmixed { s with
      attempts := s.attempts ++ [⟨none, .loading fun _ => none⟩]
      inFlight := some s.attempts.length } := by
  obtain ⟨k, hk⟩ := h.one
  refine ⟨fun hi hactive => ?_, fun he => ?_, ⟨k, hk.store, fun hj hother => ?_⟩, fun hi hkeys => ?_,
    fun hi => ?_⟩
  · rcases getElem?_concat_cases hi with ⟨rfl, -⟩ | hi
    · rfl
    · rw [h.flight hi hactive] at hnone
      cases hnone
  · obtain ⟨b, keys, hb, hkeys, hvalue⟩ := h.origin he
    exact ⟨b, keys, by rw [List.getElem?_append_left (lt_length_of_getElem? hb), hb], hkeys, hvalue⟩
  · rcases getElem?_concat_cases hj with ⟨-, rfl⟩ | hj
    · exact absurd rfl hother
    · exact hk.out hj hother
  · rcases getElem?_concat_cases hi with ⟨-, rfl⟩ | hi
    · cases hkeys
    · exact h.drawn hi hkeys
  · rcases getElem?_concat_cases hi with ⟨-, rfl⟩ | hi
    · exact ⟨rfl, fun _ _ hv => by cases hv⟩
    · exact h.sound hi

theorem fresh : Unmixed (Device.fresh : Device S) where
  flight hi := by cases hi
  origin he := by cases he
  one := ⟨0, fun he => (by cases he), fun hi => by cases hi⟩
  drawn hi := by cases hi
  sound hi := by cases hi

theorem step {a : Action S} (h : Unmixed s) (hfit : Fit s a) (he : s.step a = some t) :
    Unmixed t := by
  cases step_effect hfit he with
  | joined => exact h
  | started hnone => exact h.ensureLocalIdentity hnone
  | moved hi hmove => exact h.move hi hmove
  | restarted => exact h.restart

end Unmixed

theorem unmixed (h : (machine S).Reach Fit s) : Unmixed s := by
  apply h.invariant
  · rintro s rfl
    exact .fresh
  · intro s a t hs hfit he
    exact hs.step hfit he

/-- Every public key is that of the secret beside it. -/
structure Matching (keys : IdentityKeys S) : Prop where
  kyber : keys .kyberPublicKey = S.kyberPublicKey (keys .kyberSecretKey)
  dilithium : keys .dilithiumPublicKey = S.dilithiumPublicKey (keys .dilithiumSecretKey)
  x25519 : keys .x25519PublicKey = S.x25519PublicKey (keys .x25519SecretKey)

def signPrekey (keys : IdentityKeys S) (entropy : Bytes) : Bytes :=
  S.sign (prekeyMessage (keys .x25519PublicKey) (keys .kyberPublicKey)) (keys .dilithiumSecretKey)
    entropy

theorem Drawn.matching (h : Drawn keys) : Matching keys := by
  obtain ⟨kyber, dilithium, x25519, rfl⟩ := h
  exact ⟨rfl, rfl, rfl⟩

/-- The stored identity is of one call and of its `generateIdentity`, and what the promises
resolve to is of one `generateIdentity`, with a signature that verifies. -/
structure Whole (s : Device S) : Prop where
  stored : s.store.Full → ∃ i attempt keys, s.attempts[i]? = some attempt ∧
    attempt.generated = some keys ∧ Drawn keys ∧ ∀ name, s.store name = some ⟨i, keys name⟩
  resolved : ∀ attempt ∈ s.attempts, ∀ keys, attempt.stage = .resolved keys → Matching keys ∧
    ∀ entropy, S.verify (signPrekey keys entropy)
      (prekeyMessage (keys .x25519PublicKey) (keys .kyberPublicKey)) (keys .dilithiumPublicKey) =
        some true

theorem identity_of_fit
    (hverify : ∀ m sk entropy, S.verify (S.sign m sk entropy) m (S.dilithiumPublicKey sk) = some true)
    (h : (machine S).Reach Fit s) : Whole s := by
  have hs := unmixed h
  constructor
  · intro hfull
    obtain ⟨i, attempt, keys, hattempt, hkeys, hall⟩ := hs.full hfull
    exact ⟨i, attempt, keys, hattempt, hkeys, hs.drawn hattempt hkeys, hall⟩
  · intro attempt hattempt keys hresolved
    obtain ⟨i, hi⟩ := List.mem_iff_getElem?.mp hattempt
    have hsound := hs.sound hi
    rw [hresolved] at hsound
    have hmatching := Drawn.matching hsound
    refine ⟨hmatching, fun entropy => ?_⟩
    rw [signPrekey, hmatching.dilithium]
    exact hverify _ _ _

theorem KeyName.forall_iff {p : KeyName → Prop} : (∀ name, p name) ↔ ∀ name ∈ KeyName.all, p name :=
  ⟨fun h name _ => h name, fun h name => h name name.mem_all⟩

instance decidableClear (s : Device S) : Decidable s.Clear :=
  decidable_of_iff ((∀ name ∈ KeyName.all, (s.store name).isNone = true) ∧
      ∀ attempt ∈ s.attempts, attempt.stage.out = []) (by
    rw [← KeyName.forall_iff]
    simp only [Option.isNone_iff_eq_none]
    exact ⟨fun h => ⟨h.1, h.2⟩, fun h => ⟨h.store, h.out⟩⟩)

instance decidableFit (s : Device S) : ∀ a, Decidable (Fit s a)
  | .loaded i _ _ _ => inferInstanceAs (Decidable (∀ attempt ∈ s.attempts[i]?, _ → _))
  | .ensureLocalIdentity => isTrue trivial
  | .readKey _ _ => isTrue trivial
  | .write _ _ _ => isTrue trivial
  | .restart => isTrue trivial

/-- An attempt on the entries, up to its first write. -/
def begun (i : ℕ) (kyber : Bytes) : List (Action Symbolic.suite) :=
  .ensureLocalIdentity :: KeyName.all.map (.readKey i) ++
    [.loaded i kyber (TwoParty.someone .alice).dilithiumSecretKey
      (TwoParty.someone .alice).x25519SecretKey]

def written (i : ℕ) (names : List KeyName) (succeed : Bool) : List (Action S) :=
  names.map fun name => .write i name succeed

/-- All writes of the first attempt fail, those of the second succeed, and the third one loads. -/
theorem identity_of_fit_retry : ∃ s : Device Symbolic.suite, (machine _).Reach Fit s ∧
    s.store.Full ∧ s.attempts.length = 3 ∧ Whole s := by
  obtain ⟨s, hs, hp⟩ := Machine.Reach.of_execIf (M := machine Symbolic.suite) (G := Fit)
    (begun 0 [1] ++ written 0 KeyName.all false ++ begun 1 [2] ++ written 1 KeyName.all true ++
      begun 2 [3]) (s := Device.fresh) rfl
    (p := fun s => (KeyName.all.all fun name => (s.store name).isSome) && s.attempts.length == 3)
    (by decide +kernel)
  simp only [Bool.and_eq_true, List.all_eq_true, beq_iff_eq] at hp
  exact ⟨s, hs, fun name => Option.isSome_iff_ne_none.mp (hp.1 name name.mem_all), hp.2,
    identity_of_fit Symbolic.suite_ideal.verify_sign hs⟩

end Epistl.Identities
