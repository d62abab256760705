import Epistl.Avatars.Uploads
import Mathlib.Data.Fintype.Defs

/-! # Visible avatars

A user is exposed when the avatar is set, or when a call of `confirm_upload` that has checked
the size is about to set it. The object has to stay as it is from then on: its replacement by an
oversized one and the deletion of what was replaced are the two steps that break it.
-/
namespace Epistl.Avatars
open Machine
variable {υ : Type*} (uuid : υ → String)

/-- The user's object exists and has an allowed size. -/
def Stored (s : World υ) (user : υ) : Prop :=
  ∃ object, s.bucket (objectKey uuid user) = some object ∧ object.size ≤ maxAvatarBytes

structure Visible (s : World υ) (user : υ) : Prop where
  stored : (s.image user).join.isSome → Stored uuid s user
  redirects {answered : Bool} {presignedGetUrl : String → Option String} {location : String} :
    getAvatar uuid s answered presignedGetUrl user = .found location →
    presignedGetUrl (objectKey uuid user) = some location ∧ Stored uuid s user

def Exposed (s : World υ) (user : υ) : Prop :=
  (s.image user).isSome ∧
    ((s.image user).join.isSome ∨ ⟨user, .update⟩ ∈ s.confirms)

/-- The step neither uploads an oversized object for an exposed user nor deletes the object of
one. -/
def Fit (s : World υ) : Action υ → Prop
  | .put url _ size => maxAvatarBytes < size → ∀ user, objectKey uuid user = url.key → ¬Exposed s user
  | .delete i true => ∀ c ∈ s.confirms[i]?, ∀ user,
      objectKey uuid user = objectKey uuid c.user → ¬Exposed s user
  | _ => True

instance [Fintype υ] [DecidableEq υ] (s : World υ) (a : Action υ) : Decidable (Fit uuid s a) := by
  unfold Fit Exposed
  split <;> infer_instance

theorem Stored.of_bucket {s t : World υ} {user : υ} (h : Stored uuid s user)
    (hbucket : t.bucket (objectKey uuid user) = s.bucket (objectKey uuid user)) :
    Stored uuid t user := by
  rwa [Stored, hbucket]

def twoUsers (user : Bool) : String := if user then "8c6d" else "41aa"

def Awaits.isReturned : Awaits → Bool
  | .returned _ => true
  | _ => false

variable {uuid}

theorem getAvatar_found {s : World υ} {answered : Bool} {presignedGetUrl : String → Option String}
    {user : υ} {location : String}
    (h : getAvatar uuid s answered presignedGetUrl user = .found location) :
    (s.image user).join.isSome ∧ presignedGetUrl (objectKey uuid user) = some location := by
  unfold getAvatar at h
  split at h
  · split at h
    · rename_i himage
      split at h
      · rename_i hurl
        split at h
        · cases h
          exact ⟨by rw [himage]; rfl, hurl⟩
        · cases h
      · cases h
    · cases h
  · cases h

theorem Awaits.exists_of_isReturned {awaits : Awaits} (h : awaits.isReturned) :
    ∃ response, awaits = .returned response := by
  cases awaits with
  | returned response => exact ⟨response, rfl⟩
  | _ => cases h

/-- A visible avatar is one that is stored when it is set. -/
theorem Visible.of_stored {s : World υ} {user : υ}
    (h : (s.image user).join.isSome → Stored uuid s user) : Visible uuid s user where
  stored := h
  redirects hfound :=
    have ⟨himage, hlocation⟩ := getAvatar_found hfound
    ⟨hlocation, h himage⟩

namespace World
variable {s : World υ} {i : ℕ} {user u : υ} {awaits : Awaits}

theorem mem_settle (h : ⟨u, .update⟩ ∈ (s.settle i user awaits).confirms) :
    ⟨u, .update⟩ ∈ s.confirms ∨ u = user ∧ awaits = .update := by
  rcases List.mem_or_eq_of_mem_set h with h | h
  · exact Or.inl h
  · cases h
    exact Or.inr ⟨rfl, rfl⟩

theorem mem_settle_of_mem {c c' : Confirm υ} (h : c ∈ s.confirms)
    (hi : s.confirms[i]? = some c') (hne : c ≠ c') : c ∈ (s.settle i user awaits).confirms := by
  obtain ⟨j, hj⟩ := List.mem_iff_getElem?.mp h
  have hij : i ≠ j := by
    rintro rfl
    exact hne (Option.some.inj (hj.symm.trans hi))
  exact List.mem_iff_getElem?.mpr ⟨j, by rw [settle, List.getElem?_set_ne hij, hj]⟩

variable [DecidableEq υ]

@[simp] theorem setImage_isSome {path : String} :
    ((s.setImage path user).image u).isSome = (s.image u).isSome := by
  simp only [setImage]
  split <;> simp

theorem setImage_join {path : String} (h : ((s.setImage path user).image u).join.isSome) :
    (s.image u).join.isSome ∨ u = user ∧ (s.image u).isSome := by
  simp only [setImage] at h
  split at h
  · rename_i hu
    refine Or.inr ⟨hu, ?_⟩
    cases himage : s.image u <;> simp_all
  · exact Or.inl h

end World

variable (uuid) in
/-- Every exposed user's object is stored. -/
def Kept (s : World υ) : Prop := ∀ user, Exposed s user → Stored uuid s user

theorem Exposed.mono {s t : World υ} {user : υ} (h : Exposed t user)
    (hrow : (t.image user).isSome → (s.image user).isSome)
    (himage : (t.image user).join.isSome → Exposed s user)
    (hconfirm : ⟨user, .update⟩ ∈ t.confirms → ⟨user, .update⟩ ∈ s.confirms) : Exposed s user :=
  h.2.elim himage fun hmem => ⟨hrow h.1, Or.inr (hconfirm hmem)⟩

theorem afterHead_eq_update {answer : Option (Option ℕ)} (h : afterHead answer = .update) :
    ∃ size, answer = some (some size) ∧ size ≤ maxAvatarBytes := by
  unfold afterHead at h
  split at h
  · cases h
  · cases h
  · rename_i size
    split at h
    · cases h
    · exact ⟨size, rfl, by omega⟩

variable {s t : World υ}

theorem Kept.put {url : PresignedPut} {contentType : String} {size : ℕ} (h : Kept uuid s)
    (hfit : Fit uuid s (.put url contentType size)) :
    Kept uuid (s.replace url.key (some ⟨contentType, size⟩)) := by
  intro user hexposed
  by_cases hkey : objectKey uuid user = url.key
  · by_cases hsize : maxAvatarBytes < size
    · exact absurd hexposed (hfit hsize user hkey)
    · refine ⟨⟨contentType, size⟩, ?_, Nat.le_of_not_lt hsize⟩
      rw [hkey]
      exact Function.update_self _ _ _
  · exact (h user hexposed).of_bucket uuid (Function.update_of_ne hkey _ _)

theorem Kept.head {i : ℕ} {user : υ} {answered : Bool} (h : Kept uuid s) :
    Kept uuid (s.settle i user (afterHead (if answered then
      some ((s.bucket (objectKey uuid user)).map Object.size) else none))) := by
  intro u hexposed
  obtain ⟨hrow, himage | hmem⟩ := hexposed
  · exact h u ⟨hrow, Or.inl himage⟩
  · rcases World.mem_settle hmem with hmem | ⟨rfl, hupdate⟩
    · exact h u ⟨hrow, Or.inr hmem⟩
    · obtain ⟨size, hsize, hle⟩ := afterHead_eq_update hupdate
      split at hsize
      · obtain ⟨object, hobject, rfl⟩ := Option.map_eq_some_iff.mp (Option.some.inj hsize)
        exact ⟨object, hobject, hle⟩
      · cases hsize

theorem Kept.delete {i : ℕ} {user : υ} (h : Kept uuid s)
    (hi : s.confirms[i]? = some ⟨user, .delete⟩) (hfit : Fit uuid s (.delete i true)) :
    Kept uuid (s.replace (objectKey uuid user) none) := by
  intro u hexposed
  by_cases hkey : objectKey uuid u = objectKey uuid user
  · exact absurd hexposed (hfit _ hi u hkey)
  · exact (h u hexposed).of_bucket uuid (Function.update_of_ne hkey _ _)

/-- A confirmation that moves on without the size check exposes nobody. -/
theorem Kept.settle {i : ℕ} {user : υ} {awaits : Awaits} (h : Kept uuid s)
    (hawaits : awaits ≠ .update) : Kept uuid (s.settle i user awaits) := by
  intro u hexposed
  refine h u (hexposed.mono id (fun himage => ⟨hexposed.1, Or.inl himage⟩) fun hmem => ?_)
  exact (World.mem_settle hmem).resolve_right fun hupdate => hawaits hupdate.2

section
variable [DecidableEq υ]

theorem Kept.update {i : ℕ} {user : υ} {path : String} (h : Kept uuid s)
    (hi : s.confirms[i]? = some ⟨user, .update⟩) : Kept uuid (s.setImage path user) := by
  intro u hexposed
  refine h u (hexposed.mono (fun hrow => by simpa using hrow) (fun himage => ?_) id)
  rcases World.setImage_join himage with himage | ⟨rfl, hrow⟩
  · exact ⟨by simpa using hexposed.1, Or.inl himage⟩
  · exact ⟨hrow, Or.inr (List.mem_of_getElem? hi)⟩

theorem Kept.step {a : Action υ} (h : Kept uuid s) (hfit : Fit uuid s a)
    (hstep : step uuid s a = some t) : Kept uuid t := by
  cases a with
  | requestUploadUrl user contentType uploadUrl =>
    cases hstep
    exact h
  | elapse seconds =>
    cases hstep
    exact h
  | put url contentType size =>
    simp only [Avatars.step] at hstep
    split at hstep
    · cases hstep
      exact h.put hfit
    · cases hstep
  | confirmUpload user =>
    cases hstep
    intro u hexposed
    refine h u (hexposed.mono id (fun himage => ⟨hexposed.1, Or.inl himage⟩) fun hmem => ?_)
    simpa using hmem
  | head i answered =>
    simp only [Avatars.step] at hstep
    split at hstep
    · cases hstep
      exact h.head
    · cases hstep
  | delete i deleted =>
    simp only [Avatars.step] at hstep
    split at hstep
    · rename_i user hi
      cases hstep
      refine Kept.settle ?_ (by simp [afterDelete])
      cases deleted with
      | true => exact h.delete hi hfit
      | false => exact h
    · cases hstep
  | update i update =>
    simp only [Avatars.step] at hstep
    split at hstep
    · rename_i user hi
      cases hstep
      refine Kept.settle ?_ (by cases update <;> simp [afterUpdate])
      split
      · exact h.update hi
      · exact h
    · cases hstep

theorem kept_of_fit (h : (machine uuid).Reach (Fit uuid) s) : Kept uuid s := by
  refine h.invariant (fun s hinit user hexposed => ?_) fun s a t hs hfit hstep => hs.step hfit hstep
  obtain ⟨himage, -, hconfirms⟩ := hinit
  rcases hexposed.2 with hset | hmem
  · simp [himage user] at hset
  · simp [hconfirms] at hmem

/-- In the runs of fit steps every avatar that is set can be fetched, also while a call of
`confirm_upload` is in progress. -/
theorem visible_of_fit (h : (machine uuid).Reach (Fit uuid) s) (user : υ) : Visible uuid s user :=
  .of_stored fun himage => by
    refine kept_of_fit h user ⟨?_, Or.inl himage⟩
    cases hrow : s.image user with
    | none => simp [hrow] at himage
    | some image => rfl

/-- One user uploads twice, the other one uploads too much and has confirmed it before. -/
theorem visible_of_fit_twoUsers : ∃ s, (machine twoUsers).Reach (Fit twoUsers) s ∧
    (s.image true = some (some "/api/avatar/8c6d") ∧ s.image false = some none ∧
      s.bucket "avatars/41aa" = none) ∧
    ∀ user, Visible twoUsers s user := by
  obtain ⟨s, hs, hp⟩ := Reach.of_execIf (M := machine twoUsers) (G := Fit twoUsers)
    (s := ⟨0, [], fun _ => none, fun _ => some none, []⟩)
    (p := fun s => s.image true = some (some "/api/avatar/8c6d") ∧ s.image false = some none ∧
      s.bucket "avatars/41aa" = none)
    [.requestUploadUrl true (some "image/png") (some "https://store/put"),
      .requestUploadUrl false (some "image/jpeg") (some "https://store/put"),
      .put ⟨"avatars/8c6d", "image/png", 300⟩ "image/png" 70000, .confirmUpload true,
      .confirmUpload false, .head 1 true, .head 0 true, .elapse 60, .update 0 .ok,
      .put ⟨"avatars/41aa", "image/jpeg", 300⟩ "image/jpeg" (maxAvatarBytes + 1),
      .put ⟨"avatars/8c6d", "image/png", 300⟩ "image/png" maxAvatarBytes,
      .confirmUpload false, .head 2 true, .delete 2 true]
    ⟨fun _ => rfl, rfl, rfl⟩ (by decide +kernel)
  exact ⟨s, hs, by simpa using hp, fun user => visible_of_fit hs user⟩

/-- A confirmed avatar is replaced by an oversized upload, which is confirmed and deleted. -/
theorem not_visible_after_oversized : ¬∀ s, (machine twoUsers).Reach anyStep s → s.Quiet →
    ∀ user, Visible twoUsers s user := by
  intro h
  obtain ⟨s, hs, hp⟩ := Reach.of_execIf (M := machine twoUsers) (G := anyStep)
    (s := ⟨0, [], fun _ => none, fun _ => some none, []⟩)
    (p := fun s => (s.image true).join.isSome ∧ s.bucket (objectKey twoUsers true) = none ∧
      ∀ c ∈ s.confirms, c.awaits.isReturned)
    [.requestUploadUrl true (some "image/png") (some "https://store/put"),
      .put ⟨"avatars/8c6d", "image/png", 300⟩ "image/png" 70000, .confirmUpload true,
      .head 0 true, .update 0 .ok,
      .put ⟨"avatars/8c6d", "image/png", 300⟩ "image/png" (maxAvatarBytes + 1),
      .confirmUpload true, .head 1 true, .delete 1 true]
    ⟨fun _ => rfl, rfl, rfl⟩ (by decide +kernel)
  obtain ⟨himage, hgone, hquiet⟩ := of_decide_eq_true hp
  obtain ⟨object, hobject, -⟩ :=
    (h s hs (fun c hc => Awaits.exists_of_isReturned (hquiet c hc)) true).stored himage
  rw [hgone] at hobject
  cases hobject

variable (uuid) in
/-- A call of `confirm_upload` returns without a change of the store. -/
theorem exists_returned {i : ℕ} {c : Confirm υ} (hi : s.confirms[i]? = some c)
    (hc : ¬c.awaits.isReturned) :
    ∃ a t response, step uuid s a = some t ∧ t.bucket = s.bucket ∧
      t.confirms = s.confirms.set i ⟨c.user, .returned response⟩ ∧
      ∀ u, Exposed s u → Exposed t u := by
  obtain ⟨user, awaits⟩ := c
  cases awaits with
  | head =>
    refine ⟨.head i false, s.settle i user (.returned internalError), internalError,
      by simp only [step, hi]; rfl, rfl, rfl, fun u hu => ⟨hu.1, hu.2.imp_right fun hmem => ?_⟩⟩
    exact World.mem_settle_of_mem hmem hi (by simp)
  | delete =>
    refine ⟨.delete i false, s.settle i user afterDelete, badRequest "file_too_large",
      by simp only [step, hi]; rfl, rfl, rfl, fun u hu => ⟨hu.1, hu.2.imp_right fun hmem => ?_⟩⟩
    exact World.mem_settle_of_mem hmem hi (by simp)
  | update =>
    let path := servingPath uuid user
    refine ⟨.update i .ok, (s.setImage path user).settle i user (afterUpdate uuid user .ok),
      .json 200 [("image", path)], by simp only [step, hi]; rfl, rfl, rfl,
      fun u hu => ⟨by simpa [World.settle] using hu.1, ?_⟩⟩
    by_cases huser : u = user
    · subst huser
      obtain ⟨image, himage⟩ := Option.isSome_iff_exists.mp hu.1
      exact Or.inl (by simp [World.settle, World.setImage, himage])
    · refine hu.2.imp (fun himage => ?_) fun hmem => World.mem_settle_of_mem
        (s := s.setImage path user) hmem hi fun heq => huser (Confirm.mk.inj heq).1
      simpa [World.settle, World.setImage, huser] using himage
  | returned response => exact absurd rfl hc

variable (uuid) in
/-- All calls in progress return without a change of the store, and then every exposed user has
an avatar. -/
theorem exists_quiet {n : ℕ} (hn : s.confirms.countP (fun c => !c.awaits.isReturned) = n) :
    ∃ as t, (machine uuid).exec s as = some t ∧ t.Quiet ∧ t.bucket = s.bucket ∧
      ∀ user, Exposed s user → (t.image user).join.isSome := by
  induction n generalizing s with
  | zero =>
    have hquiet : ∀ c ∈ s.confirms, c.awaits.isReturned := by simpa using hn
    refine ⟨[], s, rfl, fun c hc => Awaits.exists_of_isReturned (hquiet c hc), rfl, fun user hu => ?_⟩
    exact hu.2.resolve_right fun hmem => absurd (hquiet _ hmem) (by simp [Awaits.isReturned])
  | succ n ih =>
    obtain ⟨c, hmem, hc⟩ := List.countP_pos_iff.mp (by omega :
      0 < s.confirms.countP fun c => !c.awaits.isReturned)
    obtain ⟨i, hi⟩ := List.mem_iff_getElem?.mp hmem
    obtain ⟨a, t, response, hstep, hbucket, hconfirms, hexposed⟩ :=
      exists_returned uuid hi (by simpa using hc)
    obtain ⟨hlt, hget⟩ := List.getElem?_eq_some_iff.mp hi
    have hcount : t.confirms.countP (fun c => !c.awaits.isReturned) = n := by
      rw [hconfirms, List.countP_set hlt, hget, hn, if_pos hc]
      simp [Awaits.isReturned]
    obtain ⟨as, u, hexec, hquiet, hbucket', himage⟩ := ih hcount
    refine ⟨a :: as, u, ?_, hquiet, hbucket'.trans hbucket, fun user hu => himage user (hexposed user hu)⟩
    exact Option.bind_eq_some_iff.mpr ⟨t, hstep, hexec⟩

/-- A step that is not fit leaves an exposed user without an object of an allowed size. -/
theorem exists_not_stored {a : Action υ} (hfit : ¬Fit uuid s a) (hstep : step uuid s a = some t) :
    ∃ user, Exposed t user ∧ ¬Stored uuid t user := by
  cases a with
  | put url contentType size =>
    simp only [Fit, not_forall, not_not] at hfit
    obtain ⟨hsize, user, hkey, hexposed⟩ := hfit
    simp only [step] at hstep
    split at hstep
    · cases hstep
      refine ⟨user, hexposed, fun ⟨object, hobject, hle⟩ => ?_⟩
      simp only [World.replace, hkey, Function.update_self, Option.some.injEq] at hobject
      subst hobject
      exact absurd hsize (Nat.not_lt.mpr hle)
    · cases hstep
  | delete i deleted =>
    cases deleted with
    | false => exact absurd trivial hfit
    | true =>
      simp only [Fit, not_forall, not_not] at hfit
      obtain ⟨c, hi, user, hkey, hexposed⟩ := hfit
      simp only [step] at hstep
      split at hstep
      · rename_i user' hi'
        cases hstep
        cases Option.some.inj (hi.symm.trans hi')
        refine ⟨user, ⟨hexposed.1, hexposed.2.imp_right fun hmem => ?_⟩, fun ⟨object, hobject, _⟩ => ?_⟩
        · exact World.mem_settle_of_mem (s := s.replace (objectKey uuid user') none) hmem hi' (by simp)
        · simp [World.settle, World.replace, hkey] at hobject
      · cases hstep
  | _ => exact absurd trivial hfit

/-- After a step that is not fit, a user can be left with an avatar that is not there. -/
theorem exists_not_visible {a : Action υ} (hfit : ¬Fit uuid s a) (hstep : step uuid s a = some t) :
    ∃ as u, (machine uuid).exec t as = some u ∧ u.Quiet ∧ ∃ user, ¬Visible uuid u user := by
  obtain ⟨user, hexposed, hstored⟩ := exists_not_stored hfit hstep
  obtain ⟨as, u, hexec, hquiet, hbucket, himage⟩ := exists_quiet uuid (s := t) rfl
  refine ⟨as, u, hexec, hquiet, user, fun hvisible => hstored ?_⟩
  exact (hvisible.stored (himage user hexposed)).of_bucket uuid (by rw [hbucket])

end

end Epistl.Avatars
