import Epistl.Deletion.Storage

/-! # How far a wipe reaches

What the wipe has deleted stays away as long as nothing is stored behind its back, and what
is stored behind its back stays.
-/
namespace Epistl.Deletion.Wipe
variable {S : Suite}

/-- The wipe may still find a session of the contact stored. -/
def Holds (w : Wipe) (contactUserId : JsString) : Prop :=
  match w.sessions with
  | .reading | .writingIndex _ | .rejected => True
  | .deleting left failed => contactUserId ∈ left ∨ contactUserId ∈ failed
  | .deletingIndex | .resolved => False

/-- What the wipe has dealt with is gone. -/
structure Keeps (w : Wipe) (store : Storage S) : Prop where
  sessions (contactUserId : JsString) : store.sessions contactUserId ≠ none → w.Holds contactUserId
  sessionIndex : w.sessions = .resolved → store.sessionIndex = []
  keys (name : KeyName) : name ∉ w.keys → store.keys name = none
  messages : w.messages = true → store.messages = []

/-- A secret is stored that the wipe will not delete any more. -/
inductive Leaves (w : Wipe) (store : Storage S) : Prop
  | session {contactUserId : JsString} :
      store.sessions contactUserId ≠ none → ¬w.Awaits contactUserId → Leaves w store
  | sessionIndex : store.sessionIndex ≠ [] → w.sessions = .resolved → Leaves w store
  | key {name : KeyName} : store.keys name ≠ none → name ∉ w.keys → Leaves w store
  | message : store.messages ≠ [] → w.messages = true → Leaves w store

variable {w w' : Wipe} {store store' : Storage S}

theorem start_keeps (store : Storage S) : start.Keeps store where
  sessions _ _ := trivial
  sessionIndex h := by cases h
  keys name h := absurd (KeyName.mem_all name) h
  messages h := by cases h

theorem resolved_iff : w.resolved = true ↔
    w.session = true ∧ w.keys = [] ∧ w.sessions = .resolved ∧ w.messages = true := by
  simp only [resolved, Bool.and_eq_true, decide_eq_true_eq, List.isEmpty_iff, and_assoc]

theorem Keeps.clean (h : w.Keeps store) (hw : w.resolved = true) : store.Clean := by
  obtain ⟨-, hkeys, hsessions, hmessages⟩ := resolved_iff.mp hw
  refine ⟨fun c => ?_, h.sessionIndex hsessions, fun name => ?_, h.messages hmessages⟩
  · by_contra hc
    have hheld := h.sessions c hc
    rwa [Holds, hsessions] at hheld
  · apply h.keys
    rw [hkeys]
    exact List.not_mem_nil

theorem Leaves.not_clean (h : w.Leaves store) : ¬store.Clean := by
  intro hclean
  cases h with
  | session hc _ => exact hc (hclean.sessions _)
  | sessionIndex hindex _ => exact hindex hclean.sessionIndex
  | key hkey _ => exact hkey (hclean.keys _)
  | message hmessages _ => exact hmessages hclean.messages

/-- Storing a secret that is still deleted changes nothing about what the wipe keeps. -/
theorem Keeps.put {x : Secret S} (h : w.Keeps store) (hx : w.Covers x) : w.Keeps (store.put x) := by
  cases x with
  | session contactUserId state =>
    refine ⟨fun c hc => ?_, h.sessionIndex, h.keys, h.messages⟩
    by_cases he : c = contactUserId
    · subst he
      unfold Covers Awaits at hx
      unfold Holds
      generalize w.sessions = stage at hx ⊢
      cases stage with
      | reading => trivial
      | deleting left failed => exact .inl hx
      | deletingIndex => exact hx
      | writingIndex failed => trivial
      | resolved => exact hx
      | rejected => trivial
    · apply h.sessions c
      rwa [Storage.sessions_put, Function.update_of_ne he] at hc
  | sessionIndex index contactUserId =>
    exact ⟨h.sessions, fun hresolved => absurd hresolved hx, h.keys, h.messages⟩
  | key name value =>
    refine ⟨h.sessions, h.sessionIndex, fun other hother => ?_, h.messages⟩
    have hne : other ≠ name := fun he => hother (he ▸ hx)
    rw [Storage.keys_put, Function.update_of_ne hne]
    exact h.keys other hother
  | message message =>
    refine ⟨h.sessions, h.sessionIndex, h.keys, fun hmessages => ?_⟩
    cases hx.symm.trans hmessages

/-- A secret stored too late stays. -/
theorem Leaves.of_put {x : Secret S} (hx : ¬w.Covers x) :
    w.Leaves (store.put x) := by
  cases x with
  | session contactUserId state =>
    have hstored : (store.put (.session contactUserId state)).sessions contactUserId ≠ none := by
      rw [Storage.sessions_put, Function.update_self]
      exact Option.some_ne_none _
    exact .session hstored hx
  | sessionIndex index contactUserId =>
    exact .sessionIndex (List.concat_ne_nil _ _) (not_not.mp hx)
  | key name value =>
    have hstored : (store.put (.key name value)).keys name ≠ none := by
      rw [Storage.keys_put, Function.update_self]
      exact Option.some_ne_none _
    exact .key hstored hx
  | message message =>
    exact .message (List.concat_ne_nil _ _) (Bool.not_eq_false _ ▸ hx)

/-- A secret that was stored too late stays when others are stored. -/
theorem Leaves.put (h : w.Leaves store) (x : Secret S) : w.Leaves (store.put x) := by
  cases h with
  | @session c hc hawaits =>
    cases x with
    | session contactUserId next =>
      by_cases he : c = contactUserId
      · subst he
        exact .of_put hawaits
      · have hstored : (store.put (.session contactUserId next)).sessions c ≠ none := by
          rwa [Storage.sessions_put, Function.update_of_ne he]
        exact .session hstored hawaits
    | sessionIndex index contactUserId => exact .session hc hawaits
    | key name value => exact .session hc hawaits
    | message message => exact .session hc hawaits
  | sessionIndex hindex hresolved =>
    cases x with
    | sessionIndex index contactUserId => exact .sessionIndex (List.concat_ne_nil _ _) hresolved
    | session contactUserId next => exact .sessionIndex hindex hresolved
    | key name value => exact .sessionIndex hindex hresolved
    | message message => exact .sessionIndex hindex hresolved
  | @key name hkey hname =>
    cases x with
    | key other value =>
      by_cases he : name = other
      · subst he
        exact .of_put hname
      · have hstored : (store.put (.key other value)).keys name ≠ none := by
          rwa [Storage.keys_put, Function.update_of_ne he]
        exact .key hstored hname
    | session contactUserId next => exact .key hkey hname
    | sessionIndex index contactUserId => exact .key hkey hname
    | message message => exact .key hkey hname
  | message hmessages hdone =>
    cases x with
    | message message => exact .message (List.concat_ne_nil _ _) hdone
    | session contactUserId next => exact .message hmessages hdone
    | sessionIndex index contactUserId => exact .message hmessages hdone
    | key name value => exact .message hmessages hdone

/-- The steps of the wipe, one by one. -/
inductive Access (w : Wipe) (store : Storage S) : Action → Wipe → Storage S → Prop
  | clearSession : Access w store .clearSession { w with session := true }
      { store with userId := none }
  | deleteKey {name : KeyName} : name ∈ w.keys → Access w store (.deleteKey name)
      { w with keys := w.keys.erase name }
      { store with keys := Function.update store.keys name none }
  | readIndex : w.sessions = .reading → Access w store .readIndex
      { w with sessions := .deleting store.sessionIndex [] } store
  | deleteSession {contactUserId : JsString} {left failed : List JsString} :
      w.sessions = .deleting left failed → contactUserId ∈ left →
        Access w store (.deleteSession contactUserId true)
          { w with sessions := .deleting (left.erase contactUserId) failed }
          { store with sessions := Function.update store.sessions contactUserId none }
  | deleteFailed {contactUserId : JsString} {left failed : List JsString} :
      w.sessions = .deleting left failed → contactUserId ∈ left →
        Access w store (.deleteSession contactUserId false)
          { w with sessions := .deleting (left.erase contactUserId) (failed ++ [contactUserId]) }
          store
  | settled : w.sessions = .deleting [] [] →
      Access w store .settled { w with sessions := .deletingIndex } store
  | settledFailed {failed : List JsString} : w.sessions = .deleting [] failed →
      Access w store .settled { w with sessions := .writingIndex failed } store
  | deleteIndex : w.sessions = .deletingIndex → Access w store .deleteIndex
      { w with sessions := .resolved } { store with sessionIndex := [] }
  | writeIndex {failed : List JsString} : w.sessions = .writingIndex failed →
      Access w store .writeIndex { w with sessions := .rejected }
        { store with sessionIndex := failed }
  | clearAllMessages : w.messages = false →
      Access w store .clearAllMessages { w with messages := true } { store with messages := [] }

theorem step_access {a : Action} (h : w.step store a = some (w', store')) :
    w.Access store a w' store' := by
  cases a with
  | clearSession =>
    simp only [step] at h
    split at h
    · cases h
    · cases h
      exact .clearSession
  | deleteKey name =>
    simp only [step] at h
    split at h
    · rename_i hmem
      cases h
      exact .deleteKey hmem
    · cases h
  | readIndex =>
    simp only [step] at h
    split at h
    · rename_i hstage
      cases h
      exact .readIndex hstage
    · cases h
  | deleteSession contactUserId deleted =>
    simp only [step] at h
    split at h
    · rename_i left failed hstage
      split at h
      · rename_i hmem
        cases deleted with
        | true =>
          cases h
          exact .deleteSession hstage hmem
        | false =>
          cases h
          exact .deleteFailed hstage hmem
      · cases h
    · cases h
  | settled =>
    simp only [step] at h
    split at h
    · rename_i hstage
      cases h
      exact .settled hstage
    · rename_i failed _ hstage
      cases h
      exact .settledFailed hstage
    · cases h
  | deleteIndex =>
    simp only [step] at h
    split at h
    · rename_i hstage
      cases h
      exact .deleteIndex hstage
    · cases h
  | writeIndex =>
    simp only [step] at h
    split at h
    · rename_i failed hstage
      cases h
      exact .writeIndex hstage
    · cases h
  | clearAllMessages =>
    simp only [step] at h
    split at h
    · cases h
    · rename_i hopen
      cases h
      exact .clearAllMessages (Bool.eq_false_iff.mpr hopen)

/-- What an access does to the identity. -/
theorem Access.keys {a : Action} (h : w.Access store a w' store') :
    (w'.keys = w.keys ∧ store'.keys = store.keys) ∨ ∃ name ∈ w.keys,
      w'.keys = w.keys.erase name ∧ store'.keys = Function.update store.keys name none := by
  cases h with
  | @deleteKey name hmem => exact .inr ⟨name, hmem, rfl, rfl⟩
  | _ => exact .inl ⟨rfl, rfl⟩

/-- What an access does to the messages. -/
theorem Access.messages {a : Action} (h : w.Access store a w' store') :
    (w'.messages = w.messages ∧ store'.messages = store.messages) ∨
      (w.messages = false ∧ store'.messages = []) := by
  cases h with
  | clearAllMessages hopen => exact .inr ⟨hopen, rfl⟩
  | _ => exact .inl ⟨rfl, rfl⟩

/-- Nothing of `clearAllSessions` comes after it has resolved. -/
theorem Access.resolved {a : Action} (h : w.Access store a w' store')
    (hw : w.sessions = .resolved) :
    w'.sessions = .resolved ∧ store'.sessionIndex = store.sessionIndex := by
  cases h with
  | clearSession => exact ⟨hw, rfl⟩
  | deleteKey => exact ⟨hw, rfl⟩
  | clearAllMessages => exact ⟨hw, rfl⟩
  | readIndex hstage
  | deleteSession hstage
  | deleteFailed hstage
  | settled hstage
  | settledFailed hstage
  | deleteIndex hstage
  | writeIndex hstage =>
    rw [hw] at hstage
    cases hstage

theorem Access.sessionIndex {a : Action} (h : w.Access store a w' store')
    (hw : w'.sessions = .resolved) : store'.sessionIndex = [] ∨
      (w.sessions = .resolved ∧ store'.sessionIndex = store.sessionIndex) := by
  cases h with
  | clearSession => exact .inr ⟨hw, rfl⟩
  | deleteKey => exact .inr ⟨hw, rfl⟩
  | clearAllMessages => exact .inr ⟨hw, rfl⟩
  | deleteIndex => exact .inl rfl
  | readIndex | deleteSession | deleteFailed | settled | settledFailed | writeIndex => cases hw

/-- The sessions that are left stay in the hands of the wipe. -/
theorem Keeps.step_sessions {a : Action} (h : w.Keeps store) (hfit : Fit store a)
    (he : w.Access store a w' store') {c : JsString} (hc : store'.sessions c ≠ none) :
    w'.Holds c := by
  cases he with
  | clearSession => exact h.sessions c hc
  | deleteKey => exact h.sessions c hc
  | clearAllMessages => exact h.sessions c hc
  | readIndex hstage => exact .inl (hfit rfl c hc)
  | @deleteSession contactUserId left failed hstage hmem =>
    have hne : c ≠ contactUserId := by
      rintro rfl
      exact hc (Function.update_self ..)
    have hbefore : store.sessions c ≠ none := by
      rwa [← Function.update_of_ne hne none store.sessions]
    have hheld := h.sessions c hbefore
    rw [Holds, hstage] at hheld
    exact hheld.imp (List.mem_erase_of_ne hne).mpr fun hfailed => hfailed
  | @deleteFailed contactUserId left failed hstage hmem =>
    have hheld := h.sessions c hc
    rw [Holds, hstage] at hheld
    by_cases hne : c = contactUserId
    · exact .inr (List.mem_append_right _ (List.mem_singleton.mpr hne))
    · exact hheld.imp (List.mem_erase_of_ne hne).mpr (List.mem_append_left _)
  | settled hstage =>
    have hheld := h.sessions c hc
    rw [Holds, hstage] at hheld
    exact hheld.elim List.not_mem_nil List.not_mem_nil
  | settledFailed => trivial
  | deleteIndex hstage =>
    have hheld := h.sessions c hc
    rwa [Holds, hstage] at hheld
  | writeIndex => trivial

theorem Keeps.step {a : Action} (h : w.Keeps store) (hfit : Fit store a)
    (he : w.step store a = some (w', store')) : w'.Keeps store' := by
  have haccess := step_access he
  refine ⟨fun c hc => h.step_sessions hfit haccess hc, fun hresolved => ?_, fun name hname => ?_,
    fun hdone => ?_⟩
  · rcases haccess.sessionIndex hresolved with hnil | ⟨hbefore, hsame⟩
    · exact hnil
    · exact hsame.trans (h.sessionIndex hbefore)
  · rcases haccess.keys with ⟨hw, hsame⟩ | ⟨deleted, -, hw, hupdate⟩
    · rw [hw] at hname
      rw [hsame]
      exact h.keys name hname
    · rw [hupdate]
      by_cases he : name = deleted
      · subst he
        exact Function.update_self ..
      · rw [Function.update_of_ne he]
        rw [hw, List.mem_erase_of_ne he] at hname
        exact h.keys name hname
  · rcases haccess.messages with ⟨hw, hsame⟩ | ⟨-, hnil⟩
    · rw [hw] at hdone
      rw [hsame]
      exact h.messages hdone
    · exact hnil

/-- A session that is out of reach of the wipe stays so. -/
theorem Leaves.step_session {a : Action} {c : JsString}
    (hc : store.sessions c ≠ none) (hawaits : ¬w.Awaits c)
    (he : w.Access store a w' store') : w'.Leaves store' := by
  cases he with
  | clearSession => exact .session hc hawaits
  | deleteKey => exact .session hc hawaits
  | clearAllMessages => exact .session hc hawaits
  | readIndex hstage =>
    rw [Awaits, hstage] at hawaits
    exact absurd trivial hawaits
  | @deleteSession contactUserId left failed hstage hmem =>
    rw [Awaits, hstage] at hawaits
    have hne : c ≠ contactUserId := fun he => hawaits (he ▸ hmem)
    have hstored : Function.update store.sessions contactUserId none c ≠ none := by
      rwa [Function.update_of_ne hne]
    exact .session hstored fun hmem => hawaits (List.mem_of_mem_erase hmem)
  | deleteFailed hstage hmem =>
    rw [Awaits, hstage] at hawaits
    exact .session hc fun hmem => hawaits (List.mem_of_mem_erase hmem)
  | settled => exact .session hc fun h => h
  | settledFailed => exact .session hc fun h => h
  | deleteIndex => exact .session hc fun h => h
  | writeIndex => exact .session hc fun h => h

theorem Leaves.step {a : Action} (h : w.Leaves store) (he : w.step store a = some (w', store')) :
    w'.Leaves store' := by
  have haccess := step_access he
  cases h with
  | session hc hawaits => exact .step_session hc hawaits haccess
  | sessionIndex hindex hresolved =>
    obtain ⟨hw, hsame⟩ := haccess.resolved hresolved
    refine .sessionIndex ?_ hw
    rw [hsame]
    exact hindex
  | @key name hkey hname =>
    rcases haccess.keys with ⟨hw, hsame⟩ | ⟨deleted, hmem, hw, hupdate⟩
    · rw [← hsame] at hkey
      rw [← hw] at hname
      exact .key hkey hname
    · have hne : name ≠ deleted := fun he => hname (he ▸ hmem)
      rw [← Function.update_of_ne hne none store.keys, ← hupdate] at hkey
      refine .key hkey fun hleft => hname ?_
      rw [hw] at hleft
      exact List.mem_of_mem_erase hleft
  | message hmessages hdone =>
    rcases haccess.messages with ⟨hw, hsame⟩ | ⟨hopen, -⟩
    · rw [← hsame] at hmessages
      rw [← hw] at hdone
      exact .message hmessages hdone
    · rw [hopen] at hdone
      cases hdone

/-- A session that is not in the index when the wipe reads it stays. -/
theorem Leaves.of_unlisted {a : Action} (hfit : ¬Fit store a)
    (he : w.step store a = some (w', store')) : w'.Leaves store' := by
  obtain ⟨rfl, hlisted⟩ := Classical.not_imp.mp hfit
  obtain ⟨c, hc⟩ := not_forall.mp hlisted
  obtain ⟨hstored, hindex⟩ := Classical.not_imp.mp hc
  cases step_access he with
  | readIndex => exact .session hstored hindex

end Epistl.Deletion.Wipe
