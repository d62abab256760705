import Epistl.Sessions.Store

/-! # Wiping the sessions when deletes fail

`clearAllSessions` attempts every delete, and keeps in the index what is still stored. On a
store whose index lists exactly the stored sessions, what a run leaves is again such a
store, so that over any runs the sessions left are those whose deletes failed each time.
-/
namespace Epistl.Sessions
variable {ε : Type}

structure AggregateError (ε : Type) where
  errors : List ε
  message : JsString

inductive Thrown (ε : Type)
  | syntaxError
  | aggregateError (e : AggregateError ε)

/-- The message of the `AggregateError`. -/
def clearMessage (failedContactUserIds : List JsString) : JsString :=
  JsString.ofString "clearAllSessions: failed to delete session(s) for contact(s): " ++
    (JsString.ofString ", ").intercalate failedContactUserIds

/-- One attempted delete; `deletes` tells with which reason it fails. -/
def deleteSession (deletes : JsString → Option ε) (store : SecureStore) (contactUserId : JsString) :
    SecureStore :=
  match deletes contactUserId with
  | none => store.deleteItem (sessionStorageKey contactUserId)
  | some _ => store

def deleteSessions (deletes : JsString → Option ε) (index : List JsString) (store : SecureStore) :
    SecureStore :=
  index.foldl (deleteSession deletes) store

/-- The contacts whose results are rejections, with the reasons. -/
def failures (index : List JsString) (results : List (Option ε)) : List (JsString × ε) :=
  (index.zip results).filterMap fun entry => entry.2.map fun reason => (entry.1, reason)

def clearAllSessions (deletes : JsString → Option ε) (store : SecureStore) :
    Except (Thrown ε) Unit × SecureStore :=
  match store.readIndex with
  | none => (.error .syntaxError, store)
  | some index =>
    match failures index (index.map deletes) with
    | [] => (.ok (), (deleteSessions deletes index store).deleteItem sessionIndexKey)
    | f :: fs =>
      (.error (.aggregateError ⟨(f :: fs).map Prod.snd, clearMessage ((f :: fs).map Prod.fst)⟩),
        (deleteSessions deletes index store).setItem sessionIndexKey
          (stringifyIds ((f :: fs).map Prod.fst)))

/-- The contact's delete fails. -/
def fails (deletes : JsString → Option ε) (contactUserId : JsString) : Bool :=
  (deletes contactUserId).isSome

/-- The index lists exactly the contacts with a stored session. -/
structure Indexed (store : SecureStore) (index : List JsString) : Prop where
  read : store.readIndex = some index
  stored (contactUserId : JsString) :
    store (sessionStorageKey contactUserId) ≠ none ↔ contactUserId ∈ index

variable {deletes : JsString → Option ε} {index : List JsString} {store : SecureStore}
  {key contactUserId : JsString}

theorem failures_map_fst (deletes : JsString → Option ε) (index : List JsString) :
    (failures index (index.map deletes)).map Prod.fst = index.filter (fails deletes) := by
  unfold failures
  induction index with
  | nil => rfl
  | cons c index ih =>
    cases hc : deletes c with
    | none =>
      rw [List.map_cons, List.zip_cons_cons, List.filterMap_cons_none (by simp [hc]), ih,
        List.filter_cons_of_neg (by simp [fails, hc])]
    | some reason =>
      rw [List.map_cons, List.zip_cons_cons, List.filterMap_cons_some (b := (c, reason)) (by simp [hc]),
        List.map_cons, ih, List.filter_cons_of_pos (by simp [fails, hc])]

theorem deleteSession_apply : deleteSession deletes store contactUserId key =
    if key = sessionStorageKey contactUserId ∧ fails deletes contactUserId = false then none
    else store key := by
  unfold deleteSession fails
  cases deletes contactUserId with
  | none =>
    by_cases hkey : key = sessionStorageKey contactUserId
    · simp [hkey]
    · simp [hkey, SecureStore.deleteItem_of_ne]
  | some reason => simp

theorem deleteSessions_apply : deleteSessions deletes index store key =
    if ∃ c ∈ index, key = sessionStorageKey c ∧ fails deletes c = false then none else store key := by
  unfold deleteSessions
  induction index generalizing store with
  | nil => simp
  | cons c index ih =>
    rw [List.foldl_cons, ih, deleteSession_apply]
    by_cases hc : key = sessionStorageKey c ∧ fails deletes c = false
    · rw [if_pos hc, ite_self, if_pos ⟨c, List.mem_cons_self, hc⟩]
    · rw [if_neg hc]
      congr 1
      simp only [List.mem_cons, exists_eq_or_imp, hc, false_or]

theorem deleteSessions_session : deleteSessions deletes index store (sessionStorageKey contactUserId) =
    if contactUserId ∈ index ∧ fails deletes contactUserId = false then none
    else store (sessionStorageKey contactUserId) := by
  rw [deleteSessions_apply]
  congr 1
  simp only [sessionStorageKey_injective.eq_iff, eq_iff_iff]
  constructor
  · rintro ⟨c, hc, rfl, hfails⟩
    exact ⟨hc, hfails⟩
  · rintro ⟨hc, hfails⟩
    exact ⟨contactUserId, hc, rfl, hfails⟩

/-- What a run leaves, from any index it can read. -/
theorem clearAllSessions_spec (deletes : JsString → Option ε)
    (hread : store.readIndex = some index) :
    let call := clearAllSessions deletes store
    (∀ c, call.2 (sessionStorageKey c) =
      if c ∈ index ∧ fails deletes c = false then none else store (sessionStorageKey c)) ∧
    call.2.readIndex = some (index.filter (fails deletes)) ∧
    (call.2 sessionIndexKey = none ↔ index.filter (fails deletes) = []) ∧
    (call.1 = .ok () ↔ index.filter (fails deletes) = []) ∧
    ∀ key, key ≠ sessionIndexKey → (∀ c ∈ index, key ≠ sessionStorageKey c) →
      call.2 key = store key := by
  have hfst := failures_map_fst deletes index
  have hother {key : JsString} (hkey : ∀ c ∈ index, key ≠ sessionStorageKey c) :
      deleteSessions deletes index store key = store key := by
    rw [deleteSessions_apply, if_neg]
    rintro ⟨c, hc, he, -⟩
    exact hkey c hc he
  simp only [clearAllSessions, hread]
  split
  · rename_i hnone
    rw [hnone, List.map_nil] at hfst
    refine ⟨fun c => ?_, ?_, ?_, ?_, fun key hindex hkey => ?_⟩
    · dsimp only
      rw [SecureStore.deleteItem_of_ne (sessionStorageKey_ne c), deleteSessions_session]
    · rw [← hfst, SecureStore.readIndex_deleteIndex]
    · simp [← hfst]
    · simp [← hfst]
    · dsimp only
      rw [SecureStore.deleteItem_of_ne hindex, hother hkey]
  · rename_i f fs hsome
    rw [hsome] at hfst
    refine ⟨fun c => ?_, ?_, ?_, ?_, fun key hindex hkey => ?_⟩
    · dsimp only
      rw [SecureStore.setItem_of_ne (sessionStorageKey_ne c), deleteSessions_session]
    · rw [← hfst, SecureStore.readIndex_setIndex]
    · simp [← hfst]
    · simp [← hfst]
    · dsimp only
      rw [SecureStore.setItem_of_ne hindex, hother hkey]

/-- The store after a run, with the index it is left with. -/
theorem Indexed.clearAllSessions (h : Indexed store index) (deletes : JsString → Option ε) :
    Indexed (clearAllSessions deletes store).2 (index.filter (fails deletes)) := by
  obtain ⟨hsessions, hindex, -⟩ := clearAllSessions_spec deletes h.read
  refine ⟨hindex, fun c => ?_⟩
  rw [hsessions, List.mem_filter]
  by_cases hc : c ∈ index
  · have hstored := (h.stored c).mpr hc
    cases hfails : fails deletes c <;> simp [hc, hstored]
  · have hnone := (h.stored c).not.mpr hc
    simp_all

/-- Runs one after the other, each with the deletes that fail in it. -/
def clearRuns (store : SecureStore) (runs : List (JsString → Option ε)) : SecureStore :=
  runs.foldl (fun store deletes => (clearAllSessions deletes store).2) store

theorem Indexed.clearRuns (h : Indexed store index) (runs : List (JsString → Option ε)) :
    Indexed (clearRuns store runs) (index.filter fun c => runs.all fun deletes => fails deletes c) := by
  unfold Sessions.clearRuns
  induction runs generalizing store index with
  | nil => simpa using h
  | cons deletes runs ih =>
    rw [List.foldl_cons]
    have hrest := ih (h.clearAllSessions deletes)
    rw [List.filter_filter] at hrest
    simpa only [List.all_cons, Bool.and_comm] using hrest

/-- A session that is left is the one that was stored. -/
theorem clearRuns_session (h : Indexed store index) (runs : List (JsString → Option ε))
    (c : JsString) : Sessions.clearRuns store runs (sessionStorageKey c) =
      if ∀ deletes ∈ runs, fails deletes c = true then store (sessionStorageKey c) else none := by
  unfold Sessions.clearRuns
  induction runs generalizing store index with
  | nil => simp
  | cons deletes runs ih =>
    rw [List.foldl_cons, ih (h.clearAllSessions deletes), (clearAllSessions_spec deletes h.read).1]
    by_cases hc : c ∈ index
    · cases hfails : fails deletes c <;> simp [hc, hfails]
    · have hnone : store (sessionStorageKey c) = none := by
        by_contra hsome
        exact hc ((h.stored c).mp hsome)
      simp [hc, hnone]

/-- A run deletes what it can and keeps the rest in the index. -/
structure ClearedExactly (store : SecureStore) (index : List JsString)
    (deletes : JsString → Option ε) (result : Except (Thrown ε) Unit) (t : SecureStore) : Prop where
  sessions (c : JsString) :
    t (sessionStorageKey c) = if fails deletes c then store (sessionStorageKey c) else none
  listed : t.readIndex = some (index.filter (fails deletes))
  absent : t sessionIndexKey = none ↔ ∀ c ∈ index, fails deletes c = false
  rejects : (∃ thrown, result = .error thrown) ↔ ∃ c ∈ index, fails deletes c = true
  others {key : JsString} : key ≠ sessionIndexKey → (∀ c ∈ index, key ≠ sessionStorageKey c) →
    t key = store key

theorem Indexed.clearedExactly (h : Indexed store index) (deletes : JsString → Option ε) :
    ClearedExactly store index deletes (Sessions.clearAllSessions deletes store).1
      (Sessions.clearAllSessions deletes store).2 := by
  obtain ⟨-, hindex, habsent, hresult, hothers⟩ := clearAllSessions_spec deletes h.read
  have hnil : index.filter (fails deletes) = [] ↔ ∀ c ∈ index, fails deletes c = false := by
    simp
  refine ⟨fun c => ?_, hindex, habsent.trans hnil, ?_, fun hkey hsession => hothers _ hkey hsession⟩
  · simpa [Sessions.clearRuns] using clearRuns_session h [deletes] c
  · cases hcall : (Sessions.clearAllSessions deletes store).1 with
    | ok u => simpa using hnil.mp (hresult.mp hcall)
    | error thrown =>
      have hsome := (hnil.symm.trans hresult.symm).not.mpr (by simp [hcall])
      simpa using hsome

/-- What one run does, what a second one leaves when its deletes succeed, and what any runs
leave. -/
theorem clearAllSessions_exact (h : Indexed store index) (deletes : JsString → Option ε) :
    ClearedExactly store index deletes (clearAllSessions deletes store).1
        (clearAllSessions deletes store).2 ∧
      (∀ again : JsString → Option ε, (∀ c, fails again c = false) →
        (∀ c, (clearAllSessions again (clearAllSessions deletes store).2).2 (sessionStorageKey c) =
          none) ∧
        (clearAllSessions again (clearAllSessions deletes store).2).2 sessionIndexKey = none) ∧
      ∀ runs : List (JsString → Option ε),
        Indexed (clearRuns store runs)
          (index.filter fun c => runs.all fun deletes => fails deletes c) ∧
        ∀ c, clearRuns store runs (sessionStorageKey c) =
          if ∀ deletes ∈ runs, fails deletes c = true then store (sessionStorageKey c) else none := by
  refine ⟨h.clearedExactly deletes, fun again hagain => ?_,
    fun runs => ⟨h.clearRuns runs, clearRuns_session h runs⟩⟩
  have hsecond := (h.clearAllSessions deletes).clearedExactly again
  refine ⟨fun c => ?_, hsecond.absent.mpr fun c _ => hagain c⟩
  rw [hsecond.sessions, hagain c]
  rfl

/-- Sessions with two contacts. -/
def twoSessions : SecureStore :=
  ((SecureStore.setItem (fun _ => none) (sessionStorageKey [0x61]) [0x31]).setItem
    (sessionStorageKey [0x62]) [0x32]).setItem sessionIndexKey (stringifyIds [[0x61], [0x62]])

theorem twoSessions_indexed : Indexed twoSessions [[0x61], [0x62]] where
  read := SecureStore.readIndex_setIndex _ _
  stored c := by
    rw [twoSessions, SecureStore.setItem_of_ne (sessionStorageKey_ne c)]
    by_cases hb : c = [0x62]
    · simp [hb]
    · rw [SecureStore.setItem_of_ne (sessionStorageKey_injective.ne hb)]
      by_cases ha : c = [0x61]
      · simp [ha]
      · simp [SecureStore.setItem_of_ne (sessionStorageKey_injective.ne ha), ha, hb]

/-- The delete of the second contact fails. -/
theorem clearAllSessions_exact_second :
    let deletes : JsString → Option Unit := fun c => if c = [0x62] then some () else none
    ClearedExactly twoSessions [[0x61], [0x62]] deletes (clearAllSessions deletes twoSessions).1
        (clearAllSessions deletes twoSessions).2 ∧
      (∀ again : JsString → Option Unit, (∀ c, fails again c = false) →
        (∀ c, (clearAllSessions again (clearAllSessions deletes twoSessions).2).2
          (sessionStorageKey c) = none) ∧
        (clearAllSessions again (clearAllSessions deletes twoSessions).2).2 sessionIndexKey =
          none) ∧
      ∀ runs : List (JsString → Option Unit),
        Indexed (clearRuns twoSessions runs)
          ([[0x61], [0x62]].filter fun c => runs.all fun deletes => fails deletes c) ∧
        ∀ c, clearRuns twoSessions runs (sessionStorageKey c) =
          if ∀ deletes ∈ runs, fails deletes c = true then twoSessions (sessionStorageKey c)
          else none :=
  clearAllSessions_exact twoSessions_indexed _

end Epistl.Sessions
