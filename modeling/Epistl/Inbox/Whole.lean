import Epistl.Inbox.Awaiting
import Epistl.Ratchet.TwoParty
import Epistl.Runs.Milestone

/-! # Calls kept apart are whole calls

A call whose accesses are left to themselves does what `handleSend` and `processMessageFrame`
do in one step. So the runs in which the calls of a device are kept apart reach just what the
runs of whole calls reach.
-/
namespace Epistl
variable {S : Suite} {ι : Type} {ctx : Context S} {contactUserId bodyB64 createdAt : JsString}
  {dev dev' : Device S} {newDhs : S.X25519Secret} {random : SendRandom S} {call next : Call S}

theorem Device.finish_of_left (h : call.left = 0) : dev.finish contactUserId call = dev := by
  cases call with
  | looking => rfl
  | loading => rfl
  | sending => rfl
  | done => rfl
  | writing => cases h
  | indexing => cases h
  | indexWriting => cases h
  | saving => cases h
  | returning => cases h

namespace Call

/-- Nothing is handed over, generated or decoded as the call goes on to `next`. -/
structure Silent (ctx : Context S) (contactUserId : JsString) (dev : Device S)
    (newDhs : S.X25519Secret) (random : SendRandom S) (call next : Call S) : Prop where
  handsOver : call.handsOver ctx contactUserId dev random = none
  generates : call.generates newDhs random next = []
  decodes : call.decodes next = none

/-- A call that only has writes left goes on with them. -/
theorem advance_left (ctx : Context S) (contactUserId : JsString) (dev : Device S)
    (newDhs : S.X25519Secret) (random : SendRandom S) (h : call.left ≠ 0) :
    ∃ dev' next, call.advance ctx contactUserId dev newDhs random = some (dev', next) ∧
      next.left < call.left ∧ dev'.finish contactUserId next = dev.finish contactUserId call ∧
      next.Started ctx contactUserId ∧ call.Silent ctx contactUserId dev newDhs random next := by
  cases call with
  | looking => exact absurd rfl h
  | loading => exact absurd rfl h
  | sending => exact absurd rfl h
  | done => exact absurd rfl h
  | writing write =>
    refine ⟨_, _, rfl, by simp [left], ?_, trivial, ⟨rfl, rfl, rfl⟩⟩
    simp only [Device.finish, Device.saveSession_eq]
    rfl
  | indexing outcome =>
    by_cases hmem : contactUserId ∈ dev.sessionIndex
    · refine ⟨dev, .saving outcome, ?_, by simp [left], ?_, trivial, ⟨rfl, rfl, rfl⟩⟩
      · simp [advance, Calls.resume, Calls.put, hmem]
      · simp [Device.finish, Device.writeIndex, hmem]
    · refine ⟨dev, .indexWriting (dev.sessionIndex ++ [contactUserId]) outcome, ?_, by simp [left], ?_,
        trivial, ⟨rfl, rfl, rfl⟩⟩
      · simp [advance, Calls.resume, Calls.put, hmem]
      · simp [Device.finish, hmem]
  | indexWriting index outcome => exact ⟨_, _, rfl, by simp [left], rfl, trivial, ⟨rfl, rfl, rfl⟩⟩
  | saving outcome => exact ⟨_, _, rfl, by simp [left], rfl, trivial, ⟨rfl, rfl, rfl⟩⟩
  | returning event =>
    refine ⟨dev.report event, .done, ?_, Nat.zero_lt_one, rfl, trivial, ⟨rfl, rfl, rfl⟩⟩
    cases event <;> rfl

theorem loads_of_left (h : call.left ≠ 0) : call.loads ctx contactUserId = false := by
  cases call with
  | looking => exact absurd rfl h
  | loading => exact absurd rfl h
  | sending => exact absurd rfl h
  | _ => rfl

/-- A ratchet frame has its contact looked up before its session is loaded. -/
theorem advance_looking (dev : Device S) (newDhs : S.X25519Secret) (random : SendRandom S)
    (hloads : (looking bodyB64 createdAt : Call S).loads ctx contactUserId = false) :
    ∃ bundle, ctx.findContactBundle contactUserId = some bundle ∧
      advance ctx contactUserId dev newDhs random (.looking bodyB64 createdAt) =
        some (dev, .loading bodyB64 createdAt bundle) := by
  cases hbundle : ctx.findContactBundle contactUserId with
  | none => simp [loads, hbundle] at hloads
  | some bundle =>
    have hhead : (Base64.base64ToBytes bodyB64).head? = some ratchetEnvelopeVersion := by
      simpa [loads, hbundle] using hloads
    refine ⟨bundle, rfl, ?_⟩
    simp [advance, Calls.resume, Calls.put, hbundle, hhead]

theorem advance_waits (hleft : call.left = 0) (hloads : call.loads ctx contactUserId = false)
    (he : call.advance ctx contactUserId dev newDhs random = some (dev', next)) :
    ∃ bodyB64 createdAt bundle, call = .looking bodyB64 createdAt ∧ dev' = dev ∧
      next = .loading bodyB64 createdAt bundle ∧ ctx.findContactBundle contactUserId = some bundle := by
  cases call with
  | looking bodyB64 createdAt =>
    obtain ⟨bundle, hbundle, hadvance⟩ := advance_looking dev newDhs random hloads
    cases hadvance.symm.trans he
    exact ⟨bodyB64, createdAt, bundle, rfl, rfl, rfl, hbundle⟩
  | loading => cases hloads
  | sending => cases hloads
  | done => cases he
  | writing => cases hleft
  | indexing => cases hleft
  | indexWriting => cases hleft
  | saving => cases hleft
  | returning => cases hleft

/-- A frame is decoded, and only writes are left of its call. -/
theorem advance_settle (basis : Option ℕ) {bundle : ContactKeyBundle}
    (hbundle : ctx.findContactBundle contactUserId = some bundle)
    (hcall : call = .looking bodyB64 createdAt ∨ ∃ bundle, call = .loading bodyB64 createdAt bundle)
    (he : Calls.resume ctx contactUserId (Calls.alone dev call) 0 newDhs random
      call = some (Calls.settle contactUserId (Calls.alone dev call) 0 createdAt
        basis (decodeFrame ctx bundle contactUserId (Base64.base64ToBytes bodyB64)
          (dev.loadSession contactUserId) newDhs))) :
    ∃ dev' next, call.advance ctx contactUserId dev newDhs random = some (dev', next) ∧
      dev'.finish contactUserId next =
        processMessageFrame ctx ⟨contactUserId, bodyB64⟩ createdAt newDhs dev ∧
      next.Started ctx contactUserId ∧ call.generates newDhs random next = [newDhs] ∧
      call.decodes next = if acceptsFrame ctx ⟨contactUserId, bodyB64⟩ newDhs dev = true then
        some (Base64.base64ToBytes bodyB64) else none := by
  unfold advance
  rw [he]
  simp only [processMessageFrame, acceptsFrame, hbundle]
  cases decodeFrame ctx bundle contactUserId (Base64.base64ToBytes bodyB64)
      (dev.loadSession contactUserId) newDhs with
  | error e =>
    refine ⟨_, _, rfl, rfl, trivial, ?_⟩
    rcases hcall with rfl | ⟨bundle, rfl⟩ <;> exact ⟨rfl, rfl⟩
  | ok d =>
    cases d with
    | none =>
      refine ⟨_, _, rfl, rfl, trivial, ?_⟩
      rcases hcall with rfl | ⟨bundle, rfl⟩ <;> exact ⟨rfl, rfl⟩
    | some d =>
      cases d with
      | failure reason =>
        refine ⟨_, _, rfl, rfl, trivial, ?_⟩
        rcases hcall with rfl | ⟨bundle, rfl⟩ <;> exact ⟨rfl, rfl⟩
      | success plaintext nextState =>
        refine ⟨_, _, rfl, rfl, trivial, ?_⟩
        rcases hcall with rfl | ⟨bundle, rfl⟩ <;> exact ⟨rfl, rfl⟩

/-- A frame that gets decoded, or has no contact to decode it for. -/
theorem advance_frame (dev : Device S) (newDhs : S.X25519Secret) (random : SendRandom S)
    (hcall : call = .looking bodyB64 createdAt ∨ ∃ bundle, call = .loading bodyB64 createdAt bundle)
    (hloads : call.loads ctx contactUserId = true) (hstarted : call.Started ctx contactUserId) :
    ∃ dev' next, call.advance ctx contactUserId dev newDhs random = some (dev', next) ∧
      dev'.finish contactUserId next =
        processMessageFrame ctx ⟨contactUserId, bodyB64⟩ createdAt newDhs dev ∧
      next.Started ctx contactUserId ∧ call.generates newDhs random next = [newDhs] ∧
      call.decodes next = if acceptsFrame ctx ⟨contactUserId, bodyB64⟩ newDhs dev = true then
        some (Base64.base64ToBytes bodyB64) else none := by
  rcases hcall with rfl | ⟨bundle, rfl⟩
  · cases hbundle : ctx.findContactBundle contactUserId with
    | none =>
      refine ⟨dev.emit (.unverifiable contactUserId createdAt), .done, ?_, ?_, trivial, rfl, ?_⟩
      · simp [advance, Calls.resume, Calls.put, Calls.emit, hbundle]
      · simp [Device.finish, processMessageFrame, hbundle]
      · simp [acceptsFrame, hbundle, decodes]
    | some bundle =>
      have hhead : (Base64.base64ToBytes bodyB64).head? ≠ some ratchetEnvelopeVersion := by
        simpa [loads, hbundle] using hloads
      refine advance_settle none hbundle (.inl rfl) ?_
      rw [decodeFrame_congr hhead (dev.loadSession contactUserId) none]
      simp only [Calls.resume, hbundle, if_neg hhead]
  · exact advance_settle (some 0) hstarted (.inr ⟨bundle, rfl⟩) rfl

/-- A text that is encrypted, or whose contact is not trusted. -/
theorem advance_sending (dev : Device S) (newDhs : S.X25519Secret) (random : SendRandom S)
    {draft : JsString} {contact : ContactKeyBundle}
    (hstarted : (Call.sending (JsString.trim draft) createdAt contact : Call S).Started ctx contactUserId) :
    ∃ dev' next, (Call.sending (JsString.trim draft) createdAt contact).advance ctx contactUserId dev
        newDhs random = some (dev', next) ∧
      (dev'.finish contactUserId next, (Call.sending (JsString.trim draft) createdAt contact).handsOver
        ctx contactUserId dev random) =
          handleSend ctx contactUserId true draft createdAt random dev ∧
      next.Started ctx contactUserId ∧
      (Call.sending (JsString.trim draft) createdAt contact).generates newDhs random next =
        if (handleSend ctx contactUserId true draft createdAt random dev).2.isSome then
          [random.ea] else [] := by
  have hguard : ¬ (JsString.trim draft = [] ∨ true = false) := by simp [hstarted.1]
  simp only [handleSend, if_neg hguard, hstarted.2, advance, Calls.resume, Calls.alone_device, handsOver]
  cases sendEnvelope ctx.identity contactUserId contact (JsString.utf8Bytes (JsString.trim draft))
      (dev.loadSession contactUserId) random with
  | error e => exact ⟨_, _, rfl, rfl, trivial, rfl⟩
  | ok r =>
    cases r with
    | none => exact ⟨_, _, rfl, rfl, trivial, rfl⟩
    | some r => exact ⟨_, _, rfl, rfl, trivial, rfl⟩

end Call

section fold
variable {l : List (JsString × Call S)} {x y : JsString × Call S} {i : ℕ}

theorem foldl_finish_idle (h : ∀ x ∈ l, x.2.left = 0) :
    l.foldl (fun dev x => dev.finish x.1 x.2) dev = dev := by
  induction l generalizing dev with
  | nil => rfl
  | cons x l ih =>
    rw [List.foldl_cons, Device.finish_of_left (h x List.mem_cons_self)]
    exact ih fun y hy => h y (List.mem_cons_of_mem x hy)

/-- Only call `i` may have writes left. -/
theorem foldl_finish (hi : l[i]? = some x) (hrest : ∀ j y, l[j]? = some y → j ≠ i → y.2.left = 0) :
    l.foldl (fun dev x => dev.finish x.1 x.2) dev = dev.finish x.1 x.2 := by
  induction l generalizing i dev with
  | nil => cases hi
  | cons z l ih =>
    rw [List.foldl_cons]
    cases i with
    | zero =>
      cases hi
      refine foldl_finish_idle ?_
      intro y hy
      obtain ⟨j, hj⟩ := List.getElem?_of_mem hy
      exact hrest (j + 1) y hj (Nat.succ_ne_zero j)
    | succ i =>
      rw [Device.finish_of_left (hrest 0 z rfl (Nat.succ_ne_zero i).symm)]
      exact ih hi fun j y hj hne => hrest (j + 1) y hj fun h => hne (Nat.succ.inj h)

/-- A call that has not loaded goes on without having loaded. -/
theorem foldl_finish_set (hi : l[i]? = some x) (hx : x.2.left = 0) (hy : y.2.left = 0) :
    (l.set i y).foldl (fun dev x => dev.finish x.1 x.2) dev =
      l.foldl (fun dev x => dev.finish x.1 x.2) dev := by
  induction l generalizing i dev with
  | nil => cases hi
  | cons z l ih =>
    cases i with
    | zero =>
      cases hi
      simp only [List.set_cons_zero, List.foldl_cons, Device.finish_of_left hx, Device.finish_of_left hy]
    | succ i =>
      simp only [List.set_cons_succ, List.foldl_cons]
      exact ih hi

end fold

namespace Awaiting
variable {dir : Directory S ι} {G : Network S ι → Network.Action S ι → Prop} {s t : Awaiting S ι}
  {p : ι} {i : ℕ} {x : JsString × Call S}

/-- The calls of a device load one after the other. -/
structure Serial (dir : Directory S ι) (s : Awaiting S ι) : Prop where
  started : ∀ (p : ι), ∀ x ∈ s.calls p, x.2.Started (dir.context p) x.1
  single : ∀ (p : ι) (i j : ℕ) (x y : JsString × Call S), (s.calls p)[i]? = some x →
    (s.calls p)[j]? = some y → x.2.left ≠ 0 → y.2.left ≠ 0 → i = j

theorem Idle.whole_device (h : s.Idle p) : s.whole.device p = s.device p := foldl_finish_idle h

theorem Idle.rest (h : s.Idle p) (j : ℕ) (y : JsString × Call S) (hj : (s.calls p)[j]? = some y)
    (_ : j ≠ i) : y.2.left = 0 := h y (List.mem_of_getElem? hj)

variable [DecidableEq ι]

section begin

theorem whole_begin (hleft : call.left = 0) : (s.begin p contactUserId call).whole = s.whole := by
  have hdevice : (s.begin p contactUserId call).whole.device = s.whole.device := by
    funext q
    simp only [whole, begin]
    by_cases hq : q = p
    · subst hq
      simp [Device.finish_of_left hleft]
    · rw [Function.update_of_ne hq]
  simp only [whole, Network.mk.injEq] at hdevice ⊢
  exact ⟨hdevice, rfl, rfl, rfl⟩

theorem mem_begin {q : ι} (hx : x ∈ (s.begin p contactUserId call).calls q) :
    x ∈ s.calls q ∨ q = p ∧ x = (contactUserId, call) := by
  simp only [begin] at hx
  by_cases hq : q = p
  · subst hq
    rw [Function.update_self] at hx
    rcases List.mem_append.mp hx with hx | hx
    · exact .inl hx
    · exact .inr ⟨rfl, List.mem_singleton.mp hx⟩
  · rw [Function.update_of_ne hq] at hx
    exact .inl hx

theorem Serial.begin (hs : s.Serial dir) (hleft : call.left = 0)
    (hstarted : call.Started (dir.context p) contactUserId) :
    (s.begin p contactUserId call).Serial dir where
  started q x hx := by
    rcases mem_begin hx with hx | ⟨rfl, rfl⟩
    · exact hs.started q x hx
    · exact hstarted
  single q j k x y hj hk hx hy := by
    have hold {j : ℕ} {x : JsString × Call S}
        (hj : ((s.begin p contactUserId call).calls q)[j]? = some x) (hx : x.2.left ≠ 0) :
        (s.calls q)[j]? = some x := by
      simp only [Awaiting.begin] at hj
      by_cases hq : q = p
      · subst hq
        rw [Function.update_self] at hj
        rcases getElem?_concat_cases hj with ⟨-, rfl⟩ | hj
        · exact absurd hleft hx
        · exact hj
      · rwa [Function.update_of_ne hq] at hj
    exact hs.single q j k x y (hold hj hx) (hold hk hy) hx hy

end begin

section put

theorem Serial.put (hs : s.Serial dir) (hx : (s.calls p)[i]? = some x)
    (hstarted : next.Started (dir.context p) x.1)
    (hleft : next.left ≠ 0 → x.2.left ≠ 0 ∨ s.Idle p) :
    (s.put dir p i x.1 x.2 next dev' newDhs random).Serial dir where
  started q y hy := by
    simp only [Awaiting.put] at hy
    by_cases hq : q = p
    · subst hq
      rw [Function.update_self] at hy
      rcases List.mem_or_eq_of_mem_set hy with hy | rfl
      · exact hs.started q y hy
      · exact hstarted
    · rw [Function.update_of_ne hq] at hy
      exact hs.started q y hy
  single q j k y z hj hk hy hz := by
    simp only [Awaiting.put] at hj hk
    by_cases hq : q = p
    · subst hq
      rw [Function.update_self] at hj hk
      have hother {k : ℕ} {z : JsString × Call S} (hk : (s.calls q)[k]? = some z)
          (hz : z.2.left ≠ 0) (hnext : next.left ≠ 0) : i = k := by
        rcases hleft hnext with hleft | hidle
        · exact hs.single q i k x z hx hk hleft hz
        · exact absurd (hidle z (List.mem_of_getElem? hk)) hz
      rcases getElem?_set_cases hj with ⟨rfl, rfl⟩ | ⟨-, hj'⟩
      · rcases getElem?_set_cases hk with ⟨rfl, rfl⟩ | ⟨-, hk'⟩
        · rfl
        · exact hother hk' hz hy
      · rcases getElem?_set_cases hk with ⟨rfl, rfl⟩ | ⟨-, hk'⟩
        · exact (hother hj' hy hz).symm
        · exact hs.single q j k y z hj' hk' hy hz
    · rw [Function.update_of_ne hq] at hj hk
      exact hs.single q j k y z hj hk hy hz

theorem whole_put (hx : (s.calls p)[i]? = some x)
    (hrest : ∀ j y, (s.calls p)[j]? = some y → j ≠ i → y.2.left = 0) :
    (s.put dir p i x.1 x.2 next dev' newDhs random).whole = {
      device := Function.update s.whole.device p (dev'.finish x.1 next)
      produced := (s.put dir p i x.1 x.2 next dev' newDhs random).produced
      used := (s.put dir p i x.1 x.2 next dev' newDhs random).used
      accepted := (s.put dir p i x.1 x.2 next dev' newDhs random).accepted } := by
  simp only [whole, Network.mk.injEq, and_true]
  funext q
  by_cases hq : q = p
  · subst hq
    simp only [Awaiting.put, Function.update_self]
    refine foldl_finish (x := (x.1, next)) (i := i) (List.getElem?_set_self (lt_length_of_getElem? hx)) ?_
    intro j y hj hne
    rw [List.getElem?_set_ne hne.symm] at hj
    exact hrest j y hj hne
  · simp only [Awaiting.put, Function.update_of_ne hq]

/-- A write of a call does not change what its device comes to. -/
theorem whole_put_left (hx : (s.calls p)[i]? = some x)
    (hrest : ∀ j y, (s.calls p)[j]? = some y → j ≠ i → y.2.left = 0)
    (hfinish : dev'.finish x.1 next = (s.device p).finish x.1 x.2)
    (hsilent : x.2.Silent (dir.context p) x.1 (s.device p) newDhs random next) :
    (s.put dir p i x.1 x.2 next dev' newDhs random).whole = s.whole := by
  have hdevice : s.whole.device p = (s.device p).finish x.1 x.2 := foldl_finish hx hrest
  rw [whole_put hx hrest, hfinish, ← hdevice]
  simp [Awaiting.put, hsilent.handsOver, hsilent.generates, hsilent.decodes, whole]

theorem whole_put_waits (hx : (s.calls p)[i]? = some x) (hleft : x.2.left = 0)
    (hnext : next.left = 0)
    (hsilent : x.2.Silent (dir.context p) x.1 (s.device p) newDhs random next) :
    (s.put dir p i x.1 x.2 next (s.device p) newDhs random).whole = s.whole := by
  have hdevice : (s.put dir p i x.1 x.2 next (s.device p) newDhs random).whole.device =
      s.whole.device := by
    funext q
    by_cases hq : q = p
    · subst hq
      simp only [whole, Awaiting.put, Function.update_self]
      exact foldl_finish_set hx hleft hnext
    · simp only [whole, Awaiting.put, Function.update_of_ne hq]
  simp only [whole, Network.mk.injEq] at hdevice ⊢
  refine ⟨hdevice, ?_⟩
  simp [Awaiting.put, hsilent.handsOver, hsilent.generates, hsilent.decodes]

/-- A load on a device where nothing else has writes left is a whole call. -/
theorem step_whole {b : Network.Action S ι} (hx : (s.calls p)[i]? = some x) (hidle : s.Idle p)
    (hstarted : x.2.Started (dir.context p) x.1) (hloads : x.2.loads (dir.context p) x.1 = true)
    (hb : x.2.Amounts x.1 p newDhs random b) :
    ∃ dev' next, x.2.advance (dir.context p) x.1 (s.device p) newDhs random = some (dev', next) ∧
      next.Started (dir.context p) x.1 ∧
      Network.step dir s.whole b = some (s.put dir p i x.1 x.2 next dev' newDhs random).whole := by
  have hframe {bodyB64 createdAt : JsString}
      (hcall : x.2 = .looking bodyB64 createdAt ∨ ∃ bundle, x.2 = .loading bodyB64 createdAt bundle)
      (hb : b = .present p ⟨x.1, bodyB64⟩ createdAt newDhs) : ∃ dev' next,
      x.2.advance (dir.context p) x.1 (s.device p) newDhs random = some (dev', next) ∧
      next.Started (dir.context p) x.1 ∧
      Network.step dir s.whole b = some (s.put dir p i x.1 x.2 next dev' newDhs random).whole := by
    obtain ⟨dev', next, hadvance, hfinish, hnext, hgenerates, hdecodes⟩ :=
      Call.advance_frame (s.device p) newDhs random hcall hloads hstarted
    refine ⟨dev', next, hadvance, hnext, ?_⟩
    have hhands : x.2.handsOver (dir.context p) x.1 (s.device p) random = none := by
      rcases hcall with hcall | ⟨bundle, hcall⟩ <;> rw [hcall] <;> rfl
    rw [whole_put hx hidle.rest, hb, hfinish]
    simp only [Network.step, Awaiting.put, hhands, hgenerates, hdecodes, hidle.whole_device]
    congr 2
    · simp [whole]
    · split <;> simp [whole]
  obtain ⟨c, call⟩ := x
  cases call with
  | looking bodyB64 createdAt => exact hframe (.inl rfl) hb
  | loading bodyB64 createdAt bundle => exact hframe (.inr ⟨bundle, rfl⟩) hb
  | sending text createdAt contact =>
    obtain ⟨draft, rfl, rfl⟩ := hb
    obtain ⟨dev', next, hadvance, hsend, hnext, hgenerates⟩ :=
      Call.advance_sending (s.device p) newDhs random hstarted
    refine ⟨dev', next, hadvance, hnext, ?_⟩
    rw [whole_put hx hidle.rest]
    cases hbody : (Call.sending (JsString.trim draft) createdAt contact).handsOver (dir.context p) c
        (s.device p) random with
    | none =>
      rw [hbody] at hsend
      have hdevice : dev'.finish c next = s.device p := handleSend_none hsend.symm
      simp only [Network.step, Awaiting.put, hidle.whole_device, ← hsend, hgenerates, hbody, hdevice,
        Call.decodes, Option.toList_none, List.append_nil, Option.isSome_none, Bool.false_eq_true,
        if_false, List.nil_append, Function.update_eq_self]
      rw [← hidle.whole_device, Function.update_eq_self]
      rfl
    | some body =>
      rw [hbody] at hsend
      simp only [Network.step, Awaiting.put, hidle.whole_device, ← hsend, hgenerates, hbody,
        Call.decodes, Option.toList_none, List.append_nil, Function.update_eq_self]
      rfl
  | writing => cases hloads
  | indexing => cases hloads
  | indexWriting => cases hloads
  | saving => cases hloads
  | returning => cases hloads
  | done => cases hloads

end put

section crash

theorem Serial.crash (hs : s.Serial dir) :
    Serial dir { s with calls := Function.update s.calls p [] } := by
  have hold {q : ι} {j : ℕ} {y : JsString × Call S}
      (hy : (Function.update s.calls p [] q)[j]? = some y) : (s.calls q)[j]? = some y := by
    by_cases hq : q = p
    · subst hq
      simp at hy
    · rwa [Function.update_of_ne hq] at hy
  constructor
  · intro q y hy
    obtain ⟨j, hj⟩ := List.getElem?_of_mem hy
    exact hs.started q y (List.mem_of_getElem? (hold hj))
  · intro q j k y z hj hk
    exact hs.single q j k y z (hold hj) (hold hk)

theorem whole_crash (h : s.Idle p) :
    whole { s with calls := Function.update s.calls p [] } = s.whole := by
  have hdevice : (whole { s with calls := Function.update s.calls p [] }).device = s.whole.device := by
    funext q
    by_cases hq : q = p
    · subst hq
      rw [h.whole_device]
      simp only [whole, Function.update_self, List.foldl_nil]
    · simp only [whole, Function.update_of_ne hq]
  simp only [whole, Network.mk.injEq, and_true] at hdevice ⊢
  exact hdevice

end crash

/-- Every step of a run kept apart is a whole call, or nothing. -/
theorem simulation (dir : Directory S ι) (G : Network S ι → Network.Action S ι → Prop) :
    (machine dir).Simulation (Apart dir G) (Network.machine dir) G (Serial dir) whole where
  init := by
    rintro _ rfl
    exact ⟨⟨fun p x hx => absurd hx List.not_mem_nil, fun p i j x y hx => by cases hx⟩, rfl⟩
  step s a t hs hguard he := by
    cases a with
    | receive p frame createdAt =>
      cases he
      exact ⟨hs.begin rfl trivial, .inl (whole_begin rfl)⟩
    | send p contactUserId connected draft createdAt =>
      simp only [machine, step] at he
      split at he
      · cases he
        exact ⟨hs, .inl rfl⟩
      · rename_i htext
        split at he
        · cases he
          exact ⟨hs, .inl rfl⟩
        · rename_i contact hcontact
          cases he
          exact ⟨hs.begin rfl ⟨fun h => htext (.inl h), hcontact⟩, .inl (whole_begin rfl)⟩
    | resume p i newDhs random =>
      obtain ⟨x, hx, he⟩ := Option.bind_eq_some_iff.mp he
      obtain ⟨⟨dev', next⟩, hr, rfl⟩ := Option.map_eq_some_iff.mp he
      have hstarted := hs.started p x (List.mem_of_getElem? hx)
      by_cases hleft : x.2.left = 0
      · cases hloads : x.2.loads (dir.context p) x.1 with
        | true =>
          obtain ⟨hidle, b, hb, hG⟩ := hguard x hx hloads
          obtain ⟨_, _, hadvance, hnext, hstep⟩ := step_whole hx hidle hstarted hloads hb
          cases hadvance.symm.trans hr
          exact ⟨hs.put hx hnext fun _ => .inr hidle, .inr ⟨b, hG, hstep⟩⟩
        | false =>
          obtain ⟨c, call⟩ := x
          obtain ⟨bodyB64, createdAt, bundle, rfl, rfl, rfl, hbundle⟩ := Call.advance_waits hleft hloads hr
          exact ⟨hs.put hx hbundle fun h => absurd rfl h,
            .inl (whole_put_waits hx rfl rfl ⟨rfl, rfl, rfl⟩)⟩
      · have hrest : ∀ j y, (s.calls p)[j]? = some y → j ≠ i → y.2.left = 0 := by
          intro j y hj hne
          by_contra hy
          exact hne (hs.single p j i y x hj hx hy hleft)
        obtain ⟨_, _, hadvance, -, hfinish, hnext, hsilent⟩ :=
          Call.advance_left (dir.context p) x.1 (s.device p) newDhs random hleft
        cases hadvance.symm.trans hr
        exact ⟨hs.put hx hnext fun _ => .inl hleft, .inl (whole_put_left hx hrest hfinish hsilent)⟩
    | crash p =>
      cases he
      exact ⟨hs.crash, .inl (whole_crash hguard)⟩

/-- Only call `i` of `p` may have writes left. -/
structure Alone (s : Awaiting S ι) (p : ι) (i : ℕ) : Prop where
  rest : ∀ j y, (s.calls p)[j]? = some y → j ≠ i → y.2.left = 0
  others : ∀ q ≠ p, s.Idle q

omit [DecidableEq ι] in
theorem Alone.of_idle (h : ∀ q, s.Idle q) : s.Alone p i :=
  ⟨(h p).rest, fun q _ => h q⟩

omit [DecidableEq ι] in
theorem Alone.idle (h : s.Alone p i) (hx : (s.calls p)[i]? = some x) (hleft : x.2.left = 0) (q : ι) :
    s.Idle q := by
  intro y hy
  by_cases hq : q = p
  · subst hq
    obtain ⟨j, hj⟩ := List.getElem?_of_mem hy
    by_cases hji : j = i
    · subst hji
      cases hx.symm.trans hj
      exact hleft
    · exact h.rest j y hj hji
  · exact h.others q hq y hy

theorem Alone.put (h : s.Alone p i) (x : JsString × Call S) :
    (s.put dir p i x.1 x.2 next dev' newDhs random).Alone p i where
  rest j y hj hne := by
    simp only [Awaiting.put, Function.update_self] at hj
    rw [List.getElem?_set_ne hne.symm] at hj
    exact h.rest j y hj hne
  others q hq y hy := by
    simp only [Awaiting.put, Function.update_of_ne hq] at hy
    exact h.others q hq y hy

theorem put_get (hx : (s.calls p)[i]? = some x) :
    ((s.put dir p i x.1 x.2 next dev' newDhs random).calls p)[i]? = some (x.1, next) := by
  simp only [Awaiting.put, Function.update_self]
  exact List.getElem?_set_self (lt_length_of_getElem? hx)

theorem step_resume (hx : (s.calls p)[i]? = some x)
    (hadvance : x.2.advance (dir.context p) x.1 (s.device p) newDhs random = some (dev', next)) :
    (machine dir).step s (.resume p i newDhs random) =
      some (s.put dir p i x.1 x.2 next dev' newDhs random) := by
  simp only [machine, step, hx, Option.bind_some, hadvance, Option.map_some]

/-- The writes that are left are done, and the device comes to what it was to come to. -/
theorem reach_idle (random : SendRandom S) (h : (machine dir).Reach (Apart dir G) s)
    (hx : (s.calls p)[i]? = some x) (halone : s.Alone p i) :
    ∃ t, (machine dir).Reach (Apart dir G) t ∧ t.whole = s.whole ∧ ∀ q, t.Idle q := by
  induction hn : x.2.left using Nat.strong_induction_on generalizing s x with
  | _ n ih =>
    by_cases hleft : x.2.left = 0
    · exact ⟨s, h, rfl, halone.idle hx hleft⟩
    · obtain ⟨dev', next, hadvance, hlt, hfinish, -, hsilent⟩ :=
        Call.advance_left (dir.context p) x.1 (s.device p) random.ea random hleft
      have hguard : Apart dir G s (.resume p i random.ea random) := by
        intro y hy hloads
        cases hx.symm.trans hy
        rw [Call.loads_of_left hleft] at hloads
        cases hloads
      obtain ⟨t, ht, hwhole, hidle⟩ := ih next.left (hn ▸ hlt)
        (h.step hguard (step_resume hx hadvance)) (put_get hx) (halone.put x) rfl
      exact ⟨t, ht, hwhole.trans (whole_put_left hx halone.rest hfinish hsilent), hidle⟩

/-- A load that the guard allows, and the writes after it. -/
theorem reach_commit (newDhs : S.X25519Secret) (random : SendRandom S) {b : Network.Action S ι}
    (h : (machine dir).Reach (Apart dir G) s)
    (hidle : ∀ q, s.Idle q) (hx : (s.calls p)[i]? = some x)
    (hloads : x.2.loads (dir.context p) x.1 = true) (hb : x.2.Amounts x.1 p newDhs random b)
    (hG : G s.whole b) : ∃ t, (machine dir).Reach (Apart dir G) t ∧
      Network.step dir s.whole b = some t.whole ∧ ∀ q, t.Idle q := by
  have hs : s.Serial dir := ((simulation dir G).reach h).1
  obtain ⟨dev', next, hadvance, -, hwhole⟩ := step_whole hx (hidle p)
    (hs.started p x (List.mem_of_getElem? hx)) hloads hb
  have hguard : Apart dir G s (.resume p i newDhs random) := by
    intro y hy _
    cases hx.symm.trans hy
    exact ⟨hidle p, b, hb, hG⟩
  obtain ⟨t, ht, hsame, hdone⟩ := reach_idle random (h.step hguard (step_resume hx hadvance))
    (put_get hx) ((Alone.of_idle hidle).put x)
  exact ⟨t, ht, by rw [hwhole, hsame], hdone⟩

theorem begin_get : ((s.begin p contactUserId call).calls p)[(s.calls p).length]? =
    some (contactUserId, call) := by
  simp [Awaiting.begin]

theorem begin_idle (hidle : ∀ q, s.Idle q) (hleft : call.left = 0) (q : ι) :
    (s.begin p contactUserId call).Idle q := by
  intro y hy
  rcases mem_begin hy with hy | ⟨-, rfl⟩
  · exact hidle q y hy
  · exact hleft

/-- The contact of a ratchet frame is looked up. -/
theorem reach_waits (newDhs : S.X25519Secret) (random : SendRandom S)
    (h : (machine dir).Reach (Apart dir G) s) (hidle : ∀ q, s.Idle q)
    (hx : (s.calls p)[i]? = some (contactUserId, .looking bodyB64 createdAt))
    (hloads : (Call.looking bodyB64 createdAt : Call S).loads (dir.context p) contactUserId = false) :
    ∃ t bundle, (machine dir).Reach (Apart dir G) t ∧ t.whole = s.whole ∧ (∀ q, t.Idle q) ∧
      (t.calls p)[i]? = some (contactUserId, .loading bodyB64 createdAt bundle) := by
  obtain ⟨bundle, -, hadvance⟩ := Call.advance_looking (s.device p) newDhs random hloads
  have hguard : Apart dir G s (.resume p i newDhs random) := by
    intro y hy htrue
    cases hx.symm.trans hy
    rw [hloads] at htrue
    cases htrue
  refine ⟨_, bundle, h.step hguard (step_resume hx hadvance),
    whole_put_waits hx rfl rfl ⟨rfl, rfl, rfl⟩, ?_, put_get hx⟩
  intro q
  exact ((Alone.of_idle hidle).put _).idle (put_get hx) rfl q

/-- A frame that is processed with nothing in between. -/
theorem reach_present {frame : Frame} (h : (machine dir).Reach (Apart dir G) s)
    (hidle : ∀ q, s.Idle q) (hG : G s.whole (.present p frame createdAt newDhs)) :
    ∃ t, (machine dir).Reach (Apart dir G) t ∧
      Network.step dir s.whole (.present p frame createdAt newDhs) = some t.whole ∧
      ∀ q, t.Idle q := by
  have random : SendRandom S := ⟨newDhs, [], TwoParty.someRandom⟩
  have hbegin : (machine dir).Reach (Apart dir G)
      (s.begin p frame.sender (.looking frame.bodyB64 createdAt)) :=
    h.step (a := .receive p frame createdAt) trivial rfl
  have hlooking : ∀ q, (s.begin p frame.sender (.looking frame.bodyB64 createdAt)).Idle q :=
    begin_idle hidle rfl
  have hwhole : (s.begin p frame.sender (.looking frame.bodyB64 createdAt)).whole = s.whole :=
    whole_begin rfl
  rw [← hwhole] at hG ⊢
  cases hloads : (Call.looking frame.bodyB64 createdAt : Call S).loads (dir.context p) frame.sender with
  | true => exact reach_commit newDhs random hbegin hlooking begin_get hloads rfl hG
  | false =>
    obtain ⟨t, bundle, ht, hsame, hwaiting, hget⟩ :=
      reach_waits newDhs random hbegin hlooking begin_get hloads
    rw [← hsame] at hG ⊢
    exact reach_commit newDhs random ht hwaiting hget rfl rfl hG

/-- A text that is sent with nothing in between. -/
theorem reach_send {n : Network S ι} {contactUserId : JsString} {connected : Bool} {draft : JsString}
    (h : (machine dir).Reach (Apart dir G) s) (hidle : ∀ q, s.Idle q)
    (hG : G s.whole (.send p contactUserId connected draft createdAt random))
    (hn : Network.step dir s.whole (.send p contactUserId connected draft createdAt random) = some n) :
    ∃ t, (machine dir).Reach (Apart dir G) t ∧ t.whole = n ∧ ∀ q, t.Idle q := by
  by_cases htext : JsString.trim draft = [] ∨ connected = false
  · simp only [Network.step, handleSend, if_pos htext] at hn
    cases hn
    exact ⟨s, h, rfl, hidle⟩
  · cases hcontact : (dir.context p).findContactBundle contactUserId with
    | none =>
      simp only [Network.step, handleSend, if_neg htext, hcontact] at hn
      cases hn
      exact ⟨s, h, rfl, hidle⟩
    | some contact =>
      have hconnected : connected = true := by
        cases connected with
        | true => rfl
        | false => exact absurd (.inr rfl) htext
      have hbegin : (machine dir).Reach (Apart dir G)
          (s.begin p contactUserId (.sending (JsString.trim draft) createdAt contact)) := by
        refine h.step (a := .send p contactUserId connected draft createdAt) trivial ?_
        simp only [machine, step, if_neg htext, hcontact]
      have hsame : (s.begin p contactUserId (.sending (JsString.trim draft) createdAt contact)).whole =
          s.whole := whole_begin rfl
      rw [← hsame] at hG hn
      obtain ⟨t, ht, hwhole, hdone⟩ := reach_commit random.ea random hbegin (begin_idle hidle rfl)
        begin_get rfl ⟨draft, rfl, by rw [hconnected]⟩ hG
      exact ⟨t, ht, Option.some.inj (hwhole.symm.trans hn), hdone⟩

/-- What whole calls reach is what calls reach that are kept apart. -/
theorem reach_iff_apart {n : Network S ι} : (Network.machine dir).Reach G n ↔
    ∃ s, (machine dir).Reach (Apart dir G) s ∧ s.whole = n := by
  constructor
  · intro h
    have hidle : ∃ s, (machine dir).Reach (Apart dir G) s ∧ s.whole = n ∧ ∀ q, s.Idle q := by
      induction h with
      | init h =>
        cases h
        exact ⟨start dir, .init rfl, rfl, fun q x hx => absurd hx List.not_mem_nil⟩
      | @step _ _ a _ hG he ih =>
        obtain ⟨s, hs, rfl, hidle⟩ := ih
        cases a with
        | send p contactUserId connected draft createdAt random => exact reach_send hs hidle hG he
        | present p frame createdAt newDhs =>
          obtain ⟨t, ht, hwhole, hdone⟩ := reach_present hs hidle hG
          exact ⟨t, ht, Option.some.inj (hwhole.symm.trans he), hdone⟩
    obtain ⟨s, hs, hwhole, -⟩ := hidle
    exact ⟨s, hs, hwhole⟩
  · rintro ⟨s, hs, rfl⟩
    exact ((simulation dir G).reach hs).2

end Awaiting
end Epistl
