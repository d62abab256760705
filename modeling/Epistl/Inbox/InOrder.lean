import Epistl.Inbox.Genuine
import Epistl.Inbox.Ordered

/-! # Nothing is stored out of order

What a device stores as received stands in the order in which the contact has sent it, whatever
the relay presents. Some of it may be missing.
-/
namespace Epistl
variable {S : Suite}

/-- The ciphertext of an envelope stands in its signed portion. -/
theorem ciphertextOf_portion (envelope : Bytes) : ciphertextOf envelope =
    (signedPortionOf envelope).drop (ciphertextOffset envelope) := by
  rw [ciphertextOf, signedPortionOf, slice, slice, List.drop_zero, Nat.sub_zero, List.drop_take]

namespace Network
variable {ι : Type} {dir : Directory S ι} {p q : ι} {s : Network S ι} {e e' : Bytes}

/-- An envelope with the portion of another one carries the same message. -/
theorem Carries.resigned {m : StoredMessage} (h : Carries dir q m e)
    (hportion : signedPortionOf e = signedPortionOf e') (hhead : e.head? = e'.head?) :
    Carries dir q m e' := by
  obtain ⟨key, nonce, hct⟩ := h
  refine ⟨key, nonce, ?_⟩
  rw [← hct, ciphertextOf_portion, ciphertextOf_portion, hportion, ciphertextOffset,
    ciphertextOffset, hhead]

theorem Carries.unique (hS : S.Ideal) {m m' : StoredMessage} (h : Carries dir q m e)
    (h' : Carries dir q m' e) : m.contactUserId = m'.contactUserId ∧ m.body = m'.body := by
  obtain ⟨key, nonce, hct⟩ := h
  obtain ⟨key', nonce', hct'⟩ := h'
  have hopen := hS.decrypt_encrypt key nonce (directionAad (dir.who q).userId m.contactUserId)
    (JsString.utf8Bytes m.body)
  rw [← hct, hct'] at hopen
  obtain ⟨rfl, rfl, haad⟩ := hS.decrypt_only hopen
  rw [haad, hS.decrypt_encrypt] at hopen
  have hbody := congrArg JsString.decodeUtf8Bytes (Option.some.inj hopen)
  rw [JsString.decodeUtf8Bytes_utf8Bytes, JsString.decodeUtf8Bytes_utf8Bytes] at hbody
  exact ⟨(directionAad_inj rfl haad).2, hbody.symm⟩

/-- The rows behind the stored texts, with the messages the accepted envelopes carry. -/
theorem Texts.rows (hS : S.Ideal) (h : Texts dir s) (hinv : Inv dir s) {userId : JsString}
    (hq : dir.contact p userId = some q) : ∃ rows : List StoredMessage,
      rows.map StoredMessage.body = (s.device p).receivedFrom userId ∧
      (∀ m ∈ rows, m.contactUserId = (dir.who p).userId) ∧
      List.Forall₂ (Carries dir q) rows (s.accepted p userId) := by
  obtain ⟨rows, hbody, hto, hrows⟩ := h.accepted hq
  have hhead {body : JsString} (hmem : body ∈ s.produced q) :
      (signedPortionOf (Base64.base64ToBytes body)).head? = (Base64.base64ToBytes body).head? :=
    ((hinv.made q body hmem).signed hS).1
  have hknown : ∀ e ∈ s.accepted p userId, (signedPortionOf e).head? = e.head? := by
    intro e he
    obtain ⟨q', hq', body, hmem, rfl⟩ := hinv.known e he
    cases hq.symm.trans hq'
    exact hhead hmem
  refine ⟨rows, hbody, hto, ?_⟩
  have hmatch := ((List.forall₂_and_left _ _).mpr ⟨hknown, hrows.flip⟩).flip
  refine hmatch.imp fun m e hor => ?_
  obtain ⟨hhead', i, hm, hportion⟩ := hor
  obtain ⟨body, hi, hsame⟩ := Option.map_eq_some_iff.mp hportion
  obtain ⟨m', hm', hcarries⟩ := exists_getElem? (h.produced q) hi
  cases hm.symm.trans hm'
  refine hcarries.resigned hsame ?_
  rw [← hhead (List.mem_of_getElem? hi), ← hhead', hsame]

/-- The texts of rows that are carried by a part of what was produced are a part of what was
sent. -/
theorem Texts.sent_sublist (hS : S.Ideal) (h : Texts dir s) {rows : List StoredMessage}
    {log : List Bytes} {userId : JsString} (hrows : List.Forall₂ (Carries dir q) rows log)
    (hto : ∀ m ∈ rows, m.contactUserId = userId)
    (hsub : log.Sublist ((s.produced q).map Base64.base64ToBytes)) :
    (rows.map StoredMessage.body).Sublist ((s.device q).sentTo userId) := by
  have hproduced : List.Forall₂ (Carries dir q) (s.device q).outgoing
      ((s.produced q).map Base64.base64ToBytes) :=
    List.forall₂_map_right_iff.mpr (h.produced q)
  obtain ⟨sent, hsent, hmatch⟩ := exists_sublist hproduced hsub
  have hsame := map_eq_of_forall₂ (f := fun m => (m.contactUserId, m.body)) hrows hmatch
    fun m m' e hm hm' => Prod.ext (hm.unique hS hm').1 (hm.unique hS hm').2
  have hbodies := congrArg (List.map Prod.snd) hsame
  have hcontacts := congrArg (List.map Prod.fst) hsame
  rw [List.map_map, List.map_map] at hbodies hcontacts
  have hsentTo : ∀ m ∈ sent, m.contactUserId = userId := by
    intro m hm
    have hmem : m.contactUserId ∈ rows.map (Prod.fst ∘ fun m => (m.contactUserId, m.body)) :=
      hcontacts ▸ List.mem_map_of_mem hm
    obtain ⟨m', hm', heq⟩ := List.mem_map.mp hmem
    exact heq.symm.trans (hto m' hm')
  have hfilter := hsent.filter fun m => decide (m.contactUserId = userId)
  rw [List.filter_eq_self.mpr fun m hm => decide_eq_true (hsentTo m hm)] at hfilter
  rw [show rows.map StoredMessage.body = sent.map StoredMessage.body from hbodies]
  exact hfilter.map StoredMessage.body

variable [DecidableEq ι]

/-- What was accepted once each was sent once each. -/
theorem receivedFrom_subperm (hS : S.Ideal) (h : (machine dir).Reach Replays s)
    {userId : JsString} (hq : dir.contact p userId = some q)
    (hnodup : (s.accepted p userId).Nodup) :
    ((s.device p).receivedFrom userId).Subperm ((s.device q).sentTo (dir.who p).userId) := by
  have htexts := texts_of_reach hS (unforged_of_replays hS h)
  have hinv := inv_of_reach hS h
  obtain ⟨rows, hbody, hto, hrows⟩ := htexts.rows hS hinv hq
  have hsub : s.accepted p userId ⊆ (s.produced q).map Base64.base64ToBytes := by
    intro e he
    obtain ⟨q', hq', body, hmem, rfl⟩ := hinv.known e he
    cases hq.symm.trans hq'
    exact List.mem_map_of_mem hmem
  obtain ⟨log, hperm, hlog⟩ := List.subperm_of_subset hnodup hsub
  obtain ⟨rows', hmatch, hperm'⟩ := List.perm_comp_forall₂ hperm hrows.flip
  rw [← hbody]
  refine ⟨rows'.map StoredMessage.body, hperm'.map _, ?_⟩
  exact htexts.sent_sublist hS hmatch.flip (fun m hm => hto m (hperm'.mem_iff.mp hm)) hlog

section texts
variable (hS : S.Ideal) (hpq : dir.contact p (dir.who q).userId = some q)
  (hqp : dir.contact q (dir.who p).userId = some p)
include hS hpq hqp

theorem receivedFrom_sublist (h : (machine dir).Reach Replays s)
    (hopening : ∀ e ∈ (s.accepted p (dir.who q).userId).tail, ¬ Opening e) :
    ((s.device p).receivedFrom (dir.who q).userId).Sublist
      ((s.device q).sentTo (dir.who p).userId) := by
  have htexts := texts_of_reach hS (unforged_of_replays hS h)
  obtain ⟨rows, hbody, hto, hrows⟩ := htexts.rows hS (inv_of_reach hS h) hpq
  rw [← hbody]
  exact htexts.sent_sublist hS hrows hto (accepted_sublist hS hpq hqp h hopening)

/-- Against a relay that presents whatever it likes but forges no signature, two contacts never
see each other's messages out of order: what a device stores as received is a part, in its order,
of what the contact stored as sent to it, unless a handshake is accepted after something else. -/
theorem in_order (h : (machine dir).Reach (Unforged dir) s)
    (hopening : ∀ e ∈ (s.accepted p (dir.who q).userId).tail, ¬ Opening e) :
    ((s.device p).receivedFrom (dir.who q).userId).Sublist
      ((s.device q).sentTo (dir.who p).userId) := by
  obtain ⟨t, hshadow⟩ := shadow_of_reach hS h
  have hmessages (r : ι) : (s.device r).messages = (t.device r).messages :=
    (hshadow.storage r).2.2.symm
  have hopening' : ∀ e ∈ (t.accepted p (dir.who q).userId).tail, ¬ Opening e := by
    rw [hshadow.accepted hpq, ← List.map_tail]
    intro e' he'
    obtain ⟨e, he, rfl⟩ := List.mem_map.mp he'
    exact fun hopens => hopening e he
      ((hshadow.opening hS hpq (List.mem_of_mem_tail he)).mp hopens)
  have hsub := receivedFrom_sublist hS hpq hqp hshadow.reach hopening'
  simpa only [Device.receivedFrom, Device.incoming, Device.sentTo, Device.outgoing, hmessages]
    using hsub

end texts

/-- The theorem at the state after Alice's first message. -/
theorem in_order_first : ∃ s : Network Symbolic.suite Party,
    ((s.device .bob).receivedFrom (TwoParty.someone .alice).userId).length = 1 ∧
      ((s.device .bob).receivedFrom (TwoParty.someone .alice).userId).Sublist
        ((s.device .alice).sentTo (TwoParty.someone .bob).userId) := by
  have hS := Symbolic.suite_ideal
  obtain ⟨s, envelope, hs, hlog⟩ := presented_first
  have hpq : neighbours.contact .bob (neighbours.who .alice).userId = some .alice := rfl
  have hqp : neighbours.contact .alice (neighbours.who .bob).userId = some .bob := rfl
  have hunforged := unforged_of_replays hS hs
  obtain ⟨rows, hbody, -, hrows⟩ := (texts_of_reach hS hunforged).accepted hpq
  have hlog' : s.accepted .bob (neighbours.who .alice).userId = [envelope] := hlog
  refine ⟨s, ?_, in_order hS hpq hqp hunforged ?_⟩
  · have hlength := congrArg List.length hbody
    rw [List.length_map, hrows.length_eq, hlog'] at hlength
    exact hlength.symm
  · simp [hlog']

end Network
end Epistl
