import Epistl.Inbox.Burst

/-! # One message key for each envelope sent

A call derives from the session it loaded and stores the result later. As long as no
call loads while another one is between the two, every key is used once and no write
undoes another one. Nothing in the code keeps the calls apart.
-/
namespace Epistl

section derive
variable {S : Suite} {state next : RatchetState S} {p envelope plaintext : Bytes} {n : ℕ}
  {newDhs : S.X25519Secret} {k : S.MessageKey} {contactUserId selfUserId : JsString}

theorem dhRatchetStep_sending {r : RatchetedState S} (h : dhRatchetStep state p newDhs = .ok r) :
    r.dhsPublicKey = S.x25519PublicKey newDhs := by
  obtain ⟨dh, -, h⟩ := Thrown.bind_eq_ok h
  obtain ⟨dh', -, h⟩ := Thrown.bind_eq_ok h
  cases h
  rfl

/-- A derivation keeps the sending side or starts a new chain on the drawn secret. -/
theorem deriveNextReceivingMessageKey_sending
    (h : deriveNextReceivingMessageKey state p n newDhs = .ok (some ⟨k, next⟩)) :
    next.dhsPublicKey = S.x25519PublicKey newDhs ∨
      next.dhsPublicKey = state.dhsPublicKey ∧ next.sendMessageNumber = state.sendMessageNumber := by
  unfold deriveNextReceivingMessageKey at h
  split at h
  · obtain ⟨r, hr, h⟩ := Thrown.bind_eq_ok h
    cases h
    exact .inl (dhRatchetStep_sending hr)
  · split at h
    · cases h
    · split at h
      · cases h
      · cases h
        exact .inr ⟨rfl, rfl⟩

theorem decodeRatchetEnvelope_sending {params : DecodeRatchetParams S}
    (h : decodeRatchetEnvelope envelope params newDhs = .ok (.success plaintext next)) :
    next.dhsPublicKey = S.x25519PublicKey newDhs ∨ next.dhsPublicKey = params.state.dhsPublicKey ∧
      next.sendMessageNumber = params.state.sendMessageNumber := by
  obtain ⟨-, k, hreceived, -⟩ := decodeRatchetEnvelope_success h
  exact deriveNextReceivingMessageKey_sending hreceived

theorem decodeHandshakeEnvelope_sending {params : DecodeHandshakeParams S}
    (h : decodeHandshakeEnvelope envelope params newDhs = .ok (.success plaintext next)) :
    next.dhsPublicKey = S.x25519PublicKey newDhs := by
  obtain ⟨-, state, k, hstate, hreceived, -⟩ := decodeHandshakeEnvelope_success h
  have hdhs : state.dhsPublicKey = S.x25519PublicKey newDhs := by
    obtain ⟨dh, -, hstate⟩ := Thrown.bind_eq_ok hstate
    obtain ⟨ss, -, hstate⟩ := Thrown.bind_eq_ok hstate
    exact dhRatchetStep_sending hstate
  rcases deriveNextReceivingMessageKey_sending hreceived with hs | ⟨hs, -⟩
  · exact hs
  · exact hs.trans hdhs

/-- What an accepted frame does to the sending side. -/
theorem decodeFrame_sending {ctx : Context S} {bundle : ContactKeyBundle}
    {session : Option (RatchetState S)}
    (h : decodeFrame ctx bundle contactUserId envelope session newDhs =
      .ok (some (.success plaintext next))) :
    next.dhsPublicKey = S.x25519PublicKey newDhs ∨ ∃ state, session = some state ∧
      next.dhsPublicKey = state.dhsPublicKey ∧ next.sendMessageNumber = state.sendMessageNumber := by
  rcases decodeFrame_success h with ⟨-, hd⟩ | ⟨-, state, hstate, hd⟩
  · exact .inl (decodeHandshakeEnvelope_sending hd)
  · exact (decodeRatchetEnvelope_sending hd).imp id fun hs => ⟨state, hstate, hs⟩

/-- The envelope was encrypted on this chain, under the key with this number. -/
def Occupies (self : Identity S) (contactUserId : JsString) (plaintext : Bytes)
    (encode : EncodeRandom) (slot : Bytes × ℕ) (envelope : Bytes) : Prop :=
  (slot.2 = 0 ∧ ∃ kyberCiphertext key, envelope = encodeHandshakeEnvelope slot.1 kyberCiphertext key
      plaintext self.userId contactUserId self.dilithiumSecretKey encode) ∨
    ∃ previousChainLength key, envelope = encodeRatchetEnvelope
      ⟨slot.1, previousChainLength, slot.2⟩ key plaintext self.userId contactUserId
      self.dilithiumSecretKey encode

/-- A send occupies its slot, and the session moves on to the next number. -/
theorem sendEnvelope_slot {self : Identity S} {contact : ContactKeyBundle}
    {session : Option (RatchetState S)} {random : SendRandom S}
    (h : sendEnvelope self contactUserId contact plaintext session random =
      .ok (some (envelope, next))) :
    Occupies self contactUserId plaintext random.encode (Calls.slot session random) envelope ∧
      next.dhsPublicKey = (Calls.slot session random).1 ∧
      next.sendMessageNumber = (Calls.slot session random).2 + 1 := by
  cases session with
  | none =>
    simp only [sendEnvelope] at h
    split at h
    · cases h
    · obtain ⟨initiated, hinit, h⟩ := Thrown.bind_eq_ok h
      obtain ⟨send0, hsend, h⟩ := Thrown.bind_eq_ok h
      obtain ⟨dh, -, hinit⟩ := Thrown.bind_eq_ok hinit
      obtain ⟨ct, -, hinit⟩ := Thrown.bind_eq_ok hinit
      cases hinit
      cases hsend
      cases h
      exact ⟨.inl ⟨rfl, _, _, rfl⟩, rfl, rfl⟩
  | some state =>
    obtain ⟨send, hsend, h⟩ := Thrown.bind_eq_ok h
    unfold deriveNextSendingMessageKey at hsend
    split at hsend
    · cases hsend
    · cases hsend
      cases h
      exact ⟨.inr ⟨_, _, rfl⟩, rfl, rfl⟩

end derive

namespace Calls
variable {S : Suite}

/-- The call is about to read the stored session, or to decode a handshake. -/
def reads : Call S → Bool
  | .looking bodyB64 _ => (Base64.base64ToBytes bodyB64).head? ≠ some ratchetEnvelopeVersion
  | .loading .. | .sending .. => true
  | _ => false

/-- Every key generation is fresh. -/
def Fresh (s : Calls S) : Action S → Prop
  | .resume _ newDhs random => newDhs ∉ s.used ∧ random.ea ∉ s.used
  | _ => True

/-- No call reads while another one has derived and not yet stored, and no crash comes
between handing an envelope to the transport and storing the session behind it. -/
def Apart (s : Calls S) : Action S → Prop
  | .resume i _ _ => ∀ c, s.calls[i]? = some c → reads c = true → ∀ d ∈ s.calls, d.pending = none
  | .crash => ∀ d ∈ s.calls, ∀ write, d.pending = some write → write.exposed = false
  | _ => True

/-- Every envelope has its own key, and every write replaces what it was derived from. -/
structure SingleUse (s : Calls S) : Prop where
  sent : s.sent.Nodup
  writes : ∀ v replaced, (some v, replaced) ∈ s.writes → v = replaced

/-- The session can send: its chain is ours and the next number was not used on it. -/
def Unused (sent : List (Bytes × ℕ)) (used : List S.X25519Secret) (y : RatchetState S) : Prop :=
  (∃ a ∈ used, y.dhsPublicKey = S.x25519PublicKey a) ∧
    ∀ n, (y.dhsPublicKey, n) ∈ sent → n < y.sendMessageNumber

theorem Unused.mono {sent : List (Bytes × ℕ)} {used : List S.X25519Secret} {y : RatchetState S}
    (h : Unused sent used y) (a b : S.X25519Secret) : Unused sent (a :: b :: used) y := by
  obtain ⟨⟨c, hc, hk⟩, hn⟩ := h
  exact ⟨⟨c, List.mem_cons_of_mem _ (List.mem_cons_of_mem _ hc), hk⟩, hn⟩

/-- The invariant of the runs that keep the calls apart. -/
structure ApartInv (contactUserId : JsString) (device : Device S) (calls : List (Call S))
    (sent : List (Bytes × ℕ)) (used : List S.X25519Secret) (version : ℕ)
    (writes : List (Option ℕ × ℕ)) : Prop where
  sent_nodup : sent.Nodup
  sent_used : ∀ k n, (k, n) ∈ sent → ∃ a ∈ used, k = S.x25519PublicKey a
  writes : ∀ v replaced, (some v, replaced) ∈ writes → v = replaced
  one : ∀ (i j : ℕ) (write write' : Pending S), calls[i]? = some (.writing write) →
    calls[j]? = some (.writing write') → i = j
  basis : ∀ (i : ℕ) (write : Pending S) (v : ℕ), calls[i]? = some (.writing write) →
    write.basis = some v → v = version
  pending : ∀ (i : ℕ) (write : Pending S), calls[i]? = some (.writing write) →
    Unused sent used write.next
  stored : ∀ y, device.loadSession contactUserId = some y → Unused sent used y ∨
    ∃ (i : ℕ) (write : Pending S), calls[i]? = some (.writing write) ∧ write.exposed = true

variable {contactUserId : JsString} {device : Device S} {calls : List (Call S)}
  {sent : List (Bytes × ℕ)} {used : List S.X25519Secret} {version i : ℕ}
  {writes : List (Option ℕ × ℕ)} {c c' : Call S} {newDhs : S.X25519Secret} {random : SendRandom S}
  {s t : Calls S} {ctx : Context S}

theorem pending_eq_none {c : Call S} (h : c.pending = none) (write : Pending S) :
    c ≠ .writing write := by
  rintro rfl
  cases h

namespace ApartInv

/-- A call that is not about to store moves on, and the stored session stays. -/
theorem move (h : ApartInv contactUserId device calls sent used version writes)
    (hc : calls[i]? = some c) (hnot : c.pending = none) (hnot' : c'.pending = none)
    {device' : Device S} (hdevice : device'.sessions = device.sessions) :
    ApartInv contactUserId device' (calls.set i c') sent used version writes where
  sent_nodup := h.sent_nodup
  sent_used := h.sent_used
  writes := h.writes
  one j k write write' hj hk := by
    rcases getElem?_set_cases hj with ⟨-, he⟩ | ⟨-, hj⟩
    · exact absurd he.symm (pending_eq_none hnot' write)
    · rcases getElem?_set_cases hk with ⟨-, he⟩ | ⟨-, hk⟩
      · exact absurd he.symm (pending_eq_none hnot' write')
      · exact h.one j k write write' hj hk
  basis j write v hj hv := by
    rcases getElem?_set_cases hj with ⟨-, he⟩ | ⟨-, hj⟩
    · exact absurd he.symm (pending_eq_none hnot' write)
    · exact h.basis j write v hj hv
  pending j write hj := by
    rcases getElem?_set_cases hj with ⟨-, he⟩ | ⟨-, hj⟩
    · exact absurd he.symm (pending_eq_none hnot' write)
    · exact h.pending j write hj
  stored y hy := by
    rw [Device.loadSession, hdevice] at hy
    refine (h.stored y hy).imp id ?_
    rintro ⟨j, write, hj, he⟩
    have hji : i ≠ j := by
      rintro rfl
      exact pending_eq_none hnot write (Option.some.inj (hc.symm.trans hj))
    exact ⟨j, write, by rw [List.getElem?_set_ne hji, hj], he⟩

theorem mono (h : ApartInv contactUserId device calls sent used version writes)
    (a b : S.X25519Secret) :
    ApartInv contactUserId device calls sent (a :: b :: used) version writes where
  sent_nodup := h.sent_nodup
  sent_used k n hk := by
    obtain ⟨d, hd, hk⟩ := h.sent_used k n hk
    exact ⟨d, List.mem_cons_of_mem _ (List.mem_cons_of_mem _ hd), hk⟩
  writes := h.writes
  one := h.one
  basis := h.basis
  pending j write hj := (h.pending j write hj).mono a b
  stored y hy := (h.stored y hy).imp (·.mono a b) id

/-- A call that has read while nobody else was about to store. -/
theorem derived (h : ApartInv contactUserId device calls sent used version writes)
    (hapart : ∀ d ∈ calls, d.pending = none) (hc : calls[i]? = some c) (write : Pending S)
    (hbasis : ∀ v, write.basis = some v → v = version) (hnext : Unused sent used write.next) :
    ApartInv contactUserId device (calls.set i (.writing write)) sent used version writes := by
  have hnone {j : ℕ} {write : Pending S} (hj : calls[j]? = some (.writing write)) : False :=
    pending_eq_none (hapart _ (List.mem_of_getElem? hj)) write rfl
  have hcases {j : ℕ} {w : Pending S} (hj : (calls.set i (.writing write))[j]? = some (.writing w)) :
      j = i ∧ w = write := by
    rcases getElem?_set_cases hj with ⟨rfl, he⟩ | ⟨-, hj⟩
    · cases he
      exact ⟨rfl, rfl⟩
    · exact (hnone hj).elim
  refine ⟨h.sent_nodup, h.sent_used, h.writes, fun j k w w' hj hk => ?_, fun j w v hj hv => ?_,
    fun j w hj => ?_, fun y hy => .inl ?_⟩
  · rw [(hcases hj).1, (hcases hk).1]
  · obtain ⟨-, rfl⟩ := hcases hj
    exact hbasis v hv
  · obtain ⟨-, rfl⟩ := hcases hj
    exact hnext
  · rcases h.stored y hy with hy | ⟨j, w, hj, -⟩
    · exact hy
    · exact (hnone hj).elim

/-- The session read while nobody is about to store is unused. -/
theorem loaded (h : ApartInv contactUserId device calls sent used version writes)
    (hapart : ∀ d ∈ calls, d.pending = none) {y : RatchetState S}
    (hy : device.loadSession contactUserId = some y) : Unused sent used y := by
  rcases h.stored y hy with hy | ⟨j, write, hj, -⟩
  · exact hy
  · exact (pending_eq_none (hapart _ (List.mem_of_getElem? hj)) write rfl).elim

theorem push (h : ApartInv contactUserId device calls sent used version writes)
    (hnot : c.pending = none) :
    ApartInv contactUserId device (calls ++ [c]) sent used version writes := by
  have hold {j : ℕ} {w : Pending S} (hj : (calls ++ [c])[j]? = some (.writing w)) :
      calls[j]? = some (.writing w) := by
    rcases getElem?_concat_cases hj with ⟨-, he⟩ | hj
    · exact absurd he.symm (pending_eq_none hnot w)
    · exact hj
  refine ⟨h.sent_nodup, h.sent_used, h.writes, fun j k w w' hj hk => h.one j k w w' (hold hj) (hold hk),
    fun j w v hj => h.basis j w v (hold hj), fun j w hj => h.pending j w (hold hj), fun y hy => ?_⟩
  refine (h.stored y hy).imp id ?_
  rintro ⟨j, w, hj, he⟩
  exact ⟨j, w, by rw [List.getElem?_append_left (lt_length_of_getElem? hj), hj], he⟩

theorem crash (h : ApartInv contactUserId device calls sent used version writes)
    (hexposed : ∀ d ∈ calls, ∀ write, d.pending = some write → write.exposed = false) :
    ApartInv contactUserId device [] sent used version writes := by
  refine ⟨h.sent_nodup, h.sent_used, h.writes, fun j k w w' hj => by simp at hj,
    fun j w v hj => by simp at hj, fun j w hj => by simp at hj, fun y hy => ?_⟩
  rcases h.stored y hy with hy | ⟨j, w, hj, he⟩
  · exact .inl hy
  · rw [hexposed _ (List.mem_of_getElem? hj) w rfl] at he
    cases he

/-- A call stores its session. -/
theorem store (h : ApartInv contactUserId device calls sent used version writes)
    {write : Pending S} (hc : calls[i]? = some (.writing write)) :
    ApartInv contactUserId (device.writeSession contactUserId write.next)
      (calls.set i (.indexing write.outcome)) sent used (version + 1)
      (writes ++ [(write.basis, version)]) := by
  have hnone {j : ℕ} {w : Pending S}
      (hj : (calls.set i (.indexing write.outcome))[j]? = some (.writing w)) : False := by
    rcases getElem?_set_cases hj with ⟨-, he⟩ | ⟨hne, hj⟩
    · cases he
    · exact hne (h.one j i w write hj hc)
  refine ⟨h.sent_nodup, h.sent_used, fun v replaced hw => ?_, fun j k w w' hj => (hnone hj).elim,
    fun j w v hj => (hnone hj).elim, fun j w hj => (hnone hj).elim, fun y hy => .inl ?_⟩
  · rcases List.mem_append.mp hw with hw | hw
    · exact h.writes v replaced hw
    · obtain ⟨hv, rfl⟩ := Prod.mk.inj (List.mem_singleton.mp hw)
      exact h.basis i write v hc hv.symm
  · simp only [Device.loadSession, Device.writeSession, Function.update_self,
      Option.some.injEq] at hy
    exact hy ▸ h.pending i write hc

/-- A secret drawn just now has no envelopes. -/
theorem unused_fresh (hS : S.Ideal)
    (h : ApartInv contactUserId device calls sent used version writes) {a : S.X25519Secret}
    (hfresh : a ∉ used) (n : ℕ) : (S.x25519PublicKey a, n) ∉ sent := by
  intro hmem
  obtain ⟨b, hb, hk⟩ := h.sent_used _ n hmem
  exact hfresh (hS.x25519PublicKey_injective hk ▸ hb)

/-- The decoding of a frame while nobody else is about to store. -/
theorem settle (hS : S.Ideal)
    (h : ApartInv contactUserId s.device s.calls s.sent s.used s.version s.writes)
    (hapart : ∀ d ∈ s.calls, d.pending = none) (hc : s.calls[i]? = some c)
    (hnew : newDhs ∉ s.used) {bundle : ContactKeyBundle} {envelope : Bytes}
    {session : Option (RatchetState S)} (createdAt : JsString) {basis : Option ℕ}
    (hbasis : ∀ v, basis = some v → v = s.version)
    (hsession : ∀ y, session = some y → s.device.loadSession contactUserId = some y) :
    let t := s.settle contactUserId i createdAt basis
      (decodeFrame ctx bundle contactUserId envelope session newDhs)
    ApartInv contactUserId t.device t.calls t.sent (newDhs :: random.ea :: s.used) t.version
      t.writes := by
  have hmono := h.mono newDhs random.ea
  have hpending := hapart _ (List.mem_of_getElem? hc)
  cases hd : decodeFrame ctx bundle contactUserId envelope session newDhs with
  | error e => exact hmono.move hc hpending rfl rfl
  | ok result =>
    match result, hd with
    | none, _ => exact hmono.move hc hpending rfl rfl
    | some (.failure _), _ => exact hmono.move hc hpending rfl rfl
    | some (.success plaintext next), hd =>
      refine hmono.derived hapart hc _ hbasis ?_
      rcases decodeFrame_sending hd with hkey | ⟨y, hy, hkey, hn⟩
      · refine ⟨⟨newDhs, List.mem_cons_self, hkey⟩, fun n hn => ?_⟩
        rw [hkey] at hn
        exact absurd hn (h.unused_fresh hS hnew n)
      · have hun := hmono.loaded hapart (hsession y hy)
        rw [Unused, hkey, hn]
        exact hun

/-- A send while nobody else is about to store. -/
theorem send (hS : S.Ideal)
    (h : ApartInv contactUserId device calls sent used version writes)
    (hapart : ∀ d ∈ calls, d.pending = none) (hc : calls[i]? = some c)
    (hnew : random.ea ∉ used) {self : Identity S} {contact : ContactKeyBundle}
    {plaintext envelope : Bytes} {next : RatchetState S}
    (hsend : sendEnvelope self contactUserId contact plaintext (device.loadSession contactUserId)
      random = .ok (some (envelope, next))) (outcome : Outcome) :
    ApartInv contactUserId device (calls.set i (.writing ⟨next, outcome, some version,
      (device.loadSession contactUserId).isSome⟩))
      (sent ++ [slot (device.loadSession contactUserId) random]) (newDhs :: random.ea :: used)
      version writes := by
  obtain ⟨-, hkey, hnumber⟩ := sendEnvelope_slot hsend
  have hmono := h.mono newDhs random.ea
  have hbelow : (∃ a ∈ newDhs :: random.ea :: used,
      (slot (device.loadSession contactUserId) random).1 = S.x25519PublicKey a) ∧
      ∀ n, ((slot (device.loadSession contactUserId) random).1, n) ∈ sent →
        n < (slot (device.loadSession contactUserId) random).2 := by
    cases hy : device.loadSession contactUserId with
    | none =>
      exact ⟨⟨random.ea, by simp, rfl⟩, fun n hn => absurd hn (h.unused_fresh hS hnew n)⟩
    | some y => exact hmono.loaded hapart hy
  let write : Pending S := ⟨next, outcome, some version, (device.loadSession contactUserId).isSome⟩
  have hunused : Unused sent (newDhs :: random.ea :: used) next := by
    refine ⟨hkey ▸ hbelow.1, fun n hn => ?_⟩
    have := hbelow.2 n (hkey ▸ hn)
    omega
  have hwriting := hmono.derived hapart hc write (fun v hv => (Option.some.inj hv).symm) hunused
  refine ⟨?_, fun k n hk => ?_, hwriting.writes, hwriting.one, hwriting.basis, fun j w hj => ?_,
    fun y hy => .inr ⟨i, _, List.getElem?_set_self (lt_length_of_getElem? hc), by rw [hy]; rfl⟩⟩
  · refine List.nodup_append.mpr ⟨h.sent_nodup, List.nodup_singleton _, fun a ha b hb => ?_⟩
    rw [List.mem_singleton] at hb
    rintro rfl
    subst hb
    exact Nat.lt_irrefl _ (hbelow.2 _ ha)
  · rcases List.mem_append.mp hk with hk | hk
    · exact hmono.sent_used k n hk
    · rw [List.mem_singleton] at hk
      obtain ⟨a, ha, hs⟩ := hbelow.1
      exact ⟨a, ha, by rw [← hs, ← hk]⟩
  · have hw : w = ⟨next, outcome, some version, (device.loadSession contactUserId).isSome⟩ := by
      rcases getElem?_set_cases hj with ⟨-, he⟩ | ⟨-, hj⟩
      · exact Call.writing.inj he
      · exact (pending_eq_none (hapart _ (List.mem_of_getElem? hj)) w rfl).elim
    subst hw
    refine ⟨hkey ▸ hbelow.1, fun n hn => ?_⟩
    change n < next.sendMessageNumber
    rcases List.mem_append.mp hn with hn | hn
    · have := hbelow.2 n (hkey ▸ hn)
      omega
    · rw [List.mem_singleton] at hn
      have := congrArg Prod.snd hn
      dsimp only at this
      omega

/-- The step lemma for a resumed call. -/
theorem resume (hS : S.Ideal)
    (h : ApartInv contactUserId s.device s.calls s.sent s.used s.version s.writes)
    (hc : s.calls[i]? = some c) (hfresh : Fresh s (.resume i newDhs random))
    (hapart : Apart s (.resume i newDhs random))
    (ht : Calls.resume ctx contactUserId s i newDhs random c = some t) :
    ApartInv contactUserId t.device t.calls t.sent (newDhs :: random.ea :: s.used) t.version
      t.writes := by
  have hmono := h.mono newDhs random.ea
  have hapart : reads c = true → ∀ d ∈ s.calls, d.pending = none := hapart c hc
  cases c with
  | looking bodyB64 createdAt =>
    simp only [Calls.resume] at ht
    split at ht
    · cases ht
      exact hmono.move hc rfl rfl rfl
    · split at ht
      · cases ht
        exact hmono.move hc rfl rfl rfl
      · rename_i hhead
        cases ht
        exact h.settle hS (hapart (decide_eq_true hhead)) hc hfresh.1 createdAt
          (fun v hv => by cases hv) fun y hy => by cases hy
  | loading bodyB64 createdAt bundle =>
    cases ht
    exact h.settle hS (hapart rfl) hc hfresh.1 createdAt (fun v hv => (Option.some.inj hv).symm)
      fun y hy => hy
  | sending text createdAt contact =>
    simp only [Calls.resume] at ht
    split at ht
    · rename_i envelope next hsend
      cases ht
      exact h.send hS (hapart rfl) hc hfresh.2 hsend _
    · cases ht
      exact hmono.move hc rfl rfl rfl
  | writing write =>
    cases ht
    exact hmono.store hc
  | indexing outcome =>
    simp only [Calls.resume] at ht
    split at ht
    · cases ht
      exact hmono.move hc rfl rfl rfl
    · cases ht
      exact hmono.move hc rfl rfl rfl
  | indexWriting index outcome =>
    cases ht
    exact hmono.move hc rfl rfl rfl
  | saving outcome =>
    cases ht
    exact hmono.move hc rfl rfl rfl
  | returning event =>
    cases ht
    exact hmono.move hc rfl rfl (by cases event <;> rfl)
  | done => cases ht

end ApartInv

theorem apartInv_start (contactUserId : JsString) :
    ApartInv contactUserId (Device.empty : Device S) [] [] [] 0 [] where
  sent_nodup := List.nodup_nil
  sent_used k n hk := by simp at hk
  writes v replaced hw := by simp at hw
  one i j w w' hj := by simp at hj
  basis i w v hj := by simp at hj
  pending i w hj := by simp at hj
  stored y hy := by cases hy

/-- In every run that keeps the calls apart, no key is used for two envelopes and no
write replaces a session newer than the one it was derived from. -/
theorem single_use (hS : S.Ideal) (h : (machine ctx contactUserId .empty).Reach
    (fun s a => Fresh s a ∧ Apart s a) s) : SingleUse s := by
  have hinv : ApartInv contactUserId s.device s.calls s.sent s.used s.version s.writes := by
    refine h.invariant (I := fun s =>
      ApartInv contactUserId s.device s.calls s.sent s.used s.version s.writes) ?_ ?_
    · rintro _ rfl
      exact apartInv_start contactUserId
    · rintro s a t hinv ⟨hfresh, hapart⟩ ht
      cases a with
      | receive bodyB64 createdAt =>
        cases ht
        exact hinv.push rfl
      | send connected draft createdAt =>
        simp only [machine, step] at ht
        split at ht
        · cases ht
          exact hinv
        · split at ht
          · cases ht
            exact hinv
          · cases ht
            exact hinv.push rfl
      | resume i newDhs random =>
        simp only [machine, step] at ht
        split at ht
        · cases ht
        · rename_i call hc
          obtain ⟨u, hu, rfl⟩ := Option.map_eq_some_iff.mp ht
          have hres := hinv.resume hS hc hfresh hapart hu
          exact hres
      | crash =>
        cases ht
        exact hinv.crash hapart
  exact ⟨hinv.sent_nodup, hinv.writes⟩

section concrete
variable {G : Calls S → Action S → Prop} {dev : Device S} {contact : ContactKeyBundle}
  {draft createdAt : JsString} {envelope : Bytes} {next : RatchetState S}

theorem reach_send (h : (machine ctx contactUserId dev).Reach G s)
    (draft createdAt : JsString) (htext : JsString.trim draft ≠ [])
    (hcontact : ctx.findContactBundle contactUserId = some contact)
    (hG : G s (.send true draft createdAt)) :
    ∃ t, (machine ctx contactUserId dev).Reach G t ∧
      t.calls = s.calls ++ [.sending (JsString.trim draft) createdAt contact] ∧
      t.device = s.device ∧ t.sent = s.sent ∧ t.used = s.used :=
  ⟨{ s with calls := s.calls ++ [.sending (JsString.trim draft) createdAt contact] },
    .step h hG (by simp [machine, step, htext, hcontact]), rfl, rfl, rfl, rfl⟩

/-- The call that loads hands its envelope to the transport. -/
theorem reach_loaded (h : (machine ctx contactUserId dev).Reach G s) (newDhs : S.X25519Secret)
    (random : SendRandom S) (hc : s.calls[i]? = some (.sending draft createdAt contact))
    (hsend : sendEnvelope ctx.identity contactUserId contact (JsString.utf8Bytes draft)
      (s.device.loadSession contactUserId) random = .ok (some (envelope, next)))
    (hG : G s (.resume i newDhs random)) :
    ∃ (t : Calls S) (write : Pending S), (machine ctx contactUserId dev).Reach G t ∧
      write.next = next ∧ t.calls = s.calls.set i (.writing write) ∧ t.device = s.device ∧
      t.sent = s.sent ++ [slot (s.device.loadSession contactUserId) random] ∧
      t.used = newDhs :: random.ea :: s.used :=
  let write : Pending S := ⟨next, ⟨⟨contactUserId, .outgoing, draft, createdAt⟩, none⟩,
    some s.version, (s.device.loadSession contactUserId).isSome⟩
  ⟨{ s with
      calls := s.calls.set i (.writing write)
      sent := s.sent ++ [slot (s.device.loadSession contactUserId) random]
      used := newDhs :: random.ea :: s.used }, write,
    .step h hG (by simp only [machine, step, hc, Calls.resume, hsend]; rfl), rfl, rfl, rfl, rfl, rfl⟩

theorem reach_stored (h : (machine ctx contactUserId dev).Reach G s) (newDhs : S.X25519Secret)
    (random : SendRandom S) {write : Pending S} (hc : s.calls[i]? = some (.writing write)) (hG : G s (.resume i newDhs random)) :
    ∃ t, (machine ctx contactUserId dev).Reach G t ∧
      t.device = s.device.writeSession contactUserId write.next ∧
      t.calls = s.calls.set i (.indexing write.outcome) ∧ t.sent = s.sent ∧
      t.used = newDhs :: random.ea :: s.used :=
  ⟨{ s with
      device := s.device.writeSession contactUserId write.next
      calls := s.calls.set i (.indexing write.outcome)
      used := newDhs :: random.ea :: s.used
      version := s.version + 1
      writes := s.writes ++ [(write.basis, s.version)] },
    .step h hG (by simp only [machine, step, hc, Calls.resume]; rfl), rfl, rfl, rfl, rfl⟩

end concrete

theorem hello_ne_nil : JsString.trim Messenger.hello ≠ [] := by decide

/-- Bob's first send to Alice, up to the storing of his session. -/
theorem first_send :
    ∃ s y e, (machine bob alice .empty).Reach (fun s a => Fresh s a ∧ Apart s a) s ∧
      s.device.loadSession alice = some y ∧ Sends y e 1 ∧ s.sent.length = 1 ∧
      (∃ outcome, s.calls = [.indexing outcome]) ∧ ∀ a ∈ s.used, a.val < 6 := by
  obtain ⟨c, kct, -, -, hinit⟩ := initiate_eq Symbolic.suite_ideal (TwoParty.someone .bob)
    (TwoParty.someone .alice) (Messenger.randomOf 2 (by decide)).ea []
    (JsString.utf8Bytes (JsString.trim Messenger.hello)) TwoParty.someRandom
  have hsend := sendEnvelope_none (a := TwoParty.someone .bob) (b := TwoParty.someone .alice)
    Symbolic.suite_ideal [] (JsString.utf8Bytes (JsString.trim Messenger.hello))
    (Messenger.randomOf 2 (by decide))
  have hinit' : TwoParty.initiate (TwoParty.someone .bob) (TwoParty.someone .alice)
      (Messenger.randomOf 2 (by decide)).ea (Messenger.randomOf 2 (by decide)).kemRandom
      (JsString.utf8Bytes (JsString.trim Messenger.hello))
      (Messenger.randomOf 2 (by decide)).encode = _ := hinit
  rw [hinit'] at hsend
  obtain ⟨s1, h1, hcalls1, hdevice1, hsent1, hused1⟩ := reach_send
    (G := fun s a => Fresh s a ∧ Apart s a) (s := start .empty) (.init rfl) _ [] hello_ne_nil
    bob_findContactBundle ⟨trivial, trivial⟩
  obtain ⟨s2, write, h2, hwrite, hcalls2, hdevice2, hsent2, hused2⟩ := reach_loaded (i := 0) h1
    (Messenger.randomOf 3 (by decide)).ea (Messenger.randomOf 2 (by decide)) (by rw [hcalls1]; rfl)
    (by rw [hdevice1]; exact hsend)
    ⟨by simp [Fresh, hused1, start], by simp [Apart, hcalls1, start, Call.pending]⟩
  obtain ⟨s3, h3, hdevice3, hcalls3, hsent3, hused3⟩ := reach_stored (i := 0) h2
    (Messenger.randomOf 4 (by decide)).ea (Messenger.randomOf 5 (by decide))
    (by rw [hcalls2, hcalls1]; rfl)
    ⟨by simp [Fresh, hused2, hused1, start, Messenger.randomOf],
      by simp [Apart, hcalls2, hcalls1, start, reads]⟩
  refine ⟨s3, sentOn (openedOn c) c, c, h3, ?_, ⟨rfl, rfl, rfl, rfl⟩, ?_, ?_, ?_⟩
  · rw [hdevice3]
    simp [Device.loadSession, Device.writeSession, hwrite]
  · simp [hsent3, hsent2, hsent1, start]
  · exact ⟨write.outcome, by simp [hcalls3, hcalls2, hcalls1, start]⟩
  · simp [hused3, hused2, hused1, start, Messenger.randomOf]

/-- What Bob's next send hands over. -/
theorem next_send {session : Option (RatchetState Symbolic.suite)} {y : RatchetState Symbolic.suite}
    {e : Chain Symbolic.suite} (hy : session = some y) (hsends : Sends y e 1) :
    ∃ m : Sent, ∀ random : SendRandom Symbolic.suite, random.encode = TwoParty.someRandom →
      sendEnvelope bob.identity alice ((TwoParty.someone .alice).keyBundle [])
        (JsString.utf8Bytes (JsString.trim Messenger.hello)) session random =
        .ok (some (m.envelope, sentOn y e)) := by
  obtain ⟨m, hon, -⟩ := sendOn_eq (a := TwoParty.someone .bob) (b := TwoParty.someone .alice) hsends
    (JsString.utf8Bytes (JsString.trim Messenger.hello)) TwoParty.someRandom
  refine ⟨m, fun random hr => ?_⟩
  have h := sendEnvelope_some (a := TwoParty.someone .bob) (b := TwoParty.someone .alice)
    ((TwoParty.someone .alice).keyBundle []) (JsString.utf8Bytes (JsString.trim Messenger.hello))
    y random
  rw [hr, hon] at h
  rw [hy]
  exact h

/-- Two sends that load before either has stored use one key. -/
theorem sends_overlap :
    ¬ ∀ s, (machine bob alice .empty).Reach Fresh s → SingleUse s := by
  intro hall
  obtain ⟨s, y, e, hs, hy, hsends, -, ⟨outcome, hcalls⟩, hused⟩ := first_send
  have hlen : s.calls.length = 1 := congrArg List.length hcalls
  obtain ⟨m, hsend⟩ := next_send hy hsends
  have hnot {n : ℕ} (hn : 6 ≤ n) (hlt : n < 256 ^ 32) :
      (Messenger.randomOf n hlt).ea ∉ s.used := fun hmem => by
    have : n < 6 := hused _ hmem
    omega
  obtain ⟨s1, h1, hcalls1, hdevice1, hsent1, hused1⟩ := reach_send (G := Fresh)
    (hs.mono fun _ _ hg => hg.1) Messenger.hello [] hello_ne_nil bob_findContactBundle trivial
  obtain ⟨s2, h2, hcalls2, hdevice2, hsent2, hused2⟩ := reach_send h1 Messenger.hello [] hello_ne_nil
    bob_findContactBundle trivial
  have hc1 : s2.calls[1]? = some (.sending (JsString.trim Messenger.hello) []
      ((TwoParty.someone .alice).keyBundle [])) := by
    simp [hcalls2, hcalls1, hlen]
  obtain ⟨s3, _, h3, -, hcalls3, hdevice3, hsent3, hused3⟩ := reach_loaded h2
    (Messenger.randomOf 6 (by decide)).ea (Messenger.randomOf 7 (by decide)) hc1
    (by rw [hdevice2, hdevice1]; exact hsend _ rfl)
    ⟨by rw [hused2, hused1]; exact hnot (by decide) _,
      by rw [hused2, hused1]; exact hnot (by decide) _⟩
  have hc2 : s3.calls[2]? = some (.sending (JsString.trim Messenger.hello) []
      ((TwoParty.someone .alice).keyBundle [])) := by
    simp [hcalls3, hcalls2, hcalls1, hlen]
  obtain ⟨s4, _, h4, -, -, -, hsent4, -⟩ := reach_loaded h3
    (Messenger.randomOf 8 (by decide)).ea (Messenger.randomOf 9 (by decide)) hc2
    (by rw [hdevice3, hdevice2, hdevice1]; exact hsend _ rfl)
    ⟨by
      rw [hused3, hused2, hused1]
      simp only [List.mem_cons, not_or]
      exact ⟨by simp [Messenger.randomOf], by simp [Messenger.randomOf], hnot (by decide) _⟩, by
      rw [hused3, hused2, hused1]
      simp only [List.mem_cons, not_or]
      exact ⟨by simp [Messenger.randomOf], by simp [Messenger.randomOf], hnot (by decide) _⟩⟩
  have hnodup := (hall s4 h4).sent
  rw [hsent4, hsent3, hdevice3, hdevice2, hdevice1, hy] at hnodup
  simp [slot, List.nodup_append] at hnodup

/-- Two sends, the second of which loads when the first has stored. -/
theorem single_use_first : ∃ s : Calls Symbolic.suite, s.sent.length = 2 ∧ s.calls.length = 2 ∧
    (∀ c ∈ s.calls, c.wrote = true) ∧ SingleUse s := by
  obtain ⟨s, y, e, hs, hy, hsends, hsent, ⟨outcome, hcalls⟩, hused⟩ := first_send
  obtain ⟨m, hsend⟩ := next_send hy hsends
  have hnot {n : ℕ} (hn : 6 ≤ n) (hlt : n < 256 ^ 32) :
      (Messenger.randomOf n hlt).ea ∉ s.used := fun hmem => by
    have : n < 6 := hused _ hmem
    omega
  obtain ⟨s1, h1, hcalls1, hdevice1, hsent1, hused1⟩ := reach_send hs Messenger.hello []
    hello_ne_nil bob_findContactBundle ⟨trivial, trivial⟩
  rw [hcalls] at hcalls1
  obtain ⟨s2, write, h2, -, hcalls2, -, hsent2, hused2⟩ := reach_loaded (i := 1) h1
    (Messenger.randomOf 6 (by decide)).ea (Messenger.randomOf 7 (by decide))
    (by rw [hcalls1]; rfl) (by rw [hdevice1]; exact hsend _ rfl)
    ⟨⟨by rw [hused1]; exact hnot (by decide) _, by rw [hused1]; exact hnot (by decide) _⟩,
      by simp [Apart, hcalls1, Call.pending]⟩
  obtain ⟨s3, h3, -, hcalls3, hsent3, -⟩ := reach_stored (i := 1) h2
    (Messenger.randomOf 8 (by decide)).ea (Messenger.randomOf 9 (by decide))
    (by rw [hcalls2, hcalls1]; rfl)
    ⟨by
      simp only [Fresh, hused2, hused1, List.mem_cons, not_or]
      exact ⟨⟨by simp [Messenger.randomOf], by simp [Messenger.randomOf], hnot (by decide) _⟩,
        by simp [Messenger.randomOf], by simp [Messenger.randomOf], hnot (by decide) _⟩,
      by simp [Apart, hcalls2, hcalls1, reads]⟩
  refine ⟨s3, ?_, ?_, ?_, single_use Symbolic.suite_ideal h3⟩
  · simp [hsent3, hsent2, hsent1, hsent]
  · simp [hcalls3, hcalls2, hcalls1]
  · simp [hcalls3, hcalls2, hcalls1, Call.wrote]

end Calls

end Epistl
