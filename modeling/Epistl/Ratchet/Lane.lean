import Epistl.Ratchet.TwoParty

/-! # The invariant of one direction

What a sender has produced falls into four stretches: chains the receiver is done
with, the part of its receiving chain it has accepted, the part it has not, and one
newer chain it may not have seen yet. Only two messages can be accepted next, the
first pending one and the first of the newest chain.
-/
namespace Epistl
variable {S : Suite}

/-- Both secrets of a chain were generated already. -/
def Chain.Within (used : List S.X25519Secret) (c : Chain S) : Prop :=
  c.secret ∈ used ∧ c.peer ∈ used

theorem Chain.Within.mono {used : List S.X25519Secret} {c : Chain S} (h : c.Within used)
    (a : S.X25519Secret) : c.Within (a :: used) :=
  ⟨List.mem_cons_of_mem _ h.1, List.mem_cons_of_mem _ h.2⟩

structure Lane (d : Direction S) (used : List S.X25519Secret) (y : RatchetState S)
    (older current pending newest : List Sent) (c c' : Option (Chain S)) : Prop where
  peerKey : y.dhrPublicKey = c.map Chain.publicKey
  chainKey : ∀ e ∈ c, y.receivingChainKey = some (e.key current.length)
  number : ∀ e ∈ c, y.receiveMessageNumber = current.length
  onChain : ∀ i m, (current ++ pending)[i]? = some m → ∃ e ∈ c, IsHonest d e i m
  onPending : ∀ i m, pending[i]? = some m → ∃ e ∈ c, IsRatchet d e (current.length + i) m
  onNewest : ∀ i m, newest[i]? = some m → ∃ e ∈ c', IsRatchet d e i m
  onOlder : ∀ m ∈ older, ∃ e i, IsHonest d e i m ∧ e.Within used ∧ e.peer ≠ y.dhsSecretKey ∧
    (∀ f ∈ c, e.secret ≠ f.secret) ∧ ∀ f ∈ c', e.secret ≠ f.secret
  ahead : ∀ e ∈ c', e.peer = y.dhsSecretKey ∧ e.root = y.rootKey ∧ ∀ f ∈ c, f.secret ≠ e.secret
  within : ∀ e ∈ c, e.Within used
  within' : ∀ e ∈ c', e.Within used
  receiver : y.dhsSecretKey ∈ used
  started : current = [] → older = []

/-- What the receiver has accepted, against the stretches of its peer's messages. -/
structure Received (keys : List Bytes) (accepted : List ℕ) (settled recent : ℕ) : Prop where
  taken : Taken keys accepted
  below : ∀ i ∈ accepted, i < settled + recent
  recentAll : ∀ i, settled ≤ i → i < settled + recent → i ∈ accepted
  contiguous : Contiguous keys

/-- The sender is about to send message `n` of a chain. -/
structure Sends (x : RatchetState S) (c : Chain S) (n : ℕ) : Prop where
  secret : x.dhsSecretKey = c.secret
  publicKey : x.dhsPublicKey = c.publicKey
  chainKey : x.sendingChainKey = some (c.key n)
  number : x.sendMessageNumber = n

namespace Lane
variable {d : Direction S} {used : List S.X25519Secret} {x y : RatchetState S}
  {older current pending newest : List Sent} {c c' : Option (Chain S)} {m : Sent}
  {newDhs : S.X25519Secret}

/-- A direction only reads these five fields of the receiver. -/
theorem congr (h : Lane d used y older current pending newest c c') {y' : RatchetState S}
    (hp : y'.dhrPublicKey = y.dhrPublicKey) (hk : y'.receivingChainKey = y.receivingChainKey)
    (hn : y'.receiveMessageNumber = y.receiveMessageNumber) (hs : y'.dhsSecretKey = y.dhsSecretKey)
    (hr : y'.rootKey = y.rootKey) : Lane d used y' older current pending newest c c' where
  peerKey := hp.trans h.peerKey
  chainKey := fun e he => hk.trans (h.chainKey e he)
  number := fun e he => hn.trans (h.number e he)
  onChain := h.onChain
  onPending := h.onPending
  onNewest := h.onNewest
  onOlder := hs.symm ▸ h.onOlder
  ahead := hs.symm ▸ hr.symm ▸ h.ahead
  within := h.within
  within' := h.within'
  receiver := hs.symm ▸ h.receiver
  started := h.started

theorem mono (h : Lane d used y older current pending newest c c') (a : S.X25519Secret) :
    Lane d (a :: used) y older current pending newest c c' where
  peerKey := h.peerKey
  chainKey := h.chainKey
  number := h.number
  onChain := h.onChain
  onPending := h.onPending
  onNewest := h.onNewest
  onOlder := fun m hm => by
    obtain ⟨e, i, hi, hw, hrest⟩ := h.onOlder m hm
    exact ⟨e, i, hi, hw.mono _, hrest⟩
  ahead := h.ahead
  within := fun e he => (h.within e he).mono _
  within' := fun e he => (h.within' e he).mono _
  receiver := List.mem_cons_of_mem _ h.receiver
  started := h.started

theorem peerKey_ne (hS : S.Ideal) (h : Lane d used y older current pending newest c c')
    {e : Chain S} (he : e ∈ c') : y.dhrPublicKey ≠ some e.publicKey := by
  rw [h.peerKey]
  intro hk
  obtain ⟨f, hf, hfe⟩ := Option.map_eq_some_iff.mp hk
  exact (h.ahead e he).2.2 f hf (Chain.publicKey_injective hS hfe)

/-- The decoder's outcomes on the envelope `m` at position `k` of this direction. -/
inductive Outcome (y : RatchetState S) (older current pending newest : List Sent)
    (c c' : Option (Chain S)) (newDhs : S.X25519Secret) (k : ℕ) (m : Sent) :
    Except Thrown (DecodeResult S) → Prop
  | refused (reason : FailureReason) :
    (k = older.length + current.length → pending ≠ [] → 2 ^ 32 ≤ current.length) →
    (k = older.length + current.length + pending.length → newest = []) →
    Outcome y older current pending newest c c' newDhs k m (.ok (.failure reason))
  | next (e : Chain S) (rest : List Sent) : c = some e → pending = m :: rest →
    k = older.length + current.length → current.length < 2 ^ 32 →
    Outcome y older current pending newest c c' newDhs k m (.ok (.success m.plaintext { y with
      receivingChainKey := some (e.key (current.length + 1))
      receiveMessageNumber := current.length + 1 }))
  | ratchet (e f : Chain S) (rest : List Sent) : c' = some e → newest = m :: rest →
    k = older.length + current.length + pending.length →
    f.secret = newDhs → f.peer = e.secret → f.root = e.nextRoot →
    Outcome y older current pending newest c c' newDhs k m
      (.ok (.success m.plaintext (ratchetedTo e.publicKey e f y.sendMessageNumber)))

/-- A handshake envelope is never accepted by the ratchet decoder. -/
theorem refuse_honest {e : Chain S} {n : ℕ} (hm : IsHonest d e n m)
    (hratchet : IsRatchet d e n m →
      ∃ reason, decodeRatchetEnvelope m.envelope (d.params y) newDhs = .ok (.failure reason)) :
    ∃ reason, decodeRatchetEnvelope m.envelope (d.params y) newDhs = .ok (.failure reason) := by
  rcases hm with hm | ⟨-, -, kct, random, he⟩
  · exact hratchet hm
  · rw [he]
    exact decodeRatchetEnvelope_handshake _

theorem decode_older (hS : S.Ideal) (h : Lane d used y older current pending newest c c')
    (hm : m ∈ older) :
    ∃ reason, decodeRatchetEnvelope m.envelope (d.params y) newDhs = .ok (.failure reason) := by
  obtain ⟨e, i, hi, -, hpeer, hc, -⟩ := h.onOlder m hm
  refine refuse_honest hi fun hr => decode_new_refused hS hr ?_ fun he => absurd he hpeer
  rw [h.peerKey]
  intro hk
  obtain ⟨f, hf, hfe⟩ := Option.map_eq_some_iff.mp hk
  exact hc f hf (Chain.publicKey_injective hS hfe).symm

theorem decode_current (hS : S.Ideal) (h : Lane d used y older current pending newest c c')
    {i : ℕ} (hm : current[i]? = some m) :
    ∃ reason, decodeRatchetEnvelope m.envelope (d.params y) newDhs = .ok (.failure reason) := by
  have hlt := (List.getElem?_eq_some_iff.mp hm).1
  obtain ⟨e, he, hi⟩ := h.onChain i m (by rw [List.getElem?_append_left hlt, hm])
  have hp : y.dhrPublicKey = some e.publicKey := by rw [h.peerKey, Option.mem_def.mp he]; rfl
  exact refuse_honest hi fun hr =>
    decode_same_refused hS hr hp (h.chainKey e he) (h.number e he) (by omega)

theorem decode_pending_refused (hS : S.Ideal)
    (h : Lane d used y older current pending newest c c') (newDhs : S.X25519Secret) {i : ℕ}
    (hm : pending[i]? = some m) (hi : ¬ (i = 0 ∧ current.length < 2 ^ 32)) :
    ∃ reason, decodeRatchetEnvelope m.envelope (d.params y) newDhs = .ok (.failure reason) := by
  obtain ⟨e, he, hr⟩ := h.onPending i m hm
  have hp : y.dhrPublicKey = some e.publicKey := by rw [h.peerKey, Option.mem_def.mp he]; rfl
  exact decode_same_refused hS hr hp (h.chainKey e he) (h.number e he) (by omega)

theorem decode_newest_refused (hS : S.Ideal)
    (h : Lane d used y older current pending newest c c') (newDhs : S.X25519Secret) {i : ℕ}
    (hm : newest[i]? = some m) (hi : i ≠ 0) :
    ∃ reason, decodeRatchetEnvelope m.envelope (d.params y) newDhs = .ok (.failure reason) := by
  obtain ⟨e, he, hr⟩ := h.onNewest i m hm
  exact decode_new_refused hS hr (h.peerKey_ne hS he) fun _ => hi

/-- What decoding does at every position of the direction. -/
theorem decode (hS : S.Ideal) (h : Lane d used y older current pending newest c c')
    (newDhs : S.X25519Secret) {k : ℕ}
    (hk : (older ++ current ++ pending ++ newest)[k]? = some m) :
    Outcome y older current pending newest c c' newDhs k m
      (decodeRatchetEnvelope m.envelope (d.params y) newDhs) := by
  rw [List.getElem?_append, List.getElem?_append, List.getElem?_append] at hk
  simp only [List.length_append] at hk
  split at hk
  · rename_i hkp
    split at hk
    · rename_i hkc
      have hrefused : ∃ reason, decodeRatchetEnvelope m.envelope (d.params y) newDhs =
          .ok (.failure reason) := by
        split at hk
        · exact h.decode_older hS (List.mem_of_getElem? hk)
        · exact h.decode_current hS hk
      obtain ⟨reason, hr⟩ := hrefused
      rw [hr]
      exact .refused reason (by omega) (by omega)
    · rename_i hkc
      by_cases hi : k - (older.length + current.length) = 0 ∧ current.length < 2 ^ 32
      · obtain ⟨hi, hlt⟩ := hi
        rw [hi] at hk
        obtain ⟨e, he, hr⟩ := h.onPending 0 m hk
        have hp : y.dhrPublicKey = some e.publicKey := by rw [h.peerKey, Option.mem_def.mp he]; rfl
        cases hpend : pending with
        | nil => simp [hpend] at hk
        | cons m' rest =>
          rw [hpend, List.getElem?_cons_zero, Option.some.injEq] at hk
          subst hk
          rw [Nat.add_zero] at hr
          rw [decode_next hS hr hp (h.chainKey e he) (h.number e he) hlt]
          exact .next e rest he rfl (by omega) hlt
      · obtain ⟨reason, hr⟩ := h.decode_pending_refused hS newDhs hk hi
        rw [hr]
        exact .refused reason (fun _ _ => by omega) (fun _ => by omega)
  · rename_i hkp
    by_cases hi : k - (older.length + current.length + pending.length) = 0
    · rw [hi] at hk
      obtain ⟨e, he, hr⟩ := h.onNewest 0 m hk
      cases hnew : newest with
      | nil => simp [hnew] at hk
      | cons m' rest =>
        rw [hnew, List.getElem?_cons_zero, Option.some.injEq] at hk
        subst hk
        obtain ⟨f, hf1, hf2, hf3, hd⟩ := decode_new hS newDhs hr (h.peerKey_ne hS he)
          (h.ahead e he).1 (h.ahead e he).2.1
        rw [hd]
        exact .ratchet e f rest he rfl (by omega) hf1 hf2 hf3
    · obtain ⟨reason, hr⟩ := h.decode_newest_refused hS newDhs hk hi
      rw [hr]
      exact .refused reason (fun h1 h2 => by
        have := List.length_pos_iff.mpr h2
        omega) (by omega)

theorem key_older (hS : S.Ideal) (h : Lane d used y older current pending newest c c')
    (hm : m ∈ older) : (∀ f ∈ c, m.dhPublicKey ≠ f.publicKey) ∧
      ∀ f ∈ c', m.dhPublicKey ≠ f.publicKey := by
  obtain ⟨e, i, hi, -, -, hc, hc'⟩ := h.onOlder m hm
  rw [hi.dhPublicKey]
  exact ⟨fun f hf he => hc f hf (Chain.publicKey_injective hS he),
    fun f hf he => hc' f hf (Chain.publicKey_injective hS he)⟩

theorem key_chain (h : Lane d used y older current pending newest c c')
    (hm : m ∈ current ++ pending) : ∃ e ∈ c, m.dhPublicKey = e.publicKey := by
  obtain ⟨i, hi⟩ := List.mem_iff_getElem?.mp hm
  obtain ⟨e, he, hi⟩ := h.onChain i m hi
  exact ⟨e, he, hi.dhPublicKey⟩

theorem key_newest (h : Lane d used y older current pending newest c c') (hm : m ∈ newest) :
    ∃ e ∈ c', m.dhPublicKey = e.publicKey := by
  obtain ⟨i, hi⟩ := List.mem_iff_getElem?.mp hm
  obtain ⟨e, he, hi⟩ := h.onNewest i m hi
  exact ⟨e, he, hi.1⟩

/-- No message before the newest chain carries its key. -/
theorem key_before (hS : S.Ideal) (h : Lane d used y older current pending newest c c')
    {e : Chain S} (he : e ∈ c') (hm : m ∈ older ++ current ++ pending) :
    m.dhPublicKey ≠ e.publicKey := by
  rw [List.append_assoc] at hm
  rcases List.mem_append.mp hm with hm | hm
  · exact (h.key_older hS hm).2 e he
  · obtain ⟨f, hf, hk⟩ := h.key_chain hm
    rw [hk]
    exact fun hfe => (h.ahead e he).2.2 f hf (Chain.publicKey_injective hS hfe)

/-- The receiver takes the first pending message. -/
theorem advance {e : Chain S} {rest : List Sent}
    (h : Lane d used y older current (m :: rest) newest (some e) c') :
    Lane d used { y with
      receivingChainKey := some (e.key (current.length + 1))
      receiveMessageNumber := current.length + 1 }
      older (current ++ [m]) rest newest (some e) c' where
  peerKey := h.peerKey
  chainKey := by
    rintro _ ⟨⟩
    simp
  number := by simp
  onChain := by simpa using h.onChain
  onPending := fun i m' hi => by
    obtain ⟨f, hf, hr⟩ := h.onPending (i + 1) m' (by simpa using hi)
    refine ⟨f, hf, ?_⟩
    rw [List.length_append, List.length_singleton]
    rwa [Nat.add_comm i 1, ← Nat.add_assoc] at hr
  onNewest := h.onNewest
  onOlder := h.onOlder
  ahead := h.ahead
  within := h.within
  within' := h.within'
  receiver := h.receiver
  started := by simp

/-- The receiver ratchets to the newest chain under a fresh key of its own. -/
theorem ratchet {e f : Chain S} {rest : List Sent} {n : ℕ}
    (h : Lane d used y older current pending (m :: rest) c (some e)) (hf : f.secret ∉ used) :
    Lane d (f.secret :: used) (ratchetedTo e.publicKey e f n) (older ++ current ++ pending) [m] rest
      [] (some e) none where
  peerKey := rfl
  chainKey := by
    rintro _ ⟨⟩
    rfl
  number := by
    rintro _ ⟨⟩
    rfl
  onChain := fun i m' hi => by
    obtain ⟨e', he', hr⟩ := h.onNewest i m' hi
    exact ⟨e', he', .inl hr⟩
  onPending := fun i m' hi => by
    obtain ⟨e', he', hr⟩ := h.onNewest (i + 1) m' hi
    refine ⟨e', he', ?_⟩
    rwa [List.length_singleton, Nat.add_comm 1 i]
  onNewest := by simp
  onOlder := fun m' hm' => by
    have hfresh {g : Chain S} (hg : g.Within used) : g.peer ≠ f.secret := by
      intro he
      exact hf (he ▸ hg.2)
    rw [List.append_assoc] at hm'
    rcases List.mem_append.mp hm' with hm' | hm'
    · obtain ⟨g, i, hi, hw, -, -, hc'⟩ := h.onOlder m' hm'
      exact ⟨g, i, hi, hw.mono _, hfresh hw, hc',
        by simp⟩
    · obtain ⟨i, hi⟩ := List.mem_iff_getElem?.mp hm'
      obtain ⟨g, hg, hi⟩ := h.onChain i m' hi
      have hw := h.within g hg
      refine ⟨g, i, hi, hw.mono _, hfresh hw, ?_,
        by simp⟩
      rintro _ ⟨⟩
      exact (h.ahead e rfl).2.2 g hg
  ahead := by simp
  within := by
    rintro _ ⟨⟩
    exact (h.within' e rfl).mono _
  within' := by simp
  receiver := List.mem_cons_self
  started := by simp

/-- The sender opens a chain under a fresh key. -/
theorem openChain {f : Chain S} (h : Lane d used y older current pending [] c none)
    (hf : f.secret ∉ used) (hpeer : f.peer = y.dhsSecretKey) (hroot : f.root = y.rootKey) :
    Lane d (f.secret :: used) y older current pending [] c (some f) where
  peerKey := h.peerKey
  chainKey := h.chainKey
  number := h.number
  onChain := h.onChain
  onPending := h.onPending
  onNewest := by simp
  onOlder := fun m hm => by
    obtain ⟨e, i, hi, hw, hne, hc, -⟩ := h.onOlder m hm
    refine ⟨e, i, hi, hw.mono _, hne, hc, ?_⟩
    rintro _ ⟨⟩ he
    exact hf (he ▸ hw.1)
  ahead := by
    rintro _ ⟨⟩
    exact ⟨hpeer, hroot, fun g hg he => hf (he ▸ (h.within g hg).1)⟩
  within := fun e he => (h.within e he).mono _
  within' := by
    rintro _ ⟨⟩
    exact ⟨List.mem_cons_self, List.mem_cons_of_mem _ (hpeer ▸ h.receiver)⟩
  receiver := List.mem_cons_of_mem _ h.receiver
  started := h.started

theorem getElem?_concat_cases {l : List Sent} {i : ℕ} {m m' : Sent} (h : (l ++ [m])[i]? = some m') :
    l[i]? = some m' ∨ i = l.length ∧ m' = m := by
  rw [List.getElem?_append] at h
  split at h
  · exact .inl h
  · rename_i hlt
    obtain ⟨hi, hm⟩ := List.getElem?_eq_some_iff.mp h
    simp only [List.length_singleton] at hi
    exact .inr ⟨by omega, by simpa using hm.symm⟩

/-- A message sent on the chain the receiver is on. -/
theorem pushPending {e : Chain S} (h : Lane d used y older current pending newest (some e) c')
    (hm : IsRatchet d e (current.length + pending.length) m) :
    Lane d used y older current (pending ++ [m]) newest (some e) c' :=
  { h with
    onChain := fun i m' hi => by
      rw [← List.append_assoc] at hi
      rcases getElem?_concat_cases hi with hi | ⟨rfl, rfl⟩
      · exact h.onChain i m' hi
      · exact ⟨e, rfl, .inl (by rwa [List.length_append])⟩
    onPending := fun i m' hi => by
      rcases getElem?_concat_cases hi with hi | ⟨rfl, rfl⟩
      · exact h.onPending i m' hi
      · exact ⟨e, rfl, hm⟩ }

/-- A message sent on the newest chain. -/
theorem pushNewest {e : Chain S} (h : Lane d used y older current pending newest c (some e))
    (hm : IsRatchet d e newest.length m) :
    Lane d used y older current pending (newest ++ [m]) c (some e) :=
  { h with
    onNewest := fun i m' hi => by
      rcases getElem?_concat_cases hi with hi | ⟨rfl, rfl⟩
      · exact h.onNewest i m' hi
      · exact ⟨e, rfl, hm⟩ }

end Lane

end Epistl
