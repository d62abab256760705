import Epistl.Ratchet.Lane

/-! # The invariant of an established session

One side always owns the newest ratchet key: its direction has a chain the other
side has not seen, the opposite direction has none. A ratchet step hands that role
over; every other step keeps it.
-/
namespace Epistl
variable {S : Suite} {d : Direction S} {used : List S.X25519Secret} {x y : RatchetState S}
  {m : Sent}

namespace Received
variable {keys : List Bytes} {accepted : List ℕ} {settled recent : ℕ}

theorem send (h : Received keys accepted settled recent) {k : Bytes}
    (hk : keys.getLast? = some k ∨ k ∉ keys) : Received (keys ++ [k]) accepted settled recent where
  taken := h.taken.grow _
  below := h.below
  recentAll := h.recentAll
  contiguous := h.contiguous.concat hk

/-- Accepting the next message of the chain being received. -/
theorem next (h : Received keys accepted settled recent) (hlt : settled + recent < keys.length)
    (hne : ∀ j < settled, keys[j]? ≠ keys[settled + recent]?) :
    Received keys (accepted ++ [settled + recent]) settled (recent + 1) where
  taken := h.taken.take hlt h.below fun j hj he => by
    by_cases hjs : j < settled
    · exact absurd he (hne j hjs)
    · exact h.recentAll j (by omega) hj
  below := fun i hi => by
    rcases List.mem_append.mp hi with hi | hi
    · have := h.below i hi
      omega
    · rw [List.mem_singleton.mp hi]
      omega
  recentAll := fun i hs hi => by
    by_cases he : i = settled + recent
    · rw [he]
      simp
    · exact List.mem_append_left _ (h.recentAll i hs (by omega))
  contiguous := h.contiguous

/-- Accepting the first message of a chain not received from before. -/
theorem ratchet (h : Received keys accepted settled recent) {k : ℕ} (hlt : k < keys.length)
    (hk : settled + recent ≤ k) (hne : ∀ j < k, keys[j]? ≠ keys[k]?) :
    Received keys (accepted ++ [k]) k 1 where
  taken := h.taken.take hlt (fun j hj => Nat.lt_of_lt_of_le (h.below j hj) hk)
    fun j hj he => absurd he (hne j hj)
  below := fun i hi => by
    rcases List.mem_append.mp hi with hi | hi
    · have := h.below i hi
      omega
    · rw [List.mem_singleton.mp hi]
      omega
  recentAll := fun i hs hi => by
    rw [show i = k by omega]
    simp
  contiguous := h.contiguous

end Received

/-- The receiver has met the sender's current chain, or the sender has none newer. -/
def CaughtUp (d : Direction S) (used : List S.X25519Secret) (x y : RatchetState S)
    (produced : List Sent) (accepted : List ℕ) : Prop :=
  ∃ older current pending e, produced = older ++ current ++ pending ∧
    Lane d used y older current pending [] (some e) none ∧
    Received (produced.map Sent.dhPublicKey) accepted older.length current.length ∧
    Sends x e (current.length + pending.length)

/-- The sender is on a chain the receiver has not met. -/
def Ahead (d : Direction S) (used : List S.X25519Secret) (x y : RatchetState S)
    (produced : List Sent) (accepted : List ℕ) : Prop :=
  ∃ older current pending newest c e, produced = older ++ current ++ pending ++ newest ∧
    Lane d used y older current pending newest c (some e) ∧
    Received (produced.map Sent.dhPublicKey) accepted older.length current.length ∧
    Sends x e newest.length ∧ x.rootKey = e.nextRoot

section keys
variable {older current pending newest : List Sent} {c c' : Option (Chain S)} {e : Chain S}

theorem Lane.last_pending (h : Lane d used y older current pending [] (some e) none) :
    ((older ++ current ++ pending).map Sent.dhPublicKey).getLast? = some e.publicKey ∨
      e.publicKey ∉ (older ++ current ++ pending).map Sent.dhPublicKey := by
  by_cases hnil : current ++ pending = []
  · obtain ⟨hc, hp⟩ := List.append_eq_nil_iff.mp hnil
    exact .inr (by simp [hc, hp, h.started hc])
  · obtain ⟨l, m, hl⟩ := List.eq_nil_or_concat (current ++ pending) |>.resolve_left hnil
    obtain ⟨f, hf, hk⟩ := h.key_chain (m := m) (by rw [hl]; simp)
    cases hf
    refine .inl ?_
    rw [List.append_assoc, hl, List.concat_eq_append, ← List.append_assoc, List.map_append]
    simp [hk]

theorem Lane.last_newest (hS : S.Ideal) (h : Lane d used y older current pending newest c (some e)) :
    ((older ++ current ++ pending ++ newest).map Sent.dhPublicKey).getLast? = some e.publicKey ∨
      e.publicKey ∉ (older ++ current ++ pending ++ newest).map Sent.dhPublicKey := by
  rcases List.eq_nil_or_concat newest with rfl | ⟨l, m, rfl⟩
  · refine .inr fun hmem => ?_
    rw [List.append_nil] at hmem
    obtain ⟨m, hm, hk⟩ := List.mem_map.mp hmem
    exact h.key_before hS rfl hm hk
  · obtain ⟨f, hf, hk⟩ := h.key_newest (m := m) (by simp)
    cases hf
    refine .inl ?_
    rw [List.concat_eq_append, ← List.append_assoc, List.map_append]
    simp [hk]

theorem countP_keys_all {l : List Sent} {k : Bytes} (h : ∀ m ∈ l, m.dhPublicKey = k) :
    (l.map Sent.dhPublicKey).countP (fun a => a = k) = l.length := by
  rw [← List.length_map (f := Sent.dhPublicKey), List.countP_eq_length]
  intro a ha
  obtain ⟨m, hm, rfl⟩ := List.mem_map.mp ha
  simpa using h m hm

theorem countP_keys_none {l : List Sent} {k : Bytes} (h : ∀ m ∈ l, m.dhPublicKey ≠ k) :
    (l.map Sent.dhPublicKey).countP (fun a => a = k) = 0 := by
  rw [List.countP_eq_zero]
  intro a ha
  obtain ⟨m, hm, rfl⟩ := List.mem_map.mp ha
  simpa using h m hm

theorem rank_keys (before after : List Sent) (m : Sent) :
    rank ((before ++ m :: after).map Sent.dhPublicKey) before.length =
      (before.map Sent.dhPublicKey).countP fun a => a = m.dhPublicKey := by
  rw [List.map_append, List.map_cons, ← rank_append, List.length_map]

theorem Lane.key_eq_chain (h : Lane d used y older current pending newest (some e) c')
    (hm : m ∈ current ++ pending) : m.dhPublicKey = e.publicKey := by
  obtain ⟨f, hf, hk⟩ := h.key_chain hm
  cases hf
  exact hk

theorem Lane.key_eq_newest (h : Lane d used y older current pending newest c (some e))
    (hm : m ∈ newest) : m.dhPublicKey = e.publicKey := by
  obtain ⟨f, hf, hk⟩ := h.key_newest hm
  cases hf
  exact hk

/-- The first pending message is as many messages into its chain as were accepted from it. -/
theorem Lane.rank_pending (hS : S.Ideal) {rest : List Sent}
    (h : Lane d used y older current (m :: rest) newest c c') :
    rank ((older ++ current ++ m :: rest ++ newest).map Sent.dhPublicKey)
      (older.length + current.length) = current.length := by
  obtain ⟨e, rfl, hm⟩ := h.key_chain (m := m) (by simp)
  rw [List.append_assoc (older ++ current), List.cons_append, ← List.length_append, rank_keys,
    List.map_append, List.countP_append, hm,
    countP_keys_none fun m' hm' => (h.key_older hS hm').1 e rfl,
    countP_keys_all fun m' hm' => h.key_eq_chain (List.mem_append_left _ hm'), Nat.zero_add]

theorem Lane.rank_newest (hS : S.Ideal) {rest : List Sent}
    (h : Lane d used y older current pending (m :: rest) c c') :
    rank ((older ++ current ++ pending ++ m :: rest).map Sent.dhPublicKey)
      (older.length + current.length + pending.length) = 0 := by
  obtain ⟨e, he, hm⟩ := h.key_newest (m := m) List.mem_cons_self
  rw [← List.length_append, ← List.length_append, rank_keys, hm,
    countP_keys_none fun m' hm' => h.key_before hS he hm']

/-- A message sent on the chain being received extends that chain by one. -/
theorem Lane.rank_send_pending (hS : S.Ideal) (h : Lane d used y older current pending [] (some e) c')
    (hm : m.dhPublicKey = e.publicKey) :
    rank ((older ++ current ++ pending ++ [m]).map Sent.dhPublicKey)
      (older ++ current ++ pending).length = current.length + pending.length := by
  rw [rank_keys, hm, List.append_assoc, List.map_append, List.countP_append,
    countP_keys_none fun m' hm' => (h.key_older hS hm').1 e rfl,
    countP_keys_all fun m' hm' => h.key_eq_chain hm', Nat.zero_add, List.length_append]

theorem Lane.rank_send_newest (hS : S.Ideal)
    (h : Lane d used y older current pending newest c (some e)) (hm : m.dhPublicKey = e.publicKey) :
    rank ((older ++ current ++ pending ++ newest ++ [m]).map Sent.dhPublicKey)
      (older ++ current ++ pending ++ newest).length = newest.length := by
  rw [rank_keys, hm, List.map_append, List.countP_append,
    countP_keys_none fun m' hm' => h.key_before hS rfl hm',
    countP_keys_all fun m' hm' => h.key_eq_newest hm', Nat.zero_add]

end keys

/-- A position that is next in order: nothing accepted lies beyond it, and all of its
chain before it was accepted. -/
structure NextInOrder (keys : List Bytes) (accepted : List ℕ) (k : ℕ) : Prop where
  lt_length : k < keys.length
  later : ∀ i ∈ accepted, i < k
  previous : ∀ j < k, keys[j]? = keys[k]? → j ∈ accepted

/-- A decode that returns `ok: true` with this plaintext. -/
def Accepts (r : Except Thrown (DecodeResult S)) (plaintext : Bytes) : Prop :=
  ∃ next, r = .ok (.success plaintext next)

/-- Only the first pending message and the first of the newest chain can be next. -/
theorem Lane.next_position {older current pending newest : List Sent} {c c' : Option (Chain S)}
    {accepted : List ℕ} {k : ℕ} (h : Lane d used y older current pending newest c c')
    (hr : Received ((older ++ current ++ pending ++ newest).map Sent.dhPublicKey) accepted
      older.length current.length)
    (hk : (older ++ current ++ pending ++ newest)[k]? = some m)
    (hnext : NextInOrder ((older ++ current ++ pending ++ newest).map Sent.dhPublicKey) accepted k) :
    k = older.length + current.length ∧ pending ≠ [] ∨
      k = older.length + current.length + pending.length ∧ newest ≠ [] := by
  have hfrom : older.length + current.length ≤ k := by
    by_cases hc : current = []
    · rw [hc, h.started hc]
      exact Nat.zero_le _
    · have hpos := List.length_pos_iff.mpr hc
      have := hnext.later (older.length + current.length - 1) (hr.recentAll _ (by omega) (by omega))
      omega
  -- an unaccepted message of the same chain before `k` contradicts `k` being next
  have hskip {i : ℕ} {m' : Sent} (hi : (older ++ current ++ pending ++ newest)[i]? = some m')
      (hfrom : older.length + current.length ≤ i) (hik : i < k) :
      m'.dhPublicKey ≠ m.dhPublicKey := fun he => by
    have := hr.below i (hnext.previous i hik (by
      rw [List.getElem?_map, List.getElem?_map, hi, hk, Option.map_some, Option.map_some, he]))
    omega
  by_cases hkp : k < older.length + current.length + pending.length
  · refine .inl ⟨?_, fun hp => by simp only [hp, List.length_nil] at hkp; omega⟩
    by_contra hne
    obtain ⟨m', rest, rfl⟩ := List.exists_cons_of_length_pos (l := pending) (by omega)
    have hget : (older ++ current ++ m' :: rest ++ newest)[older.length + current.length]? =
        some m' := by simp
    refine hskip hget (Nat.le_refl _) (by omega) ?_
    obtain ⟨e, he, hm'⟩ := h.key_chain (m := m') (by simp)
    obtain ⟨f, hf, hm⟩ := h.key_chain (m := m) (List.mem_append_right _ (by
      rw [List.getElem?_append_left (by simp at hkp ⊢; omega),
        List.getElem?_append_right (by simpa using hfrom)] at hk
      exact List.mem_of_getElem? hk))
    cases (Option.mem_def.mp he).symm.trans (Option.mem_def.mp hf)
    rw [hm', hm]
  · have hmem : m ∈ newest := by
      rw [List.getElem?_append_right (by simp; omega)] at hk
      exact List.mem_of_getElem? hk
    refine .inr ⟨?_, List.ne_nil_of_mem hmem⟩
    by_contra hne
    obtain ⟨m', rest, rfl⟩ := List.exists_cons_of_ne_nil (List.ne_nil_of_mem hmem)
    have hget : (older ++ current ++ pending ++ m' :: rest)[older.length + current.length +
        pending.length]? = some m' := by simp [Nat.add_assoc]
    refine hskip hget (by omega) (by omega) ?_
    obtain ⟨e, he, hm'⟩ := h.key_newest (m := m') List.mem_cons_self
    obtain ⟨f, hf, hm⟩ := h.key_newest hmem
    cases (Option.mem_def.mp he).symm.trans (Option.mem_def.mp hf)
    rw [hm', hm]

/-- The envelope next in order is accepted exactly while its number fits the wire field. -/
theorem Lane.next_iff (hS : S.Ideal) {older current pending newest : List Sent}
    {c c' : Option (Chain S)} {accepted : List ℕ} {k : ℕ} {newDhs : S.X25519Secret}
    (h : Lane d used y older current pending newest c c')
    (hr : Received ((older ++ current ++ pending ++ newest).map Sent.dhPublicKey) accepted
      older.length current.length)
    (hk : (older ++ current ++ pending ++ newest)[k]? = some m)
    (hnext : NextInOrder ((older ++ current ++ pending ++ newest).map Sent.dhPublicKey) accepted k) :
    Accepts (decodeRatchetEnvelope m.envelope (d.params y) newDhs) m.plaintext ↔
      rank ((older ++ current ++ pending ++ newest).map Sent.dhPublicKey) k < 2 ^ 32 := by
  have hpos := h.next_position hr hk hnext
  have hd := h.decode hS newDhs hk
  constructor
  · rintro ⟨next, he⟩
    rw [he] at hd
    cases hd with
    | next e rest _ hp hk' hlt =>
      subst hp
      rwa [hk', h.rank_pending hS]
    | ratchet e f rest _ hn hk' _ _ _ =>
      subst hn
      rw [hk', h.rank_newest hS]
      exact Nat.two_pow_pos 32
  · intro hlt
    generalize decodeRatchetEnvelope m.envelope (d.params y) newDhs = r at hd
    cases hd with
    | refused reason hpend hnew =>
      rcases hpos with ⟨hk', hne⟩ | ⟨hk', hne⟩
      · obtain ⟨m', rest, rfl⟩ := List.exists_cons_of_ne_nil hne
        rw [hk', h.rank_pending hS] at hlt
        exact absurd (hpend hk' hne) (Nat.not_le_of_lt hlt)
      · exact absurd (hnew hk') hne
    | next e rest _ _ _ _ => exact ⟨_, rfl⟩
    | ratchet e f rest _ _ _ _ _ _ => exact ⟨_, rfl⟩

section steps
variable {produced : List Sent} {accepted : List ℕ} {a b : Identity S} {newDhs : S.X25519Secret}
  {k : ℕ}

/-- The state after sending a message. -/
def sentOn (x : RatchetState S) (e : Chain S) : RatchetState S :=
  { x with
    sendingChainKey := some (e.key (x.sendMessageNumber + 1))
    sendMessageNumber := x.sendMessageNumber + 1 }

theorem sendOn_eq {e : Chain S} {n : ℕ} (h : Sends x e n) (plaintext : Bytes)
    (random : EncodeRandom) :
    ∃ m : Sent, TwoParty.sendOn a b x plaintext random = .ok (sentOn x e, m) ∧
      m.plaintext = plaintext ∧ IsRatchet (a.toward b) e n m ∧ Sends (sentOn x e) e (n + 1) := by
  obtain ⟨hsecret, hpublic, hkey, rfl⟩ := h
  refine ⟨⟨encodeRatchetEnvelope ⟨e.publicKey, x.previousSendingChainLength, x.sendMessageNumber⟩
    (e.messageKey x.sendMessageNumber) plaintext a.userId b.userId a.dilithiumSecretKey random,
    e.publicKey, plaintext⟩, ?_, rfl, ⟨rfl, x.previousSendingChainLength, random, rfl⟩,
    hsecret, hpublic, rfl, rfl⟩
  rw [TwoParty.sendOn, deriveNextSendingMessageKey_of_some hkey]
  simp only [← hpublic]
  rfl

theorem CaughtUp.send (hS : S.Ideal) (h : CaughtUp (a.toward b) used x y produced accepted)
    (plaintext : Bytes) (random : EncodeRandom) :
    ∃ e m, TwoParty.sendOn a b x plaintext random = .ok (sentOn x e, m) ∧
      m.plaintext = plaintext ∧
      rank ((produced ++ [m]).map Sent.dhPublicKey) produced.length = x.sendMessageNumber ∧
      CaughtUp (a.toward b) used (sentOn x e) y (produced ++ [m]) accepted := by
  obtain ⟨older, current, pending, e, rfl, hl, hr, hs⟩ := h
  obtain ⟨m, hsend, hm, hratchet, hs'⟩ := sendOn_eq (a := a) (b := b) hs plaintext random
  refine ⟨e, m, hsend, hm, ?_, older, current, pending ++ [m], e, by simp, hl.pushPending hratchet,
    ?_, ?_⟩
  · rw [hs.number]
    exact hl.rank_send_pending hS hratchet.1
  · rw [List.map_append, List.map_singleton, hratchet.1]
    exact hr.send hl.last_pending
  · rwa [List.length_append, List.length_singleton, ← Nat.add_assoc]

theorem Ahead.send (hS : S.Ideal) (h : Ahead (a.toward b) used x y produced accepted)
    (plaintext : Bytes) (random : EncodeRandom) :
    ∃ e m, TwoParty.sendOn a b x plaintext random = .ok (sentOn x e, m) ∧
      m.plaintext = plaintext ∧
      rank ((produced ++ [m]).map Sent.dhPublicKey) produced.length = x.sendMessageNumber ∧
      Ahead (a.toward b) used (sentOn x e) y (produced ++ [m]) accepted := by
  obtain ⟨older, current, pending, newest, c, e, rfl, hl, hr, hs, hroot⟩ := h
  obtain ⟨m, hsend, hm, hratchet, hs'⟩ := sendOn_eq (a := a) (b := b) hs plaintext random
  refine ⟨e, m, hsend, hm, ?_, older, current, pending, newest ++ [m], c, e, by simp,
    hl.pushNewest hratchet, ?_, ?_, hroot⟩
  · rw [hs.number]
    exact hl.rank_send_newest hS hratchet.1
  · rw [List.map_append, List.map_singleton, hratchet.1]
    exact hr.send (hl.last_newest hS)
  · rwa [List.length_append, List.length_singleton]

/-- What a peer's send changes is not seen by the direction towards it. -/
theorem CaughtUp.sent_receiver (h : CaughtUp d used x y produced accepted) (e : Chain S) :
    CaughtUp d used x (sentOn y e) produced accepted := by
  obtain ⟨older, current, pending, e', hp, hl, hr, hs⟩ := h
  exact ⟨older, current, pending, e', hp, hl.congr rfl rfl rfl rfl rfl, hr, hs⟩

theorem Ahead.sent_receiver (h : Ahead d used x y produced accepted) (e : Chain S) :
    Ahead d used x (sentOn y e) produced accepted := by
  obtain ⟨older, current, pending, newest, c, e', hp, hl, hr, hs, hroot⟩ := h
  exact ⟨older, current, pending, newest, c, e', hp, hl.congr rfl rfl rfl rfl rfl, hr, hs, hroot⟩

/-- The state after accepting the message whose successor's chain key is `ck`. -/
def receivedOn (y : RatchetState S) (ck : S.ChainKey) (n : ℕ) : RatchetState S :=
  { y with receivingChainKey := some ck, receiveMessageNumber := n }

theorem CaughtUp.received_sender (h : CaughtUp d used x y produced accepted) (ck : S.ChainKey)
    (n : ℕ) : CaughtUp d used (receivedOn x ck n) y produced accepted := by
  obtain ⟨older, current, pending, e, hp, hl, hr, hs⟩ := h
  exact ⟨older, current, pending, e, hp, hl, hr, hs.secret, hs.publicKey, hs.chainKey, hs.number⟩

theorem Ahead.received_sender (h : Ahead d used x y produced accepted) (ck : S.ChainKey)
    (n : ℕ) : Ahead d used (receivedOn x ck n) y produced accepted := by
  obtain ⟨older, current, pending, newest, c, e, hp, hl, hr, hs, hroot⟩ := h
  exact ⟨older, current, pending, newest, c, e, hp, hl, hr,
    ⟨hs.secret, hs.publicKey, hs.chainKey, hs.number⟩, hroot⟩

theorem CaughtUp.mono (h : CaughtUp d used x y produced accepted) (s : S.X25519Secret) :
    CaughtUp d (s :: used) x y produced accepted := by
  obtain ⟨older, current, pending, e, hp, hl, hrest⟩ := h
  exact ⟨older, current, pending, e, hp, hl.mono s, hrest⟩

theorem Ahead.mono (h : Ahead d used x y produced accepted) (s : S.X25519Secret) :
    Ahead d (s :: used) x y produced accepted := by
  obtain ⟨older, current, pending, newest, c, e, hp, hl, hrest⟩ := h
  exact ⟨older, current, pending, newest, c, e, hp, hl.mono s, hrest⟩

/-- The next message accepted on the chain being received. -/
theorem Received.next_pending (hS : S.Ideal) {older current newest rest : List Sent}
    {c c' : Option (Chain S)} (hl : Lane d used y older current (m :: rest) newest c c')
    (hr : Received ((older ++ current ++ m :: rest ++ newest).map Sent.dhPublicKey) accepted
      older.length current.length) :
    Received ((older ++ (current ++ [m]) ++ rest ++ newest).map Sent.dhPublicKey)
      (accepted ++ [older.length + current.length]) older.length (current ++ [m]).length := by
  obtain ⟨e, he, hm⟩ := hl.key_chain (m := m) (by simp)
  have hlist : older ++ (current ++ [m]) ++ rest ++ newest = older ++ current ++ m :: rest ++ newest := by
    simp
  rw [hlist, List.length_append, List.length_singleton]
  refine hr.next (by simp) fun j hj hk => ?_
  rw [List.getElem?_map, List.getElem?_map, List.append_assoc, List.append_assoc,
    List.getElem?_append_left hj] at hk
  have hmem := List.getElem_mem hj
  refine (hl.key_older hS hmem).1 e he ?_
  rw [← hm]
  simpa [List.getElem?_eq_getElem hj] using hk

theorem CaughtUp.receive (hS : S.Ideal) (h : CaughtUp d used x y produced accepted)
    (newDhs : S.X25519Secret) (hk : produced[k]? = some m) :
    (∃ reason, decodeRatchetEnvelope m.envelope (d.params y) newDhs = .ok (.failure reason)) ∨
      ∃ ck n, decodeRatchetEnvelope m.envelope (d.params y) newDhs =
          .ok (.success m.plaintext (receivedOn y ck n)) ∧
        CaughtUp d used x (receivedOn y ck n) produced (accepted ++ [k]) := by
  obtain ⟨older, current, pending, e, rfl, hl, hr, hs⟩ := h
  have hk' : (older ++ current ++ pending ++ [])[k]? = some m := by rwa [List.append_nil]
  have hd := hl.decode hS newDhs hk'
  generalize decodeRatchetEnvelope m.envelope (d.params y) newDhs = r at hd
  cases hd with
  | refused reason => exact .inl ⟨reason, rfl⟩
  | next e' rest he hp hpos hlt =>
    cases he
    subst hp
    refine .inr ⟨_, _, rfl, older, current ++ [m], rest, e, by simp, hl.advance, ?_, ?_⟩
    · rw [hpos]
      have hr' : Received ((older ++ current ++ m :: rest ++ []).map Sent.dhPublicKey) accepted
          older.length current.length := by simpa using hr
      simpa using Received.next_pending hS hl hr'
    · have : (current ++ [m]).length + rest.length = current.length + (m :: rest).length := by
        simp
        omega
      rwa [this]
  | ratchet _ _ _ he => cases he

/-- Accepting the first message of the newest chain. -/
theorem Received.next_newest (hS : S.Ideal) {older current pending rest : List Sent}
    {c c' : Option (Chain S)} (hl : Lane d used y older current pending (m :: rest) c c')
    (hr : Received ((older ++ current ++ pending ++ m :: rest).map Sent.dhPublicKey) accepted
      older.length current.length) :
    Received ((older ++ current ++ pending ++ m :: rest).map Sent.dhPublicKey)
      (accepted ++ [(older ++ current ++ pending).length]) (older ++ current ++ pending).length 1 := by
  obtain ⟨e, he, hm⟩ := hl.key_newest (m := m) List.mem_cons_self
  refine hr.ratchet (by simp) (by simp) fun j hj hk => ?_
  rw [List.getElem?_map, List.getElem?_map, List.getElem?_append_left hj,
    List.getElem?_eq_getElem hj, List.getElem?_append_right (Nat.le_refl _)] at hk
  refine hl.key_before hS he (List.getElem_mem hj) ?_
  rw [← hm]
  simpa using hk

/-- Receiving from the leader: the third outcome is the ratchet step that takes over
the lead. -/
theorem Ahead.receive (hS : S.Ideal) (h : Ahead d used x y produced accepted)
    (hk : produced[k]? = some m) (hfresh : newDhs ∉ used) :
    (∃ reason, decodeRatchetEnvelope m.envelope (d.params y) newDhs = .ok (.failure reason)) ∨
      (∃ ck n, decodeRatchetEnvelope m.envelope (d.params y) newDhs =
          .ok (.success m.plaintext (receivedOn y ck n)) ∧
        Ahead d used x (receivedOn y ck n) produced (accepted ++ [k])) ∨
      ∃ p e f n, decodeRatchetEnvelope m.envelope (d.params y) newDhs =
          .ok (.success m.plaintext (ratchetedTo p e f n)) ∧
        f.secret = newDhs ∧ f.peer = x.dhsSecretKey ∧ f.root = x.rootKey ∧
        CaughtUp d (newDhs :: used) x (ratchetedTo p e f n) produced (accepted ++ [k]) := by
  obtain ⟨older, current, pending, newest, c, e, rfl, hl, hr, hs, hroot⟩ := h
  have hd := hl.decode hS newDhs hk
  generalize decodeRatchetEnvelope m.envelope (d.params y) newDhs = r at hd
  cases hd with
  | refused reason => exact .inl ⟨reason, rfl⟩
  | next e' rest he hp hpos hlt =>
    subst he
    subst hp
    refine .inr (.inl ⟨_, _, rfl, older, current ++ [m], rest, newest, some e', e, by simp,
      hl.advance, ?_, hs, hroot⟩)
    rw [hpos]
    simpa using Received.next_pending hS hl hr
  | ratchet e' f rest he hn hpos hf hpeer hfroot =>
    cases he
    subst hn
    subst hf
    have hpos' : k = (older ++ current ++ pending).length := by simpa [Nat.add_assoc] using hpos
    refine .inr (.inr ⟨_, _, f, _, rfl, rfl, by rw [hpeer, hs.secret], by rw [hfroot, hroot],
      older ++ current ++ pending, [m], rest, e, by simp, hl.ratchet hfresh, ?_, ?_⟩)
    · rw [hpos']
      simpa using Received.next_newest hS hl hr
    · have hlen : [m].length + rest.length = (m :: rest).length := by simp [Nat.add_comm]
      rwa [hlen]

theorem CaughtUp.next_iff (hS : S.Ideal) (h : CaughtUp d used x y produced accepted)
    (hk : produced[k]? = some m)
    (hnext : NextInOrder (produced.map Sent.dhPublicKey) accepted k) :
    Accepts (decodeRatchetEnvelope m.envelope (d.params y) newDhs) m.plaintext ↔
      rank (produced.map Sent.dhPublicKey) k < 2 ^ 32 := by
  obtain ⟨older, current, pending, e, rfl, hl, hr, -⟩ := h
  have hlist : older ++ current ++ pending = older ++ current ++ pending ++ [] := by simp
  rw [hlist] at hk hr hnext ⊢
  exact hl.next_iff hS hr hk hnext

theorem Ahead.next_iff (hS : S.Ideal) (h : Ahead d used x y produced accepted)
    (hk : produced[k]? = some m)
    (hnext : NextInOrder (produced.map Sent.dhPublicKey) accepted k) :
    Accepts (decodeRatchetEnvelope m.envelope (d.params y) newDhs) m.plaintext ↔
      rank (produced.map Sent.dhPublicKey) k < 2 ^ 32 := by
  obtain ⟨older, current, pending, newest, c, e, rfl, hl, hr, -⟩ := h
  exact hl.next_iff hS hr hk hnext

/-- What is accepted is the plaintext that was sent. -/
theorem Lane.plaintext_eq (hS : S.Ideal) {older current pending newest : List Sent}
    {c c' : Option (Chain S)} {plaintext : Bytes}
    (h : Lane d used y older current pending newest c c')
    (hk : (older ++ current ++ pending ++ newest)[k]? = some m)
    (ha : Accepts (decodeRatchetEnvelope m.envelope (d.params y) newDhs) plaintext) :
    plaintext = m.plaintext := by
  obtain ⟨next, he⟩ := ha
  have hd := h.decode hS newDhs hk
  rw [he] at hd
  cases hd with
  | next e rest _ _ _ _ => rfl
  | ratchet e f rest _ _ _ _ _ _ => rfl

theorem CaughtUp.plaintext_eq (hS : S.Ideal) (h : CaughtUp d used x y produced accepted)
    (hk : produced[k]? = some m) {plaintext : Bytes}
    (ha : Accepts (decodeRatchetEnvelope m.envelope (d.params y) newDhs) plaintext) :
    plaintext = m.plaintext := by
  obtain ⟨older, current, pending, e, rfl, hl, -⟩ := h
  have hk' : (older ++ current ++ pending ++ [])[k]? = some m := by rwa [List.append_nil]
  exact hl.plaintext_eq hS hk' ha

theorem Ahead.plaintext_eq (hS : S.Ideal) (h : Ahead d used x y produced accepted)
    (hk : produced[k]? = some m) {plaintext : Bytes}
    (ha : Accepts (decodeRatchetEnvelope m.envelope (d.params y) newDhs) plaintext) :
    plaintext = m.plaintext := by
  obtain ⟨older, current, pending, newest, c, e, rfl, hl, -⟩ := h
  exact hl.plaintext_eq hS hk ha

theorem CaughtUp.received (h : CaughtUp d used x y produced accepted) :
    ∃ settled recent, Received (produced.map Sent.dhPublicKey) accepted settled recent := by
  obtain ⟨older, current, pending, e, rfl, -, hr, -⟩ := h
  exact ⟨_, _, hr⟩

theorem Ahead.received (h : Ahead d used x y produced accepted) :
    ∃ settled recent, Received (produced.map Sent.dhPublicKey) accepted settled recent := by
  obtain ⟨older, current, pending, newest, c, e, rfl, -, hr, -⟩ := h
  exact ⟨_, _, hr⟩

/-- The other direction after the ratchet step: its sender opens the chain `f`. -/
theorem CaughtUp.openChain {p : Bytes} {e f : Chain S} {n : ℕ}
    (h : CaughtUp d used y x produced accepted) (hf : f.secret ∉ used)
    (hpeer : f.peer = x.dhsSecretKey) (hroot : f.root = x.rootKey) :
    Ahead d (f.secret :: used) (ratchetedTo p e f n) x produced accepted := by
  obtain ⟨older, current, pending, g, rfl, hl, hr, -⟩ := h
  exact ⟨older, current, pending, [], some g, f, by simp, hl.openChain hf hpeer hroot, hr,
    ⟨rfl, rfl, rfl, rfl⟩, rfl⟩

end steps

end Epistl
