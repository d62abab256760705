import Epistl.Inbox.Network
import Epistl.Ratchet.Acceptance
import Epistl.Ratchet.Leads

/-! # The keys a device has spent on a contact

Every accepted envelope was sealed under a key of a chain that joins a secret of the
device to one of the contact. A ratchet step retires the secret of the device, so no
later chain has one of these keys. Only a handshake goes back to the identity secret.
-/
namespace Epistl.Network
variable {S : Suite} {ι : Type} {dir : Directory S ι} {used used' : ι → List S.X25519Secret}
  {p q : ι} {log : List Bytes} {session : Option (RatchetState S)} {y : RatchetState S}
  {newDhs : S.X25519Secret} {envelope : Bytes} {c : Chain S} {n : ℕ} {plaintext : Bytes}
  {next : RatchetState S}

/-- A handshake of `q` on the secret `a`. -/
def Opens (dir : Directory S ι) (q : ι) (a : S.X25519Secret) (envelope : Bytes) : Prop :=
  ∃ c : Chain S, c.secret = a ∧ MadeHandshake (dir.who q) c envelope

/-- The key an accepted envelope was sealed under, with the chain it belongs to. -/
structure Spent (dir : Directory S ι) (used : ι → List S.X25519Secret) (p q : ι)
    (session : Option (RatchetState S)) (before : List Bytes) (envelope : Bytes) (g : Chain S)
    (j : ℕ) : Prop where
  sealed : SealedUnder envelope (g.messageKey j)
  secret : g.secret ∈ used p
  peer : g.peer ∈ used q
  retired : ∀ y, session = some y → g.secret ≠ y.dhsSecretKey
  opened : ¬ Opening envelope → g.secret = (dir.who p).x25519SecretKey →
    ∃ h ∈ before, Opens dir q g.peer h

/-- The receiving chain of a session: its remaining keys are settled in the log. -/
structure Receiving (dir : Directory S ι) (used : ι → List S.X25519Secret) (p q : ι)
    (log : List Bytes) (y : RatchetState S) (r : Chain S) (k : ℕ) : Prop where
  key : y.receivingChainKey = some (r.key k)
  secret : r.secret ∈ used p
  retired : r.secret ≠ y.dhsSecretKey
  peer : r.peer ∈ used q
  settled : ∀ j, k ≤ j → Settled Opening log fun e => SealedUnder e (r.messageKey j)
  opened : r.secret = (dir.who p).x25519SecretKey → ∃ h ∈ log, Opens dir q r.peer h

structure Ready (dir : Directory S ι) (used : ι → List S.X25519Secret) (p q : ι)
    (log : List Bytes) (y : RatchetState S) : Prop where
  dhs : y.dhsSecretKey ∈ used p
  ne_identity : y.dhsSecretKey ≠ (dir.who p).x25519SecretKey
  sends : ∃ e n, Sends y e n
  receives : y.receivingChainKey = none ∨ ∃ r k, Receiving dir used p q log y r k

/-- What `p` stored about the contact `q`, against the envelopes it accepted from it. -/
structure Tracked (dir : Directory S ι) (used : ι → List S.X25519Secret) (p q : ι)
    (log : List Bytes) (session : Option (RatchetState S)) : Prop where
  once : OncePerReset Opening log
  spent : ∀ a e b, log = a ++ e :: b → ∃ g j, Spent dir used p q session a e g j
  ready : ∀ y, session = some y → Ready dir used p q log y

theorem Tracked.empty (dir : Directory S ι) (used : ι → List S.X25519Secret) (p q : ι) :
    Tracked dir used p q [] none where
  once := OncePerReset.nil
  spent a e b h := by simp at h
  ready y h := by cases h

theorem Tracked.mono (h : Tracked dir used p q log session) (hsub : ∀ r, used r ⊆ used' r) :
    Tracked dir used' p q log session where
  once := h.once
  spent a e b hl := by
    obtain ⟨g, j, hg⟩ := h.spent a e b hl
    exact ⟨g, j, { hg with secret := hsub p hg.secret, peer := hsub q hg.peer }⟩
  ready y hy := by
    obtain ⟨hdhs, hne, hsends, hreceives⟩ := h.ready y hy
    refine ⟨hsub p hdhs, hne, hsends, hreceives.imp id ?_⟩
    rintro ⟨r, k, hr⟩
    exact ⟨r, k, { hr with secret := hsub p hr.secret, peer := hsub q hr.peer }⟩

/-- A key on the session's own secret has not been spent. -/
theorem Tracked.unspent (hS : S.Ideal) (h : Tracked dir used p q log (some y))
    (hdisjoint : ∀ a, a ∈ used p → a ∉ used q) {g : Chain S} (hsecret : g.secret = y.dhsSecretKey)
    (j : ℕ) : ∀ e ∈ log, ¬ SealedUnder e (g.messageKey j) := by
  intro e he hsealed
  obtain ⟨a, b, hl⟩ := List.append_of_mem he
  obtain ⟨g', j', hg'⟩ := h.spent a e b hl
  rcases Chain.secrets_of_messageKey hS (hg'.sealed.unique hS hsealed) with ⟨hs, -⟩ | ⟨-, hp⟩
  · exact hg'.retired y rfl (hs.trans hsecret)
  · exact hdisjoint _ (h.ready y rfl).dhs (hsecret ▸ hp ▸ hg'.peer)

theorem Spent.renew {before : List Bytes} {g : Chain S} {j : ℕ}
    (h : Spent dir used p q session before envelope g j) (hsub : ∀ r, used r ⊆ used' r)
    (hnew : newDhs ∉ used p) (hy : y.dhsSecretKey = newDhs) :
    Spent dir used' p q (some y) before envelope g j where
  sealed := h.sealed
  secret := hsub p h.secret
  peer := hsub q h.peer
  retired y' hy' heq := by
    cases hy'
    exact hnew (hy ▸ heq ▸ h.secret)
  opened := h.opened

/-- The log after an acceptance, entry by entry. -/
theorem forall_concat {P : List Bytes → Bytes → Prop}
    (h : ∀ a e b, log = a ++ e :: b → P a e) (hnew : P log envelope) :
    ∀ a e b, log ++ [envelope] = a ++ e :: b → P a e := by
  intro a e b hl
  rcases concat_eq_append_cons hl with ⟨-, rfl, rfl⟩ | ⟨b', -, hl'⟩
  · exact hnew
  · exact h a e b' hl'

/-- The next message of the receiving chain. -/
theorem Tracked.acceptNext (hS : S.Ideal) (h : Tracked dir used p q log (some y)) {ck : S.ChainKey}
    (hck : y.receivingChainKey = some ck) (hsealed : SealedUnder envelope (messageKeyOf ck)) :
    Tracked dir used p q (log ++ [envelope]) (some { y with
      receivingChainKey := some (nextChainKey ck)
      receiveMessageNumber := y.receiveMessageNumber + 1 }) := by
  have hready := h.ready y rfl
  obtain ⟨r, k, hr⟩ := hready.receives.resolve_left (by rw [hck]; exact Option.some_ne_none _)
  cases hck.symm.trans hr.key
  have hlater {j : ℕ} (hj : k + 1 ≤ j) : ¬ SealedUnder envelope (r.messageKey j) := by
    intro hj'
    have := (Chain.messageKey_injective hS (hsealed.unique hS hj')).1
    omega
  refine ⟨h.once.concat fun _ => (hr.settled k le_rfl).mono ?_, forall_concat ?_ ?_, ?_⟩
  · rintro e rfl
    exact hsealed
  · intro a e b hl
    obtain ⟨g, j, hg⟩ := h.spent a e b hl
    refine ⟨g, j, { hg with retired := fun y' hy' => ?_ }⟩
    cases hy'
    exact hg.retired y rfl
  · refine ⟨r, k, hsealed, hr.secret, hr.peer, fun y' hy' => ?_, fun _ => hr.opened⟩
    cases hy'
    exact hr.retired
  · intro y' hy'
    cases hy'
    obtain ⟨e, m, hsends⟩ := hready.sends
    refine ⟨hready.dhs, hready.ne_identity, ⟨e, m, ⟨hsends.1, hsends.2, hsends.3, hsends.4⟩⟩, .inr ⟨r, k + 1, rfl, hr.secret,
      hr.retired, hr.peer, fun j hj => ?_, fun hid => ?_⟩⟩
    · exact (hr.settled j (by omega)).concat fun hs => absurd hs (hlater hj)
    · obtain ⟨x, hx, ho⟩ := hr.opened hid
      exact ⟨x, List.mem_append_left _ hx, ho⟩

/-- An accepted envelope that installs a chain `g` of ours and a fresh secret. -/
theorem Tracked.install (h : Tracked dir used p q log session) (hsub : ∀ r, used r ⊆ used' r)
    (hid : (dir.who p).x25519SecretKey ∈ used p) (hnew : newDhs ∉ used p) (hmem : newDhs ∈ used' p)
    {g f : Chain S} (hsecret : g.secret ∈ used p) (hpeer : g.peer ∈ used q) (hf : f.secret = newDhs)
    (hsealed : SealedUnder envelope (g.messageKey 0))
    (honce : ¬ Opening envelope → Settled Opening log fun e => e = envelope)
    (hsettled : ∀ j, 1 ≤ j →
      Settled Opening (log ++ [envelope]) fun e => SealedUnder e (g.messageKey j))
    (hopens : g.secret = (dir.who p).x25519SecretKey →
      Opening envelope ∧ Opens dir q g.peer envelope) (pk : Bytes) (m : ℕ) :
    Tracked dir used' p q (log ++ [envelope]) (some (ratchetedTo pk g f m)) := by
  subst hf
  have hretired : g.secret ≠ f.secret := fun heq => hnew (heq ▸ hsecret)
  refine ⟨h.once.concat honce, forall_concat ?_ ?_, ?_⟩
  · intro a e b hl
    obtain ⟨g', j', hg'⟩ := h.spent a e b hl
    exact ⟨g', j', hg'.renew hsub hnew rfl⟩
  · refine ⟨g, 0, hsealed, hsub p hsecret, hsub q hpeer, fun y' hy' => ?_, fun ho hs => ?_⟩
    · cases hy'
      exact hretired
    · exact absurd (hopens hs).1 ho
  · intro y' hy'
    cases hy'
    refine ⟨hmem, fun heq : f.secret = _ => hnew (heq ▸ hid), ⟨f, 0, rfl, rfl, rfl, rfl⟩,
      .inr ⟨g, 1, rfl, hsub p hsecret, hretired, hsub q hpeer, hsettled, fun hs => ?_⟩⟩
    exact ⟨envelope, by simp, (hopens hs).2⟩

/-- Message 0 of a chain that is new to the session. -/
theorem Tracked.acceptNew (hS : S.Ideal) (h : Tracked dir used p q log (some y))
    (hsub : ∀ r, used r ⊆ used' r) (hid : (dir.who p).x25519SecretKey ∈ used p)
    (hdisjoint : ∀ a, a ∈ used p → a ∉ used q) (hnew : newDhs ∉ used p) (hmem : newDhs ∈ used' p)
    {g f : Chain S} (hsecret : g.secret = y.dhsSecretKey) (hpeer : g.peer ∈ used q)
    (hf : f.secret = newDhs) (hsealed : SealedUnder envelope (g.messageKey 0)) (pk : Bytes) (m : ℕ) :
    Tracked dir used' p q (log ++ [envelope]) (some (ratchetedTo pk g f m)) := by
  have hready := h.ready y rfl
  have hunspent := h.unspent hS hdisjoint hsecret
  refine h.install hsub hid hnew hmem (hsecret ▸ hready.dhs) hpeer hf hsealed (fun _ => ?_)
    (fun j hj => ?_) (fun hs => absurd (hsecret ▸ hs) hready.ne_identity) pk m
  · refine .of_forall_not fun e he heq => ?_
    subst heq
    exact hunspent 0 _ he hsealed
  · refine .of_forall_not fun e he hs => ?_
    rcases List.mem_append.mp he with he | he
    · exact hunspent j e he hs
    · rw [List.mem_singleton] at he
      subst he
      have := (Chain.messageKey_injective hS (hsealed.unique hS hs)).1
      omega

/-- A handshake, also one that was accepted before. -/
theorem Tracked.acceptHandshake (hS : S.Ideal) (h : Tracked dir used p q log session)
    (hsub : ∀ r, used r ⊆ used' r) (hid : (dir.who p).x25519SecretKey ∈ used p)
    (hdisjoint : ∀ a, a ∈ used p → a ∉ used q) (hnew : newDhs ∉ used p) (hmem : newDhs ∈ used' p)
    {g f : Chain S} (hsecret : g.secret = (dir.who p).x25519SecretKey) (hpeer : g.peer ∈ used q)
    (hf : f.secret = newDhs) (hopening : Opening envelope) (hopens : Opens dir q g.peer envelope)
    (hunique : ∀ e ∈ log, Opens dir q g.peer e → e = envelope)
    (hsealed : SealedUnder envelope (g.messageKey 0)) (pk : Bytes) (m : ℕ) :
    Tracked dir used' p q (log ++ [envelope]) (some (ratchetedTo pk g f m)) := by
  refine h.install hsub hid hnew hmem (hsecret ▸ hid) hpeer hf hsealed
    (fun ho => absurd hopening ho) (fun j hj => .of_reset hopening ?_)
    (fun _ => ⟨hopening, hopens⟩) pk m
  intro a e b hl hs ho
  obtain ⟨g', j', hg'⟩ := h.spent a e b hl
  rcases Chain.secrets_of_messageKey hS (hg'.sealed.unique hS hs) with ⟨hs', hp'⟩ | ⟨-, hp'⟩
  · obtain ⟨x, hx, hox⟩ := hg'.opened ho (hs'.trans hsecret)
    have hxl : x ∈ log := by
      rw [hl]
      exact List.mem_append_left _ hx
    exact hunique x hxl (hp' ▸ hox) ▸ hx
  · rw [hsecret] at hp'
    exact absurd (hp' ▸ hg'.peer) (hdisjoint _ hid)

/-- A send moves the sending chain only. -/
theorem Tracked.send (h : Tracked dir used p q log (some y)) {e : Chain S} (hsends : Sends y e n) :
    Tracked dir used p q log (some (sentOn y e)) where
  once := h.once
  spent a x b hl := by
    obtain ⟨g, j, hg⟩ := h.spent a x b hl
    refine ⟨g, j, { hg with retired := fun y' hy' => ?_ }⟩
    cases hy'
    exact hg.retired y rfl
  ready y' hy' := by
    cases hy'
    obtain ⟨hdhs, hne, -, hreceives⟩ := h.ready y rfl
    refine ⟨hdhs, hne, ⟨e, n + 1, hsends.1, hsends.2, ?_, ?_⟩, hreceives.imp id ?_⟩
    · rw [← hsends.4]
      rfl
    · rw [← hsends.4]
      rfl
    · rintro ⟨r, k, hr⟩
      exact ⟨r, k, hr.1, hr.2, hr.3, hr.4, hr.5, hr.6⟩

/-- A send without a session starts on a fresh secret. -/
theorem Tracked.open (h : Tracked dir used p q log none) (hsub : ∀ r, used r ⊆ used' r)
    (hid : (dir.who p).x25519SecretKey ∈ used p) (hnew : newDhs ∉ used p) (hmem : newDhs ∈ used' p)
    {e : Chain S} (he : e.secret = newDhs) :
    Tracked dir used' p q log (some (sentOn (openedOn e) e)) where
  once := h.once
  spent a x b hl := by
    obtain ⟨g, j, hg⟩ := h.spent a x b hl
    exact ⟨g, j, hg.renew hsub hnew he⟩
  ready y' hy' := by
    cases hy'
    subst he
    exact ⟨hmem, fun heq : e.secret = _ => hnew (heq ▸ hid), ⟨e, 1, rfl, rfl, rfl, rfl⟩, .inl rfl⟩

end Epistl.Network
