import Epistl.Secrecy.History

/-! # Forward secrecy of the hybrid handshake and the ratchet

A message key that was used cannot be computed from the sessions that are left of it, on
however many devices, as long as one of the two secrets of the handshake is out of reach.
Breaking X25519 altogether is not enough, nor is breaking ML-KEM.
-/
namespace Epistl
variable {S : Suite}

/-- The derived keys in a stored session. Its X25519 secret is material. -/
def RatchetState.derivedKeys (state : RatchetState S) : Set (Hidden S)
  | .rootKey rk => rk = state.rootKey
  | .chainKey ck => state.sendingChainKey = some ck ∨ state.receivingChainKey = some ck
  | _ => False

/-- What is taken with a device's current session. -/
def History.seized (s : History S) : Set (Hidden S) :=
  {x | ∃ state ∈ s.stored.head?, x ∈ state.derivedKeys}

namespace RootAt
variable {h : HandshakeSecrets S} {n : ℕ} {rk : S.RootKey}

theorem of_handshake (hS : S.OneWay) {z : S.SharedSecret} {k : S.KyberShared} {info : Bytes}
    (hn : RootAt h n (S.hkdfHandshake z k info)) : z = h.sharedSecret ∧ k = h.kyberShared := by
  generalize hrk : S.hkdfHandshake z k info = rk at hn
  cases hn with
  | handshake info' =>
    obtain ⟨hz, hk, -⟩ := hS.hkdfHandshake_injective hrk
    exact ⟨hz, hk⟩
  | ratchet z' info' _ => exact absurd hrk (hS.hkdfHandshake_ne_hkdfRatchet _ _ _ _ _ _)

theorem of_ratchet (hS : S.OneWay) {z : S.SharedSecret} {info : Bytes}
    (hn : RootAt h n (S.hkdfRatchet z rk info).1) : ∃ m < n, RootAt h m rk := by
  generalize hrk : (S.hkdfRatchet z rk info).1 = rk' at hn
  cases hn with
  | handshake info' => exact absurd hrk.symm (hS.hkdfHandshake_ne_hkdfRatchet _ _ _ _ _ _)
  | @ratchet m _ z' info' hm =>
    obtain ⟨-, rfl, -⟩ := hS.hkdfRatchet_root_injective hrk
    exact ⟨m, Nat.lt_succ_self m, hm⟩

end RootAt

namespace ChainPoint
variable {p : ChainPoint S}

theorem of_ratchet (hS : S.OneWay) {z : S.SharedSecret} {rk : S.RootKey} {info : Bytes}
    (he : (S.hkdfRatchet z rk info).2 = p.key) : z = p.sharedSecret ∧ rk = p.root := by
  obtain ⟨root, w, i⟩ := p
  cases i with
  | zero =>
    obtain ⟨hz, hrk, -⟩ := hS.hkdfRatchet_injective he
    exact ⟨hz, hrk⟩
  | succ i =>
    rw [key, Function.iterate_succ_apply'] at he
    exact absurd he (hS.hkdfRatchet_ne_hmacChainKey _ _ _ _ _)

theorem of_hmacChainKey (hS : S.OneWay) {ck : S.ChainKey} {input : Bytes}
    (he : S.hmacChainKey ck input = p.key) : ∃ q : ChainPoint S, q.next = p ∧ ck = q.key := by
  obtain ⟨root, w, i⟩ := p
  cases i with
  | zero => exact absurd he.symm (hS.hkdfRatchet_ne_hmacChainKey _ _ _ _ _)
  | succ i =>
    rw [key, Function.iterate_succ_apply'] at he
    exact ⟨⟨root, w, i⟩, rfl, (hS.hmacChainKey_injective he).1⟩

end ChainPoint

/-- What nobody may learn who is to stay without the message key of a point: the keys above it,
and of the material what cannot be computed. -/
def Above (known : Set (Hidden S)) (h : HandshakeSecrets S) (depth : ℕ) (p : ChainPoint S) :
    Hidden S → Prop
  | .rootKey rk => ∃ n ≤ depth, RootAt h n rk
  | .chainKey ck => ∃ q : ChainPoint S, q.SameChain p ∧ q.index ≤ p.index ∧ ck = q.key
  | .messageKey mk => mk = p.messageKey
  | x => ¬Computes known x

/-- A session whose keys tell nothing about a point. -/
structure Beyond (state : RatchetState S) (h : HandshakeSecrets S) (depth : ℕ)
    (p : ChainPoint S) : Prop where
  root : ∀ n, RootAt h n state.rootKey → depth < n
  chain : ∀ q : ChainPoint S, .chainKey q.key ∈ state.derivedKeys → q.SameChain p →
    p.index < q.index

section guard
variable {known : Set (Hidden S)} {h h' : HandshakeSecrets S} {depth n : ℕ} {p sending : ChainPoint S}
  {receiving : Option (ChainPoint S)} {state : RatchetState S}

theorem Placed.chain_cases (hS : S.OneWay) (hp : Placed state h depth sending receiving)
    {q : ChainPoint S} (hq : .chainKey q.key ∈ state.derivedKeys) :
    q = sending ∨ q ∈ receiving := by
  rcases hq with hq | hq
  · rw [hp.sendingChainKey] at hq
    exact .inl (ChainPoint.key_injective hS (Option.some.inj hq)).symm
  · rw [hp.receivingChainKey] at hq
    obtain ⟨c, hc, he⟩ := Option.map_eq_some_iff.mp hq
    rw [← ChainPoint.key_injective hS he]
    exact .inr hc

/-- The root key of each chain of a placed session. -/
theorem Placed.chain_root (hS : S.OneWay) (hp : Placed state h depth sending receiving)
    {q : ChainPoint S} (hq : .chainKey q.key ∈ state.derivedKeys) : ∃ n ≤ depth, RootAt h n q.root := by
  rcases hp.chain_cases hS hq with rfl | hq
  · exact ⟨depth, le_rfl, hp.sendingRoot⟩
  · obtain ⟨n, hn, hroot⟩ := hp.receivingRoot q hq
    exact ⟨n, hn.le, hroot⟩

/-- A session is beyond the points behind it. -/
theorem Behind.beyond (hS : S.OneWay) (hp : Placed state h depth sending receiving)
    (hb : Behind h depth sending receiving p) (hn : RootAt h n p.root) : Beyond state h n p where
  root m hm := by
    obtain ⟨k, hk, hroot⟩ := hb.root
    have hkn : k = n := (hroot.unique hS hn).2
    have hdepth : depth + 1 = m := (hp.root.unique hS hm).2
    omega
  chain q hq hsame := by
    rcases hp.chain_cases hS hq with rfl | hq
    · exact hb.sending hsame
    · exact hb.receiving q hq hsame

/-- A session from another handshake is beyond every point of this one. -/
theorem Placed.beyond_other (hS : S.OneWay) (hp : Placed state h' depth sending receiving)
    (hne : h ≠ h') (hn : RootAt h n p.root) : Beyond state h n p where
  root m hm := absurd (hm.unique hS hp.root).1 hne
  chain q hq hsame := by
    obtain ⟨k, -, hroot⟩ := hp.chain_root hS hq
    rw [hsame.1] at hroot
    exact absurd (hn.unique hS hroot).1 hne

theorem above_guarded (hS : S.OneWay) (hknown : ∀ x ∈ known, x.IsMaterial)
    (hsecret : ¬Computes known (.sharedSecret h.sharedSecret) ∨
      ¬Computes known (.kyberShared h.kyberShared))
    (hroot : RootAt h n p.root) (taken : Set (Hidden S))
    (htaken : ∀ x ∈ taken, ∃ state : RatchetState S, Beyond state h n p ∧ x ∈ state.derivedKeys) :
    Guarded Hidden.Rule (known ∪ taken) (Above known h n p) where
  notGiven x hx habove := by
    rcases hx with hx | hx
    · have hmaterial := hknown x hx
      cases x with
      | rootKey rk => exact hmaterial
      | chainKey ck => exact hmaterial
      | messageKey mk => exact hmaterial
      | x25519Secret a => exact habove (.given hx)
      | sharedSecret z => exact habove (.given hx)
      | kyberSecret sk => exact habove (.given hx)
      | kemRandom r => exact habove (.given hx)
      | kyberShared k => exact habove (.given hx)
    · obtain ⟨state, hbeyond, hmem⟩ := htaken x hx
      cases x with
      | rootKey rk =>
        obtain ⟨m, hm, hat⟩ := habove
        rw [show rk = state.rootKey from hmem] at hat
        exact absurd (hbeyond.root m hat) (by omega)
      | chainKey ck =>
        obtain ⟨q, hsame, hle, rfl⟩ := habove
        exact absurd (hbeyond.chain q hmem hsame) (by omega)
      | messageKey mk => exact hmem
      | x25519Secret a => exact hmem
      | sharedSecret z => exact hmem
      | kyberSecret sk => exact hmem
      | kemRandom r => exact hmem
      | kyberShared k => exact hmem
  premise {premises x} hr habove := by
    cases hr with
    | x25519 hz =>
      exact ⟨_, List.mem_singleton_self _, fun hc => habove (.derive (.x25519 hz) (by simpa using hc))⟩
    | encapsulate hk =>
      exact ⟨_, List.mem_singleton_self _,
        fun hc => habove (.derive (.encapsulate hk) (by simpa using hc))⟩
    | decapsulate hk =>
      exact ⟨_, List.mem_singleton_self _,
        fun hc => habove (.derive (.decapsulate hk) (by simpa using hc))⟩
    | handshake z k info =>
      obtain ⟨m, -, hat⟩ := habove
      obtain ⟨rfl, rfl⟩ := hat.of_handshake hS
      rcases hsecret with hz | hk
      · exact ⟨_, List.mem_cons_self, hz⟩
      · exact ⟨_, List.mem_cons_of_mem _ List.mem_cons_self, hk⟩
    | ratchetRoot z rk info =>
      obtain ⟨m, hm, hat⟩ := habove
      obtain ⟨k, hk, hat⟩ := hat.of_ratchet hS
      exact ⟨.rootKey rk, List.mem_cons_of_mem _ List.mem_cons_self, k, by omega, hat⟩
    | ratchetChain z rk info =>
      obtain ⟨q, hsame, -, he⟩ := habove
      obtain ⟨-, rfl⟩ := ChainPoint.of_ratchet hS he
      exact ⟨.rootKey q.root, List.mem_cons_of_mem _ List.mem_cons_self, n, le_rfl,
        hsame.1 ▸ hroot⟩
    | nextChain ck input =>
      obtain ⟨q, hsame, hle, he⟩ := habove
      obtain ⟨r, rfl, rfl⟩ := ChainPoint.of_hmacChainKey hS he
      exact ⟨.chainKey r.key, List.mem_singleton_self _, r, hsame, Nat.le_of_succ_le hle, rfl⟩
    | message ck input =>
      have hck : ck = p.key := (hS.hmacMessageKey_injective habove).1
      exact ⟨.chainKey ck, List.mem_singleton_self _, p, ⟨rfl, rfl⟩, le_rfl, hck⟩

end guard

namespace History
variable {s t : History S} {a : Action S} {h : HandshakeSecrets S}

/-- The key of the first message of a session, the same at both ends. -/
def firstKey (h : HandshakeSecrets S) (contactUserId selfUserId : JsString) : S.MessageKey :=
  let rootKey0 := S.hkdfHandshake h.sharedSecret h.kyberShared
    (rootKeyInfoBytes contactUserId selfUserId)
  messageKeyOf (kdfRk rootKey0 h.sharedSecret).2

theorem initiate_enabled (s : History S) (contactUserId selfUserId : JsString) {b : ContactBundle}
    {ea : S.X25519Secret} {r ct : Bytes} {z : S.SharedSecret} {k : S.KyberShared}
    (hz : S.x25519SharedSecret ea b.x25519PublicKey = some z)
    (hk : S.encapsulate b.kyberPublicKey r = some (ct, k)) :
    ∃ next, next.dhsSecretKey = ea ∧ next.dhrPublicKey = none ∧
      (machine S).step s (.initiate contactUserId selfUserId b ea r) = some
        ⟨next :: s.stored, ⟨z, k⟩ :: s.handshakes,
          ⟨⟨z, k⟩, firstKey ⟨z, k⟩ contactUserId selfUserId⟩ :: s.used⟩ := by
  have hh : Action.secrets (.initiate contactUserId selfUserId b ea r) = some ⟨z, k⟩ := by
    simp only [Action.secrets, hz, hk]
    rfl
  simp only [machine, step, hh, opening, initiateSession, hz, hk, Thrown.ofOption]
  exact ⟨_, rfl, rfl, rfl⟩

theorem handshake_enabled (s : History S) (contactUserId selfUserId : JsString) {q c : Bytes}
    {a d : S.X25519Secret} (sk : S.KyberSecret) {z w : S.SharedSecret} {k : S.KyberShared}
    (hz : S.x25519SharedSecret a q = some z) (hk : S.decapsulate c sk = some k)
    (hw : S.x25519SharedSecret d q = some w) :
    ∃ next, (machine S).step s (.handshake contactUserId selfUserId q c a sk d) = some
      ⟨next :: s.stored, ⟨z, k⟩ :: s.handshakes,
        ⟨⟨z, k⟩, firstKey ⟨z, k⟩ contactUserId selfUserId⟩ :: s.used⟩ := by
  have hh : Action.secrets (.handshake contactUserId selfUserId q c a sk d) = some ⟨z, k⟩ := by
    simp only [Action.secrets, hz, hk]
    rfl
  have hr : ∃ r, receiveHandshake contactUserId selfUserId q c a sk d = .ok r ∧
      r.dhrPublicKey = q ∧ r.receiveMessageNumber = 0 ∧
      messageKeyOf r.receivingChainKey = firstKey ⟨z, k⟩ contactUserId selfUserId := by
    simp only [receiveHandshake, dhRatchetStep, hz, hk, hw, Thrown.ofOption]
    exact ⟨_, rfl, rfl, rfl, rfl⟩
  obtain ⟨r, hr, hdhr, hnumber, hkey⟩ := hr
  have hreceive : deriveNextReceivingMessageKey r.toRatchetState q 0 d = _ :=
    deriveNextReceivingMessageKey_same (congrArg some hdhr)
  rw [if_pos (show 0 = r.toRatchetState.receiveMessageNumber from hnumber.symm)] at hreceive
  simp only [machine, step, hh, opening, hr, hreceive, ← hkey]
  exact ⟨_, rfl⟩

/-- The current session is placed, and whatever it used is behind it. -/
structure Recorded (s : History S) : Prop where
  current : ∀ state ∈ s.stored.head?, ∃ h ∈ s.handshakes.head?, ∃ depth sending receiving,
    Placed state h depth sending receiving ∧ ∀ u ∈ s.used, u.secrets = h →
      ∃ p, u.messageKey = ChainPoint.messageKey p ∧ Behind h depth sending receiving p
  used : ∀ u ∈ s.used, u.secrets ∈ s.handshakes ∧
    ∃ (p : ChainPoint S) (n : ℕ), u.messageKey = p.messageKey ∧ RootAt u.secrets n p.root

theorem placed_dhRatchetStep (state : RatchetState S) {q : Bytes} {newDhs : S.X25519Secret}
    {r : RatchetedState S} {n : ℕ} (hroot : RootAt h n state.rootKey)
    (hr : dhRatchetStep state q newDhs = .ok r) : ∃ sending receiving,
      Placed r.toRatchetState h (n + 1) sending (some receiving) ∧ r.dhrPublicKey = q := by
  obtain ⟨z, -, hr⟩ := Thrown.bind_eq_ok hr
  obtain ⟨z', -, hr⟩ := Thrown.bind_eq_ok hr
  cases hr
  refine ⟨⟨(kdfRk state.rootKey z).1, z', 0⟩, ⟨state.rootKey, z, 0⟩,
    ⟨.ratchet _ _ (.ratchet _ _ hroot), rfl, .ratchet _ _ hroot, rfl, ?_⟩, rfl⟩
  rintro _ ⟨⟩
  exact ⟨n, Nat.lt_succ_self n, hroot⟩

theorem placed_initiateSession {contactUserId selfUserId : JsString} {contactBundle : ContactBundle}
    {ea : S.X25519Secret} {kemRandom ct : Bytes} {z : S.SharedSecret} {k : S.KyberShared}
    {r : Initiated S} (hz : S.x25519SharedSecret ea contactBundle.x25519PublicKey = some z)
    (hk : S.encapsulate contactBundle.kyberPublicKey kemRandom = some (ct, k))
    (hr : initiateSession contactUserId selfUserId contactBundle ea kemRandom = .ok r) :
    ∃ sending, Placed r.state ⟨z, k⟩ 0 sending none := by
  have hroot := RootAt.handshake (h := ⟨z, k⟩) (rootKeyInfoBytes contactUserId selfUserId)
  simp only [initiateSession, hz, hk, Thrown.ofOption] at hr
  cases hr
  exact ⟨⟨_, z, 0⟩, .ratchet _ _ hroot, rfl, hroot, rfl, by simp⟩

/-- The first stored state of a session is placed, with its first message key behind it. -/
theorem opening_placed (hS : S.OneWay) {key : S.MessageKey} {next : RatchetState S}
    (hh : a.secrets = some h) (ho : opening a = some (key, next)) :
    ∃ depth sending receiving p, Placed next h depth sending receiving ∧
      key = p.messageKey ∧ Behind h depth sending receiving p := by
  cases a with
  | initiate contactUserId selfUserId contactBundle ea kemRandom =>
    obtain ⟨z, hz, hh⟩ := Option.bind_eq_some_iff.mp hh
    obtain ⟨⟨ct, k⟩, hk, hh⟩ := Option.bind_eq_some_iff.mp hh
    cases hh
    simp only [opening] at ho
    split at ho
    · cases ho
    · rename_i opened hopened
      obtain ⟨first, hp⟩ := placed_initiateSession hz hk hopened
      split at ho
      · cases ho
      · rename_i sending hsend
        cases ho
        obtain ⟨hmk, hnext⟩ := hp.send hsend
        exact ⟨_, _, _, _, hnext, hmk, hp.behind_sent hS⟩
  | handshake contactUserId selfUserId ea ct selfX25519SecretKey selfKyberSecretKey newDhs =>
    obtain ⟨z, hz, hh⟩ := Option.bind_eq_some_iff.mp hh
    obtain ⟨k, hk, hh⟩ := Option.bind_eq_some_iff.mp hh
    cases hh
    simp only [opening] at ho
    split at ho
    · cases ho
    · rename_i r hr
      simp only [receiveHandshake, hz, hk, Thrown.ofOption] at hr
      have hroot := RootAt.handshake (h := ⟨z, k⟩) (rootKeyInfoBytes contactUserId selfUserId)
      obtain ⟨sending, receiving, hp, hdhr⟩ :=
        placed_dhRatchetStep { rootKey := _, dhsPublicKey := _, .. } hroot hr
      split at ho
      · rename_i received hreceive
        cases ho
        rcases hp.receive hreceive with ⟨-, c, hc, hmk, hnext⟩ | ⟨hne, -⟩
        · exact ⟨_, _, _, _, hnext, hmk, hp.behind_received hS hc⟩
        · exact absurd (congrArg some hdhr) hne
      · cases ho
  | send => cases hh
  | receive q n newDhs => cases hh

/-- One message of a session: its key is behind the next state, with all that was behind. -/
theorem continuing_placed (hS : S.OneWay) {state next : RatchetState S} {key : S.MessageKey}
    {depth : ℕ} {sending : ChainPoint S} {receiving : Option (ChainPoint S)}
    (hp : Placed state h depth sending receiving) (hc : continuing state a = some (key, next)) :
    ∃ depth' sending' receiving' p, depth ≤ depth' ∧ Placed next h depth' sending' receiving' ∧
      key = p.messageKey ∧ Behind h depth' sending' receiving' p ∧
      ∀ q, Behind h depth sending receiving q → Behind h depth' sending' receiving' q := by
  cases a with
  | initiate contactUserId selfUserId contactBundle ea kemRandom => cases hc
  | handshake contactUserId selfUserId ea ct selfX25519SecretKey selfKyberSecretKey newDhs => cases hc
  | send =>
    simp only [continuing] at hc
    split at hc
    · cases hc
    · rename_i k hk
      cases hc
      obtain ⟨hmk, hnext⟩ := hp.send hk
      exact ⟨_, _, _, _, le_rfl, hnext, hmk, hp.behind_sent hS, fun q hq => hq.send⟩
  | receive q n newDhs =>
    simp only [continuing] at hc
    split at hc
    · rename_i k hk
      cases hc
      rcases hp.receive hk with ⟨-, c, hmem, hmk, hnext⟩ | ⟨-, z, z', -, hmk, hnext⟩
      · exact ⟨_, _, _, _, le_rfl, hnext, hmk, hp.behind_received hS hmem,
          fun q hq => hq.receive hmem⟩
      · exact ⟨_, _, _, _, Nat.le_add_right _ _, hnext, hmk, behind_ratcheted hS hp.root z z',
          fun q hq => hq.ratchet hS hp z z'⟩
    · cases hc

theorem recorded_step (hS : S.OneWay) (hs : Recorded s) (hg : FreshHandshake s a)
    (he : step s a = some t) : Recorded t := by
  rcases step_cases he with ⟨h, key, next, hh, ho, rfl⟩ |
    ⟨state, rest, h, hs', key, next, -, hstored, hhandshakes, hc, rfl⟩
  · obtain ⟨depth, sending, receiving, p, hp, hmk, hb⟩ := opening_placed hS hh ho
    refine ⟨?_, ?_⟩
    · rintro _ ⟨⟩
      refine ⟨h, rfl, depth, sending, receiving, hp, fun u hu hsecrets => ?_⟩
      rcases List.mem_cons.mp hu with rfl | hu
      · exact ⟨p, hmk, hb⟩
      · exact absurd (hsecrets ▸ (hs.used u hu).1) (hg h hh)
    · intro u hu
      rcases List.mem_cons.mp hu with rfl | hu
      · obtain ⟨n, -, hroot⟩ := hb.root
        exact ⟨List.mem_cons_self, p, n, hmk, hroot⟩
      · obtain ⟨hmem, hat⟩ := hs.used u hu
        exact ⟨List.mem_cons_of_mem _ hmem, hat⟩
  · obtain ⟨h', hh', depth, sending, receiving, hp, hused⟩ := hs.current state (by rw [hstored]; rfl)
    rw [hhandshakes] at hh'
    cases hh'
    obtain ⟨depth', sending', receiving', p, -, hp', hmk, hb, hkeep⟩ := continuing_placed hS hp hc
    refine ⟨?_, ?_⟩
    · rintro _ ⟨⟩
      refine ⟨h, by rw [hhandshakes]; rfl, depth', sending', receiving', hp', fun u hu hsecrets => ?_⟩
      rcases List.mem_cons.mp hu with rfl | hu
      · exact ⟨p, hmk, hb⟩
      · obtain ⟨q, hq, hbq⟩ := hused u hu hsecrets
        exact ⟨q, hq, hkeep q hbq⟩
    · intro u hu
      rcases List.mem_cons.mp hu with rfl | hu
      · obtain ⟨n, -, hroot⟩ := hb.root
        exact ⟨by rw [hhandshakes]; exact List.mem_cons_self, p, n, hmk, hroot⟩
      · exact hs.used u hu

theorem recorded (hS : S.OneWay) (hs : (machine S).Reach FreshHandshake s) : Recorded s := by
  refine hs.invariant ?_ fun s a t => recorded_step hS
  rintro _ rfl
  exact ⟨by simp, by simp⟩

/-- What a session used is out of reach of the session it has become. -/
theorem Recorded.beyond (hS : S.OneWay) (hs : Recorded s) {u : UsedKey S} (hu : u ∈ s.used)
    {p : ChainPoint S} {n : ℕ} (hmk : u.messageKey = p.messageKey) (hroot : RootAt u.secrets n p.root)
    {state : RatchetState S} (hstate : state ∈ s.stored.head?) : Beyond state u.secrets n p := by
  obtain ⟨h, -, depth, sending, receiving, hp, hused⟩ := hs.current state hstate
  by_cases hh : u.secrets = h
  · obtain ⟨q, hq, hb⟩ := hused u hu hh
    rw [ChainPoint.messageKey_injective hS (hmk.symm.trans hq), hh] at *
    exact hb.beyond hS hp hroot
  · exact hp.beyond_other hS hh hroot

/-- A key that these histories have used is out of reach of everything they hold now. -/
theorem Recorded.not_computes (hS : S.OneWay) {known : Set (Hidden S)}
    (hknown : ∀ x ∈ known, x.IsMaterial) {u : UsedKey S}
    (hsecret : ¬Computes known (.sharedSecret u.secrets.sharedSecret) ∨
      ¬Computes known (.kyberShared u.secrets.kyberShared))
    {devices : Set (History S)} (hdevice : devices.Nonempty)
    (hused : ∀ s ∈ devices, Recorded s ∧ u ∈ s.used) :
    ¬Computes (known ∪ {x | ∃ s ∈ devices, x ∈ s.seized}) (.messageKey u.messageKey) := by
  obtain ⟨s, hs⟩ := hdevice
  obtain ⟨hrecorded, hu⟩ := hused s hs
  obtain ⟨-, p, n, hmk, hroot⟩ := hrecorded.used u hu
  have hguarded := above_guarded hS hknown hsecret hroot {x | ∃ s ∈ devices, x ∈ s.seized} (by
    rintro x ⟨t, ht, state, hstate, hx⟩
    obtain ⟨hrecorded, hu⟩ := hused t ht
    exact ⟨state, hrecorded.beyond hS hu hmk hroot hstate, hx⟩)
  rw [hmk]
  exact hguarded.not_deducible (show Above known u.secrets n p (.messageKey p.messageKey) from rfl)

end History

/-- A message key that one device has used, or both ends of a conversation, is not to be computed
from the sessions these devices hold now and any key material whatsoever, unless the material
gives both secrets of the handshake. -/
theorem forwardSecrecy (hS : S.OneWay) {known : Set (Hidden S)} (hknown : ∀ x ∈ known, x.IsMaterial)
    {u : UsedKey S}
    (hsecret : ¬Computes known (.sharedSecret u.secrets.sharedSecret) ∨
      ¬Computes known (.kyberShared u.secrets.kyberShared))
    {devices : Set (History S)} (hdevice : devices.Nonempty)
    (hused : ∀ s ∈ devices, (History.machine S).Reach History.FreshHandshake s ∧ u ∈ s.used) :
    ¬Computes (known ∪ {x | ∃ s ∈ devices, x ∈ s.seized}) (.messageKey u.messageKey) := by
  have hrecorded (s : History S) (hs : s ∈ devices) : History.Recorded s ∧ u ∈ s.used := by
    obtain ⟨hreach, hu⟩ := hused s hs
    exact ⟨History.recorded hS hreach, hu⟩
  exact History.Recorded.not_computes hS hknown hsecret hdevice hrecorded

namespace Symbolic

/-- Whoever has every X25519 secret still lacks the output of the KEM. -/
theorem not_computes_kyberShared (k : Bytes) :
    ¬Computes (S := suite) {x | ∃ a, x = .x25519Secret a} (.kyberShared k) := by
  have hguarded : Guarded (α := Hidden suite) Hidden.Rule {x | ∃ a, x = .x25519Secret a} fun x =>
      (∃ k, x = .kyberShared k) ∨ (∃ sk, x = .kyberSecret sk) ∨ ∃ r, x = .kemRandom r := by
    refine ⟨?_, ?_⟩
    · rintro x ⟨a, rfl⟩ (⟨k, hk⟩ | ⟨sk, hk⟩ | ⟨r, hk⟩)
      · cases hk
      · cases hk
      · cases hk
    · rintro premises x hr (⟨k, rfl⟩ | ⟨sk, rfl⟩ | ⟨r, rfl⟩)
      · cases hr with
        | encapsulate hk => exact ⟨_, List.mem_singleton_self _, .inr (.inr ⟨_, rfl⟩)⟩
        | decapsulate hk => exact ⟨_, List.mem_singleton_self _, .inr (.inl ⟨_, rfl⟩)⟩
      · cases hr
      · cases hr
  exact hguarded.not_deducible (.inl ⟨k, rfl⟩)

/-- One side has opened a session and the other has answered the handshake. Both devices are
taken, and every X25519 secret there is. -/
theorem forwardSecrecy_two_devices : ∃ alice bob : History suite, ∃ u ∈ alice.used, u ∈ bob.used ∧
    ¬Computes ({x | ∃ a, x = .x25519Secret a} ∪
      {x | ∃ s ∈ ({alice, bob} : Set (History suite)), x ∈ s.seized})
      (.messageKey u.messageKey) := by
  let a : Secret := ⟨1, by decide⟩
  let b : Secret := ⟨2, by decide⟩
  let c : Secret := ⟨3, by decide⟩
  let h : HandshakeSecrets suite := ⟨(1, 2), kemCiphertext []⟩
  let u : UsedKey suite := ⟨h, History.firstKey h [] []⟩
  have hab : suite.x25519SharedSecret a (publicKey b) = some (1, 2) := sharedSecret_publicKey a b
  have hba : suite.x25519SharedSecret b (publicKey a) = some (1, 2) := sharedSecret_publicKey b a
  have hca : suite.x25519SharedSecret c (publicKey a) = some (1, 3) := sharedSecret_publicKey c a
  have halice : ∃ s, (History.machine suite).Reach History.FreshHandshake s ∧ u ∈ s.used := by
    obtain ⟨next, -, -, he⟩ := History.initiate_enabled ⟨[], [], []⟩ [] [] (k := kemCiphertext [])
      (b := ⟨publicKey b, []⟩) (r := []) hab rfl
    exact ⟨_, .step (.init rfl) (fun _ _ => List.not_mem_nil) he, List.mem_cons_self⟩
  have hbob : ∃ s, (History.machine suite).Reach History.FreshHandshake s ∧ u ∈ s.used := by
    obtain ⟨next, he⟩ := History.handshake_enabled ⟨[], [], []⟩ [] [] []
      (k := kemCiphertext []) (c := kemCiphertext []) hba rfl hca
    exact ⟨_, .step (.init rfl) (fun _ _ => List.not_mem_nil) he, List.mem_cons_self⟩
  obtain ⟨alice, halice⟩ := halice
  obtain ⟨bob, hbob⟩ := hbob
  refine ⟨alice, bob, u, halice.2, hbob.2, forwardSecrecy suite_oneWay ?_
    (.inr (not_computes_kyberShared (kemCiphertext []))) ⟨alice, .inl rfl⟩ ?_⟩
  · rintro x ⟨a, rfl⟩
    trivial
  · rintro s (rfl | rfl)
    · exact halice
    · exact hbob

end Symbolic

end Epistl
