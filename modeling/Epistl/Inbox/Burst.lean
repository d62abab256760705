import Epistl.Inbox.Calls
import Epistl.Inbox.Convergence
import Epistl.Inbox.Network
import Epistl.Runs.Milestone

/-! # A burst of frames

`startInboxListener` does not await `processMessageFrame`. When every call loads and
stores only after the calls before it have stored, a burst ends where processing the
frames one at a time ends. The schedules the code allows are not all of this kind.
-/
namespace Epistl.Calls
variable {S : Suite} (ctx : Context S) (contactUserId : JsString)

/-- The frames of a burst in sending order, and what each of their calls draws. -/
structure Burst (S : Suite) where
  frames : List (JsString × JsString)
  newDhs : ℕ → S.X25519Secret

/-- The device after the first `n` frames, one at a time. -/
def sequential (b : Burst S) (dev : Device S) : ℕ → Device S
  | 0 => dev
  | n + 1 =>
    match b.frames[n]? with
    | none => sequential b dev n
    | some (bodyB64, createdAt) => processMessageFrame ctx ⟨contactUserId, bodyB64⟩ createdAt
        (b.newDhs n) (sequential b dev n)

/-- One at a time, every frame is accepted. -/
def Valid (b : Burst S) (dev : Device S) : Prop :=
  ∀ n bodyB64 createdAt, b.frames[n]? = some (bodyB64, createdAt) →
    acceptsFrame ctx ⟨contactUserId, bodyB64⟩ (b.newDhs n)
      (sequential ctx contactUserId b dev n) = true

/-- The frames arrive in order and nothing else happens. -/
def Arrives (b : Burst S) (s : Calls S) : Action S → Prop
  | .receive bodyB64 createdAt => b.frames[s.calls.length]? = some (bodyB64, createdAt)
  | .send .. | .crash => False
  | .resume i newDhs _ => newDhs = b.newDhs i

/-- A session is loaded and stored, and a message is stored, only after the earlier
calls have stored theirs. -/
def InTurn (s : Calls S) : Action S → Prop
  | .resume i _ _ =>
    match s.calls[i]? with
    | some (.loading ..) | some (.writing _) => AllBefore Call.wrote s.calls i
    | some (.saving _) => AllBefore Call.saved s.calls i
    | _ => True
  | _ => True

/-- The messages stored for a burst whose frames have these plaintexts. -/
def burstMessages (b : Burst S) (plaintexts : List Bytes) : List StoredMessage :=
  List.zipWith (fun f p => incomingMessage contactUserId f.2 p) b.frames plaintexts

/-- The burst went as if its frames had come one at a time. -/
structure Settles (b : Burst S) (dev : Device S) (s : Calls S) : Prop where
  events : ∀ e ∈ s.device.events, e ∈ dev.events ∨ ∃ t text, e = .saved contactUserId t text
  inOrder : ∃ n ≤ b.frames.length,
    s.device.messages = (sequential ctx contactUserId b dev n).messages
  final : s.calls.length = b.frames.length → (∀ c ∈ s.calls, c = .done) →
    s.device.sessions = (sequential ctx contactUserId b dev b.frames.length).sessions ∧
    s.device.sessionIndex = (sequential ctx contactUserId b dev b.frames.length).sessionIndex ∧
    ∃ plaintexts, plaintexts.length = b.frames.length ∧
      s.device.messages = dev.messages ++ burstMessages contactUserId b plaintexts

variable {ctx : Context S} {contactUserId : JsString} {b : Burst S} {dev : Device S} {s t : Calls S}
  {i n : ℕ} {c c' : Call S} {bodyB64 createdAt : JsString} {newDhs : S.X25519Secret}

/-- The index once the contact is in it. -/
def indexWith (contactUserId : JsString) (dev : Device S) : List JsString :=
  if contactUserId ∈ dev.sessionIndex then dev.sessionIndex else dev.sessionIndex ++ [contactUserId]

theorem mem_indexWith : contactUserId ∈ indexWith contactUserId dev := by
  unfold indexWith
  split
  · assumption
  · simp

theorem Valid.succ (hv : Valid ctx contactUserId b dev)
    (hn : b.frames[n]? = some (bodyB64, createdAt)) :
    ∃ bundle plaintext next, ctx.findContactBundle contactUserId = some bundle ∧
      decodeFrame ctx bundle contactUserId (Base64.base64ToBytes bodyB64)
        ((sequential ctx contactUserId b dev n).loadSession contactUserId) (b.newDhs n) =
          .ok (some (.success plaintext next)) ∧
      sequential ctx contactUserId b dev (n + 1) =
        (sequential ctx contactUserId b dev n).accept contactUserId createdAt plaintext next := by
  obtain ⟨bundle, plaintext, next, hbundle, hd, hp⟩ :=
    acceptsFrame_true (hv n bodyB64 createdAt hn) createdAt
  refine ⟨bundle, plaintext, next, hbundle, hd, ?_⟩
  rw [← hp]
  simp only [sequential, hn]

theorem Valid.index (hv : Valid ctx contactUserId b dev) (hn : n < b.frames.length) :
    (sequential ctx contactUserId b dev (n + 1)).sessionIndex = indexWith contactUserId dev := by
  induction n with
  | zero =>
    obtain ⟨_, _, _, -, -, hs⟩ := hv.succ (List.getElem?_eq_getElem hn)
    rw [hs]
    rfl
  | succ n ih =>
    obtain ⟨_, _, _, -, -, hs⟩ := hv.succ (List.getElem?_eq_getElem hn)
    rw [hs]
    simp only [Device.accept, Device.emit, Device.saveMessage, Device.saveSession, ih (by omega),
      if_pos mem_indexWith]

theorem zipWith_concat {α β γ : Type*} (f : α → β → γ) {l : List α} {ps : List β} {x : α} (p : β)
    (h : l[ps.length]? = some x) :
    List.zipWith f l (ps ++ [p]) = List.zipWith f l ps ++ [f x p] := by
  induction ps generalizing l with
  | nil =>
    cases l with
    | nil => simp at h
    | cons y l =>
      simp only [List.length_nil, List.getElem?_cons_zero, Option.some.injEq] at h
      simp [h]
  | cons q ps ih =>
    cases l with
    | nil => simp at h
    | cons y l => simpa using ih (by simpa using h)

/-- One at a time, each frame leaves its message. -/
theorem Valid.messages (hv : Valid ctx contactUserId b dev) (hn : n ≤ b.frames.length) :
    ∃ plaintexts, plaintexts.length = n ∧ (sequential ctx contactUserId b dev n).messages =
      dev.messages ++ burstMessages contactUserId b plaintexts := by
  induction n with
  | zero => exact ⟨[], rfl, by simp [sequential, burstMessages]⟩
  | succ n ih =>
    obtain ⟨plaintexts, rfl, hm⟩ := ih (by omega)
    obtain ⟨_, p, _, -, -, hs⟩ := hv.succ (List.getElem?_eq_getElem (Nat.lt_of_succ_le hn))
    refine ⟨plaintexts ++ [p], by simp, ?_⟩
    rw [hs, burstMessages, zipWith_concat _ p (List.getElem?_eq_getElem (Nat.lt_of_succ_le hn)),
      ← List.append_assoc, ← burstMessages, ← hm]
    rfl

/-- What a call carries on once its session is stored. -/
def Carries (ctx : Context S) (contactUserId : JsString) (b : Burst S) (dev : Device S) (i : ℕ)
    (o : Outcome) : Prop :=
  (sequential ctx contactUserId b dev (i + 1)).messages =
      (sequential ctx contactUserId b dev i).messages ++ [o.message] ∧
    ∃ t text, o.event = some (.saved contactUserId t text)

/-- Call `i` is on its way to what frame `i` leaves behind. -/
def Fits (ctx : Context S) (contactUserId : JsString) (b : Burst S) (dev : Device S) (i : ℕ) :
    Call S → Prop
  | .looking bodyB64 createdAt => b.frames[i]? = some (bodyB64, createdAt)
  | .loading bodyB64 createdAt bundle => b.frames[i]? = some (bodyB64, createdAt) ∧
    ctx.findContactBundle contactUserId = some bundle
  | .sending .. => False
  | .writing write => (sequential ctx contactUserId b dev (i + 1)).sessions =
      Function.update (sequential ctx contactUserId b dev i).sessions contactUserId
        (some write.next) ∧ Carries ctx contactUserId b dev i write.outcome
  | .indexing outcome | .saving outcome => Carries ctx contactUserId b dev i outcome
  | .indexWriting index outcome => index = indexWith contactUserId dev ∧
    Carries ctx contactUserId b dev i outcome
  | .returning event => ∃ t text, event = some (.saved contactUserId t text)
  | .done => True

/-- The invariant of a burst: the calls that stored their session, and those that
stored their message, are the first ones, and the storage is what these leave. -/
structure BurstInv (ctx : Context S) (contactUserId : JsString) (b : Burst S) (dev : Device S)
    (device : Device S) (calls : List (Call S)) (w v : ℕ) : Prop where
  length : calls.length ≤ b.frames.length
  fits : ∀ i c, calls[i]? = some c → Fits ctx contactUserId b dev i c
  wrote : PassedUpTo Call.wrote calls w
  saved : PassedUpTo Call.saved calls v
  sessions : device.sessions = (sequential ctx contactUserId b dev w).sessions
  messages : device.messages = (sequential ctx contactUserId b dev v).messages
  index : device.sessionIndex = dev.sessionIndex ∨
    0 < w ∧ device.sessionIndex = indexWith contactUserId dev
  indexed : ∀ (i : ℕ) (c : Call S), calls[i]? = some c → c.indexed = true →
    device.sessionIndex = indexWith contactUserId dev
  events : ∀ e ∈ device.events, e ∈ dev.events ∨ ∃ t text, e = .saved contactUserId t text

variable {device : Device S} {calls : List (Call S)} {w v : ℕ} {outcome : Outcome}

theorem burstInv_start (ctx : Context S) (contactUserId : JsString) (b : Burst S) (dev : Device S) :
    BurstInv ctx contactUserId b dev dev [] 0 0 where
  length := Nat.zero_le _
  fits i c h := by simp at h
  wrote := PassedUpTo.nil
  saved := PassedUpTo.nil
  sessions := rfl
  messages := rfl
  index := .inl rfl
  indexed i c h := by simp at h
  events e he := .inl he

namespace BurstInv

theorem receive (h : BurstInv ctx contactUserId b dev device calls w v)
    (hb : b.frames[calls.length]? = some (bodyB64, createdAt)) :
    BurstInv ctx contactUserId b dev device (calls ++ [.looking bodyB64 createdAt]) w v where
  length := by
    rw [List.length_append]
    exact lt_length_of_getElem? hb
  fits i c hc := by
    rcases getElem?_concat_cases hc with ⟨rfl, rfl⟩ | hc
    · exact hb
    · exact h.fits i c hc
  wrote := h.wrote.push rfl
  saved := h.saved.push rfl
  sessions := h.sessions
  messages := h.messages
  index := h.index
  indexed i c hc hi := by
    rcases getElem?_concat_cases hc with ⟨rfl, rfl⟩ | hc
    · cases hi
    · exact h.indexed i c hc hi
  events := h.events

/-- A call moves on without storing a session or a message. -/
theorem move (h : BurstInv ctx contactUserId b dev device calls w v) (hc : calls[i]? = some c)
    (hfits : Fits ctx contactUserId b dev i c') (hwrote : c'.wrote = c.wrote)
    (hsaved : c'.saved = c.saved)
    (hindexed : c'.indexed = true → device.sessionIndex = indexWith contactUserId dev) :
    BurstInv ctx contactUserId b dev device (calls.set i c') w v where
  length := by simpa using h.length
  fits j d hd := by
    rcases getElem?_set_cases hd with ⟨rfl, rfl⟩ | ⟨-, hd⟩
    · exact hfits
    · exact h.fits j d hd
  wrote := h.wrote.keep hc hwrote
  saved := h.saved.keep hc hsaved
  sessions := h.sessions
  messages := h.messages
  index := h.index
  indexed j d hd hi := by
    rcases getElem?_set_cases hd with ⟨rfl, rfl⟩ | ⟨-, hd⟩
    · exact hindexed hi
    · exact h.indexed j d hd hi
  events := h.events

/-- A frame that is decoded against the session of its turn is accepted. -/
theorem decoded (hv : Valid ctx contactUserId b dev)
    (h : BurstInv ctx contactUserId b dev device calls w v) (hc : calls[i]? = some c)
    (hwrote : c.wrote = false) (hsaved : c.saved = false)
    (hb : b.frames[i]? = some (bodyB64, createdAt)) {bundle : ContactKeyBundle}
    (hbundle : ctx.findContactBundle contactUserId = some bundle)
    {session : Option (RatchetState S)}
    (hsession : decodeFrame ctx bundle contactUserId (Base64.base64ToBytes bodyB64) session
        (b.newDhs i) = decodeFrame ctx bundle contactUserId (Base64.base64ToBytes bodyB64)
        ((sequential ctx contactUserId b dev i).loadSession contactUserId) (b.newDhs i))
    (s : Calls S) (hdevice : s.device = device) (hcalls : s.calls = calls) (basis : Option ℕ) :
    let t := s.settle contactUserId i createdAt basis (decodeFrame ctx bundle contactUserId
      (Base64.base64ToBytes bodyB64) session (b.newDhs i))
    BurstInv ctx contactUserId b dev t.device t.calls w v := by
  obtain ⟨bundle', plaintext, next, hbundle', hd, hs⟩ := hv.succ hb
  cases hbundle.symm.trans hbundle'
  subst hdevice hcalls
  simp only [hsession, hd, settle, put]
  refine h.move hc ⟨?_, ?_, createdAt, _, rfl⟩ hwrote.symm hsaved.symm (fun hi => by cases hi)
  · rw [hs]
    rfl
  · rw [hs]
    rfl

/-- The next call stores its session. -/
theorem storeSession (h : BurstInv ctx contactUserId b dev device calls w v) {write : Pending S}
    (hc : calls[w]? = some (.writing write)) :
    BurstInv ctx contactUserId b dev (device.writeSession contactUserId write.next)
      (calls.set w (.indexing write.outcome)) (w + 1) v where
  length := by simpa using h.length
  fits j d hd := by
    rcases getElem?_set_cases hd with ⟨rfl, rfl⟩ | ⟨-, hd⟩
    · exact (h.fits j _ hc).2
    · exact h.fits j d hd
  wrote := h.wrote.next hc rfl
  saved := h.saved.keep hc rfl
  sessions := by
    rw [(h.fits w _ hc).1, ← h.sessions]
    rfl
  messages := h.messages
  index := h.index.imp id fun hi => ⟨Nat.succ_pos w, hi.2⟩
  indexed j d hd hi := by
    rcases getElem?_set_cases hd with ⟨rfl, rfl⟩ | ⟨-, hd⟩
    · cases hi
    · exact h.indexed j d hd hi
  events := h.events

theorem storeIndex (h : BurstInv ctx contactUserId b dev device calls w v) {index : List JsString}
    (hc : calls[i]? = some (.indexWriting index outcome)) :
    BurstInv ctx contactUserId b dev (device.writeIndex index) (calls.set i (.saving outcome)) w v where
  length := by simpa using h.length
  fits j d hd := by
    rcases getElem?_set_cases hd with ⟨rfl, rfl⟩ | ⟨-, hd⟩
    · exact (h.fits j _ hc).2
    · exact h.fits j d hd
  wrote := h.wrote.keep hc rfl
  saved := h.saved.keep hc rfl
  sessions := h.sessions
  messages := h.messages
  index := .inr ⟨Nat.zero_lt_of_lt ((h.wrote.iff i _ hc).mp rfl), (h.fits i _ hc).1⟩
  indexed j d _ _ := (h.fits i _ hc).1
  events := h.events

/-- The next call stores its message. -/
theorem storeMessage (h : BurstInv ctx contactUserId b dev device calls w v)
    (hc : calls[v]? = some (.saving outcome)) :
    BurstInv ctx contactUserId b dev (device.saveMessage outcome.message)
      (calls.set v (.returning outcome.event)) w (v + 1) where
  length := by simpa using h.length
  fits j d hd := by
    rcases getElem?_set_cases hd with ⟨rfl, rfl⟩ | ⟨-, hd⟩
    · exact (h.fits j _ hc).2
    · exact h.fits j d hd
  wrote := h.wrote.keep hc rfl
  saved := h.saved.next hc rfl
  sessions := h.sessions
  messages := by
    rw [(h.fits v _ hc).1, ← h.messages]
    rfl
  index := h.index
  indexed j d hd hi := by
    rcases getElem?_set_cases hd with ⟨rfl, rfl⟩ | ⟨-, hd⟩
    · exact h.indexed j _ hc rfl
    · exact h.indexed j d hd hi
  events := h.events

theorem report (h : BurstInv ctx contactUserId b dev device calls w v) (t text : JsString) :
    BurstInv ctx contactUserId b dev (device.emit (.saved contactUserId t text)) calls w v :=
  { h with
    events := fun e he => by
      rcases List.mem_append.mp he with he | he
      · exact h.events e he
      · exact .inr ⟨t, text, List.mem_singleton.mp he⟩ }

/-- A resumed call in its turn keeps the invariant. -/
theorem resume (hv : Valid ctx contactUserId b dev)
    (h : BurstInv ctx contactUserId b dev s.device s.calls w v) (hc : s.calls[i]? = some c)
    {random : SendRandom S} (hturn : InTurn s (.resume i (b.newDhs i) random))
    (ht : Calls.resume ctx contactUserId s i (b.newDhs i) random c = some t) :
    ∃ w' v', BurstInv ctx contactUserId b dev t.device t.calls w' v' := by
  have hfits := h.fits i c hc
  simp only [InTurn, hc] at hturn
  cases c with
  | looking bodyB64 createdAt =>
    obtain ⟨bundle, plaintext, next, hbundle, hd, -⟩ := hv.succ hfits
    simp only [Calls.resume, hbundle] at ht
    split at ht
    · cases ht
      exact ⟨w, v, h.move hc ⟨hfits, hbundle⟩ rfl rfl fun hi => by cases hi⟩
    · rename_i hhead
      cases ht
      exact ⟨w, v, h.decoded hv hc rfl rfl hfits hbundle (decodeFrame_congr hhead _ _) s rfl rfl _⟩
  | loading bodyB64 createdAt bundle =>
    obtain rfl := h.wrote.eq_of_next hturn hc rfl
    cases ht
    refine ⟨i, v, h.decoded hv hc rfl rfl hfits.1 hfits.2 ?_ s rfl rfl _⟩
    simp only [Device.loadSession, h.sessions]
  | sending text createdAt contact => cases hfits
  | writing write =>
    obtain rfl := h.wrote.eq_of_next hturn hc rfl
    cases ht
    exact ⟨i + 1, v, h.storeSession hc⟩
  | indexing outcome =>
    have hpos : 0 < w := Nat.zero_lt_of_lt ((h.wrote.iff i _ hc).mp rfl)
    simp only [Calls.resume] at ht
    split at ht
    · rename_i hmem
      cases ht
      refine ⟨w, v, h.move hc hfits rfl rfl fun _ => ?_⟩
      rcases h.index with hi | hi
      · rw [indexWith, ← hi, if_pos hmem]
      · exact hi.2
    · rename_i hmem
      cases ht
      refine ⟨w, v, h.move hc ⟨?_, hfits⟩ rfl rfl fun hi => by cases hi⟩
      rcases h.index with hi | hi
      · rw [indexWith, ← hi, if_neg hmem]
      · exact absurd (hi.2 ▸ mem_indexWith) hmem
  | indexWriting index outcome =>
    cases ht
    exact ⟨w, v, h.storeIndex hc⟩
  | saving outcome =>
    obtain rfl := h.saved.eq_of_next hturn hc rfl
    cases ht
    exact ⟨w, i + 1, h.storeMessage hc⟩
  | returning event =>
    obtain ⟨createdAt, text, rfl⟩ := hfits
    cases ht
    have hdone := h.move hc (show Fits ctx contactUserId b dev i .done from trivial) rfl rfl
      fun _ => h.indexed i _ hc rfl
    exact ⟨w, v, hdone.report createdAt text⟩
  | done => cases ht

end BurstInv

/-- In every schedule in which each call loads and stores after the calls before it have
stored, a burst leaves what its frames leave one at a time. -/
theorem burst_sequential (hv : Valid ctx contactUserId b dev)
    (h : (machine ctx contactUserId dev).Reach (fun s a => Arrives b s a ∧ InTurn s a) s) :
    Settles ctx contactUserId b dev s := by
  obtain ⟨w, v, hinv⟩ : ∃ w v, BurstInv ctx contactUserId b dev s.device s.calls w v := by
    refine h.invariant (I := fun s => ∃ w v, BurstInv ctx contactUserId b dev s.device s.calls w v)
      ?_ ?_
    · rintro _ rfl
      exact ⟨0, 0, burstInv_start ctx contactUserId b dev⟩
    · rintro s a t ⟨w, v, hinv⟩ ⟨harrives, hturn⟩ ht
      cases a with
      | receive bodyB64 createdAt =>
        cases ht
        exact ⟨w, v, hinv.receive harrives⟩
      | send connected draft createdAt => exact harrives.elim
      | resume i newDhs random =>
        obtain rfl : newDhs = b.newDhs i := harrives
        simp only [machine, step] at ht
        split at ht
        · cases ht
        · rename_i call hc
          obtain ⟨u, hu, rfl⟩ := Option.map_eq_some_iff.mp ht
          obtain ⟨w', v', hinv'⟩ := hinv.resume hv hc hturn hu
          exact ⟨w', v', hinv'⟩
      | crash => exact harrives.elim
  have hvle : v ≤ b.frames.length := hinv.saved.le.trans hinv.length
  refine ⟨hinv.events, ⟨v, hvle, hinv.messages⟩, fun hlen hdone => ?_⟩
  have hw : w = b.frames.length :=
    (hinv.wrote.eq_length fun c hc => by rw [hdone c hc]; rfl).trans hlen
  have hv' : v = b.frames.length :=
    (hinv.saved.eq_length fun c hc => by rw [hdone c hc]; rfl).trans hlen
  refine ⟨hw ▸ hinv.sessions, ?_, ?_⟩
  · cases hn : b.frames.length with
    | zero =>
      rcases hinv.index with hi | hi
      · exact hi
      · omega
    | succ n =>
      rw [hv.index (by omega)]
      have hlt : n < s.calls.length := by omega
      refine hinv.indexed n s.calls[n] (List.getElem?_eq_getElem hlt) ?_
      rw [hdone _ (List.getElem_mem hlt)]
      rfl
  · rw [hinv.messages, hv']
    exact hv.messages (Nat.le_refl _)

/-- Bob's side of the concrete runs. -/
def bob : Context Symbolic.suite := Messenger.context TwoParty.someone (fun _ => []) .bob

def alice : JsString := (TwoParty.someone .alice).userId

theorem bob_findContactBundle :
    bob.findContactBundle alice = some ((TwoParty.someone .alice).keyBundle []) := by
  simp [bob, alice, Messenger.context, Party.other]

/-- The first two messages of a conversation, as a burst. -/
theorem first_two :
    ∃ (b : Burst Symbolic.suite) (first second : JsString), b.frames = [(first, []), (second, [])] ∧
      (Base64.base64ToBytes first).head? = some handshakeEnvelopeVersion ∧
      (Base64.base64ToBytes second).head? = some ratchetEnvelopeVersion ∧
      Valid bob alice b .empty := by
  have hS := Symbolic.suite_ideal
  let a := TwoParty.someone .alice
  let p := TwoParty.someone .bob
  let random := Messenger.randomOf 2 (by decide)
  obtain ⟨c, kct, -, hfirst, -⟩ := initiate_eq hS a p random.ea random.kemRandom [] random.encode
  obtain ⟨m, -, -, hm, -⟩ := sendOn_eq (a := a) (b := p) (x := sentOn (openedOn c) c) (e := c)
    (n := 1) ⟨rfl, rfl, rfl, rfl⟩ [] random.encode
  obtain ⟨f, -, -, -, hd⟩ := decode_handshake hS hfirst [] random.encode ⟨3, by decide⟩
  have hhead : m.envelope.head? = some ratchetEnvelopeVersion := by
    obtain ⟨-, pcl, encode, he⟩ := hm
    rw [he]
    rfl
  have hv : some ratchetEnvelopeVersion ≠ some handshakeEnvelopeVersion := by decide
  have hbundle : bob.findContactBundle alice = some (a.keyBundle []) := bob_findContactBundle
  generalize henvelope : encodeHandshakeEnvelope _ _ _ _ _ _ _ _ = envelope at hd
  have hhead0 := head_of_decodeHandshake hd
  have h0 : decodeFrame bob (a.keyBundle []) alice envelope none ⟨3, by decide⟩ =
      .ok (some (.success [] (ratchetedTo c.publicKey c f 0))) := by
    simp only [decodeFrame, hhead0, if_true]
    exact congrArg (Except.map some) hd
  have h1 : decodeFrame bob (a.keyBundle []) alice m.envelope
      (some (ratchetedTo c.publicKey c f 0)) ⟨4, by decide⟩ = .ok (some (.success m.plaintext
        { ratchetedTo c.publicKey c f 0 with
          receivingChainKey := some (c.key 2)
          receiveMessageNumber := 2 })) := by
    simp only [decodeFrame, hhead, if_neg hv, if_true]
    exact congrArg (Except.map some) (decode_next hS hm rfl rfl rfl (by decide))
  refine ⟨⟨[(Base64.bytesToBase64 envelope, []), (Base64.bytesToBase64 m.envelope, [])],
    fun n => if n = 0 then ⟨3, by decide⟩ else ⟨4, by decide⟩⟩, _, _, rfl, ?_, ?_, ?_⟩
  · rw [Base64.base64ToBytes_bytesToBase64, hhead0]
  · rw [Base64.base64ToBytes_bytesToBase64, hhead]
  · rintro (_ | _ | n) body createdAt hn
    · cases hn
      simp only [acceptsFrame, hbundle, Base64.base64ToBytes_bytesToBase64, sequential,
        Device.loadSession, Device.empty, if_true, h0]
    · cases hn
      have hp : processMessageFrame bob ⟨alice, Base64.bytesToBase64 envelope⟩ [] ⟨3, by decide⟩
          .empty = Device.accept .empty alice [] [] (ratchetedTo c.publicKey c f 0) :=
        processMessageFrame_success [] hbundle (by rw [Base64.base64ToBytes_bytesToBase64]; exact h0)
      have hsession : (Device.accept .empty alice [] []
          (ratchetedTo c.publicKey c f 0)).loadSession alice = some (ratchetedTo c.publicKey c f 0) := by
        simp [Device.loadSession, Device.accept, Device.emit, Device.saveMessage, Device.saveSession]
      simp only [acceptsFrame, hbundle, Base64.base64ToBytes_bytesToBase64, sequential,
        List.getElem?_cons_zero, if_true, Nat.add_one_ne_zero, if_false, hp, hsession, h1]
    · simp at hn

/-- The second call loads before the first one has stored, and reports its frame. -/
theorem burst_overlaps :
    ¬ ∀ (b : Burst Symbolic.suite) (s : Calls Symbolic.suite), Valid bob alice b .empty →
      (machine bob alice .empty).Reach (Arrives b) s → Settles bob alice b .empty s := by
  intro hall
  obtain ⟨b, first, second, hframes, hfirst, hsecond, hv⟩ := first_two
  have hhead : some ratchetEnvelopeVersion ≠ some handshakeEnvelopeVersion := by decide
  have h1 : (machine bob alice .empty).Reach (Arrives b)
      { start .empty with calls := [.looking first []] } :=
    .step (a := .receive first []) (.init rfl) (by simp [Arrives, start, hframes]) rfl
  have h2 : (machine bob alice .empty).Reach (Arrives b)
      { start .empty with calls := [.looking first [], .looking second []] } :=
    .step (a := .receive second []) h1 (by simp [Arrives, hframes]) rfl
  have h3 : (machine bob alice .empty).Reach (Arrives b) { start .empty with
      calls := [.looking first [], .loading second [] ((TwoParty.someone .alice).keyBundle [])]
      used := [b.newDhs 1, ⟨2, by decide⟩] } :=
    .step (a := .resume 1 (b.newDhs 1) (Messenger.randomOf 2 (by decide))) h2 rfl (by
      simp [machine, step, resume, bob_findContactBundle, hsecond, put, start, Messenger.randomOf])
  have h4 : (machine bob alice .empty).Reach (Arrives b)
      { start (Device.empty.emit (.unverifiable alice [])) with
        calls := [.looking first [], .done]
        used := [b.newDhs 1, ⟨2, by decide⟩, b.newDhs 1, ⟨2, by decide⟩] } :=
    .step (a := .resume 1 (b.newDhs 1) (Messenger.randomOf 2 (by decide))) h3 rfl (by
      simp [machine, step, resume, decodeFrame, hsecond, hhead, settle, put, emit, start,
        Device.loadSession, Device.empty, Device.emit, Messenger.randomOf])
  rcases (hall b _ hv h4).events (.unverifiable alice []) (by simp [start, Device.emit])
    with he | ⟨_, _, he⟩
  · simp [Device.empty] at he
  · cases he

/-- A call that has decoded its frame stores and returns, when those before it have. -/
theorem reach_returned
    (h : (machine ctx contactUserId dev).Reach (fun s a => Arrives b s a ∧ InTurn s a) s)
    {write : Pending S} (hc : s.calls[i]? = some (.writing write))
    (hbefore : AllBefore Call.saved s.calls i) (random : SendRandom S) :
    ∃ t, (machine ctx contactUserId dev).Reach (fun s a => Arrives b s a ∧ InTurn s a) t ∧
      t.calls = s.calls.set i .done ∧ t.device.loadSession contactUserId = some write.next := by
  have hsaved (c : Call S) : AllBefore Call.saved (s.calls.set i c) i := by
    rwa [AllBefore, List.take_set_of_le (Nat.le_refl i)]
  have hwrote : AllBefore Call.wrote s.calls i := by
    intro c hmem
    have hpassed := hbefore c hmem
    cases c <;> first | rfl | cases hpassed
  -- one access of the call
  have hstep {u v : Calls S} {c : Call S}
      (hu : (machine ctx contactUserId dev).Reach (fun s a => Arrives b s a ∧ InTurn s a) u)
      (hcalls : u.calls[i]? = some c) (hturn : InTurn u (.resume i (b.newDhs i) random))
      (hres : resume ctx contactUserId u i (b.newDhs i) random c = some v) :
      (machine ctx contactUserId dev).Reach (fun s a => Arrives b s a ∧ InTurn s a)
        { v with used := b.newDhs i :: random.ea :: u.used } := by
    refine hu.step (a := .resume i (b.newDhs i) random) ⟨rfl, hturn⟩ ?_
    simp only [machine, step, hcalls, hres, Option.map_some]
  have hget (c : Call S) : (s.calls.set i c)[i]? = some c :=
    List.getElem?_set_self (lt_length_of_getElem? hc)
  obtain ⟨u, hu, hcalls, hsession⟩ : ∃ u,
      (machine ctx contactUserId dev).Reach (fun s a => Arrives b s a ∧ InTurn s a) u ∧
      u.calls = s.calls.set i (.indexing write.outcome) ∧
      u.device.loadSession contactUserId = some write.next := by
    refine ⟨_, hstep h hc ?_ rfl, rfl, ?_⟩
    · simpa only [InTurn, hc] using hwrote
    · exact Function.update_self contactUserId (some write.next) s.device.sessions
  obtain ⟨v, hv, hcalls', hsession'⟩ : ∃ v,
      (machine ctx contactUserId dev).Reach (fun s a => Arrives b s a ∧ InTurn s a) v ∧
      v.calls = s.calls.set i (.saving write.outcome) ∧
      v.device.loadSession contactUserId = some write.next := by
    have hturn : InTurn u (.resume i (b.newDhs i) random) := by
      simp only [InTurn, hcalls, hget]
    have hindexing : u.calls[i]? = some (.indexing write.outcome) := by rw [hcalls, hget]
    by_cases hmem : contactUserId ∈ u.device.sessionIndex
    · have hres : resume ctx contactUserId u i (b.newDhs i) random (.indexing write.outcome) =
          some (u.put i (.saving write.outcome)) := if_pos hmem
      refine ⟨_, hstep hu hindexing hturn hres, ?_, hsession⟩
      simp only [put, hcalls, List.set_set]
    · let index := u.device.sessionIndex ++ [contactUserId]
      have hres : resume ctx contactUserId u i (b.newDhs i) random (.indexing write.outcome) =
          some (u.put i (.indexWriting index write.outcome)) := if_neg hmem
      refine ⟨_, hstep (hstep hu hindexing hturn hres) (c := .indexWriting index write.outcome) ?_ ?_ rfl,
        ?_, hsession⟩
      · simp only [put, hcalls, List.set_set, hget]
      · simp only [InTurn, put, hcalls, List.set_set, hget]
      · simp only [put, hcalls, List.set_set]
  have hv' := hstep hv (by rw [hcalls', hget]) (by simpa only [InTurn, hcalls', hget] using hsaved _) rfl
  refine ⟨_, hstep hv' (c := .returning write.outcome.event) ?_ ?_ rfl, ?_, ?_⟩
  · simp only [put, hcalls', List.set_set, hget]
  · simp only [InTurn, put, hcalls', List.set_set, hget]
  · simp only [put, hcalls', List.set_set]
  · cases write.outcome.event with
    | none => exact hsession'
    | some event => exact hsession'

/-- Both frames arrive before the first is processed, and both are. -/
theorem burst_sequential_first :
    ∃ (b : Burst Symbolic.suite) (s : Calls Symbolic.suite), b.frames.length = 2 ∧
      s.calls = [.done, .done] ∧ Settles bob alice b .empty s := by
  obtain ⟨b, first, second, hframes, hfirst, hsecond, hv⟩ := first_two
  let random := Messenger.randomOf 2 (by decide)
  have hhead : some handshakeEnvelopeVersion ≠ some ratchetEnvelopeVersion := by decide
  obtain ⟨bundle, plaintext, next, hbundle, hd, hs⟩ :=
    hv.succ (show b.frames[0]? = some (first, []) by simp [hframes])
  obtain ⟨bundle', plaintext', next', hbundle', hd', -⟩ :=
    hv.succ (show b.frames[1]? = some (second, []) by simp [hframes])
  cases hbundle.symm.trans hbundle'
  have h1 : (machine bob alice .empty).Reach (fun s a => Arrives b s a ∧ InTurn s a)
      { start .empty with calls := [.looking first []] } :=
    .step (a := .receive first []) (.init rfl) ⟨by simp [Arrives, start, hframes], trivial⟩ rfl
  have h2 : (machine bob alice .empty).Reach (fun s a => Arrives b s a ∧ InTurn s a)
      { start .empty with calls := [.looking first [], .looking second []] } :=
    .step (a := .receive second []) h1 ⟨by simp [Arrives, hframes], trivial⟩ rfl
  let write : Pending Symbolic.suite := ⟨next, ⟨incomingMessage alice [] plaintext,
    some (.saved alice [] (JsString.decodeUtf8Bytes plaintext))⟩, none, false⟩
  have h3 : (machine bob alice .empty).Reach (fun s a => Arrives b s a ∧ InTurn s a)
      { start .empty with
        calls := [.writing write, .looking second []]
        used := [b.newDhs 0, ⟨2, by decide⟩] } :=
    .step (a := .resume 0 (b.newDhs 0) random) h2 ⟨rfl, by simp [InTurn]⟩ (by
      have hd0 : decodeFrame bob bundle alice (Base64.base64ToBytes first) none (b.newDhs 0) =
          .ok (some (.success plaintext next)) := hd
      simp [machine, step, resume, hbundle, hfirst, hhead, hd0, settle, put, start,
        Messenger.randomOf, write, random])
  obtain ⟨s4, h4, hcalls4, hsession4⟩ := reach_returned (i := 0) h3 rfl (by simp [AllBefore]) random
  have h5 : (machine bob alice .empty).Reach (fun s a => Arrives b s a ∧ InTurn s a)
      { s4 with
        calls := [.done, .loading second [] bundle]
        used := b.newDhs 1 :: random.ea :: s4.used } :=
    .step (a := .resume 1 (b.newDhs 1) random) h4 ⟨rfl, by simp [InTurn, hcalls4]⟩ (by
      simp [machine, step, resume, hcalls4, hbundle, hsecond, put])
  have hsession : s4.device.loadSession alice = some next := hsession4
  have hstored : (sequential bob alice b .empty 1).loadSession alice = some next := by
    rw [hs]
    simp [Device.loadSession, Device.accept, Device.emit, Device.saveMessage, Device.saveSession]
  let write' : Pending Symbolic.suite := ⟨next', ⟨incomingMessage alice [] plaintext',
    some (.saved alice [] (JsString.decodeUtf8Bytes plaintext'))⟩, some s4.version, false⟩
  have h6 : (machine bob alice .empty).Reach (fun s a => Arrives b s a ∧ InTurn s a)
      { s4 with
        calls := [.done, .writing write']
        used := b.newDhs 1 :: random.ea :: b.newDhs 1 :: random.ea :: s4.used } :=
    .step (a := .resume 1 (b.newDhs 1) random) h5 ⟨rfl, by simp [InTurn, AllBefore, Call.wrote]⟩ (by
      rw [hstored] at hd'
      simp [machine, step, resume, hsession, hd', settle, put, write'])
  obtain ⟨s7, h7, hcalls7, -⟩ := reach_returned (i := 1) h6 rfl (by simp [AllBefore, Call.saved]) random
  exact ⟨b, s7, by rw [hframes]; rfl, hcalls7, burst_sequential hv h7⟩

end Epistl.Calls
