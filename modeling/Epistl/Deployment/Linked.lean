import Epistl.Deployment.System
import Epistl.Inbox.Turns

/-! # The deployment runs the devices behind a relay that replays

What the relay hands to a device is a body that the device of its sender has produced. So every
run of the deployment is, for the devices, a run in which the relay presents recorded bodies, and
each under its true sender.
-/
namespace Epistl.Deployment
variable {S : Suite} {ι : Type} [DecidableEq ι] {dir : Directory S ι} {s t : Deployment S ι}
  {p q : ι} {userId : JsString} {m : Relay.Message ι}

/-- What the relay and the devices have in common. -/
structure Linked (dir : Directory S ι) (s : Deployment S ι) : Prop where
  network : (Network.machine dir).Reach Network.Replays s.network
  ledger : Relay.Ledger s.relay
  placed (i : ℕ) : s.relay.placed i ⊆ s.relay.pushed
  owns (i : ℕ) : ∀ m ∈ s.relay.placed i, s.relay.Owns m.recipient i
  length : s.submitted.length = s.relay.sends
  once : s.handed.Nodup
  sound : Relay.Sound s.Submitted s.relay
  shown (p : ι) : ∀ m ∈ s.shown p, m.recipient = p ∧ s.Submitted m
  /-- what is accepted as from a contact was processed as from it -/
  accepted {p q : ι} {userId : JsString} : dir.contact p userId = some q →
    (s.network.accepted p userId).Sublist
      (((s.shown p).filter fun m => decide (m.sender = q)).map fun m =>
        Base64.base64ToBytes m.body)

theorem linked_start : Linked dir (start dir) where
  network := .init rfl
  ledger := Relay.ledger_start
  placed i := by simp [start, Relay.Server.start, Relay.Server.placed]
  owns i := by simp [start, Relay.Server.start, Relay.Server.placed]
  length := rfl
  once := List.nodup_nil
  sound := Relay.sound_start
  shown p m hm := by simp [start] at hm
  accepted _ := by simp [start, Network.start]

omit [DecidableEq ι] in
theorem Submitted.mono (h : s.Submitted m) (hsubmitted : s.submitted <+: t.submitted)
    (hproduced : ∀ q, s.network.produced q <+: t.network.produced q) : t.Submitted m := by
  obtain ⟨k, hk, hbody⟩ := h
  obtain ⟨more, hmore⟩ := hsubmitted
  obtain ⟨bodies, hbodies⟩ := hproduced m.sender
  refine ⟨k, ?_, ?_⟩
  · rw [← hmore, List.getElem?_append_left (List.getElem?_eq_some_iff.mp hk).1, hk]
  · rw [← hbodies, List.getElem?_append_left (List.getElem?_eq_some_iff.mp hbody).1, hbody]

namespace Linked
variable (h : Linked dir s)
include h

/-- A device writes. -/
theorem write {network : Network S ι} {contactUserId draft createdAt : JsString}
    {connected : Bool} {random : SendRandom S} (hfresh : ∀ q, random.ea ∉ s.network.used q)
    (he : Network.step dir s.network
      (.send p contactUserId connected draft createdAt random) = some network) :
    Linked dir { s with network := network } where
  network := h.network.step
    (a := Network.Action.send p contactUserId connected draft createdAt random) hfresh he
  ledger := h.ledger
  placed := h.placed
  owns := h.owns
  length := h.length
  once := h.once
  sound := h.sound.mono fun m hm => hm.mono List.prefix_rfl (Network.step_produced he)
  shown p m hm := (h.shown p m hm).imp id fun hm => hm.mono List.prefix_rfl
    (Network.step_produced he)
  accepted hq := by
    have haccepted : network.accepted = s.network.accepted := by
      rcases Network.step_wrote he with rfl | ⟨q, envelope, next, hwrote⟩
      · rfl
      · exact hwrote.accepted
    rw [haccepted]
    exact h.accepted hq

/-- The relay takes a step that begins no send. -/
theorem relayStill {a : Relay.Action ι} {relay : Relay.Server ι} (he : s.relay.step a = some relay)
    (hbegun : s.relay.begun a = none) : Linked dir { s with relay := relay } where
  network := h.network
  ledger := h.ledger.step he
  placed := by
    obtain ⟨push, hmoves, -⟩ := Relay.Server.step_moves h.ledger he
    exact Relay.Server.placed_subset h.placed hmoves
  owns := by
    obtain ⟨push, hmoves, haimed⟩ := Relay.Server.step_moves h.ledger he
    exact Relay.Server.placed_owns h.owns he hmoves haimed
  length := by
    obtain ⟨hsends, -⟩ := Relay.Server.step_sending he
    rw [hsends, hbegun]
    exact h.length
  once := h.once
  sound := h.sound.step h.ledger he fun m hm => by cases hbegun.symm.trans hm
  shown := h.shown
  accepted := h.accepted

/-- A send begins. -/
theorem relayBegun {a : Relay.Action ι} {relay : Relay.Server ι} {k : ℕ}
    (he : s.relay.step a = some relay) (hbegun : s.relay.begun a = some m)
    (hnew : (m.sender, k) ∉ s.handed)
    (hbody : (s.network.produced m.sender)[k]? = some m.body) :
    Linked dir { s with
      relay := relay
      submitted := s.submitted ++ [(m, k)] } := by
  have hmono {n : Relay.Message ι} (hn : s.Submitted n) : Submitted { s with
      relay := relay
      submitted := s.submitted ++ [(m, k)] } n :=
    hn.mono (List.prefix_append _ _) fun q => List.prefix_rfl
  obtain ⟨push, hmoves, haimed⟩ := Relay.Server.step_moves h.ledger he
  refine ⟨h.network, h.ledger.step he, Relay.Server.placed_subset h.placed hmoves,
    Relay.Server.placed_owns h.owns he hmoves haimed, ?_, ?_, ?_,
    fun p n hn => (h.shown p n hn).imp id hmono, h.accepted⟩
  · obtain ⟨hsends, -⟩ := Relay.Server.step_sending he
    rw [hsends, hbegun, List.length_append, h.length]
    rfl
  · rw [handed, List.map_append]
    refine List.nodup_append.mpr ⟨h.once, List.nodup_singleton _, fun x hx y hy => ?_⟩
    rintro rfl
    cases List.mem_singleton.mp hy
    exact hnew hx
  · refine (h.sound.mono fun n hn => hmono hn).step h.ledger he fun n hn => ?_
    cases hbegun.symm.trans hn
    refine ⟨k, ?_, hbody⟩
    have hid : m.id = s.submitted.length := by
      rw [h.length]
      cases a with
      | run i input =>
        obtain ⟨g, -, hg⟩ := Option.bind_eq_some_iff.mp hbegun
        exact (Relay.Stage.begins_some hg).1
      | _ => cases hbegun
    rw [hid]
    exact List.getElem?_concat_length

/-- What was written to a connection is submitted. -/
theorem submitted {i : ℕ} {k : ℕ} {frame : Relay.Frame ι}
    (hframe : (s.relay.writtenTo i)[k]? = some frame) (hm : frame.message? = some m) :
    m ∈ s.relay.placed i ∧ s.Submitted m := by
  have hplaced : m ∈ s.relay.placed i := by
    rw [Relay.Server.writtenTo] at hframe
    rw [Relay.Server.placed]
    cases hc : s.relay.channels[i]? with
    | none => simp [hc] at hframe
    | some c =>
      rw [hc] at hframe
      exact List.mem_filterMap.mpr
        ⟨frame, List.mem_append_left _ (List.mem_of_getElem? hframe), hm⟩
  exact ⟨hplaced, h.sound.pushed m (h.placed i hplaced)⟩

/-- A device processes a message. -/
theorem process (hS : S.Ideal) {network : Network S ι} {createdAt : JsString}
    {newDhs : S.X25519Secret} (hfresh : ∀ q, newDhs ∉ s.network.used q)
    (hrecipient : m.recipient = p) (hm : s.Submitted m)
    (he : Network.step dir s.network (.present p (dir.frame m) createdAt newDhs) = some network)
    (read : ℕ → ℕ) : Linked dir { s with
      network := network
      read := read
      shown := Function.update s.shown p (s.shown p ++ [m]) } := by
  obtain ⟨k, hk, hbody⟩ := hm
  have hguard : Network.Replays s.network (.present p (dir.frame m) createdAt newDhs) :=
    ⟨hfresh, m.sender, m.body, List.mem_of_getElem? hbody, rfl⟩
  have hmono {n : Relay.Message ι} (hn : s.Submitted n) : Submitted { s with
      network := network
      read := read
      shown := Function.update s.shown p (s.shown p ++ [m]) } n :=
    hn.mono List.prefix_rfl (Network.step_produced he)
  have hinv := Network.inv_of_reach hS h.network
  refine ⟨h.network.step (a := Network.Action.present p (dir.frame m) createdAt newDhs) hguard he,
    h.ledger, h.placed, h.owns, h.length, h.once, h.sound.mono fun n hn => hmono hn,
    fun p' n hn => And.imp id hmono ?_, fun {p' q userId} hq => ?_⟩
  · by_cases hp : p' = p
    · subst hp
      simp only [Function.update_self, List.mem_append, List.mem_singleton] at hn
      rcases hn with hn | rfl
      · exact h.shown p' n hn
      · exact ⟨hrecipient, k, hk, hbody⟩
    · simp only [Function.update_of_ne hp] at hn
      exact h.shown p' n hn
  · have hgrows : (s.shown p').Sublist (Function.update s.shown p (s.shown p ++ [m]) p') := by
      by_cases hp : p' = p
      · subst hp
        rw [Function.update_self]
        exact List.sublist_append_left _ _
      · rw [Function.update_of_ne hp]
    have hold := (h.accepted hq).trans ((hgrows.filter _).map _)
    obtain ⟨-, -, ⟨haccepted, -⟩ | ⟨r, plaintext, next, htook⟩⟩ := Network.step_took he
    · rwa [haccepted]
    rw [htook.accepted]
    by_cases hpv : p' = p ∧ userId = (dir.frame m).sender
    · obtain ⟨rfl, rfl⟩ := hpv
      cases hq.symm.trans htook.contact
      have hmade : Network.Made dir s.network.used m.sender
          (Base64.base64ToBytes (dir.frame m).bodyB64) :=
        hinv.made m.sender m.body (List.mem_of_getElem? hbody)
      have hsender : m.sender = q := Network.sender_eq hS hmade htook.decoded
      simp only [Function.update_self, List.filter_append, List.map_append]
      refine (h.accepted hq).append ?_
      simp [hsender, Directory.frame]
    · rw [Function.update_apply]
      split
      · rename_i hp
        rw [Function.update_of_ne fun hu => hpv ⟨hp, hu⟩]
        subst hp
        exact hold
      · exact hold

end Linked

variable {action : Action S ι}

theorem Linked.step (hS : S.Ideal) (h : Linked dir s) (hfresh : Fresh s action)
    (he : step dir s action = some t) : Linked dir t := by
  cases action with
  | write p contactUserId connected draft createdAt random =>
    obtain ⟨network, hnetwork, rfl⟩ := Option.map_eq_some_iff.mp he
    exact h.write hfresh hnetwork
  | relay a k =>
    obtain ⟨relay, hrelay, he⟩ := Option.bind_eq_some_iff.mp he
    split at he
    · rename_i hbegun
      cases he
      exact h.relayStill hrelay hbegun
    · rename_i m hbegun
      split at he
      · rename_i hsubmit
        cases he
        exact h.relayBegun hrelay hbegun hsubmit.1 hsubmit.2
      · cases he
  | process i createdAt newDhs =>
    obtain ⟨g, hg, he⟩ := Option.bind_eq_some_iff.mp he
    obtain ⟨frame, hframe, he⟩ := Option.bind_eq_some_iff.mp he
    split at he
    · cases he
      exact ⟨h.network, h.ledger, h.placed, h.owns, h.length, h.once, h.sound, h.shown, h.accepted⟩
    · rename_i m hm
      obtain ⟨network, hnetwork, rfl⟩ := Option.map_eq_some_iff.mp he
      obtain ⟨hplaced, hsubmitted⟩ := h.submitted hframe hm
      obtain ⟨g', hg', hrecipient⟩ := h.owns i m hplaced
      cases hg.symm.trans hg'
      exact h.process hS hfresh hrecipient.symm hsubmitted hnetwork _

theorem linked_of_reach (hS : S.Ideal) {G : Deployment S ι → Action S ι → Prop}
    (hG : ∀ s action, G s action → Fresh s action) (h : (machine dir).Reach G s) :
    Linked dir s := by
  refine h.invariant ?_ ?_
  · rintro _ rfl
    exact linked_start
  · intro s action t hs hguard he
    exact hs.step hS (hG s action hguard) he

/-- For the devices, a run of the deployment is a run against a relay that replays. What a device
processes is addressed to it; it is a body that the device of the named sender has produced, and
no body is behind two sends. -/
theorem refines (hS : S.Ideal) (h : (machine dir).Reach Fresh s) :
    (Network.machine dir).Reach Network.Replays s.network ∧ s.handed.Nodup ∧
      ∀ p, ∀ m ∈ s.shown p, m.recipient = p ∧ s.Submitted m := by
  have hlinked := linked_of_reach hS (fun _ _ hg => hg) h
  exact ⟨hlinked.network, hlinked.once, hlinked.shown⟩

end Epistl.Deployment
