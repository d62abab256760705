import Epistl.Quic.Framing
import Epistl.Runs.Milestone
import Mathlib.Data.List.Nodup

/-! # What is written on a QUIC stream

A stream is whole lines and, while a line is written or after a write has failed, the start of one
more. On the client's side the lock keeps the writes of two calls apart.
-/
namespace Epistl.Quic
open Text Text.JsonGrammar Text.LineReader
variable {bytes tail : List UInt8} {w : Write} {f : JsonText}

namespace Write

def rest : Write → List UInt8
  | body rest => rest ++ [newline]
  | delimiter => [newline]

@[simp] theorem rest_start : (start f).rest = f.line.bytes := rfl

theorem rest_ne_nil : w.rest ≠ [] := by
  cases w with
  | body rest => exact List.append_ne_nil_of_right_ne_nil _ (List.cons_ne_nil _ _)
  | delimiter => exact List.cons_ne_nil _ _

theorem rest_next {n : ℕ} {next : Option Write} (h : w.next n = some (bytes, next)) :
    w.rest = bytes ++ next.elim [] rest := by
  cases w with
  | body left =>
    rw [Write.next] at h
    split at h
    · cases h
      rfl
    · cases h
      rw [rest, Option.elim_some, rest, ← List.append_assoc, List.take_append_drop]
  | delimiter =>
    cases h
    rfl

/-- What is written of a line before its end has no newline. -/
theorem prefix_of_rest (h : tail ++ w.rest = f.line.bytes) : tail <+: encodeUtf8 f.text := by
  have hline : f.line.bytes = encodeUtf8 f.text ++ [newline] := rfl
  rw [hline] at h
  have hpart : tail <+: encodeUtf8 f.text ++ [newline] := ⟨w.rest, h⟩
  refine (List.prefix_concat_iff.mp hpart).resolve_left fun heq => ?_
  rw [heq] at h
  exact absurd (List.append_right_eq_self.mp h) rest_ne_nil

end Write

namespace Client
variable {s t : Client} {i j n : ℕ} {c : Call} {phase : Phase} {order : List ℕ} {token : List Char}

/-- The frames of some calls. -/
def frames (s : Client) (order : List ℕ) : List JsonText :=
  order.filterMap fun i => s.calls[i]?.map Call.frame

theorem settle_calls (h : s.calls[i]? = some c) :
    (s.settle i f phase).calls[j]? = if i = j then some ⟨f, phase⟩ else s.calls[j]? := by
  have hlt := lt_length_of_getElem? h
  change (s.calls.set i ⟨f, phase⟩)[j]? = _
  rw [List.getElem?_set, if_pos hlt]

theorem frames_congr (h : ∀ i ∈ order, t.calls[i]?.map Call.frame = s.calls[i]?.map Call.frame) :
    t.frames order = s.frames order :=
  List.filterMap_congr h

theorem frames_concat (h : s.calls[i]? = some c) :
    s.frames (order ++ [i]) = s.frames order ++ [c.frame] := by
  rw [frames, List.filterMap_append, ← frames, List.filterMap_cons, h, Option.map_some,
    List.filterMap_nil]

theorem frames_settle (h : s.calls[i]? = some ⟨f, phase⟩) {phase' : Phase} :
    (s.settle i f phase').frames order = s.frames order := by
  refine frames_congr fun j _ => ?_
  rw [settle_calls h]
  split
  · rename_i hij
    subst hij
    rw [h, Option.map_some, Option.map_some]
  · rfl

theorem returned_settle {old : Phase} (h : s.calls[i]? = some ⟨f, old⟩) (hold : old ≠ .returned true)
    (hphase : phase ≠ .returned true) : (∃ g, (s.settle i f phase).calls[j]? = some ⟨g, .returned true⟩) ↔
      ∃ g, s.calls[j]? = some ⟨g, .returned true⟩ := by
  rw [settle_calls h]
  split
  · rename_i hij
    subst hij
    rw [h]
    simp [hold, hphase]
  · rfl

/-- The stream after the calls of `order` have returned, in this order, with what is written of one
more frame. -/
structure Streams (token : List Char) (s : Client) (order : List ℕ) (tail : List UInt8) : Prop where
  nodup : order.Nodup
  returned : ∀ i, i ∈ order ↔ ∃ f, s.calls[i]? = some ⟨f, .returned true⟩
  written : s.written =
    (authFrame token :: s.frames order).flatMap (fun f => f.line.bytes) ++ tail
  locked : ∀ i f w, s.calls[i]? = some ⟨f, .writing w⟩ → s.lock = some i
  holder : ∀ i, s.lock = some i → ∃ f w, s.calls[i]? = some ⟨f, .writing w⟩
  idle : s.failed = false → s.lock = none → tail = []
  writing : s.failed = false → ∀ (i : ℕ) f w, s.calls[i]? = some ⟨f, .writing w⟩ →
    tail ++ w.rest = f.line.bytes
  broken : s.failed = true →
    tail = [] ∨ ∃ (i : ℕ) (f : JsonText), s.calls[i]? = some ⟨f, .returned false⟩ ∧ tail <+: encodeUtf8 f.text

namespace Streams

theorem init : Streams token ⟨[], none, encodeUtf8 (buildAuthFrame token), false⟩ [] [] where
  nodup := List.nodup_nil
  returned i := by simp
  written := by
    rw [encodeUtf8_buildAuthFrame, frames, List.filterMap_nil, List.flatMap_singleton, List.append_nil]
  locked i f w h := by simp at h
  holder i h := by cases h
  idle _ _ := rfl
  writing _ i f w h := by simp at h
  broken h := by cases h

theorem call (h : Streams token s order tail) (frame : JsonText) :
    Streams token { s with calls := s.calls ++ [⟨frame, .locking⟩] } order tail := by
  have hold {j : ℕ} {c : Call} (hc : (s.calls ++ [⟨frame, .locking⟩])[j]? = some c)
      (hphase : c.phase ≠ .locking) : s.calls[j]? = some c := by
    rcases getElem?_concat_cases hc with ⟨-, rfl⟩ | hc
    · exact absurd rfl hphase
    · exact hc
  have hnew {j : ℕ} {c : Call} (hc : s.calls[j]? = some c) :
      (s.calls ++ [⟨frame, .locking⟩])[j]? = some c := by
    rw [List.getElem?_append_left (lt_length_of_getElem? hc), hc]
  have hframes : Client.frames { s with calls := s.calls ++ [⟨frame, .locking⟩] } order = s.frames order := by
    refine frames_congr fun i hi => ?_
    obtain ⟨f, hf⟩ := (h.returned i).mp hi
    rw [hnew hf, hf]
  exact {
    nodup := h.nodup
    returned := fun i => (h.returned i).trans
      ⟨fun ⟨f, hf⟩ => ⟨f, hnew hf⟩, fun ⟨f, hf⟩ => ⟨f, hold hf (by simp)⟩⟩
    written := by rw [hframes]; exact h.written
    locked := fun i f w hc => h.locked i f w (hold hc (by simp))
    holder := fun i hi => by
      obtain ⟨f, w, hc⟩ := h.holder i hi
      exact ⟨f, w, hnew hc⟩
    idle := h.idle
    writing := fun hok i f w hc => h.writing hok i f w (hold hc (by simp))
    broken := fun hfailed => (h.broken hfailed).imp_right fun ⟨i, f, hc, hpart⟩ => ⟨i, f, hnew hc, hpart⟩ }

theorem lock (h : Streams token s order tail) (hi : s.calls[i]? = some ⟨f, .locking⟩)
    (hlock : s.lock = none) :
    Streams token ({ s with lock := some i }.settle i f (.writing (.start f))) order tail := by
  have hfree {j : ℕ} {g : JsonText} {w : Write} : s.calls[j]? ≠ some ⟨g, .writing w⟩ := by
    intro hj
    have hheld := h.locked j g w hj
    rw [hlock] at hheld
    cases hheld
  have hcalls {j : ℕ} : ({ s with lock := some i }.settle i f (.writing (.start f))).calls[j]? =
      if i = j then some ⟨f, .writing (.start f)⟩ else s.calls[j]? :=
    settle_calls (s := { s with lock := some i }) hi
  exact {
    nodup := h.nodup
    returned := fun j => (h.returned j).trans
      (returned_settle (s := { s with lock := some i }) hi (by simp) (by simp)).symm
    written := by
      rw [frames_settle (s := { s with lock := some i }) hi]
      exact h.written
    locked := fun j g w hj => by
      rw [hcalls] at hj
      split at hj
      · rename_i hij
        rw [← hij]
        rfl
      · exact absurd hj hfree
    holder := fun j hj => by
      cases hj
      exact ⟨f, _, by rw [hcalls, if_pos rfl]⟩
    idle := fun _ hnone => by cases hnone
    writing := fun hok j g w hj => by
      rw [hcalls] at hj
      split at hj
      · cases hj
        rw [h.idle hok hlock, List.nil_append, Write.rest_start]
      · exact absurd hj hfree
    broken := fun hfailed => (h.broken hfailed).imp_right fun ⟨j, g, hj, hpart⟩ => by
      refine ⟨j, g, ?_, hpart⟩
      rw [hcalls, if_neg, hj]
      rintro rfl
      rw [hi] at hj
      cases hj }

/-- The call that writes is the only one that does. -/
theorem eq_of_writing (h : Streams token s order tail) {g : JsonText} {w' : Write}
    (hi : s.calls[i]? = some ⟨f, .writing w⟩) (hj : s.calls[j]? = some ⟨g, .writing w'⟩) : i = j := by
  have hheld := h.locked i f w hi
  rw [h.locked j g w' hj] at hheld
  exact (Option.some.inj hheld).symm

theorem write (h : Streams token s order tail) (hi : s.calls[i]? = some ⟨f, .writing w⟩)
    (hok : s.failed = false) {w' : Write} (hw : w.rest = bytes ++ w'.rest) :
    Streams token ({ s with written := s.written ++ bytes }.settle i f (.writing w')) order
      (tail ++ bytes) := by
  have hcalls {j : ℕ} : ({ s with written := s.written ++ bytes }.settle i f (.writing w')).calls[j]? =
      if i = j then some ⟨f, .writing w'⟩ else s.calls[j]? :=
    settle_calls (s := { s with written := s.written ++ bytes }) hi
  have hlock := h.locked i f w hi
  exact {
    nodup := h.nodup
    returned := fun j => (h.returned j).trans
      (returned_settle (s := { s with written := s.written ++ bytes }) hi (by simp) (by simp)).symm
    written := by
      rw [frames_settle (s := { s with written := s.written ++ bytes }) hi, ← List.append_assoc]
      exact congrArg (· ++ bytes) h.written
    locked := fun j g w'' hj => by
      rw [hcalls] at hj
      split at hj
      · rename_i hij
        rw [← hij]
        exact hlock
      · exact h.locked j g w'' hj
    holder := fun j hj => by
      cases hlock.symm.trans hj
      exact ⟨f, w', by rw [hcalls, if_pos rfl]⟩
    idle := fun _ hnone => by cases hlock.symm.trans hnone
    writing := fun _ j g w'' hj => by
      rw [hcalls] at hj
      split at hj
      · cases hj
        rw [List.append_assoc, ← hw, h.writing hok i f w hi]
      · rename_i hij
        exact absurd (h.eq_of_writing hi hj) hij
    broken := fun hfailed => by cases hok.symm.trans hfailed }

theorem finish (h : Streams token s order tail) (hi : s.calls[i]? = some ⟨f, .writing w⟩)
    (hok : s.failed = false) (hw : w.rest = bytes) :
    Streams token ({ s with written := s.written ++ bytes }.settle i f (.returned true))
      (order ++ [i]) [] := by
  have hcalls {j : ℕ} : ({ s with written := s.written ++ bytes }.settle i f (.returned true)).calls[j]? =
      if i = j then some ⟨f, .returned true⟩ else s.calls[j]? :=
    settle_calls (s := { s with written := s.written ++ bytes }) hi
  have hnew : i ∉ order := by
    intro hmem
    obtain ⟨g, hg⟩ := (h.returned i).mp hmem
    rw [hi] at hg
    cases hg
  have hnone {j : ℕ} {g : JsonText} {w' : Write} (hij : ¬i = j) : s.calls[j]? ≠ some ⟨g, .writing w'⟩ :=
    fun hj => hij (h.eq_of_writing hi hj)
  exact {
    nodup := List.nodup_append.mpr ⟨h.nodup, List.nodup_singleton i, fun j hj k hk heq => by
      rw [List.mem_singleton.mp hk] at heq
      exact hnew (heq ▸ hj)⟩
    returned := fun j => by
      rw [List.mem_append, List.mem_singleton, hcalls]
      by_cases hij : i = j
      · rw [if_pos hij]
        exact ⟨fun _ => ⟨f, rfl⟩, fun _ => Or.inr hij.symm⟩
      · rw [if_neg hij, ← h.returned j]
        exact or_iff_left (Ne.symm hij)
    written := by
      have hframes : Client.frames ({ s with written := s.written ++ bytes }.settle i f (.returned true))
          (order ++ [i]) = s.frames order ++ [f] := by
        rw [frames_concat (c := ⟨f, .returned true⟩) (hcalls.trans (if_pos rfl)),
          frames_settle (s := { s with written := s.written ++ bytes }) hi]
        rfl
      have hline := h.writing hok i f w hi
      change s.written ++ bytes = _
      rw [hframes, h.written, ← List.cons_append, List.flatMap_append, List.flatMap_singleton, ← hline,
        hw, List.append_nil, List.append_assoc]
    locked := fun j g w' hj => by
      rw [hcalls] at hj
      split at hj
      · cases hj
      · rename_i hij
        exact absurd hj (hnone hij)
    holder := fun j hj => by cases hj
    idle := fun _ _ => rfl
    writing := fun _ j g w' hj => by
      rw [hcalls] at hj
      split at hj
      · cases hj
      · rename_i hij
        exact absurd hj (hnone hij)
    broken := fun _ => Or.inl rfl }

theorem fail (h : Streams token s order tail) (hi : s.calls[i]? = some ⟨f, .writing w⟩) :
    Streams token ({ s with failed := true }.settle i f (.returned false)) order tail := by
  have hcalls {j : ℕ} : ({ s with failed := true }.settle i f (.returned false)).calls[j]? =
      if i = j then some ⟨f, .returned false⟩ else s.calls[j]? :=
    settle_calls (s := { s with failed := true }) hi
  exact {
    nodup := h.nodup
    returned := fun j => (h.returned j).trans
      (returned_settle (s := { s with failed := true }) hi (by simp) (by simp)).symm
    written := by
      rw [frames_settle (s := { s with failed := true }) hi]
      exact h.written
    locked := fun j g w' hj => by
      rw [hcalls] at hj
      split at hj
      · cases hj
      · rename_i hij
        exact absurd (h.eq_of_writing hi hj) hij
    holder := fun j hj => by cases hj
    idle := fun hok => by cases hok
    writing := fun hok => by cases hok
    broken := fun _ => by
      cases hok : s.failed with
      | false =>
        refine Or.inr ⟨i, f, by rw [hcalls, if_pos rfl], ?_⟩
        exact Write.prefix_of_rest (h.writing hok i f w hi)
      | true =>
        refine (h.broken hok).imp_right fun ⟨j, g, hj, hpart⟩ => ⟨j, g, ?_, hpart⟩
        rw [hcalls, if_neg, hj]
        rintro rfl
        rw [hi] at hj
        cases hj }

/-- What is written after the lines is the start of the frame of a call that has not returned `Ok`. -/
theorem exists_started (h : Streams token s order tail) :
    ∃ started : Option JsonText,
      (∀ f, started = some f → ∃ i phase, i ∉ order ∧ s.calls[i]? = some ⟨f, phase⟩) ∧
      (s.failed = false → s.lock = none → started = none) ∧
      (tail = [] ∨ ∃ f, started = some f ∧ tail <+: encodeUtf8 f.text) := by
  have hopen {i : ℕ} {f : JsonText} {phase : Phase} (hi : s.calls[i]? = some ⟨f, phase⟩)
      (hphase : phase ≠ .returned true) : i ∉ order := by
    intro hmem
    obtain ⟨g, hg⟩ := (h.returned i).mp hmem
    rw [hi] at hg
    cases hg
    exact hphase rfl
  by_cases htail : tail = []
  · exact ⟨none, fun _ hf => absurd hf (Option.some_ne_none _).symm, fun _ _ => rfl, Or.inl htail⟩
  cases hfailed : s.failed with
  | false =>
    cases hlock : s.lock with
    | none => exact absurd (h.idle hfailed hlock) htail
    | some i =>
      obtain ⟨f, w, hi⟩ := h.holder i hlock
      refine ⟨some f, fun g hg => ?_, fun _ hnone => absurd hnone (Option.some_ne_none _), Or.inr ⟨f, rfl, ?_⟩⟩
      · cases hg
        exact ⟨i, _, hopen hi (by simp), hi⟩
      · exact Write.prefix_of_rest (h.writing hfailed i f w hi)
  | true =>
    obtain ⟨i, f, hi, hpart⟩ := (h.broken hfailed).resolve_left htail
    refine ⟨some f, fun g hg => ?_, fun hok => absurd hok Bool.noConfusion, Or.inr ⟨f, rfl, hpart⟩⟩
    cases hg
    exact ⟨i, _, hopen hi (by simp), hi⟩

theorem step (h : Streams token s order tail) {a : Send} (hstep : s.step a = some t) :
    ∃ order tail, Streams token t order tail := by
  cases a with
  | call frame =>
    cases hstep
    exact ⟨order, tail, h.call frame⟩
  | lock i =>
    simp only [Client.step] at hstep
    split at hstep
    · rename_i frame hi hlock
      cases hstep
      exact ⟨order, tail, h.lock hi hlock⟩
    · cases hstep
  | write i n =>
    simp only [Client.step] at hstep
    split at hstep
    · rename_i frame w hi hok
      obtain ⟨⟨bytes, next⟩, hnext, rfl⟩ := Option.map_eq_some_iff.mp hstep
      have hrest := Write.rest_next hnext
      cases next with
      | none => exact ⟨order ++ [i], [], h.finish hi hok (hrest.trans (List.append_nil bytes))⟩
      | some w' => exact ⟨order, tail ++ bytes, h.write hi hok hrest⟩
    · cases hstep
  | fail i =>
    simp only [Client.step] at hstep
    split at hstep
    · rename_i frame w hi
      cases hstep
      exact ⟨order, tail, h.fail hi⟩
    · cases hstep

end Streams

theorem exists_streams (h : (machine token).Reach Machine.anyStep s) :
    ∃ order tail, Streams token s order tail := by
  refine h.invariant (I := fun s => ∃ order tail, Streams token s order tail) ?_ ?_
  · rintro s rfl
    exact ⟨[], [], Streams.init⟩
  · rintro s a t ⟨order, tail, hs⟩ - hstep
    exact hs.step hstep

end Client

namespace Forwarder
variable {s t : Forwarder} {sent : List JsonText} {started : Option JsonText}

/-- The stream after the lines of `sent`, with what is written of one more text. -/
structure Streams (s : Forwarder) (sent : List JsonText) (started : Option JsonText)
    (tail : List UInt8) : Prop where
  written : s.written = sent.flatMap (fun f => f.line.bytes) ++ tail
  pushed : (sent ++ started.toList).map Frame.text ++ s.queue <+: s.pushed
  running : (∀ close, s.task ≠ .ended close) →
    (sent ++ started.toList).map Frame.text ++ s.queue = s.pushed
  receiving : s.task = .receiving → started = none ∧ tail = []
  writing : ∀ f w, s.task = .writing f w → started = some f ∧ tail ++ w.rest = f.line.bytes
  ended : tail = [] ∨ ∃ f, started = some f ∧ tail <+: encodeUtf8 f.text

namespace Streams

theorem init : Streams ⟨[], [], .receiving, []⟩ [] none [] where
  written := rfl
  pushed := List.prefix_refl []
  running _ := rfl
  receiving _ := ⟨rfl, rfl⟩
  writing f w h := by cases h
  ended := Or.inl rfl

theorem close (h : Streams s sent started tail) (reason : Option (UInt16 × String)) :
    Streams (s.close reason) sent started tail where
  written := h.written
  pushed := by
    refine List.IsPrefix.trans ?_ h.pushed
    exact ⟨s.queue, by rw [Forwarder.close, List.append_nil]⟩
  running hrunning := absurd rfl (hrunning reason)
  receiving hreceiving := by cases hreceiving
  writing f w hwriting := by cases hwriting
  ended := h.ended

theorem push (h : Streams s sent started tail) (hrunning : ∀ close, s.task ≠ .ended close)
    (frame : Frame) :
    Streams { s with pushed := s.pushed ++ [frame], queue := s.queue ++ [frame] } sent started tail := by
  have heq : (sent ++ started.toList).map Frame.text ++ (s.queue ++ [frame]) = s.pushed ++ [frame] := by
    rw [← List.append_assoc, h.running hrunning]
  exact {
    written := h.written
    pushed := heq ▸ List.prefix_refl _
    running := fun _ => heq
    receiving := h.receiving
    writing := h.writing
    ended := h.ended }

theorem receive (h : Streams s sent started tail) (htask : s.task = .receiving) {f : JsonText}
    {queue : List Frame} (hqueue : s.queue = .text f :: queue) :
    Streams { s with queue, task := .writing f (.start f) } sent (some f) [] := by
  obtain ⟨rfl, rfl⟩ := h.receiving htask
  have heq : (sent ++ [f]).map Frame.text ++ queue = s.pushed := by
    have hpushed := h.running fun close => by rw [htask]; exact Task.noConfusion
    rw [hqueue] at hpushed
    simpa using hpushed
  exact {
    written := h.written
    pushed := heq ▸ List.prefix_refl _
    running := fun _ => heq
    receiving := fun hreceiving => by cases hreceiving
    writing := fun g w hwriting => by
      cases hwriting
      exact ⟨rfl, Write.rest_start⟩
    ended := Or.inl rfl }

theorem write (h : Streams s sent started tail) (htask : s.task = .writing f w) {w' : Write}
    (hw : w.rest = bytes ++ w'.rest) :
    Streams { s with written := s.written ++ bytes, task := .writing f w' } sent started
      (tail ++ bytes) := by
  obtain ⟨rfl, hline⟩ := h.writing f w htask
  have hline' : tail ++ bytes ++ w'.rest = f.line.bytes := by rw [List.append_assoc, ← hw, hline]
  exact {
    written := by rw [h.written, List.append_assoc]
    pushed := h.pushed
    running := fun _ => h.running fun close => by rw [htask]; exact Task.noConfusion
    receiving := fun hreceiving => by cases hreceiving
    writing := fun g w'' hwriting => by
      cases hwriting
      exact ⟨rfl, hline'⟩
    ended := Or.inr ⟨f, rfl, Write.prefix_of_rest hline'⟩ }

theorem finish (h : Streams s sent started tail) (htask : s.task = .writing f w) (hw : w.rest = bytes) :
    Streams { s with written := s.written ++ bytes, task := .receiving } (sent ++ [f]) none [] := by
  obtain ⟨rfl, hline⟩ := h.writing f w htask
  have heq : (sent ++ [f] ++ []).map Frame.text ++ s.queue = s.pushed := by
    rw [List.append_nil]
    exact h.running fun close => by rw [htask]; exact Task.noConfusion
  exact {
    written := by
      rw [h.written, List.flatMap_append, List.flatMap_singleton, ← hline, hw, List.append_nil,
        List.append_assoc]
    pushed := heq ▸ List.prefix_refl _
    running := fun _ => heq
    receiving := fun _ => ⟨rfl, rfl⟩
    writing := fun g w' hwriting => by cases hwriting
    ended := Or.inl rfl }

theorem step (h : Streams s sent started tail) {a : Forward} (hstep : s.step a = some t) :
    ∃ sent started tail, Streams t sent started tail := by
  cases a with
  | push frame =>
    simp only [Forwarder.step] at hstep
    split at hstep
    · cases hstep
    · rename_i hrunning
      cases hstep
      exact ⟨sent, started, tail, h.push hrunning frame⟩
  | receive =>
    simp only [Forwarder.step] at hstep
    split at hstep
    · rename_i htask hqueue
      cases hstep
      exact ⟨sent, _, [], h.receive htask hqueue⟩
    · cases hstep
      exact ⟨sent, started, tail, h.close _⟩
    · cases hstep
  | write n =>
    simp only [Forwarder.step] at hstep
    split at hstep
    · rename_i f w htask
      obtain ⟨⟨bytes, next⟩, hnext, rfl⟩ := Option.map_eq_some_iff.mp hstep
      have hrest := Write.rest_next hnext
      cases next with
      | none => exact ⟨_, none, [], h.finish htask (hrest.trans (List.append_nil bytes))⟩
      | some w' => exact ⟨sent, started, tail ++ bytes, h.write htask hrest⟩
    · cases hstep
  | fail =>
    simp only [Forwarder.step] at hstep
    split at hstep
    · cases hstep
      exact ⟨sent, started, tail, h.close none⟩
    · cases hstep
  | abort =>
    simp only [Forwarder.step] at hstep
    split at hstep
    · cases hstep
    · cases hstep
      exact ⟨sent, started, tail, h.close none⟩

end Streams

theorem exists_streams (h : machine.Reach Machine.anyStep s) :
    ∃ sent started tail, Streams s sent started tail := by
  refine h.invariant (I := fun s => ∃ sent started tail, Streams s sent started tail) ?_ ?_
  · rintro s rfl
    exact ⟨[], none, [], Streams.init⟩
  · rintro s a t ⟨sent, started, tail, hs⟩ - hstep
    exact hs.step hstep

end Forwarder

end Epistl.Quic
