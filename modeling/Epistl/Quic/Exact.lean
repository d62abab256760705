import Epistl.Quic.Streams

/-! # The peer yields the frames that were sent -/
namespace Epistl.Quic
open Text Text.JsonGrammar Text.LineReader
variable {υ σ : Type*} {frames : List JsonText} {started : Option JsonText}
  {tail written : List UInt8} {r : Reader}

/-- What a peer yields of a stream that is cut: the frames before the cut, and at most one piece of
the next, which is no object unless it is all of that frame. -/
def Yields (frames : List JsonText) (started : Option JsonText) (r : Reader) : Prop :=
  ∃ k ≤ frames.length, ∃ part, r.pending = (frames.take k).flatMap (fun f => f.line.bytes) ++ part ∧
    newline ∉ part ∧ ∃ last : Option (List Char),
      r.texts = (frames.take k).map JsonText.text ++ last.toList ∧
        ∀ y ∈ last, ∃ f, (frames ++ started.toList)[k]? = some f ∧ part <+: encodeUtf8 f.text ∧
          y <+: f.text ∧ (y = f.text ∨ ¬IsObject y)

/-- The stream carries the frames whole and one after the other, with part of one more at its end,
and however it is cut and split into reads, the peer yields them. -/
structure Exact (frames : List JsonText) (started : Option JsonText) (written : List UInt8) : Prop where
  stream : ∃ tail, written = frames.flatMap (fun f => f.line.bytes) ++ tail ∧
    (tail = [] ∨ ∃ f, started = some f ∧ tail <+: encodeUtf8 f.text)
  whole : ∀ r : Reader, r.pending = frames.flatMap (fun f => f.line.bytes) →
    r.texts = frames.map JsonText.text
  cut : ∀ r : Reader, r.pending <+: written → Yields frames started r

theorem flatMap_line :
    frames.flatMap (fun f => f.line.bytes) = (frames.map JsonText.line).flatMap Line.bytes := by
  rw [List.flatMap_map]

theorem map_text : (frames.map JsonText.line).map Line.text = frames.map JsonText.text :=
  List.map_map

theorem texts_whole (h : r.pending = frames.flatMap (fun f => f.line.bytes)) :
    r.texts = frames.map JsonText.text := by
  rw [flatMap_line] at h
  rw [LineReader.texts_whole h, map_text]

theorem isObject_of_prefix {f : JsonText} {y : List Char} (h : y <+: f.text) :
    y = f.text ∨ ¬IsObject y := by
  by_cases hy : y = f.text
  · exact Or.inl hy
  · right
    exact not_isObject_of_prefix f.isValue h hy

theorem Exact.of_stream (hwritten : written = frames.flatMap (fun f => f.line.bytes) ++ tail)
    (htail : tail = [] ∨ ∃ f, started = some f ∧ tail <+: encodeUtf8 f.text) :
    Exact frames started written where
  stream := ⟨tail, hwritten, htail⟩
  whole _ h := texts_whole h
  cut r h := by
    have hnewline : newline ∉ tail := by
      rcases htail with rfl | ⟨f, -, htail⟩
      · exact List.not_mem_nil
      · exact fun hmem => newline_notMem_encodeUtf8 f.newline_notMem (htail.subset hmem)
    rw [hwritten, flatMap_line] at h
    obtain ⟨k, hk, part, hpending, hmem, htexts, hpart⟩ := texts_of_prefix h hnewline
    rw [← List.map_take, ← flatMap_line] at hpending
    rw [← List.map_take, map_text] at htexts
    rw [List.length_map] at hk hpart
    refine ⟨k, hk, part, hpending, hmem, lastText r.ended part, htexts, fun y hy => ?_⟩
    -- the piece is of the next frame, which may be the one that was started
    have hnext : ∃ f, (frames ++ started.toList)[k]? = some f ∧ part <+: encodeUtf8 f.text := by
      rcases hpart with ⟨l, hl, hpart⟩ | ⟨rfl, hpart⟩
      · rw [List.getElem?_map] at hl
        obtain ⟨f, hf, rfl⟩ := Option.map_eq_some_iff.mp hl
        exact ⟨f, by rw [List.getElem?_append_left (lt_length_of_getElem? hf), hf], hpart⟩
      · rcases htail with rfl | ⟨f, rfl, htail⟩
        · rw [List.prefix_nil.mp hpart, lastText_nil] at hy
          cases hy
        · exact ⟨f, List.getElem?_concat_length, hpart.trans htail⟩
    obtain ⟨f, hf, hpart⟩ := hnext
    have hprefix := prefix_of_mem_lastText hpart hy
    exact ⟨f, hf, hpart, hprefix, isObject_of_prefix hprefix⟩

theorem handed_always {onFrame : σ → List Char → σ} {s : σ} {texts : List (List Char)} :
    handed (fun s frame => (onFrame s frame, true)) s texts = texts.foldl onFrame s := by
  induction texts generalizing s with
  | nil => rfl
  | cons text texts ih => exact ih

/-- The listener is called with the texts of the reader, and then once with a reason. -/
theorem runReaderLoop_eq (listener : Listener σ) (closeReason : Option String) (s : σ) :
    runReaderLoop listener closeReason s r = listener.onClosed (r.texts.foldl listener.onFrame s)
      (closeReason.getD "control stream ended") := by
  rw [runReaderLoop, readLoop_eq, handed_always]

/-- The first text authenticates the connection, the others are handled in turn. -/
theorem handleConnection_eq (fromStr : List Char → Option Json) (authenticateToken : String → Option υ)
    (handleClientFrame : υ → σ → List Char → σ × Bool) (s : σ) :
    handleConnection fromStr authenticateToken handleClientFrame s r =
      r.texts.head?.bind fun text => (authenticateFrame fromStr authenticateToken text).map fun user =>
        handed (handleClientFrame user) s r.texts.tail := by
  rw [handleConnection, authenticateFirstFrame]
  rcases hread : readLine r with _ | ⟨_ | ⟨c, line⟩, rest⟩
  · rw [texts_of_end fun _ _ h => by rw [hread] at h; cases h]
    rfl
  · rw [texts_of_end fun _ _ h => by rw [hread] at h; cases h; rfl]
    rfl
  · rw [texts_of_cons hread, List.head?_cons, List.tail_cons, Option.bind_some]
    simp only [Option.map_map]
    congr 1
    funext user
    exact readLoop_eq

/-- In both directions, and whatever the senders, the writes and the reads do, the peer's loop is
given the frames that were sent, each of them once. -/
theorem framing_exact (token : List Char) :
    (∀ s, (Client.machine token).Reach Machine.anyStep s →
      ∃ order started, order.Nodup ∧ (∀ i, i ∈ order ↔ ∃ f, s.calls[i]? = some ⟨f, .returned true⟩) ∧
        (∀ f, started = some f → ∃ i phase, i ∉ order ∧ s.calls[i]? = some ⟨f, phase⟩) ∧
        (s.failed = false → s.lock = none → started = none) ∧
        Exact (authFrame token :: s.frames order) started s.written) ∧
    (∀ s, Forwarder.machine.Reach Machine.anyStep s →
      ∃ sent started, (sent ++ started.toList).map Frame.text ++ s.queue <+: s.pushed ∧
        (s.task = .receiving → started = none ∧ sent.map Frame.text ++ s.queue = s.pushed) ∧
        Exact sent started s.written) ∧
    (∀ (fromStr : List Char → Option Json) (authenticateToken : String → Option υ)
      (handleClientFrame : υ → σ → List Char → σ × Bool) (s : σ) (r : Reader),
      handleConnection fromStr authenticateToken handleClientFrame s r =
        r.texts.head?.bind fun text => (authenticateFrame fromStr authenticateToken text).map fun user =>
          handed (handleClientFrame user) s r.texts.tail) ∧
    (∀ (listener : Listener σ) (closeReason : Option String) (s : σ) (r : Reader),
      runReaderLoop listener closeReason s r = listener.onClosed (r.texts.foldl listener.onFrame s)
        (closeReason.getD "control stream ended")) := by
  refine ⟨fun s hs => ?_, fun s hs => ?_, fun fromStr authenticateToken handleClientFrame s r =>
    handleConnection_eq fromStr authenticateToken handleClientFrame s,
    fun listener closeReason s r => runReaderLoop_eq listener closeReason s⟩
  · obtain ⟨order, tail, h⟩ := Client.exists_streams hs
    obtain ⟨started, hcall, hidle, htail⟩ := h.exists_started
    exact ⟨order, started, h.nodup, h.returned, hcall, hidle, Exact.of_stream h.written htail⟩
  · obtain ⟨sent, started, tail, h⟩ := Forwarder.exists_streams hs
    refine ⟨sent, started, h.pushed, fun htask => ?_, Exact.of_stream h.written h.ended⟩
    obtain ⟨rfl, -⟩ := h.receiving htask
    have hpushed := h.running fun close => by rw [htask]; exact Task.noConfusion
    rw [Option.toList_none, List.append_nil] at hpushed
    exact ⟨rfl, hpushed⟩

/-- `JSON.stringify` of an object without keys. -/
def emptyObject : JsonText where
  text := ['\x7b', '\x7d']
  isValue := .emptyObject fun _ hc => absurd hc List.not_mem_nil
  newline_notMem := by decide

/-- Two calls of which the second writes first, and a frame that is pushed and written byte by byte. -/
theorem framing_exact_run :
    (∃ s order started, (Client.machine []).exec ⟨[], none, encodeUtf8 (buildAuthFrame []), false⟩
        [.call emptyObject, .call emptyObject, .lock 1, .write 1 1, .write 1 1, .write 1 1, .lock 0,
          .write 0 2] = some s ∧
      Exact (authFrame [] :: s.frames order) started s.written) ∧
    ∃ s sent started, Forwarder.machine.exec ⟨[], [], .receiving, []⟩
        [.push (.text emptyObject), .receive, .write 1, .write 1, .write 1] = some s ∧
      Exact sent started s.written := by
  obtain ⟨hclient, hserver, -⟩ := @framing_exact Unit Unit []
  constructor
  · obtain ⟨s, hs⟩ := Option.isSome_iff_exists.mp (show ((Client.machine []).exec
      ⟨[], none, encodeUtf8 (buildAuthFrame []), false⟩ [.call emptyObject, .call emptyObject, .lock 1,
        .write 1 1, .write 1 1, .write 1 1, .lock 0, .write 0 2]).isSome = true by decide)
    obtain ⟨order, started, -, -, -, -, hexact⟩ := hclient s (Machine.Reach.exec (.init rfl) hs)
    exact ⟨s, order, started, hs, hexact⟩
  · obtain ⟨s, hs⟩ := Option.isSome_iff_exists.mp (show (Forwarder.machine.exec
      ⟨[], [], .receiving, []⟩ [.push (.text emptyObject), .receive, .write 1, .write 1,
        .write 1]).isSome = true by decide)
    obtain ⟨sent, started, -, -, hexact⟩ := hserver s (Machine.Reach.exec (.init rfl) hs)
    exact ⟨s, sent, started, hs, hexact⟩

end Epistl.Quic
