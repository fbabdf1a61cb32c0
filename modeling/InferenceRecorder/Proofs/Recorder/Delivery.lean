import InferenceRecorder.Proofs.Recorder.PlainJson
import InferenceRecorder.Proofs.Tap.Layers

/-!
Responses as they are written. A recorder learns of a response only the bytes that the sink took and
the last status; how the bytes were parted into writes, which of them fell short or failed and had
to be made again, and what sink took them does not show.
-/
namespace InferenceRecorder
variable {σ τ : Type}

/-- The steps, with these replies, write the bytes out. After a short write they go on where it
stopped, and after a failed one they write again what is left. -/
inductive Delivers : List UInt8 → List SinkStep → List SinkReply → Prop
  | done : Delivers [] [] []
  | written {p q : List UInt8} {n : Nat} {steps : List SinkStep} {replies : List SinkReply} :
    Delivers (p.drop n ++ q) steps replies →
    Delivers (p ++ q) (.write p :: steps) (.accepted n :: replies)
  | failed {p q : List UInt8} {fault : SinkFault} {steps : List SinkStep}
    {replies : List SinkReply} : Delivers (p ++ q) steps replies →
    Delivers (p ++ q) (.write p :: steps) (.failed fault :: replies)
  | status {p : List UInt8} {status : UInt16} {reply : SinkReply} {steps : List SinkStep}
    {replies : List SinkReply} : Delivers p steps replies →
    Delivers p (.setStatus status :: steps) (reply :: replies)
  | flush {p : List UInt8} {reply : SinkReply} {steps : List SinkStep}
    {replies : List SinkReply} : Delivers p steps replies →
    Delivers p (.flush :: steps) (reply :: replies)

theorem Delivers.taken {bytes : List UInt8} {steps : List SinkStep} {replies : List SinkReply}
    (h : Delivers bytes steps replies) :
    (List.zipWith SinkStep.taken steps replies).flatten = bytes := by
  induction h with
  | done => rfl
  | written _ ih =>
    rw [List.zipWith_cons_cons, List.flatten_cons, ih, SinkStep.taken, ← List.append_assoc,
      List.take_append_drop]
  | failed _ ih => exact ih
  | status _ ih => exact ih
  | flush _ ih => exact ih

namespace Recorder

/-- What a sink took and the last status decide what a recorder does with the response; and a text
with no data line is stored as it is, however it was written. -/
theorem response_of_bytes_alone (sink : Sink σ) (state : σ) (steps : List SinkStep) :
    (∀ (sink' : Sink τ) (state' : τ) (steps' : List SinkStep),
      sink.accepted state steps = sink'.accepted state' steps' →
      lastStatus steps = lastStatus steps' → ∀ (r : Recorder) (id : String) (runner : Runner),
        r.respond id runner (sink.tapped.run (Tap.fresh state) steps).2.captured =
          r.respond id runner (sink'.tapped.run (Tap.fresh state') steps').2.captured) ∧
    ∀ text : String, (∀ line ∈ Stream.lines text.toList, ¬Stream.dataMarker <+: line) →
      Delivers (Utf8.encode text) steps (sink.run state steps).1 →
      ∀ (r : Recorder) (id : String) (runner key : Runner),
        runner.normal? r.roster.normalize = some key → r.roster.Holds key id →
        let report := r.respond id runner (sink.tapped.run (Tap.fresh state) steps).2.captured
        report.result = some true ∧
          r.roster.Filled report.recorder.roster key id text (lastStatus steps) := by
  refine ⟨fun sink' state' steps' hbytes hstatus r id runner => ?_,
    fun text htext hd r id runner key hk hh => ?_⟩
  · rw [sink.captured_tapped, sink'.captured_tapped, hbytes, hstatus]
  · rw [sink.captured_tapped, Sink.accepted, hd.taken]
    have hresponse : Captured.response ⟨Utf8.encode text, lastStatus steps⟩ = text := by
      rw [Captured.response, Utf8.decodeLossy_encode, Stream.reconstruct_of_other htext]
      split_ifs <;> rfl
    obtain ⟨hr, -, hf⟩ := r.respond_filled id ⟨Utf8.encode text, lastStatus steps⟩ hk hh
    rw [hresponse] at hf
    exact ⟨hr, hf⟩

def wideSink : Sink MemorySink := Sink.memory ⟨none, none, [], .works⟩

def piecemeal : List SinkStep :=
  [.write [104, 195, 169, 33], .write [169, 33], .write [169], .flush, .write [33]]

def atOnce : List SinkStep := [.setStatus 404, .setStatus 200, .write [104, 195, 169, 33]]

theorem delivers_piecemeal : Delivers (Utf8.encode "hé!") piecemeal
    (narrowSink.run MemorySink.empty piecemeal).1 := by
  have hbytes : Utf8.encode "hé!" = [104, 195, 169, 33] ++ [] := by
    rw [Utf8.encode_eq]
    decide
  rw [hbytes]
  have hlast : Delivers ([33] ++ []) [.write [33]] [.accepted 1] := .written .done
  have hmiddle : Delivers ([169] ++ [33]) [.write [169], .flush, .write [33]]
      [.accepted 1, .noFlush, .accepted 1] := .written (.flush hlast)
  exact .written (.failed (p := [169, 33]) (q := []) hmiddle)

theorem holds_waiting :
    waiting.roster.Holds ⟨"b", "m", .completion⟩ "a_1704110400000000001" := by
  have hl : waiting.roster.entries.lookup ⟨"b", "m", .completion⟩ = some ⟨BackendConfig.empty,
      [⟨"a_1704110400000000001", "a", "POST", "/", "hi", "", ⟨2024, 1, 1, 12, 0, 0, 1⟩, 0,
        ""⟩]⟩ := by decide +kernel
  exact ⟨_, hl, _, .head _, rfl⟩

theorem response_of_bytes_alone_piecemeal :
    narrowSink.accepted MemorySink.empty piecemeal = wideSink.accepted MemorySink.empty atOnce ∧
    lastStatus piecemeal = lastStatus atOnce ∧
    waiting.respond "a_1704110400000000001" ⟨"b", "a_1", .completion⟩
        (narrowSink.tapped.run (Tap.fresh MemorySink.empty) piecemeal).2.captured =
      waiting.respond "a_1704110400000000001" ⟨"b", "a_1", .completion⟩
        (wideSink.tapped.run (Tap.fresh MemorySink.empty) atOnce).2.captured ∧
    (∀ line ∈ Stream.lines "hé!".toList, ¬Stream.dataMarker <+: line) ∧
    Delivers (Utf8.encode "hé!") piecemeal (narrowSink.run MemorySink.empty piecemeal).1 ∧
    Runner.normal? waiting.roster.normalize ⟨"b", "a_1", .completion⟩ =
      some ⟨"b", "m", .completion⟩ ∧
    waiting.roster.Holds ⟨"b", "m", .completion⟩ "a_1704110400000000001" ∧
    waiting.roster.Filled (waiting.respond "a_1704110400000000001" ⟨"b", "a_1", .completion⟩
        (narrowSink.tapped.run (Tap.fresh MemorySink.empty) piecemeal).2.captured).recorder.roster
      ⟨"b", "m", .completion⟩ "a_1704110400000000001" "hé!" 200 := by
  obtain ⟨hsame, hstored⟩ := response_of_bytes_alone narrowSink MemorySink.empty piecemeal
  have hbytes : narrowSink.accepted MemorySink.empty piecemeal =
      wideSink.accepted MemorySink.empty atOnce := by decide
  have hstatus : lastStatus piecemeal = lastStatus atOnce := by decide
  have htext : ∀ line ∈ Stream.lines "hé!".toList, ¬Stream.dataMarker <+: line := by
    have hl : Stream.lines "hé!".toList = ["hé!".toList] := by decide +kernel
    rw [hl]
    decide
  have hk : Runner.normal? waiting.roster.normalize ⟨"b", "a_1", .completion⟩ =
      some ⟨"b", "m", .completion⟩ := by decide
  obtain ⟨-, hf⟩ := hstored "hé!" htext delivers_piecemeal waiting _ _ _ hk holds_waiting
  exact ⟨hbytes, hstatus, hsame wideSink MemorySink.empty atOnce hbytes hstatus waiting _ _, htext,
    delivers_piecemeal, hk, holds_waiting, hf⟩

end Recorder
end InferenceRecorder
