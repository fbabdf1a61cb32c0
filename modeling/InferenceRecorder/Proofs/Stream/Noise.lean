import InferenceRecorder.Proofs.Stream.Lines
import InferenceRecorder.Proofs.Stream.Template
import Mathlib.Logic.Relation

/-!
Edits that a completion does not show. What a stream is put together to depends only on the chunks
that come before its end, so lines with no chunk may come and go, anything may stand after the end,
and the lines may end in carriage returns.
-/
namespace InferenceRecorder.Stream
open Json (ObjectText)

def Stray (line : List Char) : Prop :=
  ∃ payload cr, line = dataLine payload cr ∧ Closed payload cr ∧ payload ≠ doneMarker ∧
    ∀ members, ¬ObjectText payload members

def withReturns (s : List Char) : List Char :=
  s.flatMap fun c => if c = '\n' then ['\r', '\n'] else [c]

inductive Edit : List Char → List Char → Prop
  | other {s s' line : List Char} {u v : List (List Char)} : lines s = u ++ v →
    lines s' = u ++ line :: v → ¬dataMarker <+: line → Edit s s'
  | stray {s s' line : List Char} {u v : List (List Char)} : lines s = u ++ v →
    lines s' = u ++ line :: v → (∀ l ∈ u, ¬IsEnd l) → Stray line → Edit s s'
  | afterEnd {s s' line : List Char} {u v v' : List (List Char)} : lines s = u ++ line :: v →
    lines s' = u ++ line :: v' → IsEnd line → Edit s s'
  | returns {s : List Char} : '\r' ∉ s → Edit s (withReturns s)

def Edited : List Char → List Char → Prop := Relation.EqvGen Edit

theorem carried_other {line : List Char} (h : ¬dataMarker <+: line) (u v : List (List Char)) :
    carried (u ++ line :: v) = carried (u ++ v) := by
  rw [carried, List.filterMap_append, List.filterMap_cons_none (payload?_eq_none h),
    ← List.filterMap_append, carried]

/-- A stray line brings a payload of its own, but no chunk. -/
theorem chunks_stray {line : List Char} (h : Stray line) {u : List (List Char)}
    (hu : ∀ l ∈ u, ¬IsEnd l) (v : List (List Char)) :
    (carried (u ++ line :: v)).filterMap chunk? = (carried (u ++ v)).filterMap chunk? := by
  obtain ⟨payload, cr, rfl, hcr, hne, hno⟩ := h
  rw [carried_append hu, carried_cons_some (payload?_dataLine hcr) hne, List.filterMap_append,
    List.filterMap_cons_none (chunk?_eq_none hno), ← List.filterMap_append, ← carried_append hu]

theorem payload?_concat_return {l : List Char} (h : '\r' ∉ l) :
    payload? (l ++ ['\r']) = payload? l := by
  have hl : l.getLast? ≠ some '\r' := fun hr => h (List.mem_of_getLast? hr)
  rw [payload?, trimReturn_concat, payload?, trimReturn, if_neg hl]

theorem withReturns_of_not_mem {l : List Char} (h : '\n' ∉ l) : withReturns l = l := by
  induction l with
  | nil => rfl
  | cons c l ih =>
    rw [List.mem_cons, not_or] at h
    rw [withReturns, List.flatMap_cons, if_neg (Ne.symm h.1), ← withReturns, ih h.2,
      List.singleton_append]

/-- The carriage returns come to stand at the ends of lines, where they do not count. -/
theorem filterMap_payload?_withReturns {s : List Char} (h : '\r' ∉ s) :
    (lines (withReturns s)).filterMap payload? = (lines s).filterMap payload? := by
  obtain ⟨hs, -⟩ | ⟨l, rest, hl, rfl, hlines⟩ := lines_cases s
  · rw [withReturns_of_not_mem hs]
  · obtain ⟨hr, hrest⟩ : '\r' ∉ l ∧ '\r' ∉ rest := by simpa using h
    have hw : withReturns (l ++ '\n' :: rest) = (l ++ ['\r']) ++ '\n' :: withReturns rest := by
      rw [withReturns, List.flatMap_append, ← withReturns, withReturns_of_not_mem hl]
      simp [withReturns]
    have hn : '\n' ∉ l ++ ['\r'] := by simpa using hl
    have ih := filterMap_payload?_withReturns hrest
    rw [hw, lines_append hn, hlines, List.filterMap_cons, List.filterMap_cons,
      payload?_concat_return hr, ih]
termination_by s.length

/-- One edit leaves the chunks of a stream as they are. -/
theorem Edit.chunks {s s' : List Char} (h : Edit s s') :
    (payloads s).filterMap chunk? = (payloads s').filterMap chunk? := by
  have hp : ∀ s, payloads s = carried (lines s) := fun _ => rfl
  simp only [hp]
  cases h with
  | other hs hs' hline => rw [hs, hs', carried_other hline]
  | stray hs hs' hu hline => rw [hs, hs', chunks_stray hline hu]
  | afterEnd hs hs' hline => rw [hs, hs', carried_end hline, carried_end hline]
  | returns hr => rw [carried, carried, filterMap_payload?_withReturns hr]

theorem Edited.chunks {s s' : List Char} (h : Edited s s') :
    (payloads s).filterMap chunk? = (payloads s').filterMap chunk? := by
  induction h with
  | rel s s' h => exact h.chunks
  | refl s => rfl
  | symm s s' _ ih => exact ih.symm
  | trans s s' s'' _ _ ih ih' => exact ih.trans ih'

/-- Lines that bring no chunk, what comes after the end of the stream, and carriage returns at the
ends of lines do not show in the completion. -/
theorem noise_ignored {body body' : String} (hc : BearsChunk body)
    (h : Edited body.toList body'.toList) : (reconstruct body').text = (reconstruct body).text := by
  have hsame : (arrivals body'.toList).filterMap id = (arrivals body.toList).filterMap id := by
    rw [chunks_eq, chunks_eq, h.chunks]
  obtain ⟨chunk, hlast⟩ := hc.exists_last
  have hlast' : ((arrivals body'.toList).filterMap id).getLast? = some chunk := by rw [hsame, hlast]
  rw [reconstruct_eq hlast', reconstruct_eq hlast, hsame]

def spacedStream : String := "data: \x7b\"id\":1\x7d\n\ndata: [DONE]\nx"

def noisyStream : String :=
  "data: \x7b\"id\":1\x7d\r\ndata: \x7b1\ndata: [DONE]\r\ndata: \x7b\"id\":2\x7d"

theorem edited_noisyStream : Edited spacedStream.toList noisyStream.toList := by
  let first := "data: \x7b\"id\":1\x7d\r".toList
  let last := "data: [DONE]\r".toList
  have hreturns : Edit spacedStream.toList (withReturns spacedStream.toList) := .returns (by decide)
  have hblank : Edit "data: \x7b\"id\":1\x7d\r\ndata: [DONE]\r\nx".toList
      (withReturns spacedStream.toList) :=
    .other (u := [first]) (v := [last, ['x']]) (by decide +kernel)
      (by decide +kernel : lines _ = _ ++ ['\r'] :: _) (by decide)
  have hno : ∀ members, ¬ObjectText "\x7b1".toList members := by
    intro members hm
    have hnone : Json.members? "\x7b1".toList = none := by decide +kernel
    rw [Json.members?_eq_some.2 hm] at hnone
    cases hnone
  have hstray : Edit "data: \x7b\"id\":1\x7d\r\ndata: [DONE]\r\nx".toList
      "data: \x7b\"id\":1\x7d\r\ndata: \x7b1\ndata: [DONE]\r\nx".toList := by
    refine .stray (u := [first]) (v := [last, ['x']]) (by decide +kernel)
      (by decide +kernel : lines _ = _ ++ dataLine "\x7b1".toList false :: _) ?_
      ⟨_, _, rfl, fun _ => by decide, by decide, hno⟩
    simp only [List.mem_singleton, forall_eq, isEnd_iff]
    decide
  have hrest : Edit "data: \x7b\"id\":1\x7d\r\ndata: \x7b1\ndata: [DONE]\r\nx".toList
      noisyStream.toList :=
    .afterEnd (u := [first, "data: \x7b1".toList]) (v := [['x']])
      (by decide +kernel : lines _ = _ ++ dataLine doneMarker true :: _)
      (by decide +kernel : lines _ = _ ++ _ :: ["data: \x7b\"id\":2\x7d".toList]) ⟨true, rfl⟩
  exact .trans _ _ _ (.rel _ _ hreturns) (.trans _ _ _ (.symm _ _ (.rel _ _ hblank))
    (.trans _ _ _ (.rel _ _ hstray) (.rel _ _ hrest)))

theorem bearsChunk_spacedStream : BearsChunk spacedStream := by
  have hl : lines spacedStream.toList = [] ++ dataLine "\x7b\"id\":1\x7d".toList false ::
      [[], dataLine doneMarker false, ['x']] := by decide +kernel
  have ho : ObjectText "\x7b\"id\":1\x7d".toList [("id", ['1'])] :=
    Json.members?_eq_some.1 (by decide +kernel)
  exact ⟨_, _, _, _, _, hl, nofun, fun _ => by decide, ho⟩

theorem noise_ignored_spaced : BearsChunk spacedStream ∧
    Edited spacedStream.toList noisyStream.toList ∧
    (reconstruct noisyStream).text = (reconstruct spacedStream).text :=
  ⟨bearsChunk_spacedStream, edited_noisyStream,
    noise_ignored bearsChunk_spacedStream edited_noisyStream⟩

end InferenceRecorder.Stream
