import InferenceRecorder.Proofs.Json.Slices
import InferenceRecorder.Proofs.Stream.Template
import InferenceRecorder.Report.Reconstruction

/-!
What becomes of a body. A body without a chunk comes through as it is; every other body becomes one
object on a single line, which is a chunk again but no stream. So nothing changes a second time.
-/
namespace InferenceRecorder

def Count.entry (c : Count) : String × List (String × String) × Nat :=
  (c.counter, c.labels, c.amount)

namespace Stream
open Json (Source Member ValueText ArrayText ObjectText)

structure PassedThrough (body : String) (r : Reconstruction) : Prop where
  text_eq : r.text = body
  counted : r.counts.map Count.entry =
    [("huginn_stream_reconstructions_total", [("outcome", "passthrough")], 1)]

structure PutTogether (body : String) (r : Reconstruction) : Prop where
  text_ne : r.text ≠ body
  counted : r.counts.map Count.entry =
    [("huginn_stream_reconstructions_total", [("outcome", "reconstructed")], 1)]
  value : ValueText r.text.toList
  chunk : ∃ members, ObjectText r.text.toList members ∧
    chunk? r.text.toList = some (Table.ofList members)
  line : '\n' ∉ r.text.toList

/-- What is carried stands on one line. -/
theorem not_mem_of_mem_payloads {s payload : List Char} (h : payload ∈ payloads s) :
    '\n' ∉ payload := by
  obtain ⟨-, v, u, cr, hl, -, -⟩ := mem_carried_iff.1 h
  have hmem : dataLine payload cr ∈ lines s := by
    rw [hl]
    exact List.mem_append_right u List.mem_cons_self
  have hline := not_mem_of_mem_lines hmem
  rw [dataLine, List.append_assoc, List.mem_append, List.mem_append] at hline
  exact fun hm => hline (.inr (.inl hm))

/-- The completion has the values of the template, the message and two fixed texts, so it has no
line feed unless the template has one. -/
theorem not_mem_complete {chunk : Chunk} (hc : ∀ m ∈ chunk, '\n' ∉ m.2) (content : String) :
    '\n' ∉ Json.object (complete content chunk) := by
  have hquote : ∀ text, '\n' ∉ Json.quote text := Json.not_mem_quote (by decide)
  have hmessage : '\n' ∉ message content := by
    refine Json.not_mem_object (by decide) ?_
    simp [hquote]
  refine Json.not_mem_object (by decide) (forall_mem_complete hc (hquote _) ?_)
  intro choices completed hl h
  obtain ⟨first, others, fields, ha, ho, rfl⟩ := completeChoices?_eq_some.1 h
  have hchoices : '\n' ∉ choices := hc _ (Table.mem_of_lookup hl)
  have helements : ∀ v ∈ first :: others, '\n' ∉ v :=
    fun v hv hn => hchoices ((ha.slice v hv).subset hn)
  obtain ⟨hfirst, hothers⟩ := List.forall_mem_cons.1 helements
  have hfields : ∀ m ∈ Table.ofList fields, '\n' ∉ m.2 :=
    Table.forall_mem_ofList fun m hm hn => hfirst ((ho.slice m hm).subset hn)
  refine Json.not_mem_array (by decide) (List.forall_mem_cons.2 ⟨?_, hothers⟩)
  exact Json.not_mem_object (by decide) (forall_mem_completeChoice hfields hmessage (hquote _))

/-- A single line that starts like an object carries nothing. -/
theorem reconstruct_of_line {s : List Char} (hs : '\n' ∉ '{' :: s) :
    reconstruct (String.ofList ('{' :: s)) = ⟨String.ofList ('{' :: s), .passthrough, 0⟩ := by
  refine reconstruct_of_other fun line hl hm => ?_
  rw [String.toList_ofList, lines_of_not_mem hs, List.mem_singleton] at hl
  rw [hl, dataMarker, List.cons_prefix_cons] at hm
  exact absurd hm.1 (by decide)

theorem reconstruct_of_not_bearsChunk {body : String} (h : ¬BearsChunk body) :
    (reconstruct body).text = body ∧ (reconstruct body).outcome = .passthrough := by
  have hnone : (arrivals body.toList).filterMap id = [] := by
    rw [chunks_eq, List.filterMap_eq_nil_iff]
    exact fun payload hp => chunk?_eq_none fun members ho =>
      h (bearsChunk_iff.2 ⟨payload, hp, members, ho⟩)
  simp only [reconstruct, hnone, List.getLast?_nil]
  exact ⟨trivial, trivial⟩

/-- With a chunk there is a completion, made from the last one. -/
theorem reconstruct_of_bearsChunk {body : String} (h : BearsChunk body) :
    ∃ content chunk, Spelled chunk ∧ (∀ m ∈ chunk, '\n' ∉ m.2) ∧
      (reconstruct body).text = String.ofList (Json.object (complete content chunk)) ∧
      (reconstruct body).outcome = .reconstructed := by
  obtain ⟨last, hlast⟩ := h.exists_last
  obtain ⟨payload, hlp, fields, hf, rfl⟩ := exists_written (List.mem_of_getLast? hlast)
  have hline := not_mem_of_mem_payloads hlp
  refine ⟨content ((arrivals body.toList).filterMap id), Table.ofList fields,
    Table.forall_mem_ofList hf.valueText,
    Table.forall_mem_ofList fun m hm hn => hline ((hf.slice m hm).subset hn), ?_, ?_⟩
  · exact reconstruct_eq hlast
  · simp only [reconstruct, hlast]

theorem putTogether_of_bearsChunk {body : String} (h : BearsChunk body) :
    PutTogether body (reconstruct body) ∧
      (reconstruct (reconstruct body).text).text = (reconstruct body).text := by
  obtain ⟨content, chunk, hs, hn, htext, hout⟩ := reconstruct_of_bearsChunk h
  have hspelled := spelled_complete hs content
  have hline := not_mem_complete hn content
  have hagain := reconstruct_of_line hline
  refine ⟨⟨fun he => ?_, ?_, ?_, ?_, ?_⟩, ?_⟩
  · -- a text of one line that starts with a bracket is no body with a data line
    obtain ⟨u, payload, cr, v, -, hl, -, -, -⟩ := h
    rw [← he, htext, String.toList_ofList, lines_of_not_mem hline] at hl
    have hmem : dataLine payload cr ∈ [Json.object (complete content chunk)] := hl ▸ by simp
    cases List.mem_singleton.1 hmem
  · rw [Reconstruction.counts, hout]
    rfl
  · rw [htext, String.toList_ofList]
    exact Json.valueText_object hspelled
  · rw [htext, String.toList_ofList]
    have ho := Json.objectText_object hspelled
    exact ⟨_, ho, tableOf?_eq_some.2 ⟨_, ho, rfl⟩⟩
  · rw [htext, String.toList_ofList]
    exact hline
  · rw [htext]
    exact congrArg Reconstruction.text hagain

/-- Either a body bears no chunk and comes through, or it bears one and is put together; what comes
out either way stays as it is from then on. -/
theorem passes_or_puts_together (body : String) :
    Xor (¬BearsChunk body ∧ PassedThrough body (reconstruct body))
      (BearsChunk body ∧ PutTogether body (reconstruct body)) ∧
    (reconstruct (reconstruct body).text).text = (reconstruct body).text := by
  by_cases h : BearsChunk body
  · obtain ⟨hput, hagain⟩ := putTogether_of_bearsChunk h
    exact ⟨.inr ⟨⟨h, hput⟩, fun hn => hn.1 h⟩, hagain⟩
  · obtain ⟨htext, hout⟩ := reconstruct_of_not_bearsChunk h
    have hpass : PassedThrough body (reconstruct body) :=
      ⟨htext, by rw [Reconstruction.counts, hout]; rfl⟩
    exact ⟨.inl ⟨⟨h, hpass⟩, fun hb => h hb.1⟩, by rw [htext, htext]⟩

end Stream
end InferenceRecorder
