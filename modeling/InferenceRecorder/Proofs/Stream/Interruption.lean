import InferenceRecorder.Proofs.Stream.Chunked
import InferenceRecorder.Proofs.Stream.RoundTrip

/-!
Streams that break off. The bytes of a stream may stop anywhere, inside a line, an escape, a marker
or a character. A chunk counts exactly if its closing bracket came, so what is put together of the
fragments is a beginning of the whole text.
-/
namespace InferenceRecorder.Stream
open Json (Source ObjectText)

def OnlyChunks (body : String) : Prop :=
  ∀ u payload cr v, lines body.toList = u ++ dataLine payload cr :: v → (∀ l ∈ u, ¬IsEnd l) →
    Closed payload cr → payload ≠ doneMarker → ∃ members, ObjectText payload members

def firstBytes (body : String) (n : Nat) : String := Utf8.decodeLossy ((Utf8.encode body).take n)

def gathered (body : String) : String := content ((arrivals body.toList).filterMap id)

/-- Of the first bytes of a stream with these chunks, those that came whole count and no others. -/
structure CutShort (body : String) (cs : List (List Char × Chunk)) (n : Nat) : Prop where
  chunks : (arrivals (firstBytes body n).toList).filterMap id = came n cs
  gathered_eq : gathered (firstBytes body n) = String.join ((came n cs).filterMap fragment?)
  gathered_isPrefix : (gathered (firstBytes body n)).toList <+: (gathered body).toList
  untouched : came n cs = [] → (reconstruct (firstBytes body n)).text = firstBytes body n ∧
    (reconstruct (firstBytes body n)).outcome = .passthrough
  template {last : Chunk} : (came n cs).getLast? = some last →
    (reconstruct (firstBytes body n)).text =
        String.ofList (Json.object (complete (gathered (firstBytes body n)) last)) ∧
      (reconstruct (firstBytes body n)).outcome = .reconstructed
  /-- What is put together has no other message than the fragments that came. -/
  message {role text : String} : (reconstruct (firstBytes body n)).outcome = .reconstructed →
    HasMessage (reconstruct (firstBytes body n)).text.toList role text →
    text = gathered (firstBytes body n) ∧ text.toList <+: (gathered body).toList

theorem onlyChunks_iff {body : String} : OnlyChunks body ↔
    ∀ payload ∈ payloads body.toList, ∃ members, ObjectText payload members := by
  rw [payloads_eq]
  constructor
  · intro h payload hp
    obtain ⟨hne, v, u, cr, hl, hu, hc⟩ := mem_carried_iff.1 hp
    exact h u payload cr v hl hu hc hne
  · intro h u payload cr v hl hu hc hne
    exact h payload (mem_carried_iff.2 ⟨hne, v, u, cr, hl, hu, hc⟩)

theorem cutShort {body : String} {cs : List (List Char × Chunk)}
    (hcs : Chunked [] (lines body.toList) cs)
    (hall : (arrivals body.toList).filterMap id = cs.map Prod.snd) (n : Nat) :
    CutShort body cs n := by
  have hchunks : (arrivals (firstBytes body n).toList).filterMap id = came n cs := by
    obtain ⟨p, q, gap, hbody, hcut, h⟩ := Utf8.decodeLossy_take body n
    rw [chunks_eq, firstBytes, hcut]
    refine hcs.cut (lines_ne_nil _) (fun l hl => not_mem_of_mem_lines hl) ?_ h
    rw [join_lines, hbody]
  have hprefix : (gathered (firstBytes body n)).toList <+: (gathered body).toList := by
    rw [gathered, hchunks, gathered, hall]
    obtain ⟨more, hmore⟩ := hcs.came_isPrefix n
    rw [← hmore, content, content, List.filterMap_append, String.join_append, String.toList_append]
    exact List.prefix_append _ _
  have htemplate : ∀ {last : Chunk}, (came n cs).getLast? = some last →
      (reconstruct (firstBytes body n)).text =
        String.ofList (Json.object (complete (gathered (firstBytes body n)) last)) ∧
      (reconstruct (firstBytes body n)).outcome = .reconstructed := by
    intro last hlast
    rw [← hchunks] at hlast
    exact ⟨reconstruct_eq hlast, by simp only [reconstruct, hlast]⟩
  have huntouched : came n cs = [] → (reconstruct (firstBytes body n)).text = firstBytes body n ∧
      (reconstruct (firstBytes body n)).outcome = .passthrough := by
    intro hnil
    simp only [reconstruct, hchunks, hnil, List.getLast?_nil]
    exact ⟨trivial, trivial⟩
  refine ⟨hchunks, by rw [gathered, hchunks, content], hprefix, huntouched, htemplate, ?_⟩
  intro role text hout hmessage
  cases hlast : (came n cs).getLast? with
  | none =>
    rw [(huntouched (List.getLast?_eq_none_iff.1 hlast)).2] at hout
    cases hout
  | some last =>
    have hm : last ∈ (arrivals (firstBytes body n).toList).filterMap id :=
      hchunks ▸ List.mem_of_getLast? hlast
    obtain ⟨payload, -, written, ho, rfl⟩ := exists_written hm
    rw [(htemplate hlast).1, String.toList_ofList] at hmessage
    obtain rfl := message_of_complete (Table.forall_mem_ofList ho.valueText) hmessage
    exact ⟨rfl, hprefix⟩

def bracedContent : Source := "\"é\\n\x7d\"".toList

def emojiContent : Source := "\"😀\"".toList

def bracedStream : String :=
  String.ofList (join [dataLine (deltaChunk bracedContent) true, [],
    dataLine (deltaChunk emojiContent) false, dataLine doneMarker true, ['x']])

theorem onlyChunks_bracedStream : OnlyChunks bracedStream := by
  have hp : payloads bracedStream.toList = [deltaChunk bracedContent, deltaChunk emojiContent] := by
    rw [bracedStream, String.toList_ofList]
    decide +kernel
  rw [onlyChunks_iff, hp]
  refine List.forall_mem_cons.2 ⟨?_, List.forall_mem_singleton.2 ?_⟩
  · exact ⟨[("choices", deltaChoices bracedContent)], Json.members?_eq_some.1 (by decide +kernel)⟩
  · exact ⟨[("choices", deltaChoices emojiContent)], Json.members?_eq_some.1 (by decide +kernel)⟩

end InferenceRecorder.Stream
