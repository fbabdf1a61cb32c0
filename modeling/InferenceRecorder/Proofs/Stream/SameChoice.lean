import InferenceRecorder.Proofs.Json.Legible
import InferenceRecorder.Proofs.Stream.FirstChoice
import InferenceRecorder.Proofs.Stream.RoundTrip

/-!
The choice that a text is read from and the choice that is rewritten. They are the same exactly
where the choices are an array of which the first element spells nothing out in a text:
`read_choice_rewritten_iff`. Elsewhere the text still counts, but an object with a member `0` for
its choices gets no message, and what a choice spells out is kept beside the message.
-/
namespace InferenceRecorder.Stream
open Json (Source Member Value HasMember HasFirst ArrayText ObjectText Legible readValue?
  readNested? spellingKey)

def HoldsContent (delta : Source) (text : String) : Prop :=
  ∃ n depth value, readValue? (readNested? n) depth delta = some value ∧
    value.child? "content" = some (.string text)

/-- The choice of which the delta holds the text is the one that is rewritten: the first choice of
the completion has no delta, and a message of which the content ends with the text. -/
inductive RewritesRead (choices completion : Source) (text : String) : Prop
  | of_first {first first' delta completed : Source} {others : List Source}
    {fields members : List Member} {front : String} : ArrayText choices (first :: others) →
    ObjectText first fields → Table.lastValue "delta" fields = some delta →
    HoldsContent delta text → HasMember completion "choices" completed →
    ArrayText completed (first' :: others) → ObjectText first' members →
    "delta" ∉ members.map Prod.fst → HasMessage completion "assistant" (front ++ text) →
    RewritesRead choices completion text

theorem fragment?_eq_some {written : List Member} {text : String}
    (h : fragment? (Table.ofList written) = some text) :
    ∃ choices value first delta, Table.lastValue "choices" written = some choices ∧
      Json.read? choices = some value ∧ value.child? "0" = some first ∧
      first.child? "delta" = some delta ∧ delta.child? "content" = some (.string text) := by
  obtain ⟨choices, value, hc, hv, hat⟩ := fragment?_eq_some_iff.1 h
  simp only [fragmentPath, Json.at?_cons, Json.at?_nil, Option.bind_eq_some_iff,
    Option.some_inj] at hat
  obtain ⟨first, hfirst, delta, hdelta, _, hcontent, rfl⟩ := hat
  exact ⟨choices, value, first, delta, hc, hv, hfirst, hdelta, hcontent⟩

/-- The whole text ends with what the last chunk adds. -/
theorem content_of_getLast? {chunks : List Chunk} {last : Chunk} {text : String}
    (hl : chunks.getLast? = some last) (hf : fragment? last = some text) :
    ∃ front, content chunks = front ++ text := by
  obtain ⟨before, rfl⟩ := List.getLast?_eq_some_iff.1 hl
  exact ⟨content before, by simp [content, hf]⟩

/-- Of choices that are an array, the first element is an object and holds the delta that the text
is read from, unless it spells it out. -/
theorem exists_read_choice {choices : Source} {value first delta : Value} {text : String}
    (hv : Json.read? choices = some value) (hfirst : value.child? "0" = some first)
    (hdelta : first.child? "delta" = some delta)
    (hcontent : delta.child? "content" = some (.string text)) {elements : List Source}
    (ha : ArrayText choices elements) :
    ∃ source others fields, elements = source :: others ∧ ObjectText source fields ∧
      ((∃ d, Table.lastValue "delta" fields = some d ∧ HoldsContent d text) ∨
        ∃ spelled, fields = [(spellingKey, spelled)]) := by
  have hl : Legible Json.depthLimit choices := Json.legible_iff.2 (by rw [hv]; rfl)
  obtain ⟨n, hn⟩ : ∃ n, choices.length = n + 1 := by
    refine Nat.exists_eq_succ_of_ne_zero fun hlen => ?_
    cases List.length_eq_zero_iff.1 hlen
    exact Json.not_legible_nil hl
  rw [Json.read?, hn, readNested?] at hv
  obtain ⟨_, -, hall⟩ := ha.legible_iff.1 hl
  cases elements with
  | nil =>
    obtain ⟨_, vs, rfl, hf⟩ := Json.readValue?_array ha hv
    cases hf
    cases hfirst
  | cons source others =>
    obtain ⟨_, x, hx, hread⟩ := HasFirst.read ⟨others, ha⟩ hv
    cases hx.symm.trans hfirst
    obtain ⟨fields, ho, hmember⟩ :=
      (hall source List.mem_cons_self).exists_member (by decide) hread hdelta
    refine ⟨source, others, fields, rfl, ho, hmember.imp_left ?_⟩
    rintro ⟨d, hd, depth, hvalue⟩
    exact ⟨d, hd, n, depth, delta, hvalue, hcontent⟩

section
variable {written : List Member} (hs : Spelled (Table.ofList written)) {choices : Source}
  (hc : Table.lastValue "choices" written = some choices) (content : String)
include hs hc

/-- Choices that are no array are kept, and there is no message. -/
theorem choices_kept (hno : ∀ elements, ¬ArrayText choices elements) :
    HasMember (Json.object (complete content (Table.ofList written))) "choices" choices ∧
      ∀ role text,
        ¬HasMessage (Json.object (complete content (Table.ofList written))) role text := by
  have hkept : Table.lastValue "choices" (complete content (Table.ofList written)) =
      some choices := by
    rw [Table.lastValue_eq_lookup (nodup_keys_complete written content)]
    refine (keeps_complete content).untouched hc ?_
    rintro ⟨first, others, _, ha, -⟩
    exact hno _ ha
  have hm := Json.objectText_object (spelled_complete hs content)
  refine ⟨⟨_, hm, hkept⟩, ?_⟩
  rintro role text ⟨_, first, _, _, _, hmember, ⟨others, ha⟩, -⟩
  cases hmember.unique ⟨_, hm, hkept⟩
  exact hno _ ha

/-- A first choice that is an object has no delta left, and a message at the end of which the text
stands. -/
theorem rewritesRead_complete {first delta : Source} {others : List Source} {fields : List Member}
    (ha : ArrayText choices (first :: others)) (ho : ObjectText first fields)
    (hd : Table.lastValue "delta" fields = some delta) {front text : String}
    (hcontent : HoldsContent delta text) (he : content = front ++ text) :
    RewritesRead choices (Json.object (complete content (Table.ofList written))) text := by
  subst he
  obtain ⟨hmember, harray, hobject⟩ := completed_parts hs hc ha ho (front ++ text)
  have hkeys := completed_keys (Table.nodup_keys_ofList fields)
    (placesMessage_placeMessage (message (front ++ text)) (Table.ofList fields))
    (placesFinish_placeFinish _)
  exact .of_first ha ho hd hcontent hmember harray hobject hkeys.2.1
    (hasMessage_complete hs hc ha ho _)

/-- What a choice spells out is kept. -/
theorem spelling_kept {first spelled : Source} {others : List Source}
    (ha : ArrayText choices (first :: others)) (ho : ObjectText first [(spellingKey, spelled)]) :
    ∃ completed first' members,
      HasMember (Json.object (complete content (Table.ofList written))) "choices" completed ∧
      ArrayText completed (first' :: others) ∧ ObjectText first' members ∧
      (spellingKey, spelled) ∈ members := by
  obtain ⟨hmember, harray, hobject⟩ := completed_parts hs hc ha ho content
  exact ⟨_, _, _, hmember, harray, hobject, List.mem_cons_self⟩

end

/-- The choice that the last chunk's text is read from is the one that is rewritten exactly if the
choices are an array of which the first element spells nothing out. -/
theorem read_choice_rewritten_iff {body : String} {written : List Member} {text : String}
    (hl : LastChunk body written) (hf : fragment? (Table.ofList written) = some text) :
    ∃ choices, Table.lastValue "choices" written = some choices ∧
      (RewritesRead choices (reconstruct body).text.toList text ↔ ∃ first others,
        ArrayText choices (first :: others) ∧ ∀ v, ¬ObjectText first [(spellingKey, v)]) ∧
      ((∀ elements, ¬ArrayText choices elements) →
        HasMember (reconstruct body).text.toList "choices" choices ∧
        ∀ role content, ¬HasMessage (reconstruct body).text.toList role content) ∧
      ∀ first others spelled, ArrayText choices (first :: others) →
        ObjectText first [(spellingKey, spelled)] → ∃ completed first' members,
          HasMember (reconstruct body).text.toList "choices" completed ∧
          ArrayText completed (first' :: others) ∧ ObjectText first' members ∧
          (spellingKey, spelled) ∈ members := by
  have hlast := getLast?_chunks hl
  obtain ⟨front, hcontent⟩ := content_of_getLast? hlast hf
  obtain ⟨payload, _, -, hw, -⟩ := hl
  have hs : Spelled (Table.ofList written) := Table.forall_mem_ofList hw.valueText
  obtain ⟨choices, value, firstValue, deltaValue, hc, hv, hfirst, hdelta, htext⟩ :=
    fragment?_eq_some hf
  rw [reconstruct_eq hlast, String.toList_ofList]
  refine ⟨choices, hc, ⟨?_, ?_⟩, fun hno => choices_kept hs hc _ hno,
    fun first others spelled ha ho => spelling_kept hs hc _ ha ho⟩
  · rintro ⟨ha, ho, hd, -⟩
    refine ⟨_, _, ha, fun v hspelled => ?_⟩
    cases ho.unique hspelled
    simp [Table.lastValue, spellingKey] at hd
  · rintro ⟨first, others, ha, hno⟩
    obtain ⟨_, _, fields, he, ho, hread⟩ := exists_read_choice hv hfirst hdelta htext ha
    cases he
    rcases hread with ⟨delta, hd, hholds⟩ | ⟨spelled, rfl⟩
    · exact rewritesRead_complete hs hc _ ha ho hd hholds hcontent
    · exact absurd ho (hno spelled)

theorem read_choice_rewritten_iff_paired :
    LastChunk (String.ofList (join (pairedLines ++ afterEnd)))
      [("choices", deltaChoices feedContent)] ∧
    fragment? [("choices", deltaChoices feedContent)] = some "\n!" ∧
    RewritesRead (deltaChoices feedContent)
      (reconstruct (String.ofList (join (pairedLines ++ afterEnd)))).text.toList "\n!" := by
  have hf : fragment? (Table.ofList [("choices", deltaChoices feedContent)]) = some "\n!" := by
    decide +kernel
  obtain ⟨choices, hc, hiff, -, -⟩ := read_choice_rewritten_iff lastChunk_pairedLines hf
  cases hc
  have hcontent := quotedText_feedContent.valueText
  have ha := arrayText_deltaChoices hcontent
  refine ⟨lastChunk_pairedLines, hf, hiff.2 ⟨_, _, ha, fun v hv => ?_⟩⟩
  have hkey : "delta" = spellingKey :=
    congrArg Prod.fst (List.singleton_inj.1 ((objectText_deltaFields hcontent).unique hv))
  exact absurd hkey (by decide)

def zeroStream : String := String.ofList (join [dataLine zeroChunk false])

theorem read_choice_not_rewritten :
    LastChunk zeroStream [("choices", zeroChoices)] ∧
    fragment? [("choices", zeroChoices)] = some "x" ∧
    ∀ role content, ¬HasMessage (reconstruct zeroStream).text.toList role content := by
  have hp : payloads zeroStream.toList = [] ++ zeroChunk :: [] := by
    rw [zeroStream, String.toList_ofList]
    decide +kernel
  have hl : LastChunk zeroStream [("choices", zeroChoices)] :=
    lastChunk_iff.2 ⟨_, _, _, hp, objectText_zeroChunk, by simp⟩
  refine ⟨hl, by decide +kernel, ?_⟩
  rw [reconstruct_eq (getLast?_chunks hl), String.toList_ofList]
  exact (choices_kept (Table.forall_mem_ofList objectText_zeroChunk.valueText) rfl _
    objectText_zeroChoices.not_arrayText).2

end InferenceRecorder.Stream
