import InferenceRecorder.Proofs.Json.Reading
import InferenceRecorder.Proofs.Stream.Template

/-!
The message of a completion. A first choice that is an object gets one, from the assistant and with
the whole text for its content; nowhere else does the content of a message come from the stream:
`message_of_complete`.
-/
namespace InferenceRecorder.Stream
open Json (Source Member HasMember HasFirst QuotedText ArrayText ObjectText)

def HasMessage (completion : List Char) (role content : String) : Prop :=
  ∃ choices first message r c, HasMember completion "choices" choices ∧ HasFirst choices first ∧
    HasMember first "message" message ∧ HasMember message "role" r ∧ QuotedText r role ∧
    HasMember message "content" c ∧ QuotedText c content

theorem lastValue_placeMessage (msg : Source) (choice : List Member) :
    Table.lastValue "message" (placeMessage msg choice) = some msg := by
  induction choice with
  | nil => rfl
  | cons m choice ih =>
    obtain ⟨key, value⟩ := m
    rw [placeMessage]
    split_ifs with hk
    · have hno : Table.lastValue "message" (choice.filter fun m => !isMessageKey m.1) = none := by
        rw [Table.lastValue_eq_none_iff]
        simp [isMessageKey]
      rw [Table.lastValue, hno]
      rfl
    · rw [Table.lastValue, ih]
      rfl

theorem hasMember_message (content : String) :
    HasMember (message content) "role" (Json.quote "assistant") ∧
      HasMember (message content) "content" (Json.quote content) := by
  have ho : ObjectText (message content)
      [("role", Json.quote "assistant"), ("content", Json.quote content)] :=
    Json.objectText_object (by simp [Json.valueText_quote])
  exact ⟨⟨_, ho, rfl⟩, ⟨_, ho, rfl⟩⟩

/-- Completed choices start with a choice that has the message. -/
theorem hasMember_completeChoice {first : Source} {fields : List Member}
    (ho : ObjectText first fields) (content : String) :
    HasMember (Json.object (completeChoice content (Table.ofList fields))) "message"
      (message content) := by
  refine ⟨_, Json.objectText_object
    (spelled_completeChoice (Table.forall_mem_ofList ho.valueText) content), ?_⟩
  rw [completeChoice, placeFinish]
  split_ifs
  · exact lastValue_placeMessage _ _
  · rw [Table.lastValue_put_ne (by decide)]
    exact lastValue_placeMessage _ _

theorem nodup_keys_complete (written : List Member) (content : String) :
    (complete content (Table.ofList written)).keys.Nodup := by
  refine Table.nodup_keys_put ?_
  rw [keys_placeChoices]
  exact Table.nodup_keys_ofList written

theorem hasMember_complete {written : List Member} (hs : Spelled (Table.ofList written))
    {choices first : Source} {others : List Source} {fields : List Member}
    (hc : Table.lastValue "choices" written = some choices)
    (ha : ArrayText choices (first :: others)) (ho : ObjectText first fields) (content : String) :
    HasMember (Json.object (complete content (Table.ofList written))) "choices"
      (Json.array (Json.object (completeChoice content (Table.ofList fields)) :: others)) := by
  refine ⟨_, Json.objectText_object (spelled_complete hs content), ?_⟩
  rw [Table.lastValue_eq_lookup (nodup_keys_complete written content),
    lookup_complete_choices content hc, completeChoices?_of_first ha ho, Option.getD_some]

/-- The completed choices stand in the completion, and start with the completed choice. -/
theorem completed_parts {written : List Member} (hs : Spelled (Table.ofList written))
    {choices first : Source} {others : List Source} {fields : List Member}
    (hc : Table.lastValue "choices" written = some choices)
    (ha : ArrayText choices (first :: others)) (ho : ObjectText first fields) (content : String) :
    let members := completeChoice content (Table.ofList fields)
    let completed := Json.array (Json.object members :: others)
    HasMember (Json.object (complete content (Table.ofList written))) "choices" completed ∧
      ArrayText completed (Json.object members :: others) ∧
      ObjectText (Json.object members) members :=
  ⟨hasMember_complete hs hc ha ho content, arrayText_completed ha ho content,
    Json.objectText_object
      (spelled_completeChoice (Table.forall_mem_ofList ho.valueText) content)⟩

theorem HasMessage.unique {completion : List Char} {role content role' content' : String}
    (h : HasMessage completion role content) (h' : HasMessage completion role' content') :
    role = role' ∧ content = content' := by
  obtain ⟨choices, first, message, r, c, hc, hf, hm, hr, hrole, hct, hcontent⟩ := h
  obtain ⟨choices', first', message', r', c', hc', hf', hm', hr', hrole', hct', hcontent'⟩ := h'
  cases hc.unique hc'
  cases hf.unique hf'
  cases hm.unique hm'
  cases hr.unique hr'
  cases hct.unique hct'
  exact ⟨hrole.unique hrole', hcontent.unique hcontent'⟩

theorem hasMessage_complete {written : List Member} (hs : Spelled (Table.ofList written))
    {choices first : Source} {others : List Source} {fields : List Member}
    (hc : Table.lastValue "choices" written = some choices)
    (ha : ArrayText choices (first :: others)) (ho : ObjectText first fields) (content : String) :
    HasMessage (Json.object (complete content (Table.ofList written))) "assistant" content := by
  obtain ⟨hrole, hcontent⟩ := hasMember_message content
  exact ⟨_, _, _, _, _, hasMember_complete hs hc ha ho _, ⟨others, arrayText_completed ha ho _⟩,
    hasMember_completeChoice ho _, hrole, Json.quotedText_quote _, hcontent,
    Json.quotedText_quote _⟩

/-- The message of a completion, if it has one, has the content that was put into it. -/
theorem message_of_complete {written : List Member} (hs : Spelled (Table.ofList written))
    {content role text : String}
    (h : HasMessage (Json.object (complete content (Table.ofList written))) role text) :
    text = content := by
  have hparts := h
  obtain ⟨choices', first', _, _, _, ⟨members, ho, hc⟩, ⟨others', ha'⟩, ⟨fields', ho', -⟩, -⟩ :=
    hparts
  cases ho.unique (Json.objectText_object (spelled_complete hs content))
  rw [Table.lastValue_eq_lookup (nodup_keys_complete written content)] at hc
  cases hw : Table.lastValue "choices" written with
  | none =>
    rw [lookup_complete_none content (by rw [Table.lookup_ofList, hw])] at hc
    cases hc
  | some choices =>
    rw [lookup_complete_choices content hw] at hc
    cases hcompleted : completeChoices? content choices with
    | none =>
      -- choices that are no list or start with no object have no message in their first element
      rw [hcompleted, Option.getD_none] at hc
      cases hc
      rw [completeChoices?_of_first ha' ho'] at hcompleted
      cases hcompleted
    | some completed =>
      obtain ⟨first, others, fields, ha, hf, -⟩ := completeChoices?_eq_some.1 hcompleted
      exact (h.unique (hasMessage_complete hs hw ha hf content)).2

end InferenceRecorder.Stream
