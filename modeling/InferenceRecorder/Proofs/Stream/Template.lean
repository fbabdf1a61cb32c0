import InferenceRecorder.Proofs.Json.Compact
import InferenceRecorder.Proofs.Stream.Lines
import InferenceRecorder.Proofs.Table
import InferenceRecorder.Stream.Completion

/-!
The template of a completion. The last chunk of a stream gives the completion its members, in their
order and with the text that they have; only the name of the object and the first choice are new.
-/
namespace InferenceRecorder.Stream
open Json (Source Member ValueText ArrayText ObjectText)

def Spelled (t : Table String Source) : Prop := ∀ m ∈ t, ValueText m.2

theorem tableOf?_eq_some {s : List Char} {t : Table String Source} :
    Json.tableOf? s = some t ↔ ∃ members, ObjectText s members ∧ Table.ofList members = t := by
  simp only [Json.tableOf?, Option.map_eq_some_iff, Json.members?_eq_some]

theorem valueText_message (content : String) : ValueText (message content) := by
  refine Json.valueText_object ?_
  simp [Json.valueText_quote]

section
variable {P : Member → Prop} {content : String}

theorem forall_mem_placeMessage {choice : List Member} (hc : ∀ m ∈ choice, P m) {msg : Source}
    (hm : P ("message", msg)) : ∀ m ∈ placeMessage msg choice, P m := by
  induction choice with
  | nil => simpa [placeMessage] using hm
  | cons m choice ih =>
    obtain ⟨key, value⟩ := m
    have hrest : ∀ m ∈ choice, P m := fun m h => hc m (List.mem_cons_of_mem _ h)
    rw [placeMessage]
    split_ifs with hk
    · exact List.forall_mem_cons.2 ⟨hm, fun m h => hrest m (List.mem_filter.1 h).1⟩
    · exact List.forall_mem_cons.2 ⟨hc _ List.mem_cons_self, ih hrest⟩

theorem forall_mem_completeChoice {choice : List Member} (hc : ∀ m ∈ choice, P m)
    (hm : P ("message", message content)) (hf : P ("finish_reason", Json.quote defaultFinish)) :
    ∀ m ∈ completeChoice content choice, P m := by
  rw [completeChoice, placeFinish]
  split_ifs
  · exact forall_mem_placeMessage hc hm
  · exact Table.forall_mem_put hf (forall_mem_placeMessage hc hm)

theorem forall_mem_complete {chunk : Chunk} (hc : ∀ m ∈ chunk, P m)
    (ho : P ("object", Json.quote completionObject))
    (hr : ∀ choices completed, chunk.lookup "choices" = some choices →
      completeChoices? content choices = some completed → P ("choices", completed)) :
    ∀ m ∈ complete content chunk, P m := by
  refine Table.forall_mem_put ho ?_
  unfold placeChoices
  split
  next => exact hc
  next choices hl =>
    split
    next completed h => exact Table.forall_mem_put (hr choices completed hl h) hc
    next => exact hc

end

theorem spelled_completeChoice {choice : List Member} (hc : Spelled choice) (content : String) :
    Spelled (completeChoice content choice) :=
  forall_mem_completeChoice hc (valueText_message content) (Json.valueText_quote _)

/-- The choices are rewritten exactly when they are a list that starts with an object. -/
theorem completeChoices?_eq_some {content : String} {choices completed : Source} :
    completeChoices? content choices = some completed ↔ ∃ first others fields,
      ArrayText choices (first :: others) ∧ ObjectText first fields ∧
      completed =
        Json.array (Json.object (completeChoice content (Table.ofList fields)) :: others) := by
  unfold completeChoices?
  constructor
  · intro h
    split at h
    next first others he =>
      split at h
      next choice hc =>
        obtain ⟨fields, hf, rfl⟩ := tableOf?_eq_some.1 hc
        cases h
        exact ⟨first, others, fields, Json.elements?_eq_some.1 he, hf, rfl⟩
      next => cases h
    next => cases h
  · rintro ⟨first, others, fields, ha, ho, rfl⟩
    simp [Json.elements?_eq_some.2 ha, tableOf?_eq_some.2 ⟨fields, ho, rfl⟩]

theorem completeChoices?_of_first {choices first : Source} {others : List Source}
    {fields : List Member} (ha : ArrayText choices (first :: others)) (ho : ObjectText first fields)
    (content : String) : completeChoices? content choices = some
      (Json.array (Json.object (completeChoice content (Table.ofList fields)) :: others)) :=
  completeChoices?_eq_some.2 ⟨first, others, fields, ha, ho, rfl⟩

/-- The completed choices start with the completed choice and go on as before. -/
theorem arrayText_completed {choices first : Source} {others : List Source} {fields : List Member}
    (ha : ArrayText choices (first :: others)) (ho : ObjectText first fields) (content : String) :
    let choice := Json.object (completeChoice content (Table.ofList fields))
    ArrayText (Json.array (choice :: others)) (choice :: others) := by
  have hc := spelled_completeChoice (Table.forall_mem_ofList ho.valueText) content
  refine Json.arrayText_array (List.forall_mem_cons.2 ⟨Json.valueText_object hc, fun v hv => ?_⟩)
  exact ha.valueText v (List.mem_cons_of_mem _ hv)

theorem keys_placeChoices (content : String) (chunk : Chunk) :
    (placeChoices content chunk).keys = chunk.keys := by
  unfold placeChoices
  split
  next => rfl
  next choices hc =>
    split
    next => rw [Table.keys_put, if_pos (Table.lookup_isSome_iff.1 (by simp [hc]))]
    next => rfl

theorem lookup_placeChoices_ne {key : String} (hk : key ≠ "choices") (content : String)
    (chunk : Chunk) : (placeChoices content chunk).lookup key = chunk.lookup key := by
  unfold placeChoices
  split
  next => rfl
  next =>
    split
    next => rw [Table.lookup_put_ne hk]
    next => rfl

theorem lookup_placeChoices (content : String) {chunk : Chunk} {choices : Source}
    (hc : chunk.lookup "choices" = some choices) :
    (placeChoices content chunk).lookup "choices" =
      some ((completeChoices? content choices).getD choices) := by
  unfold placeChoices
  rw [hc]
  cases h : completeChoices? content choices with
  | none => simpa [h] using hc
  | some completed => simp [h, Table.lookup_put_self]

theorem lookup_complete_choices (content : String) {written : List Member} {choices : Source}
    (hc : Table.lastValue "choices" written = some choices) :
    (complete content (Table.ofList written)).lookup "choices" =
      some ((completeChoices? content choices).getD choices) := by
  rw [complete, Table.lookup_put_ne (by decide)]
  exact lookup_placeChoices content (by rw [Table.lookup_ofList, hc])

theorem lookup_complete_none (content : String) {chunk : Chunk}
    (h : chunk.lookup "choices" = none) : (complete content chunk).lookup "choices" = none := by
  rw [complete, Table.lookup_put_ne (by decide), placeChoices, h]
  exact h

theorem spelled_complete {chunk : Chunk} (hc : Spelled chunk) (content : String) :
    Spelled (complete content chunk) := by
  refine forall_mem_complete hc (Json.valueText_quote _) fun choices completed _ h => ?_
  obtain ⟨first, others, fields, ha, ho, rfl⟩ := completeChoices?_eq_some.1 h
  exact Json.valueText_array (arrayText_completed ha ho content).valueText

def BearsChunk (body : String) : Prop :=
  ∃ u payload cr v members, lines body.toList = u ++ dataLine payload cr :: v ∧
    (∀ l ∈ u, ¬IsEnd l) ∧ Closed payload cr ∧ ObjectText payload members

/-- The body's last chunk before the end of the stream, as it is written. -/
def LastChunk (body : String) (written : List Member) : Prop :=
  ∃ payload after, Bears (lines body.toList) payload after ∧ ObjectText payload written ∧
    ∀ later rest, Bears after later rest → ∀ members, ¬ObjectText later members

theorem not_objectText_doneMarker (members : List Member) : ¬ObjectText doneMarker members := by
  intro h
  have hn : Json.members? doneMarker = none := by decide +kernel
  rw [Json.members?_eq_some.2 h] at hn
  cases hn

/-- There is a chunk exactly when the stream carries one. -/
theorem bearsChunk_iff {body : String} :
    BearsChunk body ↔ ∃ payload ∈ payloads body.toList, ∃ members, ObjectText payload members := by
  rw [payloads_eq]
  constructor
  · rintro ⟨u, payload, cr, v, members, hl, hu, hc, ho⟩
    have hne : payload ≠ doneMarker := by
      rintro rfl
      exact not_objectText_doneMarker members ho
    exact ⟨payload, mem_carried_iff.2 ⟨hne, v, u, cr, hl, hu, hc⟩, members, ho⟩
  · rintro ⟨payload, hm, members, ho⟩
    obtain ⟨-, v, u, cr, hl, hu, hc⟩ := mem_carried_iff.1 hm
    exact ⟨u, payload, cr, v, members, hl, hu, hc, ho⟩

theorem lastChunk_iff {body : String} {written : List Member} : LastChunk body written ↔
    ∃ before payload after, payloads body.toList = before ++ payload :: after ∧
      ObjectText payload written ∧ ∀ later ∈ after, ∀ members, ¬ObjectText later members := by
  have h := @exists_last_borne_iff (lines body.toList) (ObjectText · written)
    (fun later => ∃ members, ObjectText later members) (not_objectText_doneMarker written)
    fun h => h.elim not_objectText_doneMarker
  simp only [not_exists] at h
  exact h

theorem chunk?_eq_none {payload : List Char} (h : ∀ members, ¬ObjectText payload members) :
    chunk? payload = none := by
  refine Option.eq_none_iff_forall_ne_some.2 fun chunk hc => ?_
  obtain ⟨members, hm, -⟩ := tableOf?_eq_some.1 hc
  exact h members hm

theorem chunks_eq (s : List Char) : (arrivals s).filterMap id = (payloads s).filterMap chunk? :=
  List.filterMap_map

/-- Every chunk is read from a payload. -/
theorem exists_written {s : List Char} {chunk : Chunk} (h : chunk ∈ (arrivals s).filterMap id) :
    ∃ payload ∈ payloads s, ∃ written, ObjectText payload written ∧
      Table.ofList written = chunk := by
  rw [chunks_eq] at h
  obtain ⟨payload, hp, hc⟩ := List.mem_filterMap.1 h
  exact ⟨payload, hp, tableOf?_eq_some.1 hc⟩

theorem BearsChunk.exists_last {body : String} (h : BearsChunk body) :
    ∃ chunk, ((arrivals body.toList).filterMap id).getLast? = some chunk := by
  obtain ⟨payload, hp, members, ho⟩ := bearsChunk_iff.1 h
  have hc : Table.ofList members ∈ (payloads body.toList).filterMap chunk? :=
    List.mem_filterMap.2 ⟨payload, hp, tableOf?_eq_some.2 ⟨members, ho, rfl⟩⟩
  rw [chunks_eq]
  exact ⟨_, List.getLast?_eq_some_getLast (List.ne_nil_of_mem hc)⟩

theorem getLast?_chunks {body : String} {written : List Member} (h : LastChunk body written) :
    ((arrivals body.toList).filterMap id).getLast? = some (Table.ofList written) := by
  obtain ⟨before, payload, after, hp, ho, ha⟩ := lastChunk_iff.1 h
  have hsome : chunk? payload = some (Table.ofList written) := tableOf?_eq_some.2 ⟨_, ho, rfl⟩
  have hnone : after.filterMap chunk? = [] :=
    List.filterMap_eq_nil_iff.2 fun later hl => chunk?_eq_none (ha later hl)
  rw [chunks_eq, hp, List.filterMap_append, List.filterMap_cons_some hsome, hnone]
  exact List.getLast?_concat

/-- A body with no data line comes through as it is. -/
theorem reconstruct_of_other {body : String}
    (h : ∀ line ∈ lines body.toList, ¬dataMarker <+: line) :
    reconstruct body = ⟨body, .passthrough, 0⟩ := by
  simp [reconstruct, arrivals, payloads_of_other h]

theorem reconstruct_eq {body : String} {chunk : Chunk}
    (h : ((arrivals body.toList).filterMap id).getLast? = some chunk) :
    (reconstruct body).text = String.ofList
      (Json.object (complete (content ((arrivals body.toList).filterMap id)) chunk)) := by
  simp only [reconstruct, h]

/-- What the members of a completion keep of those of its template, which may repeat keys. -/
structure Keeps (written members : List Member) : Prop where
  keys : members.map Prod.fst = (written.map Prod.fst).eraseDups ++
    (if "object" ∈ written.map Prod.fst then [] else ["object"])
  object : Table.lookup "object" members = some (Json.quote "chat.completion")
  others {key : String} : key ≠ "object" → key ≠ "choices" →
    Table.lookup key members = Table.lastValue key written
  rewritten {choices first : Source} {others : List Source} {fields : List Member} :
    Table.lastValue "choices" written = some choices → ArrayText choices (first :: others) →
    ObjectText first fields → ∃ first', ValueText first' ∧
      Table.lookup "choices" members = some (Json.array (first' :: others))
  untouched {choices : Source} : Table.lastValue "choices" written = some choices →
    (¬∃ first others fields, ArrayText choices (first :: others) ∧ ObjectText first fields) →
    Table.lookup "choices" members = some choices

theorem keeps_complete {written : List Member} (content : String) :
    Keeps written (complete content (Table.ofList written)) where
  keys := by
    change Table.keys _ = _
    rw [complete, Table.keys_put, keys_placeChoices, Table.keys_ofList]
    simp only [List.mem_eraseDups]
    split_ifs <;> simp
  object := Table.lookup_put_self _ _ _
  others ho hc := by
    rw [complete, Table.lookup_put_ne ho, lookup_placeChoices_ne hc, Table.lookup_ofList]
  rewritten {_ _ _ fields} hc ha ho := by
    refine ⟨Json.object (completeChoice content (Table.ofList fields)), ?_, ?_⟩
    · exact (arrayText_completed ha ho content).valueText _ List.mem_cons_self
    · rw [lookup_complete_choices content hc, completeChoices?_of_first ha ho, Option.getD_some]
  untouched {choices} hc hno := by
    have hn : completeChoices? content choices = none := by
      refine Option.eq_none_iff_forall_ne_some.2 fun completed h => hno ?_
      obtain ⟨first, others, fields, ha, ho, -⟩ := completeChoices?_eq_some.1 h
      exact ⟨first, others, fields, ha, ho⟩
    rw [lookup_complete_choices content hc, hn, Option.getD_none]

/-- The completion is a compact object that keeps the last chunk but for the name of the object and
the first of the choices. -/
theorem template_kept {body : String} {written : List Member} (h : LastChunk body written) :
    ∃ members, (reconstruct body).text = String.ofList (Json.object members) ∧
      ObjectText (reconstruct body).text.toList members ∧ Keeps written members := by
  have htext := reconstruct_eq (getLast?_chunks h)
  obtain ⟨payload, after, -, ho, -⟩ := h
  refine ⟨_, htext, ?_, keeps_complete _⟩
  rw [htext, String.toList_ofList]
  exact Json.objectText_object (spelled_complete (Table.forall_mem_ofList ho.valueText) _)

def spelledStream : String :=
  "data: \x7b\"id\":0\x7d\n\n" ++
    "data: \x7b \"id\": 1.50e+1 ,\"choices\":[\x7b\x7d, 2 ],\"id\":1E2\x7d\r\n"

def spelledMembers : List Member :=
  [("id", "1.50e+1".toList), ("choices", "[\x7b\x7d, 2 ]".toList), ("id", "1E2".toList)]

theorem lastChunk_spelledStream : LastChunk spelledStream spelledMembers := by
  have hp : payloads spelledStream.toList = ["\x7b\"id\":0\x7d".toList] ++
      "\x7b \"id\": 1.50e+1 ,\"choices\":[\x7b\x7d, 2 ],\"id\":1E2\x7d".toList :: [] := by
    decide +kernel
  exact lastChunk_iff.2 ⟨_, _, _, hp, Json.members?_eq_some.1 (by decide +kernel), by simp⟩

theorem template_kept_spelled : LastChunk spelledStream spelledMembers ∧
    ∃ members, (reconstruct spelledStream).text = String.ofList (Json.object members) ∧
      ObjectText (reconstruct spelledStream).text.toList members ∧ Keeps spelledMembers members :=
  ⟨lastChunk_spelledStream, template_kept lastChunk_spelledStream⟩

end InferenceRecorder.Stream
