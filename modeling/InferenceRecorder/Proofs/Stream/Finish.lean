import InferenceRecorder.Proofs.Stream.FirstChoice
import InferenceRecorder.Proofs.Stream.RoundTrip

/-!
The finish reason of a completion. It is the one that the first choice of the last chunk gives, and
the default if that choice gives none, whatever the chunks before gave:
`finish_reason_of_last_chunk`.
-/
namespace InferenceRecorder.Stream
open Json (Source Member HasMember HasFirst ArrayText ObjectText)

def Gives (fields : List Member) (reason : Source) : Prop :=
  Table.lastValue "finish_reason" fields = some reason ∧ reason ≠ null

def Supplies (payload : List Char) (reason : Source) : Prop :=
  ∃ choices first fields, HasMember payload "choices" choices ∧ HasFirst choices first ∧
    ObjectText first fields ∧ Gives fields reason

/-- The last of the reasons that the chunks of a body give before its end. -/
def LastSupplied (body : String) (reason : Source) : Prop :=
  ∃ payload after, Bears (lines body.toList) payload after ∧ Supplies payload reason ∧
    ∀ later rest, Bears after later rest → ∀ other, ¬Supplies later other

def Finishes (completion : List Char) (reason : Source) : Prop :=
  ∃ choices first, HasMember completion "choices" choices ∧ HasFirst choices first ∧
    HasMember first "finish_reason" reason

theorem Gives.unique {fields : List Member} {reason reason' : Source} (h : Gives fields reason)
    (h' : Gives fields reason') : reason = reason' :=
  Option.some.inj (h.1.symm.trans h'.1)

theorem Supplies.unique {payload : List Char} {reason reason' : Source}
    (h : Supplies payload reason) (h' : Supplies payload reason') : reason = reason' := by
  obtain ⟨_, _, _, hc, hf, ho, hg⟩ := h
  obtain ⟨_, _, _, hc', hf', ho', hg'⟩ := h'
  cases hc.unique hc'
  cases hf.unique hf'
  cases ho.unique ho'
  exact hg.unique hg'

theorem lastSupplied_iff {body : String} {reason : Source} : LastSupplied body reason ↔
    ∃ before payload after, payloads body.toList = before ++ payload :: after ∧
      Supplies payload reason ∧ ∀ later ∈ after, ∀ other, ¬Supplies later other := by
  have hdone : ∀ other, ¬Supplies doneMarker other := by
    rintro other ⟨_, _, _, ⟨members, ho, -⟩, -⟩
    exact not_objectText_doneMarker members ho
  have h := @exists_last_borne_iff (lines body.toList) (Supplies · reason)
    (fun later => ∃ other, Supplies later other) (hdone reason) fun h => h.elim hdone
  simp only [not_exists] at h
  exact h

theorem LastSupplied.unique {body : String} {reason reason' : Source}
    (h : LastSupplied body reason) (h' : LastSupplied body reason') : reason = reason' := by
  obtain ⟨before, payload, after, hp, hs, hno⟩ := lastSupplied_iff.1 h
  obtain ⟨before', payload', after', hp', hs', hno'⟩ := lastSupplied_iff.1 h'
  -- of two places the one in front has the other one behind it
  rcases List.append_eq_append_iff.1 (hp.symm.trans hp') with ⟨w, -, hw⟩ | ⟨w, -, hw⟩
  · cases w with
    | nil =>
      cases hw
      exact hs.unique hs'
    | cons x w =>
      cases hw
      exact absurd hs' (hno _ (by simp) _)
  · cases w with
    | nil =>
      cases hw
      exact hs.unique hs'
    | cons x w =>
      cases hw
      exact absurd hs (hno' _ (by simp) _)

/-- A message leaves what stands under other keys. -/
theorem lookup_placeMessage_ne {key : String} (hk : ¬IsMessageKey key) (msg : Source)
    (choice : List Member) :
    Table.lookup key (placeMessage msg choice) = Table.lookup key choice := by
  have hmessage : "message" ≠ key := fun h => hk (.inr h.symm)
  induction choice with
  | nil => exact if_neg hmessage
  | cons m choice ih =>
    obtain ⟨other, value⟩ := m
    rw [placeMessage, Table.lookup_cons]
    by_cases hother : IsMessageKey other
    · have hne : other ≠ key := fun h => hk (h ▸ hother)
      rw [if_pos (by simpa [isMessageKey_eq] using hother), if_neg hne, Table.lookup_cons,
        if_neg hmessage, Table.lookup_filter fun _ => by simpa [isMessageKey_eq] using hk]
    · rw [if_neg (by simpa [isMessageKey_eq] using hother), Table.lookup_cons, ih]

theorem hasFinish_ofList (fields : List Member) :
    hasFinish (Table.ofList fields) = true ↔ ∃ reason, Gives fields reason := by
  rw [hasFinish, Table.lookup_ofList]
  cases h : Table.lastValue "finish_reason" fields with
  | none => simp [Gives, h]
  | some reason => simp [Gives, h, null]

/-- A completed choice has the reason that it gave, and the default if it gave none. -/
theorem lookup_completeChoice (content : String) (fields : List Member) (reason : Source) :
    Table.lookup "finish_reason" (completeChoice content (Table.ofList fields)) = some reason ↔
      Gives fields reason ∨ (∀ own, ¬Gives fields own) ∧ reason = Json.quote "stop" := by
  have hkey : ¬IsMessageKey "finish_reason" := by decide
  have hplaced := lookup_placeMessage_ne hkey (message content) (Table.ofList fields)
  have hfinish : hasFinish (placeMessage (message content) (Table.ofList fields)) =
      hasFinish (Table.ofList fields) := by rw [hasFinish, hplaced, hasFinish]
  rw [completeChoice, placeFinish, hfinish]
  by_cases hown : ∃ own, Gives fields own
  · obtain ⟨own, hgives⟩ := hown
    rw [if_pos ((hasFinish_ofList fields).2 ⟨own, hgives⟩), hplaced, Table.lookup_ofList, hgives.1]
    constructor
    · intro h
      cases h
      exact .inl hgives
    · rintro (h | ⟨hno, -⟩)
      · rw [hgives.unique h]
      · exact absurd hgives (hno own)
  · rw [if_neg (mt (hasFinish_ofList fields).1 hown), Table.lookup_put_self]
    have hno : ∀ own, ¬Gives fields own := fun own h => hown ⟨own, h⟩
    constructor
    · intro h
      cases h
      exact .inr ⟨hno, rfl⟩
    · rintro (h | ⟨-, rfl⟩)
      · exact absurd h (hno reason)
      · rfl

/-- The finish reason of a completion stands in the first of its choices. -/
theorem finishes_complete {written : List Member} (hs : Spelled (Table.ofList written))
    {choices first : Source} {others : List Source} {fields : List Member}
    (hc : Table.lastValue "choices" written = some choices)
    (ha : ArrayText choices (first :: others)) (ho : ObjectText first fields) (content : String)
    (reason : Source) :
    Finishes (Json.object (complete content (Table.ofList written))) reason ↔
      Table.lookup "finish_reason" (completeChoice content (Table.ofList fields)) =
        some reason := by
  obtain ⟨hmember, harray, hobject⟩ := completed_parts hs hc ha ho content
  have hnodup : (Table.keys (completeChoice content (Table.ofList fields))).Nodup :=
    (completed_keys (Table.nodup_keys_ofList fields) (placesMessage_placeMessage _ _)
      (placesFinish_placeFinish _)).1
  rw [← Table.lastValue_eq_lookup hnodup]
  constructor
  · rintro ⟨_, _, hm, hf, members, hmembers, hreason⟩
    cases hm.unique hmember
    cases hf.unique ⟨others, harray⟩
    cases hmembers.unique hobject
    exact hreason
  · intro h
    exact ⟨_, _, hmember, ⟨others, harray⟩, _, hobject, h⟩

/-- What the first choice of the last chunk gives is the last reason of the body. -/
theorem LastChunk.lastSupplied {body : String} {written : List Member}
    (hl : LastChunk body written) {choices first : Source} {others : List Source}
    {fields : List Member} (hc : Table.lastValue "choices" written = some choices)
    (ha : ArrayText choices (first :: others)) (ho : ObjectText first fields) {reason : Source}
    (hg : Gives fields reason) : LastSupplied body reason := by
  obtain ⟨payload, after, hb, hw, hno⟩ := hl
  refine ⟨payload, after, hb, ⟨_, _, _, ⟨_, hw, hc⟩, ⟨_, ha⟩, ho, hg⟩, ?_⟩
  rintro later rest hlater _ ⟨_, _, _, ⟨members, hm, -⟩, -⟩
  exact hno later rest hlater members hm

/-- The finish reason is what the first choice of the last chunk gives, else the default. The last
reason that was given before the end is reported exactly if that choice gives it or it is the
default. -/
theorem finish_reason_of_last_chunk {body : String} {written : List Member}
    (hl : LastChunk body written) {choices first : Source} {others : List Source}
    {fields : List Member} (hc : Table.lastValue "choices" written = some choices)
    (ha : ArrayText choices (first :: others)) (ho : ObjectText first fields) :
    (∀ reason, Finishes (reconstruct body).text.toList reason ↔
      Gives fields reason ∨ (∀ own, ¬Gives fields own) ∧ reason = Json.quote "stop") ∧
    ∀ given, LastSupplied body given → (Finishes (reconstruct body).text.toList given ↔
      Gives fields given ∨ given = Json.quote "stop") := by
  have hreason : ∀ reason, Finishes (reconstruct body).text.toList reason ↔
      Gives fields reason ∨ (∀ own, ¬Gives fields own) ∧ reason = Json.quote "stop" := by
    intro reason
    have hlast := getLast?_chunks hl
    obtain ⟨_, _, -, hw, -⟩ := hl
    have hs : Spelled (Table.ofList written) := Table.forall_mem_ofList hw.valueText
    rw [reconstruct_eq hlast, String.toList_ofList, finishes_complete hs hc ha ho]
    exact lookup_completeChoice _ fields reason
  refine ⟨hreason, fun given hgiven => ?_⟩
  rw [hreason]
  refine ⟨Or.imp_right And.right, ?_⟩
  rintro (hown | hdefault)
  · exact .inl hown
  · by_cases hown : ∃ own, Gives fields own
    · obtain ⟨own, hgives⟩ := hown
      cases hgiven.unique (hl.lastSupplied hc ha ho hgives)
      exact .inl hgives
    · exact .inr ⟨fun own h => hown ⟨own, h⟩, hdefault⟩

def lengthFields : List Member :=
  [("delta", Json.object [("content", Json.quote "x")]), ("finish_reason", Json.quote "length")]

def openFields : List Member := [("delta", Json.object []), ("finish_reason", null)]

theorem valueText_lengthFields : ∀ m ∈ lengthFields, Json.ValueText m.2 := by
  have hd : Json.ValueText (Json.object [("content", Json.quote "x")]) :=
    Json.valueText_object (by simp [Json.valueText_quote])
  simp [lengthFields, hd, Json.valueText_quote]

theorem valueText_openFields : ∀ m ∈ openFields, Json.ValueText m.2 := by
  have hd : Json.ValueText (Json.object []) := Json.valueText_object (by simp)
  have hn : Json.ValueText null := .word (by decide)
  simp [openFields, hd, hn]

def pairStream (fields fields' : List Member) : String :=
  String.ofList (join [dataLine (soleChunk fields) false, dataLine (soleChunk fields') true])

theorem finish_reason_of_last_chunk_length :
    LastChunk (pairStream openFields lengthFields) [("choices", soleChoice lengthFields)] ∧
    ArrayText (soleChoice lengthFields) [Json.object lengthFields] ∧
    ObjectText (Json.object lengthFields) lengthFields ∧
    LastSupplied (pairStream openFields lengthFields) (Json.quote "length") ∧
    Finishes (reconstruct (pairStream openFields lengthFields)).text.toList
      (Json.quote "length") := by
  have hp : payloads (pairStream openFields lengthFields).toList =
      [soleChunk openFields] ++ soleChunk lengthFields :: [] := by
    rw [pairStream, String.toList_ofList]
    decide +kernel
  have hw := objectText_soleChunk valueText_lengthFields
  have ha := arrayText_soleChoice valueText_lengthFields
  have ho := Json.objectText_object valueText_lengthFields
  have hl : LastChunk (pairStream openFields lengthFields)
      [("choices", soleChoice lengthFields)] := lastChunk_iff.2 ⟨_, _, _, hp, hw, by simp⟩
  have hg : Gives lengthFields (Json.quote "length") := ⟨rfl, by decide⟩
  have hgiven := hl.lastSupplied rfl ha ho hg
  exact ⟨hl, ha, ho, hgiven,
    ((finish_reason_of_last_chunk hl rfl ha ho).2 _ hgiven).2 (.inl hg)⟩

/-- A reason that the last chunk does not repeat is lost. -/
theorem finish_reason_of_earlier_chunk :
    LastChunk (pairStream lengthFields openFields) [("choices", soleChoice openFields)] ∧
    ArrayText (soleChoice openFields) [Json.object openFields] ∧
    ObjectText (Json.object openFields) openFields ∧
    LastSupplied (pairStream lengthFields openFields) (Json.quote "length") ∧
    Finishes (reconstruct (pairStream lengthFields openFields)).text.toList (Json.quote "stop") ∧
    ¬Finishes (reconstruct (pairStream lengthFields openFields)).text.toList
      (Json.quote "length") := by
  have hp : payloads (pairStream lengthFields openFields).toList =
      [soleChunk lengthFields, soleChunk openFields] := by
    rw [pairStream, String.toList_ofList]
    decide +kernel
  have hw := objectText_soleChunk valueText_openFields
  have ha := arrayText_soleChoice valueText_openFields
  have ho := Json.objectText_object valueText_openFields
  have hl : LastChunk (pairStream lengthFields openFields)
      [("choices", soleChoice openFields)] := lastChunk_iff.2 ⟨[_], _, [], hp, hw, by simp⟩
  have hno : ∀ own, ¬Gives openFields own := by
    rintro own ⟨hown, hne⟩
    cases hown
    exact hne rfl
  have hsupplies : Supplies (soleChunk lengthFields) (Json.quote "length") :=
    ⟨_, _, _, ⟨_, objectText_soleChunk valueText_lengthFields, rfl⟩,
      ⟨_, arrayText_soleChoice valueText_lengthFields⟩,
      Json.objectText_object valueText_lengthFields, rfl, by decide⟩
  have hsilent : ∀ later ∈ [soleChunk openFields], ∀ other, ¬Supplies later other := by
    intro later hlater other
    cases List.mem_singleton.1 hlater
    rintro ⟨_, _, _, ⟨_, hw', hc⟩, ⟨_, ha'⟩, ho', hg⟩
    cases hw'.unique hw
    cases hc
    cases ha'.unique ha
    cases ho'.unique ho
    exact hno other hg
  have hs : Spelled (Table.ofList [("choices", soleChoice openFields)]) :=
    Table.forall_mem_ofList hw.valueText
  have hfinishes : ∀ reason,
      Finishes (reconstruct (pairStream lengthFields openFields)).text.toList reason ↔
        reason = Json.quote "stop" := by
    intro reason
    rw [reconstruct_eq (getLast?_chunks hl), String.toList_ofList,
      finishes_complete hs rfl ha ho, lookup_completeChoice]
    simp [hno]
  exact ⟨hl, ha, ho, lastSupplied_iff.2 ⟨[], _, _, hp, hsupplies, hsilent⟩, (hfinishes _).2 rfl,
    mt (hfinishes _).1 (by decide)⟩

end InferenceRecorder.Stream
