import InferenceRecorder.Proofs.Json.Replacement
import InferenceRecorder.Proofs.Stream.RoundTrip

/-!
The text that one chunk adds, where a value beside it is replaced by another one. The text stands
where it stood, but it is read with all of the choices around it: it is added exactly if these are
legible, so the chunk adds what it added exactly if the new value is legible with the brackets that
are left to it, `fragment_kept_iff`.
-/
namespace InferenceRecorder.Stream
open Json (Source Member HasMember HasFirst QuotedText ArrayText ObjectText Legible StandsAt
  ReplacesBeside depthLimit spellingKey)

variable {body body' : String} {before after : List (List Char)}
  {payload payload' choices choices' content : List Char} {text : String}

def contentPath : List Json.Step := [.first, .key "delta", .key "content"]

def added? (payload : List Char) : Option String := (chunk? payload).bind fragment?

def accumulated (body : String) : String := Stream.content ((arrivals body.toList).filterMap id)

def textAround (before after : List (List Char)) (part : Option String) : String :=
  String.join (before.filterMap added?) ++ part.getD "" ++ String.join (after.filterMap added?)

theorem accumulated_of_payloads (h : payloads body.toList = before ++ payload :: after) :
    accumulated body = textAround before after (added? payload) := by
  have hall : accumulated body = String.join ((payloads body.toList).filterMap added?) := by
    rw [accumulated, chunks_eq, Stream.content, List.filterMap_filterMap]
    rfl
  rw [hall, h, List.filterMap_append]
  cases hp : added? payload with
  | none => simp [textAround, List.filterMap_cons_none hp]
  | some part => simp [textAround, List.filterMap_cons_some hp, String.append_assoc]

theorem carries_of_standsAt (hc : HasMember payload "choices" choices)
    (hl : Legible depthLimit choices) (hat : StandsAt content contentPath choices)
    (hq : QuotedText content text) : Carries payload text := by
  cases hat with
  | first hfirst hat =>
    cases hat with
    | key hdelta hat =>
      cases hat with
      | key hcontent hat =>
        cases hat
        exact ⟨_, _, _, _, hc, hl, hfirst, hdelta, hcontent, hq⟩

/-- The text at the content of the first choice is added exactly if the choices are legible. -/
theorem added?_eq_some_iff (hc : HasMember payload "choices" choices)
    (hat : StandsAt content contentPath choices) (hq : QuotedText content text) {part : String} :
    added? payload = some part ↔ part = text ∧ Legible depthLimit choices := by
  by_cases hl : Legible depthLimit choices
  · obtain ⟨chunk, hchunk, hf⟩ := reads_iff.1 (carries_of_standsAt hc hl hat hq).reads
    have hadded : added? payload = some text := by rw [added?, hchunk, Option.bind_some, hf]
    rw [hadded, Option.some_inj]
    exact ⟨fun h => ⟨h.symm, hl⟩, fun h => h.1.symm⟩
  · refine iff_of_false (fun h => ?_) fun h => hl h.2
    obtain ⟨members, ho, hm⟩ := hc
    obtain ⟨chunk, hchunk, hf⟩ := Option.bind_eq_some_iff.1 h
    obtain ⟨_, ho', rfl⟩ := tableOf?_eq_some.1 hchunk
    cases ho.unique ho'
    rw [Json.legible_iff, Option.not_isSome_iff_eq_none] at hl
    simp [fragment?, Table.lookup_ofList, hm, hl] at hf

/-- Two streams that differ in one value beside the text of one chunk: the text stands in both of
them, each adds it exactly if its choices are legible, and where those of the first one are, the
second one adds the same exactly if the new value is legible with the brackets that are left to
it. -/
theorem fragment_kept_iff {old new : Source} {place : List (Option String)}
    (hb : payloads body.toList = before ++ payload :: after)
    (hb' : payloads body'.toList = before ++ payload' :: after)
    (hc : HasMember payload "choices" choices) (hc' : HasMember payload' "choices" choices')
    (hat : StandsAt content contentPath choices) (hq : QuotedText content text)
    (hr : ReplacesBeside old new contentPath place choices choices') :
    StandsAt content contentPath choices' ∧
    (∀ part, added? payload = some part ↔ part = text ∧ Legible depthLimit choices) ∧
    (∀ part, added? payload' = some part ↔ part = text ∧ Legible depthLimit choices') ∧
    accumulated body = textAround before after (added? payload) ∧
    accumulated body' = textAround before after (added? payload') ∧
    (Legible depthLimit choices → some spellingKey ∉ place →
      (added? payload' = added? payload ↔ Legible (depthLimit - place.length) new)) := by
  have hat' := hr.standsAt hat
  have hadded : ∀ part, added? payload = some part ↔ part = text ∧ Legible depthLimit choices :=
    fun _ => added?_eq_some_iff hc hat hq
  have hadded' : ∀ part, added? payload' = some part ↔ part = text ∧ Legible depthLimit choices' :=
    fun _ => added?_eq_some_iff hc' hat' hq
  refine ⟨hat', hadded, hadded', accumulated_of_payloads hb, accumulated_of_payloads hb', ?_⟩
  intro hl hp
  have hsome : added? payload = some text := (hadded text).2 ⟨rfl, hl⟩
  rw [hsome, hadded', ← hr.replaces.legible_iff hp hl]
  exact and_iff_right rfl

def tokenFields (token : Source) : List Member :=
  [("logprobs", Json.object [("token", token)]),
    ("delta", Json.object [("content", Json.quote "a")])]

def tokenChoices (token : Source) : Source := soleChoice (tokenFields token)

def tokenChunk (token : Source) : Source := soleChunk (tokenFields token)

def tokenStream (token : Source) : String := String.ofList (join [dataLine (tokenChunk token) true])

def tokenPlace : List (Option String) := [none, some "logprobs", some "token"]

section
variable {token token' : Source}

theorem valueText_tokenFields (hv : Json.ValueText token) :
    ∀ m ∈ tokenFields token, Json.ValueText m.2 := by
  have ht : Json.ValueText (Json.object [("token", token)]) :=
    Json.valueText_object (by simpa using hv)
  have hd : Json.ValueText (Json.object [("content", Json.quote "a")]) :=
    Json.valueText_object (by simp [Json.valueText_quote])
  simp [tokenFields, ht, hd]

theorem hasMember_tokenChunk (hv : Json.ValueText token) :
    HasMember (tokenChunk token) "choices" (tokenChoices token) :=
  ⟨_, objectText_soleChunk (valueText_tokenFields hv), rfl⟩

theorem arrayText_tokenChoices (hv : Json.ValueText token) :
    ArrayText (tokenChoices token) [Json.object (tokenFields token)] :=
  arrayText_soleChoice (valueText_tokenFields hv)

theorem standsAt_tokenChoices (hv : Json.ValueText token) :
    StandsAt (Json.quote "a") contentPath (tokenChoices token) := by
  have hdelta : ObjectText (Json.object [("content", Json.quote "a")])
      [("content", Json.quote "a")] := Json.objectText_object (by simp [Json.valueText_quote])
  have hfields := Json.objectText_object (valueText_tokenFields hv)
  exact .first ⟨_, arrayText_tokenChoices hv⟩
    (.key ⟨_, hfields, rfl⟩ (.key ⟨_, hdelta, rfl⟩ .here))

theorem replacesBeside_tokenChoices (hv : Json.ValueText token) (hv' : Json.ValueText token') :
    ReplacesBeside token token' contentPath tokenPlace (tokenChoices token)
      (tokenChoices token') := by
  have hlogprobs : Json.Replaces token token' [some "token"] (Json.object [("token", token)])
      (Json.object [("token", token')]) :=
    @Json.Replaces.member _ _ [] _ _ _ _ "token" [] [] (Json.objectText_object (by simpa using hv))
      (Json.objectText_object (by simpa using hv')) .here
  refine .first (arrayText_tokenChoices hv) (arrayText_tokenChoices hv') ?_
  exact @ReplacesBeside.member _ _ _ _ _ _ _ _ "delta" "logprobs" [] _
    (Json.objectText_object (valueText_tokenFields hv))
    (Json.objectText_object (valueText_tokenFields hv')) (.inl (by decide)) hlogprobs

end

def spelledToken : Source := "[\"\\ud83d\\uDE00\", -1.5E+300 ]".toList

theorem fragment_kept_iff_token :
    let old := Json.quote "b"
    payloads (tokenStream old).toList = [tokenChunk old] ∧
    payloads (tokenStream spelledToken).toList = [tokenChunk spelledToken] ∧
    HasMember (tokenChunk old) "choices" (tokenChoices old) ∧
    HasMember (tokenChunk spelledToken) "choices" (tokenChoices spelledToken) ∧
    StandsAt (Json.quote "a") contentPath (tokenChoices old) ∧ QuotedText (Json.quote "a") "a" ∧
    ReplacesBeside old spelledToken contentPath tokenPlace (tokenChoices old)
      (tokenChoices spelledToken) ∧
    added? (tokenChunk old) = some "a" ∧ added? (tokenChunk spelledToken) = some "a" := by
  intro old
  have hold : Json.ValueText old := Json.valueText_quote "b"
  have hnew : Json.ValueText spelledToken :=
    Json.valueText_of_value? (s := spelledToken) (by decide +kernel)
  have hb : payloads (tokenStream old).toList = [] ++ tokenChunk old :: [] := by
    rw [tokenStream, String.toList_ofList]
    decide +kernel
  have hb' : payloads (tokenStream spelledToken).toList = [] ++ tokenChunk spelledToken :: [] := by
    rw [tokenStream, String.toList_ofList]
    decide +kernel
  have hc := hasMember_tokenChunk hold
  have hc' := hasMember_tokenChunk hnew
  have hat := standsAt_tokenChoices hold
  have hq := Json.quotedText_quote "a"
  have hr := replacesBeside_tokenChoices hold hnew
  obtain ⟨-, hadded, -, -, -, hkept⟩ := fragment_kept_iff hb hb' hc hc' hat hq hr
  have hl : Legible depthLimit (tokenChoices old) := Json.legible_iff.2 (by decide +kernel)
  have hn : Legible (depthLimit - tokenPlace.length) spelledToken :=
    (Json.legible_iff_readValue? (Nat.le_refl _)).2 (by decide +kernel)
  have hsome : added? (tokenChunk old) = some "a" := (hadded "a").2 ⟨rfl, hl⟩
  have hsame : added? (tokenChunk spelledToken) = added? (tokenChunk old) :=
    (hkept hl (by decide)).2 hn
  exact ⟨hb, hb', hc, hc', hat, hq, hr, hsome, hsame.trans hsome⟩

def halfSurrogate : Source := "\"\\ud83d\"".toList

theorem fragment_lost_beside_halfSurrogate :
    let old := Json.quote "b"
    Json.ValueText halfSurrogate ∧
    payloads (tokenStream old).toList = [tokenChunk old] ∧
    payloads (tokenStream halfSurrogate).toList = [tokenChunk halfSurrogate] ∧
    HasMember (tokenChunk old) "choices" (tokenChoices old) ∧
    HasMember (tokenChunk halfSurrogate) "choices" (tokenChoices halfSurrogate) ∧
    StandsAt (Json.quote "a") contentPath (tokenChoices old) ∧
    ReplacesBeside old halfSurrogate contentPath tokenPlace (tokenChoices old)
      (tokenChoices halfSurrogate) ∧
    accumulated (tokenStream old) = "a" ∧ accumulated (tokenStream halfSurrogate) = "" := by
  intro old
  have hold : Json.ValueText old := Json.valueText_quote "b"
  have hhalf : Json.ValueText halfSurrogate :=
    Json.valueText_of_value? (s := halfSurrogate) (by decide +kernel)
  have hb : payloads (tokenStream old).toList = [tokenChunk old] := by
    rw [tokenStream, String.toList_ofList]
    decide +kernel
  have hb' : payloads (tokenStream halfSurrogate).toList = [tokenChunk halfSurrogate] := by
    rw [tokenStream, String.toList_ofList]
    decide +kernel
  refine ⟨hhalf, hb, hb', hasMember_tokenChunk hold, hasMember_tokenChunk hhalf,
    standsAt_tokenChoices hold, replacesBeside_tokenChoices hold hhalf, ?_, ?_⟩
  · rw [accumulated, chunks_eq, hb]
    decide +kernel
  · rw [accumulated, chunks_eq, hb']
    decide +kernel

end InferenceRecorder.Stream
