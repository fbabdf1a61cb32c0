import InferenceRecorder.Proofs.Json.Reach
import InferenceRecorder.Proofs.Stream.Message

/-!
From fragments to the message. A stream carries the fragments of a text one chunk after the other,
with other lines and other chunks in between. The message of its completion has all of them in their
order. It has nothing else exactly if no text is read from the chunks in between, which are read
where they should not be: `fragments_reach_message`.
-/
namespace InferenceRecorder.Stream
open Json (Source Member HasMember HasFirst QuotedText ArrayText ObjectText Legible Reaches
  depthLimit)

def Carries (payload : List Char) (text : String) : Prop :=
  ∃ choices first delta content, HasMember payload "choices" choices ∧
    Legible depthLimit choices ∧ HasFirst choices first ∧ HasMember first "delta" delta ∧
    HasMember delta "content" content ∧ QuotedText content text

/-- The payload is a chunk, but no text stands at the content of the first choice. -/
def Silent (payload : List Char) : Prop :=
  (∃ members, ObjectText payload members) ∧ ∀ text, ¬Carries payload text

inductive Contributes (payload : List Char) : List String → Prop
  | stray : payload ≠ doneMarker → (∀ members, ¬ObjectText payload members) →
    Contributes payload []
  | silent : Silent payload → Contributes payload []
  | carries {text : String} : Carries payload text → Contributes payload [text]

/-- The text is read from the choices, be they an object with a member `0` or hidden in a text. -/
def Reads (payload : List Char) (text : String) : Prop :=
  ∃ choices, HasMember payload "choices" choices ∧ Legible depthLimit choices ∧
    Reaches text ["0", "delta", "content"] choices

inductive Yields (payload : List Char) : List String → Prop
  | nothing : payload ≠ doneMarker → (∀ text, ¬Reads payload text) → Yields payload []
  | text {text : String} : Reads payload text → Yields payload [text]

inductive Streams (Adds : List Char → List String → Prop) : List (List Char) → List String → Prop
  | nil : Streams Adds [] []
  | other {line : List Char} {ls : List (List Char)} {texts : List String} : '\n' ∉ line →
    ¬dataMarker <+: line → Streams Adds ls texts → Streams Adds (line :: ls) texts
  | data {payload : List Char} {cr : Bool} {more : List String} {ls : List (List Char)}
    {texts : List String} : '\n' ∉ payload → Closed payload cr → Adds payload more →
    Streams Adds ls texts → Streams Adds (dataLine payload cr :: ls) (more ++ texts)

def Ending (rest : List (List Char)) : Prop :=
  (∀ l ∈ rest, '\n' ∉ l) ∧ (rest = [] ∨ ∃ cr after, rest = dataLine doneMarker cr :: after)

variable {payload : List Char} {text : String} {ls rest : List (List Char)}
  {texts more : List String}

theorem Carries.reads (h : Carries payload text) : Reads payload text := by
  obtain ⟨choices, first, delta, content, hc, hl, hf, hd, hct, hq⟩ := h
  exact ⟨choices, hc, hl, .first hf (.member hd (.member hct (.here (.of_self hq))))⟩

theorem plainPath_fragmentPath : Json.PlainPath fragmentPath := by
  unfold Json.PlainPath fragmentPath
  decide

theorem fragment?_eq_some_iff {written : List Member} :
    fragment? (Table.ofList written) = some text ↔ ∃ choices value,
      Table.lastValue "choices" written = some choices ∧ Json.read? choices = some value ∧
      value.at? fragmentPath = some (.string text) := by
  unfold fragment?
  rw [Table.lookup_ofList]
  constructor
  · intro h
    split at h
    next => cases h
    next choices hc =>
      split at h
      next => cases h
      next value hv =>
        obtain ⟨content, hat, htext⟩ := Option.bind_eq_some_iff.1 h
        cases content <;> cases htext
        exact ⟨choices, value, hc, hv, hat⟩
  · rintro ⟨choices, value, hc, hv, hat⟩
    simp [hc, hv, hat, Json.Value.text?]

/-- A text is read from a payload exactly if its chunk adds it. -/
theorem reads_iff :
    Reads payload text ↔ ∃ chunk, chunk? payload = some chunk ∧ fragment? chunk = some text := by
  constructor
  · rintro ⟨choices, ⟨members, ho, hc⟩, hl, hreach⟩
    obtain ⟨value, hv⟩ := Option.isSome_iff_exists.1 (Json.legible_iff.1 hl)
    exact ⟨_, tableOf?_eq_some.2 ⟨members, ho, rfl⟩, fragment?_eq_some_iff.2
      ⟨choices, value, hc, hv, (Json.at?_eq_string_iff hv plainPath_fragmentPath).2 hreach⟩⟩
  · rintro ⟨chunk, hchunk, hf⟩
    obtain ⟨members, ho, rfl⟩ := tableOf?_eq_some.1 hchunk
    obtain ⟨choices, value, hc, hv, hat⟩ := fragment?_eq_some_iff.1 hf
    exact ⟨choices, ⟨members, ho, hc⟩, Json.legible_iff.2 (Option.isSome_of_eq_some hv),
      (Json.at?_eq_string_iff hv plainPath_fragmentPath).1 hat⟩

theorem Reads.unique {other : String} (h : Reads payload text) (h' : Reads payload other) :
    text = other := by
  obtain ⟨chunk, hchunk, hf⟩ := reads_iff.1 h
  obtain ⟨chunk', hchunk', hf'⟩ := reads_iff.1 h'
  cases hchunk.symm.trans hchunk'
  exact Option.some.inj (hf.symm.trans hf')

theorem chunk?_doneMarker : chunk? doneMarker = none := chunk?_eq_none not_objectText_doneMarker

theorem Yields.fragments (h : Yields payload more) :
    payload ≠ doneMarker ∧ (chunk? payload).toList.filterMap fragment? = more := by
  cases h with
  | nothing hd hno =>
    refine ⟨hd, List.filterMap_eq_nil_iff.2 fun chunk hc => ?_⟩
    exact Option.eq_none_iff_forall_ne_some.2 fun text hf =>
      hno text (reads_iff.2 ⟨chunk, Option.mem_toList.1 hc, hf⟩)
  | text hr =>
    obtain ⟨chunk, hc, hf⟩ := reads_iff.1 hr
    refine ⟨?_, by simp [hc, hf]⟩
    rintro rfl
    simp [chunk?_doneMarker] at hc

theorem Streams.not_mem {Adds : List Char → List String → Prop} (h : Streams Adds ls texts) :
    ∀ l ∈ ls, '\n' ∉ l := by
  induction h with
  | nil => simp
  | other hl _ _ ih => exact List.forall_mem_cons.2 ⟨hl, ih⟩
  | @data payload cr _ _ _ hp _ _ _ ih =>
    refine List.forall_mem_cons.2 ⟨?_, ih⟩
    cases cr <;> simp [dataLine, dataMarker, hp]

/-- None of the payloads ends the stream, and what they add together are the texts. -/
theorem Streams.fragments (h : Streams Yields ls texts) :
    (∀ payload ∈ ls.filterMap payload?, payload ≠ doneMarker) ∧
      ((ls.filterMap payload?).filterMap chunk?).filterMap fragment? = texts := by
  -- line by line: only a line with a payload adds anything, and its payload is not the marker
  induction h with
  | nil => simp
  | other _ hl _ ih =>
    rw [List.filterMap_cons_none (payload?_eq_none hl)]
    exact ih
  | @data payload _ more _ _ _ hp hc _ ih =>
    obtain ⟨hne, hf⟩ := hc.fragments
    rw [List.filterMap_cons_some (payload?_dataLine hp)]
    refine ⟨List.forall_mem_cons.2 ⟨hne, ih.1⟩, ?_⟩
    cases hk : chunk? payload with
    | none =>
      rw [hk] at hf
      rw [List.filterMap_cons_none hk, ih.2, ← hf]
      rfl
    | some chunk =>
      rw [hk] at hf
      rw [List.filterMap_cons_some hk, ← List.singleton_append, List.filterMap_append, ih.2, ← hf]
      rfl

/-- What stands before the end of the stream is all that the stream carries. -/
theorem Streams.payloads (h : Streams Yields ls texts) (hr : Ending rest) :
    payloads (join (ls ++ rest)) = ls.filterMap payload? := by
  obtain ⟨hd, -⟩ := h.fragments
  obtain ⟨hrl, hrest⟩ := hr
  have hno : ∀ l ∈ ls, ¬IsEnd l := fun l hl he =>
    hd doneMarker (List.mem_filterMap.2 ⟨l, hl, isEnd_iff.1 he⟩) rfl
  have hcarried : carried (ls ++ rest) = ls.filterMap payload? := by
    have hnil : carried rest = [] := by
      rcases hrest with rfl | ⟨cr, after, rfl⟩
      · rfl
      · exact carried_end ⟨cr, rfl⟩ [] after
    rw [carried_append hno, hnil, List.append_nil]
  by_cases hne : ls ++ rest = []
  · obtain ⟨rfl, rfl⟩ := List.append_eq_nil_iff.1 hne
    exact payloads_of_other (by simp [join, lines_of_not_mem, dataMarker])
  · have hlines := lines_join hne fun l hm => (List.mem_append.1 hm).elim (h.not_mem l) (hrl l)
    rw [Stream.payloads, hlines, ← carried, hcarried]

/-- The message of the completion is what is read from the payloads. -/
theorem Streams.hasMessage_iff (h : Streams Yields ls texts) (hr : Ending rest)
    {written : List Member} (hl : LastChunk (String.ofList (join (ls ++ rest))) written)
    {choices first : Source} {fields : List Member}
    (hc : Table.lastValue "choices" written = some choices) (hf : HasFirst choices first)
    (ho : ObjectText first fields) (role content : String) :
    HasMessage (reconstruct (String.ofList (join (ls ++ rest)))).text.toList role content ↔
      role = "assistant" ∧ content = String.join texts := by
  have htext := reconstruct_eq (getLast?_chunks hl)
  rw [String.toList_ofList, chunks_eq, h.payloads hr, Stream.content, h.fragments.2] at htext
  obtain ⟨_, _, -, hw, -⟩ := hl
  obtain ⟨others, ha⟩ := hf
  have hmessage := hasMessage_complete (Table.forall_mem_ofList hw.valueText) hc ha ho
    (String.join texts)
  rw [htext, String.toList_ofList]
  constructor
  · intro hm
    exact hm.unique hmessage
  · rintro ⟨rfl, rfl⟩
    exact hmessage

section
variable {xs ys : List String}

theorem length_join_le (h : xs.Sublist ys) :
    (String.join xs).length ≤ (String.join ys).length := by
  induction h with
  | slnil => exact Nat.le_refl _
  | cons x _ ih =>
    rw [String.join_cons, String.length_append]
    omega
  | cons_cons x _ ih =>
    rw [String.join_cons, String.join_cons, String.length_append, String.length_append]
    omega

/-- More texts put together are the same only if those that came in are empty. -/
theorem join_eq_of_length (h : xs.Sublist ys)
    (hl : (String.join ys).length = (String.join xs).length) :
    String.join ys = String.join xs := by
  induction h with
  | slnil => rfl
  | @cons xs ys x h ih =>
    have hle := length_join_le h
    rw [String.join_cons, String.length_append] at hl
    have hx : x = "" := String.length_eq_zero_iff.1 (by omega)
    rw [String.join_cons, hx, String.empty_append]
    exact ih (by omega)
  | cons_cons x _ ih =>
    rw [String.join_cons, String.join_cons, String.length_append, String.length_append] at hl
    rw [String.join_cons, String.join_cons, ih (by omega)]

end

/-- What is read from a payload has what the payload contributes, and no more exactly if nothing is
read from a silent chunk. -/
theorem Contributes.exists_yields (h : Contributes payload more) :
    ∃ given, Yields payload given ∧ more.Sublist given ∧
      (String.join given = String.join more ↔
        (Silent payload → ∀ text, Reads payload text → text = "")) := by
  cases h with
  | stray hd hno =>
    have hreads : ∀ text, ¬Reads payload text := by
      rintro text ⟨_, ⟨members, ho, -⟩, -⟩
      exact hno members ho
    exact ⟨[], .nothing hd hreads, .slnil, iff_of_true rfl fun _ text hr => absurd hr (hreads text)⟩
  | silent hs =>
    by_cases hread : ∃ text, Reads payload text
    · obtain ⟨text, hr⟩ := hread
      refine ⟨[text], .text hr, List.nil_sublist _, ?_⟩
      constructor
      · intro he _ other hother
        rw [hother.unique hr]
        simpa using he
      · intro he
        simpa using he hs text hr
    · rw [not_exists] at hread
      have hd : payload ≠ doneMarker := by
        rintro rfl
        exact hs.1.elim not_objectText_doneMarker
      exact ⟨[], .nothing hd hread, .slnil,
        iff_of_true rfl fun _ text hr => absurd hr (hread text)⟩
  | carries hc => exact ⟨_, .text hc.reads, .refl _, iff_of_true rfl fun hs => absurd hc (hs.2 _)⟩

theorem Streams.exists_yields (h : Streams Contributes ls texts) :
    ∃ given, Streams Yields ls given ∧ texts.Sublist given ∧
      (String.join given = String.join texts ↔ ∀ payload ∈ ls.filterMap payload?,
        Silent payload → ∀ text, Reads payload text → text = "") := by
  induction h with
  | nil => exact ⟨[], .nil, .slnil, by simp⟩
  | other hn hl _ ih =>
    obtain ⟨given, hg, hsub, hiff⟩ := ih
    rw [List.filterMap_cons_none (payload?_eq_none hl)]
    exact ⟨given, .other hn hl hg, hsub, hiff⟩
  | data hn hp hc _ ih =>
    obtain ⟨given, hg, hsub, hiff⟩ := ih
    obtain ⟨own, hown, hsub', hiff'⟩ := hc.exists_yields
    refine ⟨own ++ given, .data hn hp hown hg, hsub'.append hsub, ?_⟩
    rw [List.filterMap_cons_some (payload?_dataLine hp), List.forall_mem_cons, ← hiff, ← hiff',
      String.join_append, String.join_append]
    constructor
    · intro he
      -- neither part is shorter than what it has to hold, so both are as long
      have hlength := congrArg String.length he
      have hle := length_join_le hsub
      have hle' := length_join_le hsub'
      rw [String.length_append, String.length_append] at hlength
      exact ⟨join_eq_of_length hsub' (by omega), join_eq_of_length hsub (by omega)⟩
    · rintro ⟨h, h'⟩
      rw [h, h']

theorem Bears.mem_payloads {after : List (List Char)} (h : Bears ls payload after) :
    payload ∈ ls.filterMap payload? := by
  obtain ⟨u, cr, rfl, -, hc⟩ := h
  exact List.mem_filterMap.2 ⟨dataLine payload cr, by simp, payload?_dataLine hc⟩

/-- Before the end of a stream every payload stands in its lines. -/
theorem Streams.mem_payloads_iff (h : Streams Yields ls texts) :
    payload ∈ ls.filterMap payload? ↔ ∃ after, Bears ls payload after := by
  obtain ⟨hd, -⟩ := h.fragments
  have hcarried : carried ls = ls.filterMap payload? :=
    List.takeWhile_eq_self_iff.2 fun payload hp => bne_iff_ne.2 (hd payload hp)
  rw [← hcarried]
  exact ⟨fun hp => (mem_carried_iff.1 hp).2, fun ⟨_, hb⟩ => hcarried ▸ hb.mem_payloads⟩

/-- However the fragments are spelled and whatever stands between their chunks, the message of the
completion is the assistant's, and its content is put together of the texts that are read, among
which are the fragments in their order. It is the fragments alone exactly if no text is read from a
chunk that has none at the content of its first choice. -/
theorem fragments_reach_message (h : Streams Contributes ls texts) (hr : Ending rest)
    {written : List Member} (hl : LastChunk (String.ofList (join (ls ++ rest))) written)
    {choices first : Source} {fields : List Member}
    (hc : Table.lastValue "choices" written = some choices) (hf : HasFirst choices first)
    (ho : ObjectText first fields) :
    ∃ given, Streams Yields ls given ∧ texts.Sublist given ∧
      (∀ role content,
        HasMessage (reconstruct (String.ofList (join (ls ++ rest)))).text.toList role content ↔
          role = "assistant" ∧ content = String.join given) ∧
      (String.join given = String.join texts ↔ ∀ payload after, Bears ls payload after →
        Silent payload → ∀ text, Reads payload text → text = "") := by
  obtain ⟨given, hgiven, hsub, hiff⟩ := h.exists_yields
  refine ⟨given, hgiven, hsub, hgiven.hasMessage_iff hr hl hc hf ho, ?_⟩
  simp only [hiff, hgiven.mem_payloads_iff, forall_exists_index]

def soleChoice (fields : List Member) : Source := Json.array [Json.object fields]

def soleChunk (fields : List Member) : Source := Json.object [("choices", soleChoice fields)]

section
variable {fields : List Member} (h : ∀ m ∈ fields, Json.ValueText m.2)
include h

theorem arrayText_soleChoice : ArrayText (soleChoice fields) [Json.object fields] :=
  Json.arrayText_array (by simpa using Json.valueText_object h)

theorem objectText_soleChunk : ObjectText (soleChunk fields) [("choices", soleChoice fields)] := by
  have hc : Json.ValueText (soleChoice fields) :=
    Json.valueText_array (by simpa using Json.valueText_object h)
  exact Json.objectText_object (by simpa using hc)

end

def deltaFields (content : Source) : List Member := [("delta", Json.object [("content", content)])]

def deltaChoices (content : Source) : Source :=
  Json.array [Json.object [("delta", Json.object [("content", content)])]]

def deltaChunk (content : Source) : Source := Json.object [("choices", deltaChoices content)]

section
variable {content : Source} (h : Json.ValueText content)
include h

theorem objectText_content :
    ObjectText (Json.object [("content", content)]) [("content", content)] :=
  Json.objectText_object (by simpa using h)

theorem valueText_deltaFields : ∀ m ∈ deltaFields content, Json.ValueText m.2 := by
  have hc : ∀ m ∈ [("content", content)], Json.ValueText m.2 := by simpa using h
  simpa [deltaFields] using Json.valueText_object hc

theorem objectText_deltaFields :
    ObjectText (Json.object (deltaFields content)) (deltaFields content) :=
  Json.objectText_object (valueText_deltaFields h)

theorem arrayText_deltaChoices :
    ArrayText (deltaChoices content) [Json.object (deltaFields content)] :=
  arrayText_soleChoice (valueText_deltaFields h)

theorem objectText_deltaChunk :
    ObjectText (deltaChunk content) [("choices", deltaChoices content)] :=
  objectText_soleChunk (valueText_deltaFields h)

end

section
variable {content : Source} {cr : Bool}

theorem legible_deltaFields (h : QuotedText content text) (d : Nat) :
    Legible (d + 2) (Json.object (deltaFields content)) := by
  have hl : Legible (d + 1) (Json.object [("content", content)]) :=
    .object (objectText_content h.valueText) rfl (by simpa using Legible.text (.of_self h))
  exact .object (objectText_deltaFields h.valueText) rfl (by simpa [deltaFields] using hl)

/-- A chunk that says no more than a string carries what the string spells. -/
theorem carries_deltaChunk (h : QuotedText content text) : Carries (deltaChunk content) text := by
  have hl : Legible depthLimit (deltaChoices content) :=
    .array (arrayText_deltaChoices h.valueText) (by simpa using legible_deltaFields h 124)
  exact ⟨_, _, _, _, ⟨_, objectText_deltaChunk h.valueText, rfl⟩, hl,
    ⟨[], arrayText_deltaChoices h.valueText⟩, ⟨_, objectText_deltaFields h.valueText, rfl⟩,
    ⟨_, objectText_content h.valueText, rfl⟩, h⟩

theorem not_mem_deltaFields (h : '\n' ∉ content) : '\n' ∉ Json.object (deltaFields content) := by
  have hc : Json.isControl '\n' = true := rfl
  exact Json.not_mem_object hc
    (by simpa [deltaFields] using Json.not_mem_object hc (by simpa using h))

theorem not_mem_deltaChunk (h : '\n' ∉ content) : '\n' ∉ deltaChunk content := by
  have hc : Json.isControl '\n' = true := rfl
  have hdelta := not_mem_deltaFields h
  have hchoices : '\n' ∉ deltaChoices content :=
    Json.not_mem_array hc (by simpa [deltaFields] using hdelta)
  exact Json.not_mem_object hc (by simpa using hchoices)

theorem closed_object (members : List Member) : Closed (Json.object members) cr := by
  intro _
  rw [Json.object, ← List.cons_append, List.getLast?_concat]
  decide

theorem Streams.delta {Adds : List Char → List String → Prop} (hn : '\n' ∉ content)
    (ha : Adds (deltaChunk content) more) (h : Streams Adds ls texts) :
    Streams Adds (dataLine (deltaChunk content) cr :: ls) (more ++ texts) :=
  .data (not_mem_deltaChunk hn) (closed_object _) ha h

theorem payload?_deltaChunk :
    payload? (dataLine (deltaChunk content) cr) = some (deltaChunk content) :=
  payload?_dataLine (closed_object _)

end

def pairContent : Source := "\"\\ud83d\\uDE00\"".toList

def feedContent : Source := "\"\\n!\"".toList

/-- A surrogate pair, a comment, a chunk without a text, a broken payload and a line feed. -/
def pairedLines : List (List Char) :=
  [dataLine (deltaChunk pairContent) true, [':'], dataLine (deltaChunk ['2']) false,
    dataLine [] false, dataLine (deltaChunk feedContent) false]

def afterEnd : List (List Char) := [dataLine doneMarker true, ['x']]

theorem quotedText_pairContent : QuotedText pairContent "😀" :=
  Json.unquote?_eq_some.1 (by decide)

theorem quotedText_feedContent : QuotedText feedContent "\n!" :=
  Json.unquote?_eq_some.1 (by decide)

theorem valueText_two : Json.ValueText ['2'] := by
  have hdigit : Json.IntegerText ['2'] := .digits rfl (by decide) nofun
  exact .number (.plain (s := []) hdigit ⟨[], [], rfl, .none, .none⟩)

theorem not_objectText_nil (members : List Member) : ¬ObjectText [] members := by
  intro h
  obtain ⟨u, t, w, hs, -, -, hb⟩ := h
  obtain ⟨t, rfl⟩ := hb.exists_cons
  simp at hs

theorem not_reads_number (text : String) : ¬Reads (deltaChunk ['2']) text := by
  intro h
  obtain ⟨chunk, hc, hf⟩ := reads_iff.1 h
  have hchunk : chunk? (deltaChunk ['2']) = some (Table.ofList [("choices", deltaChoices ['2'])]) :=
    tableOf?_eq_some.2 ⟨_, objectText_deltaChunk valueText_two, rfl⟩
  have hnone : fragment? (Table.ofList [("choices", deltaChoices ['2'])]) = none := by
    decide +kernel
  cases hchunk.symm.trans hc
  cases hnone.symm.trans hf

theorem streams_pairedLines : Streams Contributes pairedLines ["😀", "\n!"] := by
  have hnumber : Contributes (deltaChunk ['2']) [] :=
    .silent ⟨⟨_, objectText_deltaChunk valueText_two⟩,
      fun text hc => not_reads_number text hc.reads⟩
  have hbroken : Contributes [] [] := .stray (by decide) not_objectText_nil
  have hpair : '\n' ∉ pairContent := by decide
  have htwo : '\n' ∉ ['2'] := by decide
  have hfeed : '\n' ∉ feedContent := by decide
  have hlast : Contributes (deltaChunk feedContent) ["\n!"] :=
    .carries (carries_deltaChunk quotedText_feedContent)
  refine .delta hpair (Contributes.carries (carries_deltaChunk quotedText_pairContent)) ?_
  refine .other (by decide) (by decide) (.delta htwo hnumber ?_)
  exact .data (by decide) (by intro _; decide) hbroken (.delta hfeed hlast .nil)

theorem payloads_pairedLines : pairedLines.filterMap payload? =
    [deltaChunk pairContent, deltaChunk ['2'], [], deltaChunk feedContent] := by
  have hcomment : payload? [':'] = none := payload?_eq_none (by decide)
  have hbroken : payload? (dataLine [] false) = some [] := payload?_dataLine (by intro _; decide)
  simp [pairedLines, payload?_deltaChunk, hcomment, hbroken]

/-- The silent chunk among them has no text anywhere. -/
theorem quiet_pairedLines {after : List (List Char)} (hb : Bears pairedLines payload after)
    (hs : Silent payload) : ∀ text, Reads payload text → text = "" := by
  have hm := hb.mem_payloads
  rw [payloads_pairedLines] at hm
  simp only [List.mem_cons, List.not_mem_nil, or_false] at hm
  intro text hr
  rcases hm with rfl | rfl | rfl | rfl
  · exact absurd (carries_deltaChunk quotedText_pairContent) (hs.2 _)
  · exact absurd hr (not_reads_number text)
  · exact hs.1.elim fun members ho => absurd ho (not_objectText_nil members)
  · exact absurd (carries_deltaChunk quotedText_feedContent) (hs.2 _)

theorem ending_afterEnd : Ending afterEnd := ⟨by decide, .inr ⟨true, [['x']], rfl⟩⟩

theorem lastChunk_pairedLines : LastChunk (String.ofList (join (pairedLines ++ afterEnd)))
    [("choices", deltaChoices feedContent)] := by
  obtain ⟨given, hgiven, -, -⟩ := streams_pairedLines.exists_yields
  have hp := hgiven.payloads ending_afterEnd
  rw [payloads_pairedLines] at hp
  rw [lastChunk_iff, String.toList_ofList, hp]
  exact ⟨[deltaChunk pairContent, deltaChunk ['2'], []], _, [], rfl,
    objectText_deltaChunk quotedText_feedContent.valueText, nofun⟩

theorem fragments_reach_message_paired :
    Streams Contributes pairedLines ["😀", "\n!"] ∧ Ending afterEnd ∧
    LastChunk (String.ofList (join (pairedLines ++ afterEnd)))
      [("choices", deltaChoices feedContent)] ∧
    HasMessage (reconstruct (String.ofList (join (pairedLines ++ afterEnd)))).text.toList
      "assistant" "😀\n!" := by
  have hv := quotedText_feedContent.valueText
  obtain ⟨given, -, -, hmessage, hiff⟩ := fragments_reach_message streams_pairedLines
    ending_afterEnd lastChunk_pairedLines rfl ⟨[], arrayText_deltaChoices hv⟩
    (objectText_deltaFields hv)
  have hjoin := hiff.2 fun payload after hb hs => quiet_pairedLines hb hs
  have htexts : String.join ["😀", "\n!"] = "😀\n!" := by decide
  refine ⟨streams_pairedLines, ending_afterEnd, lastChunk_pairedLines, ?_⟩
  exact (hmessage _ _).2 ⟨rfl, (hjoin.trans htexts).symm⟩

/-- Choices that are an object, with a choice under the key that counts as a first place. -/
def zeroChoices : Source := "\x7b\"0\":\x7b\"delta\":\x7b\"content\":\"x\"\x7d\x7d\x7d".toList

def zeroChunk : Source := Json.object [("choices", zeroChoices)]

def zeroFields : List Member := [("0", Json.object (deltaFields (Json.quote "x")))]

theorem zeroChoices_eq : zeroChoices = Json.object zeroFields := rfl

theorem valueText_zeroFields : ∀ m ∈ zeroFields, Json.ValueText m.2 := by
  have hfirst := Json.valueText_object (valueText_deltaFields (Json.valueText_quote "x"))
  simpa [zeroFields] using hfirst

theorem objectText_zeroChoices : ObjectText zeroChoices zeroFields :=
  zeroChoices_eq ▸ Json.objectText_object valueText_zeroFields

theorem objectText_zeroChunk : ObjectText zeroChunk [("choices", zeroChoices)] := by
  have hchoices := Json.valueText_object valueText_zeroFields
  rw [← zeroChoices_eq] at hchoices
  exact Json.objectText_object (by simpa using hchoices)

theorem silent_zeroChunk : Silent zeroChunk := by
  refine ⟨⟨_, objectText_zeroChunk⟩, ?_⟩
  rintro text ⟨_, _, _, _, ⟨members, ho, hc⟩, -, ⟨others, ha⟩, -⟩
  cases ho.unique objectText_zeroChunk
  cases hc
  exact objectText_zeroChoices.not_arrayText _ ha

/-- The choice is under a key, but its text is read. -/
theorem reads_zeroChunk : Reads zeroChunk "x" := by
  have hq := Json.quotedText_quote "x"
  have hl : Legible depthLimit zeroChoices :=
    .object objectText_zeroChoices rfl (by simpa [zeroFields] using legible_deltaFields hq 124)
  exact ⟨_, ⟨_, objectText_zeroChunk, rfl⟩, hl, .member ⟨_, objectText_zeroChoices, rfl⟩
    (.member ⟨_, objectText_deltaFields hq.valueText, rfl⟩
      (.member ⟨_, objectText_content hq.valueText, rfl⟩ (.here (.of_self hq))))⟩

/-- Such a chunk before one with a fragment. -/
def zeroLines : List (List Char) :=
  [dataLine zeroChunk false, dataLine (deltaChunk (Json.quote "a")) false]

/-- Whatever the chunk before it adds, the fragment comes after it. -/
theorem streams_zeroLines {Adds : List Char → List String → Prop} (hz : Adds zeroChunk more)
    (ha : Adds (deltaChunk (Json.quote "a")) ["a"]) : Streams Adds zeroLines (more ++ ["a"]) := by
  have hc : Json.isControl '\n' = true := rfl
  have hfirst : '\n' ∉ Json.object zeroFields :=
    Json.not_mem_object hc
      (by simpa [zeroFields] using not_mem_deltaFields (Json.not_mem_quote hc "x"))
  rw [← zeroChoices_eq] at hfirst
  exact .data (Json.not_mem_object hc (by simpa using hfirst)) (closed_object _) hz
    (.delta (Json.not_mem_quote hc "a") ha .nil)

/-- The only fragment is an `a`, but the message has another text before it. -/
theorem fragment_joined_by_keyed_choice :
    let choices := deltaChoices (Json.quote "a")
    let completion := (reconstruct (String.ofList (join (zeroLines ++ [])))).text.toList
    Streams Contributes zeroLines ["a"] ∧ Ending [] ∧
    LastChunk (String.ofList (join (zeroLines ++ []))) [("choices", choices)] ∧
    (∃ first fields, HasFirst choices first ∧ ObjectText first fields) ∧
    HasMessage completion "assistant" "xa" ∧
    ¬HasMessage completion "assistant" (String.join ["a"]) := by
  intro choices completion
  have hcarries := carries_deltaChunk (Json.quotedText_quote "a")
  have hv := Json.valueText_quote "a"
  have hgiven : Streams Yields zeroLines ["x", "a"] :=
    streams_zeroLines (Yields.text reads_zeroChunk) (Yields.text hcarries.reads)
  have hr : Ending [] := ⟨nofun, .inl rfl⟩
  have hp : zeroLines.filterMap payload? = [zeroChunk, deltaChunk (Json.quote "a")] := by
    have hz : payload? (dataLine zeroChunk false) = some zeroChunk :=
      payload?_dataLine (closed_object _)
    simp [zeroLines, hz, payload?_deltaChunk]
  have hl : LastChunk (String.ofList (join (zeroLines ++ []))) [("choices", choices)] := by
    rw [lastChunk_iff, String.toList_ofList, hgiven.payloads hr, hp]
    exact ⟨[zeroChunk], _, [], rfl, objectText_deltaChunk hv, nofun⟩
  have hfirst : HasFirst choices _ := ⟨[], arrayText_deltaChoices hv⟩
  have hmessage := hgiven.hasMessage_iff hr hl rfl hfirst (objectText_deltaFields hv)
  refine ⟨streams_zeroLines (Contributes.silent silent_zeroChunk) (Contributes.carries hcarries),
    hr, hl, ⟨_, _, hfirst, objectText_deltaFields hv⟩, (hmessage _ _).2 ⟨rfl, by decide⟩, ?_⟩
  rw [hmessage]
  decide

end InferenceRecorder.Stream
