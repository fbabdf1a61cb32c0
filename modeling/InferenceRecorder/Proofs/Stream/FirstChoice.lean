import InferenceRecorder.Proofs.Stream.Template

/-!
The first choice of a completion. Its members are those of the last chunk's first choice, in their
order and with their text: a message takes the place of the first of `delta` and `message`, and a
finish reason is filled in where it is null or missing: `first_choice_rewritten`.
-/
namespace InferenceRecorder.Stream
open Json (Source Member ArrayText ObjectText QuotedText)

def IsMessageKey (key : String) : Prop := key = "delta" ∨ key = "message"

instance : DecidablePred IsMessageKey := fun _ => instDecidableOr

theorem isMessageKey_eq (key : String) : isMessageKey key = decide (IsMessageKey key) := by
  rw [Bool.eq_iff_iff, decide_eq_true_eq]
  simp [isMessageKey, IsMessageKey]

/-- Of a repeated key the first place and the last value count. -/
structure Collapsed (fields choice : List Member) : Prop where
  keys : choice.map Prod.fst = (fields.map Prod.fst).eraseDups
  values : ∀ m ∈ choice, Table.lastValue m.1 fields = some m.2

def MessageText (message : Source) (content : String) : Prop :=
  ∃ role text, ObjectText message [("role", role), ("content", text)] ∧
    QuotedText role "assistant" ∧ QuotedText text content

/-- The message stands in the place of the first key of a message, or last if there is none. -/
inductive PlacesMessage (message : Source) : List Member → List Member → Prop
  | replaced {key : String} {value : Source} {before after : List Member} :
    (∀ m ∈ before, ¬IsMessageKey m.1) → IsMessageKey key →
    PlacesMessage message (before ++ (key, value) :: after)
      (before ++ ("message", message) :: after.filter fun m => ¬IsMessageKey m.1)
  | appended {choice : List Member} : (∀ m ∈ choice, ¬IsMessageKey m.1) →
    PlacesMessage message choice (choice ++ [("message", message)])

def null : Source := ['n', 'u', 'l', 'l']

inductive PlacesFinish : List Member → List Member → Prop
  | kept {choice : List Member} {reason : Source} :
    Table.lookup "finish_reason" choice = some reason → reason ≠ null → PlacesFinish choice choice
  | replaced {before after : List Member} : (∀ m ∈ before, m.1 ≠ "finish_reason") →
    PlacesFinish (before ++ ("finish_reason", null) :: after)
      (before ++ ("finish_reason", Json.quote "stop") :: after)
  | appended {choice : List Member} : Table.lookup "finish_reason" choice = none →
    PlacesFinish choice (choice ++ [("finish_reason", Json.quote "stop")])

theorem collapsed_ofList (fields : List Member) : Collapsed fields (Table.ofList fields) where
  keys := Table.keys_ofList fields
  values m hm := by
    rw [← Table.lookup_ofList]
    exact Table.lookup_of_mem (Table.nodup_keys_ofList fields) hm

theorem messageText_message (content : String) : MessageText (message content) content :=
  ⟨_, _, Json.objectText_object (by simp [Json.valueText_quote]), Json.quotedText_quote _,
    Json.quotedText_quote _⟩

theorem placesMessage_placeMessage (msg : Source) (choice : List Member) :
    PlacesMessage msg choice (placeMessage msg choice) := by
  -- on the members in front of the first key of a message, which stay where they are
  induction choice with
  | nil => exact @PlacesMessage.appended msg [] nofun
  | cons m choice ih =>
    obtain ⟨key, value⟩ := m
    rw [placeMessage]
    simp only [isMessageKey_eq, decide_eq_true_eq, ← decide_not]
    split_ifs with hkey
    · exact @PlacesMessage.replaced msg key value [] choice nofun hkey
    · generalize placeMessage msg choice = placed at ih
      cases ih with
      | @replaced other v before after hbefore hother =>
        exact @PlacesMessage.replaced msg other v ((key, value) :: before) after
          (List.forall_mem_cons.2 ⟨hkey, hbefore⟩) hother
      | appended hno =>
        exact @PlacesMessage.appended msg ((key, value) :: choice)
          (List.forall_mem_cons.2 ⟨hkey, hno⟩)

theorem placesFinish_placeFinish (choice : List Member) :
    PlacesFinish choice (placeFinish choice) := by
  cases hl : Table.lookup "finish_reason" choice with
  | none =>
    have hmissing : ¬hasFinish choice = true := by simp [hasFinish, hl]
    rw [placeFinish, if_neg hmissing, Table.put_of_lookup_eq_none hl]
    exact .appended hl
  | some reason =>
    by_cases hnull : reason = null
    · subst hnull
      have hmissing : ¬hasFinish choice = true := by
        rw [hasFinish, hl]
        decide
      obtain ⟨before, after, rfl, hbefore, hput⟩ :=
        Table.put_of_lookup hl (Json.quote defaultFinish)
      rw [placeFinish, if_neg hmissing, hput]
      exact .replaced hbefore
    · have hsome : hasFinish choice = true := by
        rw [hasFinish, hl]
        exact bne_iff_ne.2 hnull
      rw [placeFinish, if_pos hsome]
      exact .kept hl hnull

/-- Beside the message stand members of the choice, none of which is a message. -/
theorem PlacesMessage.exists_parts {message : Source} {choice placed : List Member}
    (h : PlacesMessage message choice placed) :
    ∃ before after, placed = before ++ ("message", message) :: after ∧
      (before ++ after).Sublist choice ∧ ∀ m ∈ before ++ after, ¬IsMessageKey m.1 := by
  cases h with
  | @replaced key value before after hbefore hkey =>
    refine ⟨before, _, rfl, ?_, fun m hm => ?_⟩
    · exact (List.Sublist.refl before).append
        (List.filter_sublist.trans (List.sublist_cons_self _ _))
    · rcases List.mem_append.1 hm with hm | hm
      · exact hbefore m hm
      · exact of_decide_eq_true (List.mem_filter.1 hm).2
  | appended hno =>
    refine ⟨choice, [], rfl, ?_, ?_⟩
    · rw [List.append_nil]
    · rwa [List.append_nil]

theorem PlacesMessage.keys {message : Source} {choice placed : List Member}
    (h : PlacesMessage message choice placed) (hn : (choice.map Prod.fst).Nodup) :
    (placed.map Prod.fst).Nodup ∧ "delta" ∉ placed.map Prod.fst ∧
      "message" ∈ placed.map Prod.fst := by
  obtain ⟨before, after, rfl, hsub, hother⟩ := h.exists_parts
  have hnot : ∀ key, IsMessageKey key → key ∉ before.map Prod.fst ++ after.map Prod.fst := by
    intro key hkey hmem
    rw [← List.map_append] at hmem
    obtain ⟨m, hm, rfl⟩ := List.mem_map.1 hmem
    exact hother m hm hkey
  have hkeys : (before ++ ("message", message) :: after).map Prod.fst =
      before.map Prod.fst ++ "message" :: after.map Prod.fst := by simp
  have hrest := hn.sublist (hsub.map Prod.fst)
  rw [List.map_append] at hrest
  rw [hkeys]
  refine ⟨List.nodup_middle.2 (List.nodup_cons.2 ⟨hnot _ (.inr rfl), hrest⟩), ?_, by simp⟩
  have hdelta := hnot "delta" (.inl rfl)
  simpa using hdelta

/-- The keys stay as they are, but for that of a finish reason which was missing. -/
theorem PlacesFinish.keys {placed members : List Member} (h : PlacesFinish placed members) :
    members.map Prod.fst = placed.map Prod.fst ∨
      "finish_reason" ∉ placed.map Prod.fst ∧
        members.map Prod.fst = placed.map Prod.fst ++ ["finish_reason"] := by
  cases h with
  | kept => exact .inl rfl
  | replaced => exact .inl (by simp)
  | appended hl => exact .inr ⟨Table.lookup_eq_none_iff.1 hl, by simp⟩

theorem PlacesFinish.exists_reason {placed members : List Member}
    (h : PlacesFinish placed members) :
    ∃ reason, ("finish_reason", reason) ∈ members ∧ reason ≠ null := by
  have hstop : Json.quote "stop" ≠ null := by decide
  cases h with
  | kept hl hne => exact ⟨_, Table.mem_of_lookup hl, hne⟩
  | replaced => exact ⟨_, by simp, hstop⟩
  | appended => exact ⟨_, by simp, hstop⟩

/-- What the members of a completed choice have in common. -/
theorem completed_keys {message : Source} {choice placed members : List Member}
    (hn : (choice.map Prod.fst).Nodup) (hm : PlacesMessage message choice placed)
    (hf : PlacesFinish placed members) :
    (members.map Prod.fst).Nodup ∧ "delta" ∉ members.map Prod.fst ∧
      (members.map Prod.fst).count "message" = 1 := by
  obtain ⟨hnodup, hdelta, hmessage⟩ := hm.keys hn
  rcases hf.keys with hkeys | ⟨hmissing, hkeys⟩
  · rw [hkeys]
    exact ⟨hnodup, hdelta, List.count_eq_one_of_mem hnodup hmessage⟩
  · have hnodup' : (placed.map Prod.fst ++ ["finish_reason"]).Nodup := by
      rw [← List.concat_eq_append]
      exact hnodup.concat hmissing
    rw [hkeys]
    refine ⟨hnodup', by simp [hdelta], List.count_eq_one_of_mem hnodup' ?_⟩
    exact List.mem_append_left _ hmessage

/-- Choices that start with an object get a first choice of which the members are those of the
object, with a message in the place of its delta and a finish reason that says something. -/
theorem first_choice_rewritten {choices first : Source} {others : List Source}
    {fields : List Member} (ha : ArrayText choices (first :: others))
    (ho : ObjectText first fields) (content : String) :
    ∃ completed first' members, completeChoices? content choices = some completed ∧
      ArrayText completed (first' :: others) ∧ ObjectText first' members ∧
      (∃ choice message placed, Collapsed fields choice ∧ MessageText message content ∧
        PlacesMessage message choice placed ∧ PlacesFinish placed members) ∧
      (members.map Prod.fst).Nodup ∧ "delta" ∉ members.map Prod.fst ∧
      (members.map Prod.fst).count "message" = 1 ∧
      ∃ reason, ("finish_reason", reason) ∈ members ∧ reason ≠ null := by
  have hplaced := placesMessage_placeMessage (message content) (Table.ofList fields)
  have hfinish : PlacesFinish _ (completeChoice content (Table.ofList fields)) :=
    placesFinish_placeFinish _
  have hspelled := spelled_completeChoice (Table.forall_mem_ofList ho.valueText) content
  obtain ⟨hnodup, hdelta, hmessage⟩ :=
    completed_keys (Table.nodup_keys_ofList fields) hplaced hfinish
  exact ⟨_, _, _, completeChoices?_of_first ha ho content, arrayText_completed ha ho content,
    Json.objectText_object hspelled,
    ⟨_, _, _, collapsed_ofList fields, messageText_message content, hplaced, hfinish⟩,
    hnodup, hdelta, hmessage, hfinish.exists_reason⟩

def spelledChoice : Source :=
  "\x7b\"index\":0, \"delt\\u0061\":\x7b\x7d,\"finish_reason\":null,\"message\":1.0,".toList ++
    "\"delta\":[] \x7d".toList

def spelledChoices : Source := '[' :: spelledChoice ++ ", 2 ]".toList

def spelledFields : List Member :=
  [("index", ['0']), ("delta", "\x7b\x7d".toList), ("finish_reason", null),
    ("message", "1.0".toList), ("delta", ['[', ']'])]

theorem first_choice_rewritten_spelled :
    ArrayText spelledChoices [spelledChoice, ['2']] ∧ ObjectText spelledChoice spelledFields ∧
    ∃ completed first' members, completeChoices? "Hi" spelledChoices = some completed ∧
      ArrayText completed [first', ['2']] ∧ ObjectText first' members ∧
      (∃ choice message placed, Collapsed spelledFields choice ∧ MessageText message "Hi" ∧
        PlacesMessage message choice placed ∧ PlacesFinish placed members) ∧
      (members.map Prod.fst).Nodup ∧ "delta" ∉ members.map Prod.fst ∧
      (members.map Prod.fst).count "message" = 1 ∧
      ∃ reason, ("finish_reason", reason) ∈ members ∧ reason ≠ null :=
  have ha : ArrayText spelledChoices [spelledChoice, ['2']] :=
    Json.elements?_eq_some.1 (by decide +kernel)
  have ho : ObjectText spelledChoice spelledFields := Json.members?_eq_some.1 (by decide +kernel)
  ⟨ha, ho, first_choice_rewritten ha ho "Hi"⟩

end InferenceRecorder.Stream
