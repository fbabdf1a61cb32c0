import InferenceRecorder.Json.Value
import InferenceRecorder.Proofs.Json.Compact
import InferenceRecorder.Proofs.Table

/-!
Values read all the way down against the texts that they are read from: what stands at a place in
the value is read from what stands at that place in the text.
-/
namespace InferenceRecorder.Json
variable {readSpelled : Source → Option Value} {depth : Nat}

def HasMember (s : List Char) (key : String) (v : Source) : Prop :=
  ∃ members, ObjectText s members ∧ Table.lastValue key members = some v

def HasFirst (s : List Char) (v : Source) : Prop := ∃ others, ArrayText s (v :: others)

theorem HasMember.unique {s v v' : List Char} {key : String} (h : HasMember s key v)
    (h' : HasMember s key v') : v = v' := by
  obtain ⟨members, ho, hm⟩ := h
  obtain ⟨members', ho', hm'⟩ := h'
  cases ho.unique ho'
  exact Option.some.inj (hm.symm.trans hm')

theorem HasFirst.unique {s v v' : List Char} (h : HasFirst s v) (h' : HasFirst s v') : v = v' := by
  obtain ⟨others, ha⟩ := h
  obtain ⟨others', ha'⟩ := h'
  cases ha.unique ha'
  rfl

theorem QuotedText.unique {s : List Char} {text text' : String} (h : QuotedText s text)
    (h' : QuotedText s text') : text = text' :=
  Option.some.inj ((unquote?_eq_some.2 h).symm.trans (unquote?_eq_some.2 h'))

theorem mapM_eq_none_iff {α β : Type} {f : α → Option β} {l : List α} :
    l.mapM f = none ↔ ∃ a ∈ l, f a = none := by
  induction l with
  | nil => simp
  | cons a l ih =>
    rw [List.mapM_cons]
    cases ha : f a with
    | none => simp [ha]
    | some b => cases hl : l.mapM f <;> simp_all

theorem isSome_mapM {α β : Type} {f : α → Option β} {l : List α} :
    (l.mapM f).isSome = true ↔ ∀ a ∈ l, (f a).isSome = true := by
  rw [Option.isSome_iff_ne_none, Ne, mapM_eq_none_iff]
  simp [Option.isSome_iff_ne_none]

theorem forall₂_of_mapM_eq_some {α β : Type} {f : α → Option β} {xs : List α} {ys : List β}
    (h : xs.mapM f = some ys) : List.Forall₂ (fun x y => f x = some y) xs ys := by
  induction xs generalizing ys with
  | nil =>
    cases h
    exact .nil
  | cons x xs ih =>
    rw [List.mapM_cons] at h
    obtain ⟨y, hy, h⟩ := Option.bind_eq_some_iff.1 h
    obtain ⟨ys', hys, h⟩ := Option.bind_eq_some_iff.1 h
    cases h
    exact .cons hy (ih hys)

/-- A word has a value, which is no text and has nothing inside. -/
theorem readValue?_word {s w : List Char} (hw : w ∈ words) (h : Padded (· = w) s) :
    ∃ v, readValue? readSpelled depth s = some v ∧ v.text? = none ∧
      ∀ name, v.child? name = none := by
  obtain ⟨t, ht, rfl⟩ := value?_of_padded h fun t ht => ht ▸ (ValueText.word hw).lexeme
  simp only [words, List.mem_cons, List.not_mem_nil, or_false] at hw
  unfold readValue?
  rw [ht]
  rcases hw with rfl | rfl | rfl
  · exact ⟨.null, rfl, rfl, fun _ => rfl⟩
  · exact ⟨.bool true, rfl, rfl, fun _ => rfl⟩
  · exact ⟨.bool false, rfl, rfl, fun _ => rfl⟩

theorem NumberText.head {v : List Char} (h : NumberText v) :
    ∃ c s, v = c :: s ∧ (c = '-' ∨ c.isDigit = true) := by
  cases h with
  | negative _ _ => exact ⟨'-', _, rfl, .inl rfl⟩
  | plain hi _ =>
    obtain ⟨c, s, rfl, hc⟩ := hi.head
    exact ⟨c, _, rfl, .inr hc⟩

theorem readValue?_numberText {s v : List Char} (hv : NumberText v) (h : Padded (· = v) s) :
    readValue? readSpelled depth s = (number? v).map .number := by
  obtain ⟨t, ht, rfl⟩ := value?_of_padded h fun t ht => ht ▸ hv.lexeme
  obtain ⟨c, r, rfl, hc⟩ := hv.head
  conv_lhs => unfold readValue?
  rw [ht]
  -- no other value starts with a sign or a digit
  split <;> rename_i he <;> cases he
  all_goals first | rfl | exact absurd hc (by decide)

theorem readValue?_quotedText {s : List Char} {text : String} (h : Padded (QuotedText · text) s) :
    readValue? readSpelled depth s = some (.string text) := by
  obtain ⟨t, ht, hq⟩ := value?_of_padded h fun _ ht => ht.valueText.lexeme
  have hu := unquote?_eq_some.2 hq
  obtain ⟨k, rfl, -⟩ := hq
  conv_lhs => unfold readValue?
  rw [ht]
  simp only [hu, Option.map_some]

theorem readValue?_arrayText {s : List Char} {elements : List Source} (h : ArrayText s elements) :
    readValue? readSpelled depth s = match depth with
      | 0 => none
      | depth + 1 => (elements.mapM (readValue? readSpelled depth)).map .array := by
  obtain ⟨t, ht, hb⟩ := value?_of_padded h fun _ ht => (valueText_of_square ht).lexeme
  have he := elements?_eq_some.2 (Padded.of_self hb)
  obtain ⟨r, rfl⟩ : ∃ r, t = '[' :: r := by cases hb <;> exact ⟨_, rfl⟩
  conv_lhs => unfold readValue?
  rw [ht]
  cases depth with
  | zero => rfl
  | succ d => simp only [he]

theorem readValue?_objectText {s : List Char} {members : List Member} (h : ObjectText s members) :
    readValue? readSpelled depth s = match depth with
      | 0 => none
      | depth + 1 =>
        if holdsSpelling members then (spelling? members).bind readSpelled
        else
          (members.mapM fun m => (readValue? readSpelled depth m.2).map (m.1, ·)).map .object := by
  obtain ⟨t, ht, hb⟩ := value?_of_padded h fun _ ht => (valueText_of_curly ht).lexeme
  have hm := members?_eq_some.2 (Padded.of_self hb)
  obtain ⟨r, rfl⟩ : ∃ r, t = '{' :: r := by cases hb <;> exact ⟨_, rfl⟩
  conv_lhs => unfold readValue?
  rw [ht]
  cases depth with
  | zero => rfl
  | succ d => simp only [hm]

theorem readValue?_array {s : List Char} {elements : List Source} {v : Value}
    (h : ArrayText s elements) (hv : readValue? readSpelled depth s = some v) :
    ∃ d vs, v = .array vs ∧
      List.Forall₂ (fun e x => readValue? readSpelled d e = some x) elements vs := by
  rw [readValue?_arrayText h] at hv
  cases depth with
  | zero => cases hv
  | succ d =>
    obtain ⟨vs, hm, rfl⟩ := Option.map_eq_some_iff.1 hv
    exact ⟨d, vs, rfl, forall₂_of_mapM_eq_some hm⟩

/-- What an object spells out stands in its only member. -/
theorem exists_of_spelling? {members : List Member} {spelled : Source}
    (hs : holdsSpelling members = true) (h : spelling? members = some spelled) :
    ∃ v text, members = [(spellingKey, v)] ∧ QuotedText v text ∧ spelled = text.toList := by
  unfold spelling? at h
  split at h
  next m =>
    obtain ⟨key, v⟩ := m
    obtain ⟨text, ht, rfl⟩ := Option.map_eq_some_iff.1 h
    obtain rfl : key = spellingKey := by simpa [holdsSpelling] using hs
    exact ⟨v, text, rfl, unquote?_eq_some.1 ht, rfl⟩
  next => cases h

/-- An object is read member by member, unless it stands for a value that it spells out. -/
theorem readValue?_object {s : List Char} {members : List Member} {v : Value}
    (h : ObjectText s members) (hv : readValue? readSpelled depth s = some v) :
    (∃ spelled text, members = [(spellingKey, spelled)] ∧ QuotedText spelled text ∧
        readSpelled text.toList = some v) ∨
      holdsSpelling members = false ∧ ∃ d vs, v = .object vs ∧ List.Forall₂
        (fun m x => x.1 = m.1 ∧ readValue? readSpelled d m.2 = some x.2) members vs := by
  rw [readValue?_objectText h] at hv
  cases depth with
  | zero => cases hv
  | succ d =>
    simp only at hv
    split_ifs at hv with hs
    · obtain ⟨_, hspelling, hread⟩ := Option.bind_eq_some_iff.1 hv
      obtain ⟨spelled, text, hm, hq, rfl⟩ := exists_of_spelling? hs hspelling
      exact .inl ⟨spelled, text, hm, hq, hread⟩
    · obtain ⟨vs, hvs, rfl⟩ := Option.map_eq_some_iff.1 hv
      refine .inr ⟨Bool.eq_false_iff.2 hs, d, vs, rfl,
        (forall₂_of_mapM_eq_some hvs).imp fun m x hx => ?_⟩
      obtain ⟨y, hy, rfl⟩ := Option.map_eq_some_iff.1 hx
      exact ⟨rfl, hy⟩

/-- What stands under a name in the value of an object is read from a member. -/
theorem exists_member_of_child? {members : List Member} {vs : List (String × Value)} {d : Nat}
    (hf : List.Forall₂ (fun m x => x.1 = m.1 ∧ readValue? readSpelled d m.2 = some x.2) members vs)
    {name : String} {y : Value} (hy : (Value.object vs).child? name = some y) :
    ∃ v, Table.lastValue name members = some v ∧ readValue? readSpelled d v = some y := by
  rw [Value.child?, Table.lookup_ofList] at hy
  have hback : List.Forall₂
      (fun x m => m.1 = x.1 ∧ readValue? readSpelled d m.2 = some x.2) vs members :=
    hf.flip.imp fun _ _ h => ⟨h.1.symm, h.2⟩
  exact Table.lastValue_forall₂ (R := fun x v => readValue? readSpelled d v = some x) hback hy

theorem HasFirst.read {s first : List Char} {v : Value} (h : HasFirst s first)
    (hv : readValue? readSpelled depth s = some v) :
    ∃ d x, v.child? "0" = some x ∧ readValue? readSpelled d first = some x := by
  obtain ⟨others, ha⟩ := h
  obtain ⟨d, vs, rfl, hf⟩ := readValue?_array ha hv
  cases hf with
  | cons hx _ => exact ⟨d, _, rfl, hx⟩

/-- A member of an object stands under its key in the value that is read from it. -/
theorem HasMember.read {s v : List Char} {key : String} {x : Value} (h : HasMember s key v)
    (hk : key ≠ spellingKey) (hx : readValue? readSpelled depth s = some x) :
    ∃ d y, x.child? key = some y ∧ readValue? readSpelled d v = some y := by
  obtain ⟨members, ho, hm⟩ := h
  rcases readValue?_object ho hx with ⟨spelled, text, rfl, -⟩ | ⟨-, d, vs, rfl, hf⟩
  · simp [Table.lastValue, hk.symm] at hm
  · obtain ⟨y, hy, hr⟩ :=
      Table.lastValue_forall₂ (R := fun e y => readValue? readSpelled d e = some y) hf hm
    exact ⟨d, y, by rw [Value.child?, Table.lookup_ofList, hy], hr⟩

theorem Padded.trans {P Q : List Char → Prop} {s : List Char} (h : Padded P s)
    (hP : ∀ t, P t → Padded Q t) : Padded Q s := by
  obtain ⟨u, t, w, rfl, hu, hw, ht⟩ := h
  obtain ⟨u', t', w', rfl, hu', hw', ht'⟩ := hP t ht
  refine ⟨u ++ u', t', w' ++ w, by simp, ?_, ?_, ht'⟩
  · simp_all [isAllBlank]
  · simp_all [isAllBlank]

theorem isNumber_of_isSome {v : Source} (h : (number? v).isSome = true) : isNumber v = true := by
  unfold number? at h
  split_ifs at h with hn
  · exact hn
  · cases h

theorem ValueText.numberText {v : Source} (h : ValueText v) (hn : isNumber v = true) :
    NumberText v := by
  cases h with
  | word hw =>
    simp only [words, List.mem_cons, List.not_mem_nil, or_false] at hw
    rcases hw with rfl | rfl | rfl <;> cases hn
  | number hv => exact hv
  | string => cases hn
  | empty b => cases b <;> cases hn
  | @items b => cases b <;> cases hn

inductive Form (s : Source) : Prop
  | word {w : Source} : w ∈ words → Padded (· = w) s → Form s
  | number {v : Source} : NumberText v → Padded (· = v) s → Form s
  | text {text : String} : Padded (QuotedText · text) s → Form s
  | array {elements : List Source} : ArrayText s elements → Form s
  | object {members : List Member} : ObjectText s members → Form s

/-- What is read has one of the forms of a value. -/
theorem form_of_isSome {s : Source} (h : (readValue? readSpelled depth s).isSome = true) :
    Form s := by
  cases hv : value? s with
  | none =>
    unfold readValue? at h
    simp [hv] at h
  | some v =>
    have hp := value?_eq_some.1 hv
    have hw : Padded (· = v) s := hp.trans fun t ht => .of_self ht.1
    have hinside : ∀ {P : List Char → Prop}, Padded P v → Padded P s :=
      fun h => hw.trans fun t ht => ht ▸ h
    unfold readValue? at h
    rw [hv] at h
    -- by what the value starts with
    split at h <;> rename_i he <;> cases he
    · exact .word (by decide) hw
    · exact .word (by decide) hw
    · exact .word (by decide) hw
    · rw [Option.isSome_map] at h
      obtain ⟨text, ht⟩ := Option.isSome_iff_exists.1 h
      exact .text (hinside (.of_self (unquote?_eq_some.1 ht)))
    · split at h
      next => cases h
      next =>
        split at h
        next => cases h
        next elements hel => exact .array (hinside (elements?_eq_some.1 hel))
    · split at h
      next => cases h
      next =>
        split at h
        next => cases h
        next members hmem => exact .object (hinside (members?_eq_some.1 hmem))
    · rw [Option.isSome_map] at h
      exact .number ((valueText_of_value? hv).numberText (isNumber_of_isSome h)) hw

end InferenceRecorder.Json
