import InferenceRecorder.Proofs.Json.Reading
import InferenceRecorder.Proofs.Json.Slices

/-!
Texts that can be read all the way down. A text may follow the grammar and still hold a string that
spells no text, a number that is too great or brackets that nest too deep, and is not read then:
`legible_iff`. What is legible is a matter of each value in the brackets by itself:
`ArrayText.legible_iff`, `ObjectText.legible_iff`.
-/
namespace InferenceRecorder.Json
variable {readSpelled : Source → Option Value} {depth : Nat}

/-- The text can be read all the way down, with brackets nested no deeper than this. -/
inductive Legible : Nat → Source → Prop
  | word {depth : Nat} {s w : Source} : w ∈ words → Padded (· = w) s → Legible depth s
  | number {depth : Nat} {s v : Source} : NumberText v → (number? v).isSome = true →
    Padded (· = v) s → Legible depth s
  | text {depth : Nat} {s : Source} {text : String} : Padded (QuotedText · text) s →
    Legible depth s
  | array {depth : Nat} {s : Source} {elements : List Source} : ArrayText s elements →
    (∀ v ∈ elements, Legible depth v) → Legible (depth + 1) s
  | object {depth : Nat} {s : Source} {members : List Member} : ObjectText s members →
    holdsSpelling members = false → (∀ m ∈ members, Legible depth m.2) → Legible (depth + 1) s
  /-- What is spelled out in a text counts its brackets from the start. -/
  | spelled {depth : Nat} {s v : Source} {text : String} : ObjectText s [(spellingKey, v)] →
    QuotedText v text → Legible depthLimit text.toList → Legible (depth + 1) s

theorem Written.length_le {α : Type} {R : α → List Char → Prop} (hR : ∀ x w, R x w → w ≠ [])
    {k : List Char} {xs : List α} (h : Written R k xs) : xs.length ≤ k.length := by
  induction h with
  | nil => exact Nat.le_refl _
  | cons hx _ ih =>
    have := List.length_pos_of_ne_nil (hR _ _ hx)
    rw [List.length_cons, List.length_append]
    omega

/-- A text is shorter than a string that spells it. -/
theorem QuotedText.length_lt {v : Source} {text : String} (h : QuotedText v text) :
    text.toList.length < v.length := by
  obtain ⟨k, rfl, hk⟩ := h
  have := hk.length_le fun x w hx => by cases hx <;> simp
  simp only [List.length_cons, List.length_append]
  omega

theorem ArrayText.length_le {s : List Char} {elements : List Source} (h : ArrayText s elements) :
    ∀ v ∈ elements, v.length ≤ s.length := fun v hv => (h.slice v hv).length_le

theorem ObjectText.length_le {s : List Char} {members : List Member} (h : ObjectText s members) :
    ∀ m ∈ members, m.2.length ≤ s.length := fun m hm => (h.slice m hm).length_le

/-- What an object spells out is shorter than the object. -/
theorem ObjectText.spelled_lt {s : List Char} {key text : String} {v : Source}
    (ho : ObjectText s [(key, v)]) (hq : QuotedText v text) : text.toList.length < s.length :=
  Nat.lt_of_lt_of_le hq.length_lt (ho.length_le _ List.mem_cons_self)

/-- What can be read is read, where what it spells out in texts is. -/
theorem Legible.isSome_readValue? {n : Nat}
    (hr : ∀ t, t.length ≤ n → Legible depthLimit t → (readSpelled t).isSome = true) {s : Source}
    (h : Legible depth s) (hs : s.length ≤ n + 1) :
    (readValue? readSpelled depth s).isSome = true := by
  induction h with
  | word hw hp =>
    obtain ⟨v, hv, -⟩ := readValue?_word hw hp
    rw [hv]
    rfl
  | number hv hn hp => simpa [readValue?_numberText hv hp] using hn
  | text hq => simp [readValue?_quotedText hq]
  | array ha _ ih =>
    rw [readValue?_arrayText ha, Option.isSome_map, isSome_mapM]
    exact fun v hv => ih v hv (Nat.le_trans (ha.length_le v hv) hs)
  | object ho hno _ ih =>
    simp only [readValue?_objectText ho, hno, Bool.false_eq_true, if_false, Option.isSome_map,
      isSome_mapM]
    exact fun m hm => ih m hm (Nat.le_trans (ho.length_le m hm) hs)
  | @spelled depth s v text ho hq hl _ =>
    have hlt := Nat.lt_of_lt_of_le (ho.spelled_lt hq) hs
    have ht := hr text.toList (Nat.le_of_lt_succ hlt) hl
    simp [readValue?_objectText ho, holdsSpelling, spelling?, unquote?_eq_some.2 hq, ht]

section
variable {n : Nat}
  (hr : ∀ t, t.length ≤ n → (readSpelled t).isSome = true → Legible depthLimit t)
include hr

theorem legible_of_spelling {s : Source} {members : List Member} (ho : ObjectText s members)
    (hs : s.length ≤ n + 1) (hm : holdsSpelling members = true)
    (h : ((spelling? members).bind readSpelled).isSome = true) : Legible (depth + 1) s := by
  obtain ⟨x, hx⟩ := Option.isSome_iff_exists.1 h
  obtain ⟨spelled, hsp, hread⟩ := Option.bind_eq_some_iff.1 hx
  obtain ⟨v, text, rfl, hq, rfl⟩ := exists_of_spelling? hm hsp
  have hlt := Nat.lt_of_lt_of_le (ho.spelled_lt hq) hs
  exact .spelled ho hq (hr _ (Nat.le_of_lt_succ hlt) (Option.isSome_iff_exists.2 ⟨x, hread⟩))

/-- Only what can be read is read. -/
theorem legible_of_isSome {depth : Nat} {s : Source}
    (h : (readValue? readSpelled depth s).isSome = true) (hs : s.length ≤ n + 1) :
    Legible depth s := by
  -- down through the brackets
  cases form_of_isSome h with
  | word hw hp => exact .word hw hp
  | number hv hp =>
    rw [readValue?_numberText hv hp, Option.isSome_map] at h
    exact .number hv h hp
  | text hq => exact .text hq
  | array ha =>
    rw [readValue?_arrayText ha] at h
    cases depth with
    | zero => cases h
    | succ depth =>
      simp only [Option.isSome_map, isSome_mapM] at h
      exact .array ha fun v hv => legible_of_isSome (h v hv) (Nat.le_trans (ha.length_le v hv) hs)
  | object ho =>
    rw [readValue?_objectText ho] at h
    cases depth with
    | zero => cases h
    | succ depth =>
      simp only at h
      split_ifs at h with hspelling
      · exact legible_of_spelling hr ho hs hspelling h
      · simp only [Option.isSome_map, isSome_mapM] at h
        exact .object ho (Bool.eq_false_iff.2 hspelling) fun m hm =>
          legible_of_isSome (h m hm) (Nat.le_trans (ho.length_le m hm) hs)
termination_by depth

end

theorem not_legible_nil : ¬Legible depth [] := by
  intro h
  have hnone : value? [] = none := by decide
  have hread : (readValue? (fun _ => some .null) depth []).isSome = true :=
    h.isSome_readValue? (fun _ _ _ => rfl) (Nat.zero_le 1)
  unfold readValue? at hread
  simp [hnone] at hread

/-- What a text of this length spells out in texts is shorter, so nothing is left unread. -/
theorem isSome_readNested?_iff {n : Nat} {s : Source} (hs : s.length ≤ n) :
    (readNested? n s).isSome = true ↔ Legible depthLimit s := by
  induction n generalizing s with
  | zero =>
    obtain rfl : s = [] := List.length_eq_zero_iff.1 (Nat.le_zero.1 hs)
    exact iff_of_false (by decide) not_legible_nil
  | succ n ih =>
    exact ⟨fun h => legible_of_isSome (fun t ht => (ih ht).1) h hs,
      fun h => h.isSome_readValue? (fun t ht => (ih ht).2) hs⟩

/-- A text has a value exactly when it can be read all the way down. -/
theorem legible_iff {s : Source} : Legible depthLimit s ↔ (read? s).isSome = true :=
  (isSome_readNested?_iff (Nat.le_refl _)).symm

theorem legible_iff_readValue? {n : Nat} {s : Source} (hs : s.length ≤ n) :
    Legible depth s ↔ (readValue? (readNested? n) depth s).isSome = true :=
  ⟨fun h => h.isSome_readValue? (fun _ ht => (isSome_readNested?_iff ht).2) (Nat.le_succ_of_le hs),
    fun h => legible_of_isSome (fun _ ht => (isSome_readNested?_iff ht).1) h (Nat.le_succ_of_le hs)⟩

/-- Brackets take a level for what stands in them. -/
theorem ArrayText.legible_iff {s : Source} {elements : List Source} (h : ArrayText s elements) :
    Legible depth s ↔ ∃ d, depth = d + 1 ∧ ∀ v ∈ elements, Legible d v := by
  rw [legible_iff_readValue? (Nat.le_refl _), readValue?_arrayText h]
  cases depth with
  | zero => simp
  | succ d =>
    simp only [Option.isSome_map, isSome_mapM, Nat.add_right_cancel_iff, exists_eq_left']
    exact forall₂_congr fun v hv => (legible_iff_readValue? (h.length_le v hv)).symm

theorem ObjectText.legible_iff {s : Source} {members : List Member} (h : ObjectText s members)
    (hno : holdsSpelling members = false) :
    Legible depth s ↔ ∃ d, depth = d + 1 ∧ ∀ m ∈ members, Legible d m.2 := by
  rw [legible_iff_readValue? (Nat.le_refl _), readValue?_objectText h]
  cases depth with
  | zero => simp
  | succ d =>
    simp only [hno, Bool.false_eq_true, if_false, Option.isSome_map, isSome_mapM,
      Nat.add_right_cancel_iff, exists_eq_left']
    exact forall₂_congr fun m hm => (legible_iff_readValue? (h.length_le m hm)).symm

/-- An object that stands for what it spells out has no other member. -/
theorem ObjectText.eq_spelling {s : Source} {members : List Member} (h : ObjectText s members)
    (hs : holdsSpelling members = true) (hl : Legible depth s) :
    ∃ v, members = [(spellingKey, v)] := by
  rw [legible_iff_readValue? (Nat.le_refl _), readValue?_objectText h] at hl
  cases depth with
  | zero => cases hl
  | succ d =>
    simp only [hs, if_true] at hl
    match members with
    | [m] => exact ⟨m.2, by rw [← beq_iff_eq.1 hs]⟩
    | [] => cases hs
    | _ :: _ :: _ => cases hl

/-- Under a name that is no number stands a member of an object, or what the object spells out. -/
theorem Legible.exists_member {s : Source} (hl : Legible depth s) {name : String}
    (hname : arrayIndex? name = none) {d : Nat} {x y : Value}
    (hx : readValue? readSpelled d s = some x) (hy : x.child? name = some y) :
    ∃ members, ObjectText s members ∧ ((∃ v, Table.lastValue name members = some v ∧
      ∃ d', readValue? readSpelled d' v = some y) ∨ ∃ v, members = [(spellingKey, v)]) := by
  cases hl with
  | word hw hp =>
    obtain ⟨v, hv, -, hno⟩ := readValue?_word hw hp
    cases hv.symm.trans hx
    cases (hno name).symm.trans hy
  | number hv hn hp =>
    rw [readValue?_numberText hv hp] at hx
    obtain ⟨n, -, rfl⟩ := Option.map_eq_some_iff.1 hx
    cases hy
  | text hq =>
    cases (readValue?_quotedText hq).symm.trans hx
    cases hy
  | array ha _ =>
    obtain ⟨_, vs, rfl, -⟩ := readValue?_array ha hx
    simp [Value.child?, hname] at hy
  | @object _ _ members ho hno _ =>
    refine ⟨_, ho, .inl ?_⟩
    rcases readValue?_object ho hx with ⟨spelled, text, rfl, -⟩ | ⟨-, d', vs, rfl, hf⟩
    · simp [holdsSpelling] at hno
    · obtain ⟨v, hv, hread⟩ := exists_member_of_child? hf hy
      exact ⟨v, hv, d', hread⟩
  | spelled ho => exact ⟨_, ho, .inr ⟨_, rfl⟩⟩

end InferenceRecorder.Json
