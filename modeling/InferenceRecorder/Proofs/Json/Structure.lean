import InferenceRecorder.Proofs.Json.Grammar

/-!
Arrays and objects taken apart. What the readers hand back are exactly the items that stand between
the brackets, and every text that is written so is read.
-/
namespace InferenceRecorder.Json
variable {α : Type} {Item : α → List Char → Prop} {reader : Reader α} {b : Bracket}

structure Reader.Reads (reader : Reader α) (Item : α → List Char → Prop) : Prop where
  starts {x : α} {t : List Char} : Item x t → Starts t
  sound {s : List Char} {x : α} {rest : List Char} : reader.read s = some (x, rest) →
    ∃ t, skipBlanks s = t ++ rest ∧ Item x t
  complete {s : List Char} {x : α} {t rest : List Char} : Item x t → skipBlanks s = t ++ rest →
    (∀ c ∈ rest.head?, continues c = false) → reader.read s = some (x, rest)

theorem takeItems_of_read {s after rest : List Char} {x : α} {c : Char}
    (h : reader.read s = some (x, after)) (h' : skipBlanks after = c :: rest) :
    takeItems reader b s =
      if c = ',' then (takeItems reader b rest).map fun r => (x :: r.1, r.2)
      else if c = b.closing then some ([x], rest)
      else none := by
  rw [takeItems]
  split
  next hn => simp [h] at hn
  next y after' hy =>
    rw [h] at hy
    cases hy
    split
    next hn => simp [h'] at hn
    next d rest' hd =>
      rw [h'] at hd
      cases hd
      cases takeItems reader b rest <;> rfl

theorem separated_of_takeItems (hr : reader.Reads Item) {s : List Char} {xs : List α}
    {rest : List Char} (h : takeItems reader b s = some (xs, rest)) :
    ∃ t w, skipBlanks s = t ++ (w ++ b.closing :: rest) ∧ isAllBlank w = true ∧
      Separated Item t xs := by
  fun_induction takeItems reader b s generalizing xs rest with
  | case1 => cases h
  | case2 => cases h
  | case3 => cases h
  | case4 s x after hx rest' more after' hm ha ih =>
    cases h
    obtain ⟨t, hs, ht⟩ := hr.sound hx
    obtain ⟨t', w, hs', hw, ht'⟩ := ih hm
    obtain ⟨v, hv, hav⟩ := eq_blanks_append after
    obtain ⟨v', hv', hav'⟩ := eq_blanks_append rest'
    refine ⟨t ++ (v ++ ',' :: (v' ++ t')), w, ?_, hw, .cons ht hv hv' ht'⟩
    rw [hs, hav, ha, hav', hs']
    simp
  | case5 s x after hx rest' ha hc =>
    cases h
    obtain ⟨t, hs, ht⟩ := hr.sound hx
    obtain ⟨v, hv, hav⟩ := eq_blanks_append after
    refine ⟨t, v, ?_, hv, .one ht⟩
    rw [hs, ← ha, ← hav]
  | case6 => cases h

theorem takeItems_of_separated (hr : reader.Reads Item) {s t w rest : List Char} {xs : List α}
    (h : Separated Item t xs) (hw : isAllBlank w = true)
    (hs : skipBlanks s = t ++ (w ++ b.closing :: rest)) :
    takeItems reader b s = some (xs, rest) := by
  have hc : b.closing ≠ ',' ∧ continues b.closing = false := by cases b <;> decide
  -- what follows an item is a blank, a comma or the bracket, and none of them continues it
  induction h generalizing s with
  | one hx =>
    have hread := hr.complete hx hs (not_continues_head hw hc.2)
    rw [takeItems_of_read hread (skipBlanks_blanks_cons hw (isBlank_closing b))]
    rw [if_neg hc.1, if_pos rfl]
  | @cons x t v v' s' xs hx hv hv' hsep ih =>
    have hs' : skipBlanks s = t ++ (v ++ ',' :: (v' ++ (s' ++ (w ++ b.closing :: rest)))) := by
      simpa using hs
    have hread := hr.complete hx hs' (not_continues_head hv rfl)
    have hmore : skipBlanks (v' ++ (s' ++ (w ++ b.closing :: rest))) =
        s' ++ (w ++ b.closing :: rest) := by
      obtain ⟨c, s'', rfl, hc, -⟩ := hsep.starts fun _ _ => hr.starts
      exact skipBlanks_blanks_cons hv' hc
    rw [takeItems_of_read hread (skipBlanks_blanks_cons hv rfl), if_pos rfl, ih hmore]
    rfl

theorem itemsInside?_eq_some (hr : reader.Reads Item) {s : List Char} {xs : List α} :
    itemsInside? reader b (skipBlanks s) = some xs ↔ ∃ after, isAllBlank after = true ∧
      (skipBlanks s = b.closing :: after ∧ xs = [] ∨
        ∃ t w, skipBlanks s = t ++ (w ++ b.closing :: after) ∧ isAllBlank w = true ∧
          Separated Item t xs) := by
  constructor
  · intro h
    cases hs : skipBlanks s with
    | nil => simp [hs, itemsInside?] at h
    | cons c s' =>
      rw [hs, itemsInside?] at h
      split_ifs at h with hc ha
      · cases h
        exact ⟨s', ha, .inl ⟨by rw [hc], rfl⟩⟩
      · split at h
        next ys rest ht =>
          split_ifs at h with ha
          cases h
          obtain ⟨t, w, hst, hw, hsep⟩ := separated_of_takeItems hr ht
          rw [← hs, skipBlanks_idem, hs] at hst
          exact ⟨rest, ha, .inr ⟨t, w, hst, hw, hsep⟩⟩
        next => cases h
  · rintro ⟨after, ha, ⟨hs, rfl⟩ | ⟨t, w, hs, hw, hsep⟩⟩
    · simp [hs, itemsInside?, ha]
    · obtain ⟨c, t', rfl, hc, hcb⟩ := hsep.starts fun _ _ => hr.starts
      have ht := takeItems_of_separated hr hsep hw (by rw [skipBlanks_idem, hs])
      rw [hs] at ht ⊢
      simp only [List.cons_append] at ht ⊢
      simp [itemsInside?, hcb b, ht, ha]

/-- The items read from between two brackets are those that are written there. -/
theorem items?_eq_some (hr : reader.Reads Item) {s : List Char} {xs : List α} :
    items? reader b s = some xs ↔ Padded (Bracketed b Item · xs) s := by
  have hob := isBlank_opening b
  constructor
  · intro h
    unfold items? at h
    split at h
    next => cases h
    next c rest hs =>
      split_ifs at h with hc
      subst hc
      obtain ⟨u, hu, hsu⟩ := eq_blanks_append s
      obtain ⟨v, hv, hrv⟩ := eq_blanks_append rest
      obtain ⟨after, ha, ⟨hi, rfl⟩ | ⟨t, w, hi, hw, hsep⟩⟩ := (itemsInside?_eq_some hr).1 h
      · refine ⟨u, _, after, ?_, hu, ha, .empty hv⟩
        rw [hsu, hs, hrv, hi]
        simp
      · refine ⟨u, _, after, ?_, hu, ha, .items hv hw hsep⟩
        rw [hsu, hs, hrv, hi]
        simp
  · rintro ⟨u, core, after, rfl, hu, ha, hb⟩
    cases hb with
    | @empty v hv =>
      have hs : skipBlanks (u ++ (b.opening :: (v ++ [b.closing]) ++ after)) =
          b.opening :: (v ++ b.closing :: after) := by
        simpa using skipBlanks_blanks_cons hu hob
      rw [items?, hs]
      refine (if_pos rfl).trans ((itemsInside?_eq_some hr).2 ⟨after, ha, .inl ⟨?_, rfl⟩⟩)
      exact skipBlanks_blanks_cons hv (isBlank_closing b)
    | @items v t w xs hv hw hsep =>
      have hs : skipBlanks (u ++ (b.opening :: (v ++ (t ++ (w ++ [b.closing]))) ++ after)) =
          b.opening :: (v ++ (t ++ (w ++ b.closing :: after))) := by
        simpa using skipBlanks_blanks_cons hu hob
      rw [items?, hs]
      refine (if_pos rfl).trans
        ((itemsInside?_eq_some hr).2 ⟨after, ha, .inr ⟨t, w, ?_, hw, hsep⟩⟩)
      obtain ⟨c, t', rfl, hc, -⟩ := hsep.starts fun _ _ => hr.starts
      exact skipBlanks_blanks_cons hv hc

def ElementText (v : Source) (t : List Char) : Prop := t = v ∧ ValueText v

def MemberText (m : Member) (t : List Char) : Prop :=
  ∃ k v w, t = '"' :: (k ++ '"' :: (v ++ ':' :: (w ++ m.2))) ∧ Spells k m.1.toList ∧
    isAllBlank v = true ∧ isAllBlank w = true ∧ ValueText m.2

def ArrayText (s : List Char) (elements : List Source) : Prop :=
  Padded (Bracketed .square ElementText · elements) s

def ObjectText (s : List Char) (members : List Member) : Prop :=
  Padded (Bracketed .curly MemberText · members) s

theorem elementReader_reads : elementReader.Reads ElementText where
  starts := by
    rintro v t ⟨rfl, hv⟩
    exact hv.lexeme.starts
  sound := by
    intro s v rest h
    exact ⟨v, takeValue_append h, rfl, (lexeme_of_takeValue h).valueText⟩
  complete := by
    rintro s v t rest ⟨rfl, hv⟩ hs hr
    have h := hv.lexeme.takeValue_append hr
    rwa [← hs] at h

theorem takeMember_eq_some {s : List Char} {m : Member} {rest : List Char} :
    takeMember s = some (m, rest) ↔ ∃ k v after,
      skipBlanks s = '"' :: (k ++ '"' :: (v ++ ':' :: after)) ∧ Spells k m.1.toList ∧
      isAllBlank v = true ∧ takeValue (skipBlanks after) = some (m.2, rest) := by
  constructor
  · intro h
    unfold takeMember at h
    split at h
    next s' hs =>
      split at h
      next => cases h
      next key after hk =>
        split at h
        next rest' hr =>
          split at h
          next value rest'' hv =>
            cases h
            obtain ⟨k, rfl, hsp⟩ := takeString_eq_some.1 hk
            obtain ⟨v, hb, hav⟩ := eq_blanks_append after
            refine ⟨k, v, rest', ?_, by simpa using hsp, hb, hv⟩
            rw [hs, hav, hr]
          next => cases h
        next => cases h
    next => cases h
  · rintro ⟨k, v, after, hs, hk, hv, ha⟩
    have hc := skipBlanks_blanks_cons (c := ':') (s := after) hv rfl
    simp [takeMember, hs, takeString_eq_some.2 ⟨k, rfl, hk⟩, hc, ha]

theorem memberReader_reads : memberReader.Reads MemberText where
  starts := by
    rintro m t ⟨k, v, w, rfl, -⟩
    exact ⟨'"', _, rfl, rfl, fun b => by cases b <;> decide⟩
  sound := by
    intro s m rest h
    obtain ⟨k, v, after, hs, hk, hv, ha⟩ := takeMember_eq_some.1 h
    obtain ⟨w, hw, haw⟩ := eq_blanks_append after
    refine ⟨_, ?_, k, v, w, rfl, hk, hv, hw, (lexeme_of_takeValue ha).valueText⟩
    rw [hs, haw, takeValue_append ha]
    simp
  complete := by
    rintro s m t rest ⟨k, v, w, rfl, hk, hv, hw, hm⟩ hs hr
    refine takeMember_eq_some.2 ⟨k, v, w ++ (m.2 ++ rest), by simpa using hs, hk, hv, ?_⟩
    obtain ⟨c, s', hms, hc, -⟩ := hm.lexeme.starts
    have hsk : skipBlanks (w ++ (m.2 ++ rest)) = m.2 ++ rest := by
      rw [hms]
      exact skipBlanks_blanks_cons hw hc
    rw [hsk, hm.lexeme.takeValue_append hr]

theorem elements?_eq_some {s : List Char} {elements : List Source} :
    elements? s = some elements ↔ ArrayText s elements :=
  items?_eq_some elementReader_reads

theorem members?_eq_some {s : List Char} {members : List Member} :
    members? s = some members ↔ ObjectText s members :=
  items?_eq_some memberReader_reads

theorem ArrayText.unique {s : List Char} {elements elements' : List Source}
    (h : ArrayText s elements) (h' : ArrayText s elements') : elements = elements' :=
  Option.some.inj ((elements?_eq_some.2 h).symm.trans (elements?_eq_some.2 h'))

theorem ObjectText.unique {s : List Char} {members members' : List Member}
    (h : ObjectText s members) (h' : ObjectText s members') : members = members' :=
  Option.some.inj ((members?_eq_some.2 h).symm.trans (members?_eq_some.2 h'))

theorem ArrayText.valueText {s : List Char} {elements : List Source} (h : ArrayText s elements) :
    ∀ v ∈ elements, ValueText v := by
  obtain ⟨_, _, _, -, -, -, hb⟩ := h
  exact hb.forall_mem fun _ _ hi => hi.2

theorem ObjectText.valueText {s : List Char} {members : List Member} (h : ObjectText s members) :
    ∀ m ∈ members, ValueText m.2 := by
  obtain ⟨_, _, _, -, -, -, hb⟩ := h
  refine hb.forall_mem ?_
  rintro m t ⟨_, _, _, -, -, -, -, hm⟩
  exact hm

end InferenceRecorder.Json
