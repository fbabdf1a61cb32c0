import InferenceRecorder.Proofs.Json.Structure
import Mathlib.Data.List.Forall2

/-!
Arrays and objects put together. What is put together from values without blanks is a value, and is
taken apart again into what it was put together from.
-/
namespace InferenceRecorder.Json
variable {α : Type} {Item : α → List Char → Prop} {b : Bracket}

theorem itemText_of_elementText (v : Source) (t : List Char) (h : ElementText v t) :
    ItemText .square t := by
  obtain ⟨rfl, hv⟩ := h
  exact .element hv

theorem itemText_of_memberText (m : Member) (t : List Char) (h : MemberText m t) :
    ItemText .curly t := by
  obtain ⟨k, v, w, rfl, hk, hv, hw, hm⟩ := h
  obtain ⟨pieces, hp, -⟩ := pieces_of_spells hk
  exact .member hp hv hw hm

/-- An array without the blanks around it is a value. -/
theorem valueText_of_square {t : List Char} {elements : List Source}
    (h : Bracketed .square ElementText t elements) : ValueText t :=
  h.valueText itemText_of_elementText

theorem valueText_of_curly {t : List Char} {members : List Member}
    (h : Bracketed .curly MemberText t members) : ValueText t :=
  h.valueText itemText_of_memberText

theorem ObjectText.not_arrayText {s : List Char} {members : List Member} (h : ObjectText s members)
    (elements : List Source) : ¬ArrayText s elements := by
  intro ha
  obtain ⟨t, ht, hobject⟩ := value?_of_padded h fun t ht => (valueText_of_curly ht).lexeme
  obtain ⟨t', ht', harray⟩ := value?_of_padded ha fun t ht => (valueText_of_square ht).lexeme
  cases ht.symm.trans ht'
  obtain ⟨_, rfl⟩ := hobject.exists_cons
  obtain ⟨_, hs⟩ := harray.exists_cons
  cases hs

/-- An object is no beginning of a longer one. -/
theorem eq_of_prefix_curly {t t' : List Char} {members members' : List Member}
    (h : Bracketed .curly MemberText t members) (h' : Bracketed .curly MemberText t' members')
    (hp : t' <+: t) : t' = t :=
  h.eq_of_isPrefix (fun m t hi => (itemText_of_memberText m t hi).fits.1)
    (fun m t hi => (itemText_of_memberText m t hi).fits.2) h' hp

theorem separated_commaSeparated {ts : List (List Char)} {xs : List α}
    (h : List.Forall₂ Item xs ts) (hne : xs ≠ []) : Separated Item (commaSeparated ts) xs := by
  induction h with
  | nil => exact absurd rfl hne
  | @cons x t xs ts hx h ih =>
    cases h with
    | nil => exact .one hx
    | cons hy h => exact .cons hx (v := []) (w := []) rfl rfl (ih (by simp))

theorem bracketed_commaSeparated {ts : List (List Char)} {xs : List α}
    (h : List.Forall₂ Item xs ts) :
    Bracketed b Item (b.opening :: (commaSeparated ts ++ [b.closing])) xs := by
  cases h with
  | nil => exact .empty (v := []) rfl
  | cons hx h =>
    exact .items (v := []) (w := []) rfl rfl (separated_commaSeparated (.cons hx h) (by simp))

theorem bracketed_array {elements : List Source} (h : ∀ v ∈ elements, ValueText v) :
    Bracketed .square ElementText (array elements) elements := by
  refine bracketed_commaSeparated (List.forall₂_same.2 ?_)
  exact fun v hv => ⟨rfl, h v hv⟩

theorem bracketed_object {members : List Member} (h : ∀ m ∈ members, ValueText m.2) :
    Bracketed .curly MemberText (object members) members := by
  refine bracketed_commaSeparated (List.forall₂_map_right_iff.2 (List.forall₂_same.2 ?_))
  intro m hm
  exact ⟨m.1.toList.flatMap escape, [], [], by simp [member, quote, quoteChars],
    spells_escape _, rfl, rfl, h m hm⟩

theorem valueText_array {elements : List Source} (h : ∀ v ∈ elements, ValueText v) :
    ValueText (array elements) := valueText_of_square (bracketed_array h)

theorem valueText_object {members : List Member} (h : ∀ m ∈ members, ValueText m.2) :
    ValueText (object members) := valueText_of_curly (bracketed_object h)

theorem QuotedText.valueText {v : Source} {text : String} (h : QuotedText v text) :
    ValueText v := by
  obtain ⟨k, rfl, hk⟩ := h
  obtain ⟨pieces, hp, -⟩ := pieces_of_spells hk
  exact .string hp

theorem valueText_quote (text : String) : ValueText (quote text) :=
  (quotedText_quote text).valueText

/-- An array put together from values is taken apart into them. -/
theorem arrayText_array {elements : List Source} (h : ∀ v ∈ elements, ValueText v) :
    ArrayText (array elements) elements := .of_self (bracketed_array h)

theorem objectText_object {members : List Member} (h : ∀ m ∈ members, ValueText m.2) :
    ObjectText (object members) members := .of_self (bracketed_object h)

end InferenceRecorder.Json
