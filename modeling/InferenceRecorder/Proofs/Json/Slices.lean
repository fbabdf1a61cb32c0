import InferenceRecorder.Proofs.Json.Compact

/-!
Slices of a text. Elements and values of members are cut out of the text as they stand there, so
they bring no characters of their own; what is written anew, the keys and the punctuation, holds no
control characters. Together an object that is put together from slices of one line is one line.
-/
namespace InferenceRecorder.Json
variable {α : Type} {Item : α → List Char → Prop} {b : Bracket}

theorem Separated.slice {f : α → List Char} (hi : ∀ x t, Item x t → f x <:+: t) {t : List Char}
    {xs : List α} (h : Separated Item t xs) : ∀ x ∈ xs, f x <:+: t := by
  induction h with
  | one hx => simpa using hi _ _ hx
  | @cons x t v w s xs hx _ _ _ ih =>
    refine List.forall_mem_cons.2 ⟨(hi _ _ hx).trans (List.infix_append' [] t _), fun y hy => ?_⟩
    have hs : s <:+: t ++ (v ++ ',' :: (w ++ s)) := ⟨t ++ (v ++ ',' :: w), [], by simp⟩
    exact (ih y hy).trans hs

theorem Bracketed.slice {f : α → List Char} (hi : ∀ x t, Item x t → f x <:+: t) {t : List Char}
    {xs : List α} (h : Bracketed b Item t xs) : ∀ x ∈ xs, f x <:+: t := by
  cases h with
  | empty => simp
  | @items v t w _ _ _ hsep =>
    have ht : t <:+: b.opening :: (v ++ (t ++ (w ++ [b.closing]))) :=
      ⟨b.opening :: v, w ++ [b.closing], by simp⟩
    exact fun x hx => (hsep.slice hi x hx).trans ht

theorem ArrayText.slice {s : List Char} {elements : List Source} (h : ArrayText s elements) :
    ∀ v ∈ elements, v <:+: s := by
  obtain ⟨u, t, w, rfl, -, -, hb⟩ := h
  intro v hv
  have ht : v <:+: t := hb.slice (f := id) (fun _ _ hi => by rw [hi.1]; exact List.infix_rfl) v hv
  exact ht.trans ⟨u, w, by simp⟩

theorem ObjectText.slice {s : List Char} {members : List Member} (h : ObjectText s members) :
    ∀ m ∈ members, m.2 <:+: s := by
  obtain ⟨u, t, w, rfl, -, -, hb⟩ := h
  intro m hm
  have ht : m.2 <:+: t := by
    refine hb.slice (f := Prod.snd) ?_ m hm
    rintro m' _ ⟨k, v, w', rfl, -⟩
    exact ⟨'"' :: (k ++ '"' :: (v ++ ':' :: w')), [], by simp⟩
  exact ht.trans ⟨u, w, by simp⟩

theorem isControl_of_mem_escape {c d : Char} (h : d ∈ escape c) : isControl d = false := by
  have hletter : ∀ e, isControl e = false → d ∈ ['\\', e] → isControl d = false := by
    intro e he hd
    simp only [List.mem_cons, List.not_mem_nil, or_false] at hd
    rcases hd with rfl | rfl
    · decide
    · exact he
  unfold escape at h
  split_ifs at h with h1 h2 h3 h4 h5 h6 h7 h8
  · exact hletter _ (by decide) h
  · exact hletter _ (by decide) h
  · exact hletter _ (by decide) h
  · exact hletter _ (by decide) h
  · exact hletter _ (by decide) h
  · exact hletter _ (by decide) h
  · exact hletter _ (by decide) h
  · have hdigit : ∀ n < 16, isControl (Nat.digitChar n) = false := by decide
    have hc : c.toNat < 32 := toNat_lt_of_isControl h8
    simp only [List.mem_cons, List.not_mem_nil, or_false] at h
    rcases h with rfl | rfl | rfl | rfl | rfl | rfl
    · decide
    · decide
    · decide
    · decide
    · exact hdigit _ (by omega)
    · exact hdigit _ (by omega)
  · rw [List.mem_singleton.1 h]
    exact Bool.eq_false_iff.2 h8

section
variable {c : Char} (hc : isControl c = true)
include hc

theorem not_mem_quote (text : String) : c ∉ quote text := by
  have hq : c ≠ '"' := by
    rintro rfl
    cases hc
  have he : c ∉ text.toList.flatMap escape := by
    intro hm
    obtain ⟨d, -, hd⟩ := List.mem_flatMap.1 hm
    rw [isControl_of_mem_escape hd] at hc
    cases hc
  simp [quote, quoteChars, hq, he]

theorem not_mem_commaSeparated {items : List (List Char)} (h : ∀ item ∈ items, c ∉ item) :
    c ∉ commaSeparated items := by
  have hcomma : c ≠ ',' := by
    rintro rfl
    cases hc
  fun_induction commaSeparated items with
  | case1 => simp
  | case2 item => exact h item List.mem_cons_self
  | case3 item items _ ih =>
    obtain ⟨hi, hrest⟩ := List.forall_mem_cons.1 h
    simp [hi, hcomma, ih hrest]

theorem not_mem_array {elements : List Source} (h : ∀ v ∈ elements, c ∉ v) :
    c ∉ array elements := by
  have hb : c ≠ '[' ∧ c ≠ ']' := by constructor <;> rintro rfl <;> cases hc
  simp [array, hb, not_mem_commaSeparated hc h]

theorem not_mem_object {members : List Member} (h : ∀ m ∈ members, c ∉ m.2) :
    c ∉ object members := by
  have hb : c ≠ '{' ∧ c ≠ '}' := by constructor <;> rintro rfl <;> cases hc
  have hcolon : c ≠ ':' := by
    rintro rfl
    cases hc
  have hm : ∀ item ∈ members.map member, c ∉ item := by
    intro item hi
    obtain ⟨m, hm, rfl⟩ := List.mem_map.1 hi
    simp [member, not_mem_quote hc, hcolon, h m hm]
  simp [object, hb, not_mem_commaSeparated hc hm]

end

end InferenceRecorder.Json
