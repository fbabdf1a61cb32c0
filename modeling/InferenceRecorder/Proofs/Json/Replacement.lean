import InferenceRecorder.Proofs.Json.Legible

/-!
One value inside a text in place of another one. The text stays legible exactly if the new value is
legible with the brackets that are left to it, `Replaces.legible_iff`; what is written at a path
stays there if the value stands beside the path, `ReplacesBeside.standsAt`.
-/
namespace InferenceRecorder.Json
variable {old new s s' : Source} {place : List (Option String)}

/-- The second text has the new value where the first one has the old value, and is the same but for
blanks and the spelling of keys elsewhere. The place tells for each of the brackets around the value
the key that it stands under, none for an element. -/
inductive Replaces (old new : Source) : List (Option String) → Source → Source → Prop
  | here : Replaces old new [] old new
  | element {place : List (Option String)} {s s' v v' : Source} {before after : List Source} :
    ArrayText s (before ++ v :: after) → ArrayText s' (before ++ v' :: after) →
    Replaces old new place v v' → Replaces old new (none :: place) s s'
  | member {place : List (Option String)} {s s' v v' : Source} {key : String}
    {before after : List Member} :
    ObjectText s (before ++ (key, v) :: after) → ObjectText s' (before ++ (key, v') :: after) →
    Replaces old new place v v' → Replaces old new (some key :: place) s s'

inductive Step
  | first
  /-- To a member of an object, of repeated keys the last. -/
  | key (name : String)

inductive StandsAt (v : Source) : List Step → Source → Prop
  | here : StandsAt v [] v
  | first {path : List Step} {s t : Source} : HasFirst s t → StandsAt v path t →
    StandsAt v (.first :: path) s
  | key {path : List Step} {s t : Source} {name : String} : HasMember s name t →
    StandsAt v path t → StandsAt v (.key name :: path) s

inductive ReplacesBeside (old new : Source) :
    List Step → List (Option String) → Source → Source → Prop
  | element {path : List Step} {place : List (Option String)} {s s' first v v' : Source}
    {before after : List Source} : ArrayText s (first :: (before ++ v :: after)) →
    ArrayText s' (first :: (before ++ v' :: after)) → Replaces old new place v v' →
    ReplacesBeside old new (.first :: path) (none :: place) s s'
  | first {path : List Step} {place : List (Option String)} {s s' v v' : Source}
    {others : List Source} : ArrayText s (v :: others) → ArrayText s' (v' :: others) →
    ReplacesBeside old new path place v v' →
    ReplacesBeside old new (.first :: path) (none :: place) s s'
  | member {path : List Step} {place : List (Option String)} {s s' v v' : Source}
    {name key : String} {before after : List Member} :
    ObjectText s (before ++ (key, v) :: after) → ObjectText s' (before ++ (key, v') :: after) →
    (key ≠ name ∨ name ∈ after.map Prod.fst) → Replaces old new place v v' →
    ReplacesBeside old new (.key name :: path) (some key :: place) s s'
  | key {path : List Step} {place : List (Option String)} {s s' v v' : Source} {name : String}
    {before after : List Member} : ObjectText s (before ++ (name, v) :: after) →
    ObjectText s' (before ++ (name, v') :: after) → name ∉ after.map Prod.fst →
    ReplacesBeside old new path place v v' →
    ReplacesBeside old new (.key name :: path) (some name :: place) s s'

theorem ReplacesBeside.replaces {path : List Step} (h : ReplacesBeside old new path place s s') :
    Replaces old new place s s' := by
  induction h with
  | @element _ place s s' first v v' before after hs hs' h =>
    exact @Replaces.element old new place s s' v v' (first :: before) after hs hs' h
  | @first _ place s s' v v' others hs hs' _ ih =>
    exact @Replaces.element old new place s s' v v' [] others hs hs' ih
  | member hs hs' _ h => exact .member hs hs' h
  | key hs hs' _ _ ih => exact .member hs hs' ih

theorem holdsSpelling_member (before after : List Member) (key : String) (v v' : Source) :
    holdsSpelling (before ++ (key, v) :: after) = holdsSpelling (before ++ (key, v') :: after) := by
  cases before <;> rfl

/-- What holds of all, with one of them replaced, depends on the new one. -/
theorem forall_mem_replaced {α : Type} {P : α → Prop} {before after : List α} {a b : α}
    (h : ∀ x ∈ before ++ a :: after, P x) : (∀ x ∈ before ++ b :: after, P x) ↔ P b := by
  obtain ⟨hbefore, hafter⟩ := List.forall_mem_append.1 h
  have hrest := (List.forall_mem_cons.1 hafter).2
  rw [List.forall_mem_append, List.forall_mem_cons]
  exact ⟨fun hb => hb.2.1, fun hb => ⟨hbefore, hb, hrest⟩⟩

/-- A legible text in which one value is replaced stays legible exactly if the new value is legible
with the brackets that are left to it. -/
theorem Replaces.legible_iff {depth : Nat} (h : Replaces old new place s s')
    (hp : some spellingKey ∉ place) (hl : Legible depth s) :
    Legible depth s' ↔ Legible (depth - place.length) new := by
  -- from the outside in: each of the brackets takes a level, and what stands beside is legible
  induction h generalizing depth with
  | here => rfl
  | element hs hs' _ ih =>
    obtain ⟨d, rfl, hall⟩ := hs.legible_iff.1 hl
    have hp := List.not_mem_of_not_mem_cons hp
    simp only [hs'.legible_iff, Nat.add_right_cancel_iff, exists_eq_left', forall_mem_replaced hall,
      List.length_cons, Nat.add_sub_add_right]
    exact ih hp (hall _ (by simp))
  | @member _ s s' v v' key before after hs hs' _ ih =>
    have hkey := List.ne_of_not_mem_cons hp
    have hp := List.not_mem_of_not_mem_cons hp
    have hno : holdsSpelling (before ++ (key, v) :: after) = false := by
      refine Bool.eq_false_iff.2 fun hspelling => hkey ?_
      obtain ⟨_, he⟩ := hs.eq_spelling hspelling hl
      cases before <;> simp_all
    have hno' := (holdsSpelling_member before after key v v').symm.trans hno
    obtain ⟨d, rfl, hall⟩ := (hs.legible_iff hno).1 hl
    have hreplaced := @forall_mem_replaced _ (fun m : Member => Legible d m.2) _ _ _ (key, v') hall
    simp only [hs'.legible_iff hno', Nat.add_right_cancel_iff, exists_eq_left', hreplaced,
      List.length_cons, Nat.add_sub_add_right]
    exact ih hp (hall (key, v) (by simp))

/-- What stands at the path is not touched by what is replaced beside it. -/
theorem ReplacesBeside.standsAt {path : List Step} {v : Source}
    (h : ReplacesBeside old new path place s s') (hv : StandsAt v path s) : StandsAt v path s' := by
  induction h with
  | element hs hs' _ =>
    cases hv with
    | first hf hv =>
      cases hf.unique ⟨_, hs⟩
      exact .first ⟨_, hs'⟩ hv
  | first hs hs' _ ih =>
    cases hv with
    | first hf hv =>
      cases hf.unique ⟨_, hs⟩
      exact .first ⟨_, hs'⟩ (ih hv)
  | member hs hs' hbeside _ =>
    cases hv with
    | key hm hv =>
      obtain ⟨members, ho, hlast⟩ := hm
      cases ho.unique hs
      rw [Table.lastValue_beside hbeside] at hlast
      exact .key ⟨_, hs', hlast⟩ hv
  | key hs hs' hlast _ ih =>
    cases hv with
    | key hm hv =>
      cases hm.unique ⟨_, hs, Table.lastValue_of_last hlast⟩
      exact .key ⟨_, hs', Table.lastValue_of_last hlast⟩ (ih hv)

end InferenceRecorder.Json
