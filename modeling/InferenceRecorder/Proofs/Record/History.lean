import InferenceRecorder.Record.Exchange
import Mathlib.Data.List.Forall2

/-! Appending to a history and answering in it. -/
namespace InferenceRecorder.History
variable {id response : String} {status : UInt16}

theorem fill_eq_none_iff {exchanges : List Exchange} :
    answer?.fill id response status exchanges = none ↔ ∀ e ∈ exchanges, e.id ≠ id := by
  induction exchanges with
  | nil => simp [answer?.fill]
  | cons e exchanges ih =>
    by_cases h : e.id = id
    · simp [answer?.fill, h]
    · simp [answer?.fill, h, ih]

theorem fill_eq_some {exchanges filled : List Exchange}
    (h : answer?.fill id response status exchanges = some filled) :
    ∃ u e v, exchanges = u ++ e :: v ∧ e.id = id ∧ (∀ x ∈ u, x.id ≠ id) ∧
      filled = u ++ { e with response := response, status := status } :: v := by
  induction exchanges generalizing filled with
  | nil => simp [answer?.fill] at h
  | cons e exchanges ih =>
    by_cases he : e.id = id
    · subst he
      simp only [answer?.fill, if_true, Option.some.injEq] at h
      exact ⟨[], e, exchanges, rfl, rfl, by simp, h.symm⟩
    · simp only [answer?.fill, he, if_false, Option.map_eq_some_iff] at h
      obtain ⟨more, hm, rfl⟩ := h
      obtain ⟨u, x, v, rfl, hx, hu, rfl⟩ := ih hm
      refine ⟨e :: u, x, v, rfl, hx, ?_, rfl⟩
      intro y hy
      rcases List.mem_cons.1 hy with rfl | hy
      · exact he
      · exact hu y hy

theorem answer?_eq_none_iff {h : History} :
    h.answer? id response status = none ↔ ∀ e ∈ h.exchanges, e.id ≠ id := by
  simp [answer?, fill_eq_none_iff]

theorem answer?_eq_some {h h' : History} (ha : h.answer? id response status = some h') :
    ∃ u e v, h.exchanges = u ++ e :: v ∧ e.id = id ∧ (∀ x ∈ u, x.id ≠ id) ∧
      h' = { h with exchanges := u ++ { e with response := response, status := status } :: v } := by
  obtain ⟨filled, hf, rfl⟩ := Option.map_eq_some_iff.1 ha
  obtain ⟨u, e, v, he, hi, hu, rfl⟩ := fill_eq_some hf
  exact ⟨u, e, v, he, hi, hu, rfl⟩

theorem fill_cons_eq {e : Exchange} (he : e.id = id) (exchanges : List Exchange) :
    answer?.fill id response status (e :: exchanges) =
      some ({ e with response := response, status := status } :: exchanges) := by
  rw [answer?.fill, if_pos he]

theorem fill_cons_ne {e : Exchange} (he : e.id ≠ id) (exchanges : List Exchange) :
    answer?.fill id response status (e :: exchanges) =
      (answer?.fill id response status exchanges).map (e :: ·) := by
  rw [answer?.fill, if_neg he]

theorem getD_fill_cons_ne {e : Exchange} (he : e.id ≠ id) (exchanges : List Exchange) :
    (answer?.fill id response status (e :: exchanges)).getD (e :: exchanges) =
      e :: (answer?.fill id response status exchanges).getD exchanges := by
  rw [fill_cons_ne he]
  cases answer?.fill id response status exchanges <;> rfl

/-- Which exchange an answer goes to does not depend on an answer to another id, before or after. -/
theorem fill_comm {id' response' : String} {status' : UInt16} (hid : id ≠ id')
    (exchanges : List Exchange) :
    answer?.fill id' response' status'
        ((answer?.fill id response status exchanges).getD exchanges) =
      (answer?.fill id' response' status' exchanges).map fun filled =>
        (answer?.fill id response status filled).getD filled := by
  induction exchanges with
  | nil => rfl
  | cons e exchanges ih =>
    by_cases he : e.id = id
    · have he' : e.id ≠ id' := fun h => hid (he.symm.trans h)
      rw [fill_cons_eq he, Option.getD_some, fill_cons_ne he', fill_cons_ne (by exact he'),
        Option.map_map]
      congr 1
      funext filled
      rw [Function.comp_apply, fill_cons_eq he, Option.getD_some]
    · rw [getD_fill_cons_ne he]
      by_cases he' : e.id = id'
      · rw [fill_cons_eq he', fill_cons_eq he', Option.map_some, getD_fill_cons_ne (by exact he)]
      · rw [fill_cons_ne he', fill_cons_ne he', ih, Option.map_map, Option.map_map]
        congr 1
        funext filled
        exact (getD_fill_cons_ne he filled).symm

theorem answer?_comm {id' response' : String} {status' : UInt16} (hid : id ≠ id') (h : History) :
    ((h.answer? id response status).getD h).answer? id' response' status' =
      (h.answer? id' response' status').map fun filled =>
        (filled.answer? id response status).getD filled := by
  have hgetD : ∀ exchanges,
      ((answer?.fill id response status exchanges).map fun x => { h with exchanges := x }).getD
        { h with exchanges := exchanges } =
      { h with exchanges := (answer?.fill id response status exchanges).getD exchanges } := by
    intro exchanges
    cases answer?.fill id response status exchanges <;> rfl
  simp only [answer?, hgetD, fill_comm hid, Option.map_map, Function.comp_def]

/-- What does not look at the response of an exchange still holds after an answer. -/
theorem forall₂_answer? {β : Type} {R : β → Exchange → Prop}
    (hR : ∀ b e, R b e → R b { e with response := response, status := status })
    {h h' : History} (ha : h.answer? id response status = some h') {bs : List β}
    (hb : List.Forall₂ R bs h.exchanges) : List.Forall₂ R bs h'.exchanges := by
  obtain ⟨u, e, v, he, -, -, rfl⟩ := answer?_eq_some ha
  rw [he] at hb
  clear ha he
  induction u generalizing bs with
  | nil =>
    cases hb with
    | cons hd tl => exact .cons (hR _ _ hd) tl
  | cons x u ih =>
    cases hb with
    | cons hd tl => exact .cons hd (ih tl)

def lastly {α : Type} (n : Nat) (xs : List α) : List α := xs.drop (xs.length - n)

theorem length_lastly {α : Type} (n : Nat) (xs : List α) :
    (lastly n xs).length = min xs.length n := by
  simp only [lastly, List.length_drop]
  omega

theorem lastly_lastly_concat {α : Type} (n : Nat) (xs : List α) (x : α) :
    lastly n (lastly n xs ++ [x]) = lastly n (xs ++ [x]) := by
  have hx : xs.length - n ≤ xs.length := Nat.sub_le _ _
  simp only [lastly]
  rw [← List.drop_append_of_le_length hx, List.drop_drop]
  congr 1
  simp only [List.length_drop, List.length_append, List.length_singleton]
  omega

theorem exchanges_append (capacity : Nat) (e : Exchange) (h : History) :
    (h.append capacity e).exchanges = lastly capacity (h.exchanges ++ [e]) := rfl

theorem forall₂_lastly {α β : Type} {R : α → β → Prop} {xs : List α} {ys : List β} (n : Nat)
    (h : List.Forall₂ R xs ys) : List.Forall₂ R (lastly n xs) (lastly n ys) := by
  simp only [lastly, h.length_eq]
  exact List.forall₂_drop _ h

end InferenceRecorder.History
