import InferenceRecorder.Proofs.Table
import InferenceRecorder.Runner.Roster

/-!
The calls on a roster, each by what it looks up and puts under the normal form of the runner.
-/
namespace InferenceRecorder

def Normalizer.total (f : String → String) : Normalizer := fun model => some (f model)

def Runner.normal? (normalize : Normalizer) (runner : Runner) : Option Runner :=
  (normalize runner.model).map fun model => { runner with model := model }

namespace Roster
variable {α : Type} {roster roster' : Roster α} {runner : Runner} {init : Option α}
  {change : α → α}

theorem key?_eq (roster : Roster α) (runner : Runner) :
    roster.key? runner = runner.normal? roster.normalize := rfl

theorem upsert_some {u : Upserted α} (h : roster.upsert runner init change = (some u, roster')) :
    ∃ key, runner.normal? roster.normalize = some key ∧
      (roster.entries.lookup key = some u.before ∨
        roster.entries.lookup key = none ∧ init = some u.before) ∧
      u.after = change u.before ∧ roster'.normalize = roster.normalize ∧
      roster'.entries = roster.entries.put key u.after := by
  unfold upsert at h
  rw [key?_eq] at h
  cases hk : runner.normal? roster.normalize with
  | none => simp [hk] at h
  | some key =>
    cases hl : roster.entries.lookup key with
    | some value =>
      simp only [hk, hl, Prod.mk.injEq, Option.some.injEq] at h
      obtain ⟨rfl, rfl⟩ := h
      exact ⟨key, rfl, .inl hl, rfl, rfl, rfl⟩
    | none =>
      cases init with
      | none => simp [hk, hl] at h
      | some value =>
        simp only [hk, hl, Prod.mk.injEq, Option.some.injEq] at h
        obtain ⟨rfl, rfl⟩ := h
        exact ⟨key, rfl, .inr ⟨hl, rfl⟩, rfl, rfl, rfl⟩

theorem upsert_none (h : roster.upsert runner init change = (none, roster')) :
    roster'.normalize = roster.normalize ∧ roster'.entries = roster.entries := by
  unfold upsert at h
  split at h
  · simp only [Prod.mk.injEq, true_and] at h
    simp [← h]
  · split at h
    · simp at h
    · split at h
      · simp only [Prod.mk.injEq, true_and] at h
        simp [← h]
      · simp at h

theorem delete_some {held : Option α} (h : roster.delete runner = some (held, roster')) :
    ∃ key, runner.normal? roster.normalize = some key ∧ roster.entries.lookup key = held ∧
      roster'.normalize = roster.normalize ∧ roster'.entries = roster.entries.erase key := by
  obtain ⟨key, hk, he⟩ := Option.map_eq_some_iff.1 h
  simp only [Prod.mk.injEq] at he
  obtain ⟨rfl, rfl⟩ := he
  exact ⟨key, hk, rfl, rfl, rfl⟩

theorem lookup_upsert {u : Upserted α} {start : α} (hi : ∀ value, init = some value → value = start)
    (h : roster.upsert runner init change = (some u, roster')) (key : Runner) :
    roster'.entries.lookup key =
      if runner.normal? roster.normalize = some key then
        some (change ((roster.entries.lookup key).getD start))
      else roster.entries.lookup key := by
  obtain ⟨own, hk, hb, ha, -, he⟩ := upsert_some h
  rw [he, hk, Table.lookup_put]
  by_cases hkey : own = key
  · subst hkey
    rcases hb with hb | ⟨hb, hs⟩
    · simp [hb, ha]
    · simp [hb, hi _ hs, ha]
  · simp [hkey]

end Roster
end InferenceRecorder
