/-!
Tables as lists of keys and values, in the order in which the keys came. A key that is put again
keeps its place and takes the new value.
-/
namespace InferenceRecorder

abbrev Table (κ α : Type) := List (κ × α)

namespace Table

variable {κ α : Type} [DecidableEq κ]

def lookup (key : κ) : Table κ α → Option α
  | [] => none
  | (k, v) :: t => if k = key then some v else lookup key t

def put (key : κ) (value : α) : Table κ α → Table κ α
  | [] => [(key, value)]
  | (k, v) :: t => if k = key then (k, value) :: t else (k, v) :: put key value t

def erase (key : κ) (t : Table κ α) : Table κ α := t.filter fun m => m.1 ≠ key

def ofList (members : List (κ × α)) : Table κ α :=
  members.foldl (fun t m => t.put m.1 m.2) []

def keys (t : Table κ α) : List κ := t.map Prod.fst

theorem lookup_put_self (key : κ) (value : α) (t : Table κ α) :
    (t.put key value).lookup key = some value := by
  induction t with
  | nil => simp [put, lookup]
  | cons m t ih =>
    obtain ⟨k, v⟩ := m
    by_cases h : k = key
    · simp [put, lookup, h]
    · simpa [put, lookup, h] using ih

theorem lookup_put_ne {key other : κ} (h : other ≠ key) (value : α) (t : Table κ α) :
    (t.put key value).lookup other = t.lookup other := by
  induction t with
  | nil => simp [put, lookup, Ne.symm h]
  | cons m t ih =>
    obtain ⟨k, v⟩ := m
    by_cases hk : k = key
    · subst hk
      simp [put, lookup, Ne.symm h]
    · by_cases ho : k = other
      · subst ho
        simp [put, lookup, hk]
      · simpa [put, lookup, hk, ho] using ih

theorem lookup_erase_self (key : κ) (t : Table κ α) : (t.erase key).lookup key = none := by
  induction t with
  | nil => rfl
  | cons m t ih =>
    obtain ⟨k, v⟩ := m
    by_cases h : k = key
    · simpa [erase, h] using ih
    · simpa [erase, h, lookup] using ih

theorem lookup_erase_ne {key other : κ} (h : other ≠ key) (t : Table κ α) :
    (t.erase key).lookup other = t.lookup other := by
  induction t with
  | nil => rfl
  | cons m t ih =>
    obtain ⟨k, v⟩ := m
    by_cases hk : k = key
    · subst hk
      simpa [erase, lookup, Ne.symm h] using ih
    · by_cases ho : k = other
      · subst ho
        simp [erase, lookup, hk]
      · simpa [erase, lookup, hk, ho] using ih

end Table
end InferenceRecorder
