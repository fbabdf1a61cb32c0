import InferenceRecorder.Table
import Mathlib.Algebra.GroupWithZero.Nat
import Mathlib.Data.List.Basic
import Mathlib.Data.List.Forall2
import Mathlib.Data.List.Induction
import Mathlib.Data.List.Nodup

/-!
Tables key by key: what is looked up after a change, and what a list with repeated keys makes up.
-/
namespace InferenceRecorder.Table
variable {κ α : Type} [DecidableEq κ]

theorem lookup_put (key other : κ) (value : α) (t : Table κ α) :
    (t.put key value).lookup other = if key = other then some value else t.lookup other := by
  by_cases h : key = other
  · subst h
    rw [if_pos rfl, lookup_put_self]
  · rw [if_neg h, lookup_put_ne (Ne.symm h)]

theorem lookup_erase (key other : κ) (t : Table κ α) :
    (t.erase key).lookup other = if key = other then none else t.lookup other := by
  by_cases h : key = other
  · subst h
    rw [if_pos rfl, lookup_erase_self]
  · rw [if_neg h, lookup_erase_ne (Ne.symm h)]

theorem keys_put (key : κ) (value : α) (t : Table κ α) :
    (t.put key value).keys = if key ∈ t.keys then t.keys else t.keys ++ [key] := by
  induction t with
  | nil => simp [put, keys]
  | cons m t ih =>
    obtain ⟨k, v⟩ := m
    by_cases hk : k = key
    · simp [put, keys, hk]
    · have hk' : ¬key = k := fun h => hk h.symm
      simp only [keys] at ih
      by_cases hm : key ∈ t.map Prod.fst
      · simp [put, keys, hk, hk', hm, ih]
      · simp [put, keys, hk, hk', hm, ih]

/-- A key that is put again keeps its place. -/
theorem put_of_lookup {key : κ} {value : α} {t : Table κ α} (h : t.lookup key = some value)
    (other : α) : ∃ u w, t = u ++ (key, value) :: w ∧ (∀ m ∈ u, m.1 ≠ key) ∧
      t.put key other = u ++ (key, other) :: w := by
  induction t with
  | nil => cases h
  | cons m t ih =>
    obtain ⟨k, v⟩ := m
    rw [lookup] at h
    split_ifs at h with hk
    · cases h
      subst hk
      exact ⟨[], t, rfl, by simp, by simp [put]⟩
    · obtain ⟨u, w, rfl, hu, hput⟩ := ih h
      exact ⟨(k, v) :: u, w, rfl, List.forall_mem_cons.2 ⟨hk, hu⟩, by simp [put, hk, hput]⟩

theorem put_eq_self_iff {key : κ} {value : α} {t : Table κ α} :
    t.put key value = t ↔ t.lookup key = some value := by
  constructor
  · intro h
    rw [← h, lookup_put_self]
  · intro h
    obtain ⟨u, w, ht, -, hput⟩ := put_of_lookup h value
    rw [hput, ht]

theorem put_of_lookup_eq_none {key : κ} {t : Table κ α} (h : t.lookup key = none) (value : α) :
    t.put key value = t ++ [(key, value)] := by
  induction t with
  | nil => rfl
  | cons m t ih =>
    obtain ⟨k, v⟩ := m
    rw [lookup] at h
    split_ifs at h with hk
    rw [put, if_neg hk, ih h, List.cons_append]

theorem nodup_keys_put {key : κ} {value : α} {t : Table κ α} (h : t.keys.Nodup) :
    (t.put key value).keys.Nodup := by
  rw [keys_put]
  split
  next => exact h
  next hk =>
    refine List.nodup_append.2 ⟨h, by simp, ?_⟩
    intro a ha b hb hab
    rw [List.mem_singleton] at hb
    exact hk (hb ▸ hab ▸ ha)

theorem nodup_keys_erase {key : κ} {t : Table κ α} (h : t.keys.Nodup) :
    (t.erase key).keys.Nodup :=
  h.sublist (List.filter_sublist.map Prod.fst)

theorem lookup_eq_none_iff {key : κ} {t : Table κ α} : t.lookup key = none ↔ key ∉ t.keys := by
  induction t with
  | nil => simp [lookup, keys]
  | cons m t ih =>
    obtain ⟨k, v⟩ := m
    by_cases hk : k = key
    · simp [lookup, keys, hk]
    · simp only [keys] at ih
      have hk' : ¬key = k := fun h => hk h.symm
      simp [lookup, keys, hk, hk', ih]

/-- With no key repeated, an entry is what is looked up. -/
theorem lookup_of_mem {key : κ} {value : α} {t : Table κ α} (hn : t.keys.Nodup)
    (hm : (key, value) ∈ t) : t.lookup key = some value := by
  induction t with
  | nil => simp at hm
  | cons m t ih =>
    obtain ⟨k, v⟩ := m
    simp only [keys, List.map_cons, List.nodup_cons] at hn
    rcases List.mem_cons.1 hm with he | hm
    · cases he
      simp [lookup]
    · have hk : k ≠ key := by
        rintro rfl
        exact hn.1 (List.mem_map_of_mem (f := Prod.fst) hm)
      simp [lookup, hk, ih hn.2 hm]

theorem mem_of_lookup {key : κ} {value : α} {t : Table κ α} (h : t.lookup key = some value) :
    (key, value) ∈ t := by
  induction t with
  | nil => cases h
  | cons m t ih =>
    obtain ⟨k, v⟩ := m
    rw [lookup] at h
    split_ifs at h with hk
    · cases h
      subst hk
      exact List.mem_cons_self
    · exact List.mem_cons_of_mem _ (ih h)

theorem mem_iff_lookup {key : κ} {value : α} {t : Table κ α} (hn : t.keys.Nodup) :
    (key, value) ∈ t ↔ t.lookup key = some value :=
  ⟨lookup_of_mem hn, mem_of_lookup⟩

/-- With no key repeated, tables in which the same is looked up have the same entries. -/
theorem perm_of_lookup {a b : Table κ α} (ha : a.keys.Nodup) (hb : b.keys.Nodup)
    (h : ∀ key, a.lookup key = b.lookup key) : a.Perm b := by
  have hiff := List.perm_ext_iff_of_nodup (List.Nodup.of_map _ ha) (List.Nodup.of_map _ hb)
  refine hiff.2 fun m => ?_
  rw [mem_iff_lookup ha, mem_iff_lookup hb, h]

theorem lookup_cons (m : κ × α) (t : Table κ α) (key : κ) :
    lookup key (m :: t) = if m.1 = key then some m.2 else t.lookup key := rfl

theorem lookup_filter {p : κ × α → Bool} {key : κ} (hp : ∀ value, p (key, value) = true)
    (t : Table κ α) : lookup key (t.filter p) = lookup key t := by
  induction t with
  | nil => rfl
  | cons m t ih =>
    obtain ⟨k, v⟩ := m
    by_cases hm : p (k, v) = true
    · rw [List.filter_cons_of_pos hm, lookup_cons, lookup_cons, ih]
    · have hk : k ≠ key := fun hk => hm (hk ▸ hp v)
      rw [List.filter_cons_of_neg hm, lookup_cons, if_neg hk, ih]

/-- With no key repeated, an entry may be taken out and put in front. -/
theorem perm_cons_erase {key : κ} {value : α} {t : Table κ α} (hn : t.keys.Nodup)
    (h : t.lookup key = some value) : t.Perm ((key, value) :: t.erase key) := by
  have hout : key ∉ (t.erase key).keys := lookup_eq_none_iff.1 (lookup_erase_self key t)
  refine perm_of_lookup hn (List.nodup_cons.2 ⟨hout, nodup_keys_erase hn⟩) fun other => ?_
  rw [lookup_cons, lookup_erase]
  split_ifs with hk
  · rw [← hk, h]
  · rfl

theorem erase_of_lookup_eq_none {key : κ} {t : Table κ α} (h : t.lookup key = none) :
    t.erase key = t := by
  refine List.filter_eq_self.2 fun m hm => ?_
  have hk : m.1 ≠ key := fun hk =>
    lookup_eq_none_iff.1 h (hk ▸ List.mem_map_of_mem (f := Prod.fst) hm)
  simpa using hk

/-- A sum over the entries, with one of them apart. -/
theorem sum_eq_erase (f : κ × α → Nat) {t : Table κ α} (hn : t.keys.Nodup) (key : κ) :
    (t.map f).sum =
      ((t.erase key).map f).sum + ((t.lookup key).map fun value => f (key, value)).getD 0 := by
  cases h : t.lookup key with
  | none => simp [erase_of_lookup_eq_none h]
  | some value =>
    rw [((perm_cons_erase hn h).map f).sum_nat, List.map_cons, List.sum_cons, Nat.add_comm]
    rfl

/-- What is changed under one key changes a sum by the entries under it. -/
theorem sum_of_lookup_ne (f : κ × α → Nat) {t u : Table κ α} (ht : t.keys.Nodup)
    (hu : u.keys.Nodup) {key : κ} (h : ∀ other, other ≠ key → u.lookup other = t.lookup other) :
    (u.map f).sum + ((t.lookup key).map fun value => f (key, value)).getD 0 =
      (t.map f).sum + ((u.lookup key).map fun value => f (key, value)).getD 0 := by
  have hperm : (u.erase key).Perm (t.erase key) := by
    refine perm_of_lookup (nodup_keys_erase hu) (nodup_keys_erase ht) fun other => ?_
    rw [lookup_erase, lookup_erase]
    split_ifs with hk
    · rfl
    · exact h other (Ne.symm hk)
  rw [sum_eq_erase f hu key, sum_eq_erase f ht key, (hperm.map f).sum_nat]
  omega

theorem forall_mem_put {P : κ × α → Prop} {key : κ} {value : α} {t : Table κ α}
    (hv : P (key, value)) (ht : ∀ m ∈ t, P m) : ∀ m ∈ t.put key value, P m := by
  induction t with
  | nil => simpa [put] using hv
  | cons m t ih =>
    obtain ⟨k, v⟩ := m
    have ht' : ∀ m ∈ t, P m := fun m hm => ht m (List.mem_cons_of_mem _ hm)
    rw [put]
    split_ifs with hk
    · subst hk
      exact List.forall_mem_cons.2 ⟨hv, ht'⟩
    · exact List.forall_mem_cons.2 ⟨ht _ List.mem_cons_self, ih ht'⟩

def lastValue (key : κ) : List (κ × α) → Option α
  | [] => none
  | m :: members => (lastValue key members).or (if m.1 = key then some m.2 else none)

theorem lastValue_append (key : κ) (members more : List (κ × α)) :
    lastValue key (members ++ more) = (lastValue key more).or (lastValue key members) := by
  induction members with
  | nil => simp [lastValue]
  | cons m members ih => rw [List.cons_append, lastValue, ih, Option.or_assoc, lastValue]

/-- What is related entry by entry is related key by key. -/
theorem lastValue_forall₂ {β : Type} {R : α → β → Prop} {key : κ} {members : List (κ × α)}
    {others : List (κ × β)} (h : List.Forall₂ (fun m x => x.1 = m.1 ∧ R m.2 x.2) members others)
    {a : α} (ha : lastValue key members = some a) :
    ∃ b, lastValue key others = some b ∧ R a b := by
  have hr : Option.Rel R (lastValue key members) (lastValue key others) := by
    clear ha
    induction h with
    | nil => exact .none
    | @cons m x members others hx _ ih =>
      rw [lastValue, lastValue, hx.1]
      generalize lastValue key members = u at ih
      generalize lastValue key others = v at ih
      cases ih with
      | some hab => exact .some hab
      | none =>
        by_cases hk : m.1 = key
        · simpa [hk] using Option.Rel.some hx.2
        · simp [hk]
  rw [ha] at hr
  generalize lastValue key others = v at hr
  cases hr with
  | some hab => exact ⟨_, rfl, hab⟩

theorem lastValue_put_ne {key other : κ} (h : other ≠ key) (value : α) (t : Table κ α) :
    lastValue other (t.put key value) = lastValue other t := by
  induction t with
  | nil => simp [put, lastValue, h.symm]
  | cons m t ih =>
    obtain ⟨k, v⟩ := m
    rw [put]
    split_ifs with hk
    · subst hk
      simp [lastValue, h.symm]
    · rw [lastValue, lastValue, ih]

/-- With no key repeated, the last value of a key is its only one. -/
theorem lastValue_eq_lookup {t : Table κ α} (hn : t.keys.Nodup) (key : κ) :
    lastValue key t = t.lookup key := by
  induction t with
  | nil => rfl
  | cons m t ih =>
    obtain ⟨k, v⟩ := m
    obtain ⟨hk, hn⟩ := List.nodup_cons.1 hn
    rw [lastValue, lookup, ih hn]
    split_ifs with he
    · subst he
      rw [lookup_eq_none_iff.2 hk, Option.none_or]
    · exact Option.or_none

theorem ofList_concat (members : List (κ × α)) (m : κ × α) :
    ofList (members ++ [m]) = (ofList members).put m.1 m.2 := by
  simp [ofList]

/-- A repeated key keeps its last value. -/
theorem lookup_ofList (key : κ) (members : List (κ × α)) :
    (ofList members).lookup key = lastValue key members := by
  induction members using List.reverseRecOn with
  | nil => rfl
  | append_singleton members m ih =>
    rw [ofList_concat, lookup_put, lastValue_append, ih]
    by_cases hk : m.1 = key <;> simp [lastValue, hk]

/-- A repeated key keeps its first place. -/
theorem keys_ofList (members : List (κ × α)) :
    (ofList members).keys = (members.map Prod.fst).eraseDups := by
  induction members using List.reverseRecOn with
  | nil => rfl
  | append_singleton members m ih =>
    rw [ofList_concat, keys_put, ih, List.map_append, List.eraseDups_append]
    by_cases hm : m.1 ∈ members.map Prod.fst
    · rw [if_pos (List.mem_eraseDups.2 hm)]
      simp [List.removeAll, hm]
    · rw [if_neg (mt List.mem_eraseDups.1 hm)]
      simp [List.removeAll, hm, List.eraseDups_cons]

theorem lastValue_eq_none_iff {key : κ} {members : List (κ × α)} :
    lastValue key members = none ↔ key ∉ members.map Prod.fst := by
  rw [← lookup_ofList, lookup_eq_none_iff, keys_ofList, List.mem_eraseDups]

theorem lastValue_of_last {key : κ} {value : α} {before after : List (κ × α)}
    (h : key ∉ after.map Prod.fst) :
    lastValue key (before ++ (key, value) :: after) = some value := by
  simp [lastValue_append, lastValue, lastValue_eq_none_iff.2 h]

/-- A value with another key, or with the key again behind it, does not count. -/
theorem lastValue_beside {key other : κ} {before after : List (κ × α)}
    (h : other ≠ key ∨ key ∈ after.map Prod.fst) (value value' : α) :
    lastValue key (before ++ (other, value) :: after) =
      lastValue key (before ++ (other, value') :: after) := by
  simp only [lastValue_append, lastValue]
  rcases h with hne | hmem
  · rw [if_neg hne, if_neg hne]
  · obtain ⟨last, hlast⟩ :=
      Option.ne_none_iff_exists'.1 fun hn => lastValue_eq_none_iff.1 hn hmem
    simp [hlast]

theorem nodup_keys_ofList (members : List (κ × α)) : (ofList members).keys.Nodup := by
  induction members using List.reverseRecOn with
  | nil => exact List.nodup_nil
  | append_singleton members m ih =>
    rw [ofList_concat]
    exact nodup_keys_put ih

theorem forall_mem_ofList {P : κ × α → Prop} {members : List (κ × α)} (h : ∀ m ∈ members, P m) :
    ∀ m ∈ ofList members, P m := by
  induction members using List.reverseRecOn with
  | nil => simp [ofList]
  | append_singleton members m ih =>
    rw [ofList_concat]
    exact forall_mem_put (h m (by simp)) (ih fun m hm => h m (by simp [hm]))

theorem lookup_isSome_iff {key : κ} {t : Table κ α} : (t.lookup key).isSome ↔ key ∈ t.keys := by
  rw [← not_iff_not, Option.not_isSome_iff_eq_none, lookup_eq_none_iff]

end InferenceRecorder.Table
