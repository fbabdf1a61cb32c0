import InferenceRecorder.Proofs.Runner.Roster
import Mathlib.Data.Finmap

/-!
Seen from outside, the two tables of a roster are one finite map: under each normal form stands a
value with the spelling that it is shown by. Whatever is called on a roster, the replies are those
of the map: `refines_plainMap`.
-/
namespace InferenceRecorder

abbrev PlainMap (α : Type) := Finmap fun _ : Runner => α × String

inductive EntryCall (α : Type) where
  | set (value : α)
  | get
  | modify (change : α → α)
  | upsert (init : α) (change : α → α)
  | spelling
  | delete

inductive RosterCall (α : Type) where
  | entry (runner : Runner) (call : EntryCall α)
  | iter
  | items
  | size
  | isEmpty

inductive RosterReply (α : Type) where
  | failed
  | done
  | value (held : Option α)
  | upserted (entry : Upserted α)
  | spelling (shown : Option String)
  /-- Entries come in no order of their own. -/
  | entries (held : Multiset (Runner × α))
  | size (number : Nat)
  | isEmpty (empty : Bool)

def transcript {α σ : Type} (step : σ → RosterCall α → RosterReply α × σ) (s : σ) :
    List (RosterCall α) → List (RosterReply α) × σ
  | [] => ([], s)
  | call :: calls =>
    let (replies, last) := transcript step (step s call).2 calls
    ((step s call).1 :: replies, last)

namespace PlainMap
variable {α : Type}

def values (m : PlainMap α) : Multiset (Runner × α) := m.entries.map fun e => (e.1, e.2.1)

def entryStep (key : Runner) (spelling : String) (m : PlainMap α) :
    EntryCall α → RosterReply α × PlainMap α
  | .set value => (.done, m.insert key (value, spelling))
  | .get => (.value ((m.lookup key).map Prod.fst), m)
  | .modify change =>
    match m.lookup key with
    | some (value, shown) => (.value (some (change value)), m.insert key (change value, shown))
    | none => (.value none, m)
  | .upsert init change =>
    match m.lookup key with
    | some (value, shown) =>
      (.upserted ⟨value, change value, false⟩, m.insert key (change value, shown))
    | none => (.upserted ⟨init, change init, true⟩, m.insert key (change init, spelling))
  | .spelling => (.spelling ((m.lookup key).map Prod.snd), m)
  | .delete => (.value ((m.lookup key).map Prod.fst), m.erase key)

def step (normalize : Normalizer) (m : PlainMap α) : RosterCall α → RosterReply α × PlainMap α
  | .entry runner call =>
    match runner.normal? normalize with
    | some key => m.entryStep key runner.model call
    | none => (.failed, m)
  | .iter => (.entries m.values, m)
  | .items => (.entries m.values, m)
  | .size => (.size m.keys.card, m)
  | .isEmpty => (.isEmpty (m.keys = ∅), m)

end PlainMap

namespace Roster
variable {α : Type} {roster : Roster α} {normalize : Normalizer} {m : PlainMap α}

def entryStep (runner : Runner) (roster : Roster α) : EntryCall α → RosterReply α × Roster α
  | .set value =>
    match roster.set runner value with
    | some after => (.done, after)
    | none => (.failed, roster)
  | .get =>
    match roster.get? runner with
    | some held => (.value held, roster)
    | none => (.failed, roster)
  | .modify change =>
    match roster.modify runner change with
    | some (held, after) => (.value held, after)
    | none => (.failed, roster)
  | .upsert init change =>
    match roster.upsert runner (some init) change with
    | (some entry, after) => (.upserted entry, after)
    | (none, after) => (.failed, after)
  | .spelling =>
    match roster.initialModel? runner with
    | some shown => (.spelling shown, roster)
    | none => (.failed, roster)
  | .delete =>
    match roster.delete runner with
    | some (held, after) => (.value held, after)
    | none => (.failed, roster)

def step (roster : Roster α) : RosterCall α → RosterReply α × Roster α
  | .entry runner call => roster.entryStep runner call
  | .iter => (.entries roster.entries, roster)
  | .items => (.entries roster.items, roster)
  | .size => (.size roster.size, roster)
  | .isEmpty => (.isEmpty roster.isEmpty, roster)

structure Represents (roster : Roster α) (normalize : Normalizer) (m : PlainMap α) : Prop where
  normalize : roster.normalize = normalize
  keys : roster.entries.keys.Nodup
  value : ∀ key, roster.entries.lookup key = (m.lookup key).map Prod.fst
  spelling : ∀ key, roster.spellings.lookup key = (m.lookup key).map Prod.snd

theorem Represents.empty (normalize : Normalizer) :
    (Roster.empty normalize : Roster α).Represents normalize ∅ :=
  ⟨rfl, .nil, fun _ => rfl, fun _ => rfl⟩

/-- A value put under a key, with a spelling, in both tables. -/
theorem Represents.put (h : roster.Represents normalize m) (key : Runner) (value : α)
    (shown : String) :
    ({ roster with
      entries := roster.entries.put key value
      spellings := roster.spellings.put key shown } : Roster α).Represents
        normalize (m.insert key (value, shown)) := by
  refine ⟨h.normalize, Table.nodup_keys_put h.keys, fun other => ?_, fun other => ?_⟩
  all_goals
    rw [Table.lookup_put]
    by_cases hk : key = other
    · subst hk
      simp
    · simp [hk, Finmap.lookup_insert_of_ne _ (Ne.symm hk), h.value, h.spelling]

/-- A new value where there is one already; its spelling stays as it is. -/
theorem Represents.change (h : roster.Represents normalize m) {key : Runner} {old : α}
    {shown : String} (hl : m.lookup key = some (old, shown)) (value : α) :
    ({ roster with entries := roster.entries.put key value } : Roster α).Represents
      normalize (m.insert key (value, shown)) := by
  refine ⟨h.normalize, Table.nodup_keys_put h.keys, fun other => ?_, fun other => ?_⟩
  · rw [Table.lookup_put]
    by_cases hk : key = other
    · subst hk
      simp
    · simp [hk, Finmap.lookup_insert_of_ne _ (Ne.symm hk), h.value]
  · by_cases hk : key = other
    · subst hk
      simp [h.spelling, hl]
    · simp [Finmap.lookup_insert_of_ne _ (Ne.symm hk), h.spelling]

theorem Represents.erase (h : roster.Represents normalize m) (key : Runner) :
    ({ roster with
      entries := roster.entries.erase key
      spellings := roster.spellings.erase key } : Roster α).Represents
        normalize (m.erase key) := by
  refine ⟨h.normalize, Table.nodup_keys_erase h.keys, fun other => ?_, fun other => ?_⟩
  all_goals
    rw [Table.lookup_erase]
    by_cases hk : key = other
    · subst hk
      simp
    · simp [hk, Finmap.lookup_erase_ne (Ne.symm hk), h.value, h.spelling]

theorem Represents.mem_keys_iff (h : roster.Represents normalize m) (key : Runner) :
    (key ∈ roster.entries.keys ↔ key ∈ m) ∧ (key ∈ roster.spellings.keys ↔ key ∈ m) := by
  constructor
  · rw [← Table.lookup_isSome_iff, h.value, Option.isSome_map, Finmap.lookup_isSome]
  · rw [← Table.lookup_isSome_iff, h.spelling, Option.isSome_map, Finmap.lookup_isSome]

theorem Represents.entries_eq (h : roster.Represents normalize m) :
    (roster.entries : Multiset (Runner × α)) = m.values := by
  have hr : (roster.entries : Multiset (Runner × α)).Nodup :=
    Multiset.coe_nodup.2 (List.Nodup.of_map Prod.fst h.keys)
  have hm : m.values.Nodup := by
    refine Multiset.Nodup.of_map Prod.fst ?_
    rw [PlainMap.values, Multiset.map_map]
    exact m.nodupKeys.nodup_keys
  refine (Multiset.Nodup.ext hr hm).2 ?_
  rintro ⟨key, value⟩
  rw [Multiset.mem_coe, Table.mem_iff_lookup h.keys, h.value]
  simp [PlainMap.values, ← Finmap.lookup_eq_some_iff]

theorem Represents.size_eq (h : roster.Represents normalize m) : roster.size = m.keys.card := by
  have hc := congrArg Multiset.card h.entries_eq
  simpa [PlainMap.values, Finmap.keys, Multiset.keys, Roster.size] using hc

theorem Represents.isEmpty_eq (h : roster.Represents normalize m) :
    roster.isEmpty = decide (m.keys = ∅) := by
  have hs := h.size_eq
  rw [Bool.eq_iff_iff, decide_eq_true_iff, ← Finset.card_eq_zero, ← hs, Roster.isEmpty,
    List.isEmpty_iff, Roster.size, List.length_eq_zero_iff]

/-- Under a normal form a call does to the tables what it does to the map. -/
theorem entryStep_refines (h : roster.Represents normalize m) {runner key : Runner}
    (hk : runner.normal? normalize = some key) (call : EntryCall α) :
    (roster.entryStep runner call).1 = (m.entryStep key runner.model call).1 ∧
      (roster.entryStep runner call).2.Represents normalize
        (m.entryStep key runner.model call).2 := by
  rw [← h.normalize] at hk
  have hv := h.value key
  cases call with
  | set value =>
    simp only [entryStep, PlainMap.entryStep, Roster.set, key?_eq, hk, Option.map_some]
    exact ⟨trivial, h.put key value runner.model⟩
  | get =>
    simp only [entryStep, PlainMap.entryStep, get?, key?_eq, hk, Option.map_some]
    exact ⟨congrArg _ hv, h⟩
  | modify change =>
    simp only [entryStep, PlainMap.entryStep, modify, key?_eq, hk, Option.map_some]
    cases hl : m.lookup key with
    | none =>
      rw [hl] at hv
      simp only [hv, Option.map_none]
      exact ⟨trivial, h⟩
    | some entry =>
      rw [hl] at hv
      simp only [hv, Option.map_some]
      exact ⟨trivial, h.change hl (change entry.1)⟩
  | upsert init change =>
    simp only [entryStep, PlainMap.entryStep, upsert, key?_eq, hk]
    cases hl : m.lookup key with
    | none =>
      rw [hl] at hv
      simp only [hv, Option.map_none]
      exact ⟨trivial, h.put key (change init) runner.model⟩
    | some entry =>
      rw [hl] at hv
      simp only [hv, Option.map_some]
      exact ⟨trivial, h.change hl (change entry.1)⟩
  | spelling =>
    simp only [entryStep, PlainMap.entryStep, initialModel?, key?_eq, hk, Option.map_some]
    exact ⟨congrArg _ (h.spelling key), h⟩
  | delete =>
    simp only [entryStep, PlainMap.entryStep, delete, key?_eq, hk, Option.map_some]
    exact ⟨congrArg _ hv, h.erase key⟩

/-- Without a normal form nothing is done. -/
theorem entryStep_failed {runner : Runner} (hk : runner.normal? roster.normalize = none)
    (call : EntryCall α) : roster.entryStep runner call = (.failed, roster) := by
  cases call <;>
    simp [entryStep, Roster.set, get?, modify, upsert, initialModel?, delete, key?_eq, hk]

theorem step_refines (h : roster.Represents normalize m) (call : RosterCall α) :
    (roster.step call).1 = (m.step normalize call).1 ∧
      (roster.step call).2.Represents normalize (m.step normalize call).2 := by
  cases call with
  | entry runner call =>
    cases hk : runner.normal? normalize with
    | none =>
      have hf := entryStep_failed (h.normalize ▸ hk) call
      simp only [step, PlainMap.step, hf, hk]
      exact ⟨trivial, h⟩
    | some key =>
      simp only [step, PlainMap.step, hk]
      exact entryStep_refines h hk call
  | iter => exact ⟨congrArg _ h.entries_eq, h⟩
  | items =>
    have hi : (roster.items : Multiset (Runner × α)) = roster.entries :=
      Multiset.coe_eq_coe.2 (List.mergeSort_perm _ _)
    exact ⟨congrArg _ (hi.trans h.entries_eq), h⟩
  | size => exact ⟨congrArg _ h.size_eq, h⟩
  | isEmpty => exact ⟨congrArg _ h.isEmpty_eq, h⟩

theorem transcript_refines (h : roster.Represents normalize m) (calls : List (RosterCall α)) :
    (transcript step roster calls).1 = (transcript (PlainMap.step normalize) m calls).1 ∧
      (transcript step roster calls).2.Represents normalize
        (transcript (PlainMap.step normalize) m calls).2 := by
  induction calls generalizing roster m with
  | nil => exact ⟨rfl, h⟩
  | cons call calls ih =>
    obtain ⟨hreply, hafter⟩ := step_refines h call
    obtain ⟨hreplies, hlast⟩ := ih hafter
    exact ⟨congrArg₂ List.cons hreply hreplies, hlast⟩

/-- Whatever is called on a roster, the replies are those of one finite map, and its two tables have
the same keys all along. -/
theorem refines_plainMap (normalize : Normalizer) (calls : List (RosterCall α)) :
    (transcript step (Roster.empty normalize) calls).1 =
        (transcript (PlainMap.step normalize) ∅ calls).1 ∧
      let roster := (transcript step (Roster.empty normalize) calls).2
      roster.Represents normalize (transcript (PlainMap.step normalize) ∅ calls).2 ∧
      (∀ key, key ∈ roster.spellings.keys ↔ key ∈ roster.entries.keys) ∧
      ∀ runner, (roster.initialModel? runner).map Option.isSome =
        (roster.get? runner).map Option.isSome := by
  obtain ⟨hreplies, h⟩ := transcript_refines (Represents.empty (α := α) normalize) calls
  refine ⟨hreplies, h, fun key => ?_, fun runner => ?_⟩
  · obtain ⟨hentries, hspellings⟩ := h.mem_keys_iff key
    exact hspellings.trans hentries.symm
  · rw [initialModel?, get?, Option.map_map, Option.map_map]
    congr 1
    funext key
    simp [h.value, h.spelling]

end Roster
end InferenceRecorder
