import InferenceRecorder.Proofs.Recorder.Locality
import InferenceRecorder.Proofs.Runner.PlainMap

/-!
Entries that cannot be made. An upsert notes the spelling of a new entry before it asks for the
initial value. Where there is none the spelling stays behind, until its key is set, made or deleted.
But for such leftovers the roster is still a finite map, to which the upsert did nothing:
`unmade_entry_leaves_spelling`.
-/
namespace InferenceRecorder

/-- A call on a roster, or an upsert for which no initial value can be made. -/
inductive Attempt (α : Type) where
  | call (made : RosterCall α)
  | unmade (runner : Runner) (change : α → α)

namespace EntryCall
variable {α : Type}

def settles : EntryCall α → Bool
  | .set _ | .upsert _ _ | .delete => true
  | _ => false

def shown? (held : Bool) (model : String) (shown : Option String) : EntryCall α → Option String
  | .set _ => some model
  | .upsert _ _ => if held then shown else some model
  | .delete => none
  | _ => shown

theorem shown?_of_not_settles {call : EntryCall α} (h : call.settles = false) (held : Bool)
    (model : String) (shown : Option String) : call.shown? held model shown = shown := by
  cases call with
  | get | modify | spelling => rfl
  | set | upsert | delete => cases h

/-- Where an entry stands its own spelling counts, and a call that settles the key leaves no
other. -/
theorem shown?_or {call : EntryCall α} (h : call.settles = true) {held : Bool} (model : String)
    {shown : Option String} (hs : held = true → shown.isSome = true) (left : Option String) :
    call.shown? held model (shown.or left) = call.shown? held model shown := by
  cases call with
  | set | delete => rfl
  | upsert init change =>
    cases held with
    | false => rfl
    | true =>
      obtain ⟨name, rfl⟩ := Option.isSome_iff_exists.1 (hs rfl)
      rfl
  | get | modify | spelling => cases h

end EntryCall

namespace Attempt
variable {α : Type}

def runner? : Attempt α → Option Runner
  | .call (.entry runner made) => if made.settles then some runner else none
  | .call _ => none
  | .unmade runner _ => some runner

def Hits (normalize : Normalizer) (key : Runner) (attempt : Attempt α) : Prop :=
  attempt.runner?.bind (Runner.normal? normalize) = some key

instance (normalize : Normalizer) (key : Runner) (attempt : Attempt α) :
    Decidable (attempt.Hits normalize key) :=
  inferInstanceAs (Decidable (_ = _))

def noted? : Attempt α → Option String
  | .call _ => none
  | .unmade runner _ => some runner.model

/-- The spelling that is left under a key, if no entry stands there: the last attempt on the key was
to make one, and there was no initial value. -/
def leftover? (normalize : Normalizer) (attempts : List (Attempt α)) (key : Runner) :
    Option String :=
  (attempts.filter (·.Hits normalize key)).getLast?.bind noted?

theorem leftover?_concat (normalize : Normalizer) (attempts : List (Attempt α))
    (attempt : Attempt α) (key : Runner) : leftover? normalize (attempts ++ [attempt]) key =
      if attempt.Hits normalize key then attempt.noted? else leftover? normalize attempts key := by
  unfold leftover?
  split_ifs with h <;> simp [List.filter_append, h]

end Attempt

namespace PlainMap
variable {α : Type}

def attempt (normalize : Normalizer) (m : PlainMap α) : Attempt α → PlainMap α
  | .call made => (m.step normalize made).2
  | .unmade runner change =>
    match runner.normal? normalize with
    | some key =>
      match m.lookup key with
      | some (value, shown) => m.insert key (change value, shown)
      | none => m
    | none => m

def after (normalize : Normalizer) (m : PlainMap α) (attempts : List (Attempt α)) : PlainMap α :=
  attempts.foldl (attempt normalize) m

end PlainMap

namespace Roster
variable {α : Type} {roster : Roster α} {normalize : Normalizer} {m : PlainMap α}
  {left : Runner → Option String}

def attempt (roster : Roster α) : Attempt α → Roster α
  | .call made => (roster.step made).2
  | .unmade runner change => (roster.upsert runner none change).2

def after (roster : Roster α) (attempts : List (Attempt α)) : Roster α :=
  attempts.foldl attempt roster

def respelled (roster : Roster α) (spellings : Table Runner String) : Roster α :=
  { roster with spellings := spellings }

structure Covers (roster : Roster α) (normalize : Normalizer) (m : PlainMap α)
    (left : Runner → Option String) : Prop where
  entries : ∃ spellings, (roster.respelled spellings).Represents normalize m
  spelling : ∀ key,
    roster.spellings.lookup key = ((m.lookup key).map Prod.snd).or (left key)

/-- What a call does to the entries does not depend on the spellings, nor does its reply, unless it
asks for one. -/
theorem step_respelled (roster : Roster α) (spellings : Table Runner String)
    (call : RosterCall α) :
    ((roster.respelled spellings).step call).2 =
        (roster.step call).2.respelled ((roster.respelled spellings).step call).2.spellings ∧
      ((∀ runner, call ≠ .entry runner .spelling) →
        (roster.step call).1 = ((roster.respelled spellings).step call).1) := by
  cases call with
  | iter | items | size | isEmpty => exact ⟨rfl, fun _ => rfl⟩
  | entry runner call =>
    have hkey : (roster.respelled spellings).key? runner = roster.key? runner := rfl
    have hentries : (roster.respelled spellings).entries = roster.entries := rfl
    cases hk : roster.key? runner with
    | none =>
      rw [hk] at hkey
      rw [key?_eq] at hk hkey
      simp only [step, entryStep_failed hk, entryStep_failed hkey]
      exact ⟨rfl, fun _ => trivial⟩
    | some key =>
      rw [hk] at hkey
      cases call with
      | set value | get | delete =>
        simp only [step, entryStep, Roster.set, get?, delete, hk, hkey]
        exact ⟨rfl, fun _ => rfl⟩
      | modify change | upsert init change =>
        simp only [step, entryStep, modify, upsert, hk, hkey, hentries, Option.map_some]
        cases roster.entries.lookup key <;> exact ⟨rfl, fun _ => rfl⟩
      | spelling =>
        simp only [step, entryStep, initialModel?, hk, hkey]
        exact ⟨rfl, fun h => absurd rfl (h runner)⟩

/-- The spelling under a key after a call. -/
theorem spellings_entryStep (roster : Roster α) (runner : Runner) (call : EntryCall α)
    (key : Runner) : (roster.entryStep runner call).2.spellings.lookup key =
      if runner.normal? roster.normalize = some key then
        call.shown? (roster.entries.lookup key).isSome runner.model
          (roster.spellings.lookup key)
      else roster.spellings.lookup key := by
  cases hk : runner.normal? roster.normalize with
  | none => simp [entryStep_failed hk]
  | some own =>
    simp only [Option.some.injEq]
    cases call with
    | set value =>
      simp only [entryStep, Roster.set, key?_eq, hk, Option.map_some, Table.lookup_put]
      rfl
    | get | spelling =>
      simp only [entryStep, get?, initialModel?, key?_eq, hk, Option.map_some]
      exact (ite_self _).symm
    | modify change =>
      simp only [entryStep, modify, key?_eq, hk, Option.map_some]
      cases roster.entries.lookup own <;> exact (ite_self _).symm
    | upsert init change =>
      have hafter : (roster.entryStep runner (.upsert init change)).2 =
          (roster.upsert runner (some init) change).2 := by
        rw [entryStep]
        split <;> simp_all
      rw [hafter, spellings_upsert, hk]
      simp only [Option.some.injEq]
      rfl
    | delete =>
      simp only [entryStep, delete, key?_eq, hk, Option.map_some, Table.lookup_erase]
      rfl

theorem Covers.empty (normalize : Normalizer) :
    (Roster.empty normalize : Roster α).Covers normalize ∅ (fun _ => none) :=
  ⟨⟨[], .empty normalize⟩, fun _ => rfl⟩

theorem Covers.normalize_eq (h : roster.Covers normalize m left) :
    roster.normalize = normalize := by
  obtain ⟨spellings, hr⟩ := h.entries
  exact hr.normalize

theorem Covers.value (h : roster.Covers normalize m left) (key : Runner) :
    roster.entries.lookup key = (m.lookup key).map Prod.fst := by
  obtain ⟨spellings, hr⟩ := h.entries
  exact hr.value key

theorem Covers.call (h : roster.Covers normalize m left) (made : RosterCall α) :
    (roster.step made).2.Covers normalize (m.step normalize made).2
      fun key => if (Attempt.call made).Hits normalize key then none else left key := by
  obtain ⟨spellings, hr⟩ := h.entries
  have hafter := (step_refines hr made).2
  refine ⟨⟨_, (roster.step_respelled spellings made).1 ▸ hafter⟩, fun key => ?_⟩
  have hs : roster.spellings.lookup key = (spellings.lookup key).or (left key) :=
    (h.spelling key).trans (congrArg (Option.or · _) (hr.spelling key).symm)
  rw [← hafter.spelling key]
  cases made with
  | iter | items | size | isEmpty =>
    rw [if_neg nofun]
    exact hs
  | entry runner call =>
    have hheld : (roster.entries.lookup key).isSome = true →
        (spellings.lookup key).isSome = true := by
      have hshown : spellings.lookup key = (m.lookup key).map Prod.snd := hr.spelling key
      simp [h.value key, hshown]
    have hown := (roster.respelled spellings).spellings_entryStep runner call key
    simp only [step] at hown ⊢
    rw [spellings_entryStep, hown, h.normalize_eq, hr.normalize, hs]
    cases hc : call.settles with
    | false =>
      have hno : ¬(Attempt.call (.entry runner call)).Hits normalize key := by
        simp [Attempt.Hits, Attempt.runner?, hc]
      simp only [if_neg hno, call.shown?_of_not_settles hc, ite_self]
      rfl
    | true =>
      have hhits : (Attempt.call (.entry runner call)).Hits normalize key ↔
          runner.normal? normalize = some key := by
        simp [Attempt.Hits, Attempt.runner?, hc]
      by_cases hk : runner.normal? normalize = some key
      · simp only [if_pos hk, if_pos (hhits.2 hk), Option.or_none]
        exact call.shown?_or hc runner.model hheld (left key)
      · simp only [if_neg hk, if_neg (mt hhits.1 hk)]
        rfl

/-- Without an initial value the spelling is noted all the same, and nothing else is done. -/
theorem Covers.unmade (h : roster.Covers normalize m left) (runner : Runner) (change : α → α) :
    (roster.upsert runner none change).2.Covers normalize
      (m.attempt normalize (.unmade runner change))
      fun key => if runner.normal? normalize = some key then some runner.model else left key := by
  obtain ⟨spellings, hr⟩ := h.entries
  obtain rfl := h.normalize_eq
  cases hk : runner.normal? roster.normalize with
  | none =>
    simp only [upsert, key?_eq, PlainMap.attempt, hk]
    exact ⟨⟨spellings, hr⟩, fun key => by simpa using h.spelling key⟩
  | some own =>
    have hv := h.value own
    simp only [upsert, key?_eq, PlainMap.attempt, hk]
    cases hl : m.lookup own with
    | some entry =>
      obtain ⟨value, shown⟩ := entry
      rw [hl] at hv
      simp only [hv, Option.map_some]
      refine ⟨⟨spellings, hr.change hl (change value)⟩, fun key => ?_⟩
      rw [h.spelling key]
      by_cases hkey : own = key
      · subst hkey
        simp [hl]
      · simp [hkey, Finmap.lookup_insert_of_ne _ (Ne.symm hkey)]
    | none =>
      rw [hl] at hv
      simp only [hv, Option.map_none]
      refine ⟨⟨spellings, hr⟩, fun key => ?_⟩
      rw [Table.lookup_put]
      by_cases hkey : own = key
      · subst hkey
        simp [hl]
      · simpa [hkey] using h.spelling key

theorem Covers.attempt (h : roster.Covers normalize m left) (attempt : Attempt α) :
    (roster.attempt attempt).Covers normalize (m.attempt normalize attempt)
      fun key => if attempt.Hits normalize key then attempt.noted? else left key := by
  cases attempt with
  | call made => exact h.call made
  | unmade runner change => exact h.unmade runner change

/-- After any attempts the roster is the map that they make, beside the spellings that are left. -/
theorem covers_after (normalize : Normalizer) (attempts : List (Attempt α)) :
    ((Roster.empty normalize).after attempts).Covers normalize (PlainMap.after normalize ∅ attempts)
      (Attempt.leftover? normalize attempts) := by
  induction attempts using List.reverseRecOn with
  | nil => exact .empty normalize
  | append_singleton attempts attempt ih =>
    have hleft : Attempt.leftover? normalize (attempts ++ [attempt]) = fun key =>
        if attempt.Hits normalize key then attempt.noted?
        else Attempt.leftover? normalize attempts key :=
      funext fun key => Attempt.leftover?_concat normalize attempts attempt key
    rw [hleft, Roster.after, PlainMap.after, List.foldl_concat, List.foldl_concat]
    exact ih.attempt attempt

/-- A spelling is shown without an entry exactly where one is left. -/
theorem Covers.isSome_initialModel?_iff (h : roster.Covers normalize m left) (runner : Runner) :
    (roster.initialModel? runner).map Option.isSome = (roster.get? runner).map Option.isSome ↔
      ∀ key, runner.normal? normalize = some key → key ∉ m → left key = none := by
  rw [initialModel?, get?, key?_eq, h.normalize_eq]
  cases hk : runner.normal? normalize with
  | none => simp
  | some own =>
    simp only [Option.map_some, Option.some.injEq, forall_eq', h.value own, h.spelling own,
      ← Finmap.lookup_eq_none]
    cases m.lookup own <;> simp

/-- What an upsert does to which neither an entry nor an initial value comes. -/
theorem upsert_unmade (roster : Roster α) (runner : Runner) (change : α → α)
    (hfree : ∀ key, runner.normal? roster.normalize = some key →
      roster.entries.lookup key = none) :
    roster.upsert runner none change = (none,
      match runner.normal? roster.normalize with
      | some key => roster.respelled (roster.spellings.put key runner.model)
      | none => roster) := by
  rw [upsert, key?_eq]
  cases hk : runner.normal? roster.normalize with
  | none => rfl
  | some key =>
    simp only [hfree key hk]
    rfl

theorem respelled_eq_self_iff {spellings : Table Runner String} :
    roster.respelled spellings = roster ↔ spellings = roster.spellings :=
  ⟨fun h => congrArg Roster.spellings h, fun h => h ▸ rfl⟩

/-- After any attempts, upserts without an initial value among them, the entries are those of the
map to which such upserts do nothing, and so is the reply to every call that does not ask for a
spelling. Beside the spellings of the map stand the ones that are left; so a spelling is shown for
what has no entry exactly where one is left. Another upsert without an entry or an initial value
leaves the entries and the spellings of others as they are and notes its own: it leaves the roster
as it is exactly if this one is left already, or if the normalizer fails. -/
theorem unmade_entry_leaves_spelling (normalize : Normalizer) (attempts : List (Attempt α)) :
    let roster := (Roster.empty normalize).after attempts
    let m := PlainMap.after normalize ∅ attempts
    let left := Attempt.leftover? normalize attempts
    (∀ call, (∀ runner, call ≠ .entry runner .spelling) →
      (roster.step call).1 = (m.step normalize call).1) ∧
    (∀ key, roster.entries.lookup key = (m.lookup key).map Prod.fst ∧
      roster.spellings.lookup key = ((m.lookup key).map Prod.snd).or (left key)) ∧
    (∀ runner, (roster.initialModel? runner).map Option.isSome =
        (roster.get? runner).map Option.isSome ↔
      ∀ key, runner.normal? normalize = some key → key ∉ m → left key = none) ∧
    ∀ runner change, (∀ key, runner.normal? normalize = some key → key ∉ m) →
      let unmade := roster.upsert runner none change
      unmade.1 = none ∧ unmade.2.entries = roster.entries ∧
      (∀ key, unmade.2.spellings.lookup key =
        if runner.normal? normalize = some key then some runner.model
        else roster.spellings.lookup key) ∧
      (unmade.2 = roster ↔
        ∀ key, runner.normal? normalize = some key → left key = some runner.model) := by
  intro roster m left
  have h : roster.Covers normalize m left := covers_after normalize attempts
  obtain ⟨spellings, hr⟩ := h.entries
  refine ⟨fun call hc => ?_, fun key => ⟨h.value key, h.spelling key⟩, h.isSome_initialModel?_iff,
    fun runner change hfree => ?_⟩
  · rw [(roster.step_respelled spellings call).2 hc]
    exact (step_refines hr call).1
  · have hlookup : ∀ key, runner.normal? normalize = some key → m.lookup key = none :=
      fun key hk => Finmap.lookup_eq_none.2 (hfree key hk)
    have hu := roster.upsert_unmade runner change fun key hk => by
      rw [h.value key, hlookup key (h.normalize_eq ▸ hk), Option.map_none]
    rw [h.normalize_eq] at hu
    simp only [hu]
    cases hk : runner.normal? normalize with
    | none => simp
    | some own =>
      refine ⟨trivial, rfl, fun key => ?_, ?_⟩
      · simp only [Option.some.injEq]
        exact Table.lookup_put own key runner.model roster.spellings
      · have hs := h.spelling own
        rw [hlookup own hk, Option.map_none, Option.none_or] at hs
        simp only [respelled_eq_self_iff, Table.put_eq_self_iff, hs, Option.some.injEq, forall_eq']

def twoSpellings : Normalizer := fun name => some (if name = "M" then "m" else name)

def oneUnmade : List (Attempt Nat) :=
  [.call (.entry ⟨"b", "n", .completion⟩ (.set 1)), .unmade ⟨"b", "M", .completion⟩ (· + 1)]

theorem unmade_entry_leaves_spelling_respelled :
    let roster := (Roster.empty twoSpellings).after oneUnmade
    let unmade := roster.upsert ⟨"b", "m", .completion⟩ none (· + 1)
    (∀ key, Runner.normal? twoSpellings ⟨"b", "m", .completion⟩ = some key →
      key ∉ PlainMap.after twoSpellings ∅ oneUnmade) ∧
    unmade.1 = none ∧ unmade.2.entries = roster.entries ∧ unmade.2 ≠ roster := by
  intro roster unmade
  obtain ⟨-, hlookup, -, hunmade⟩ := unmade_entry_leaves_spelling twoSpellings oneUnmade
  have hfree : ∀ key, Runner.normal? twoSpellings ⟨"b", "m", .completion⟩ = some key →
      key ∉ PlainMap.after twoSpellings ∅ oneUnmade := by
    rintro key ⟨⟩
    rw [← Finmap.lookup_eq_none, ← Option.map_eq_none_iff, ← (hlookup _).1]
    decide
  obtain ⟨hnone, hentries, -, hsame⟩ := hunmade ⟨"b", "m", .completion⟩ (· + 1) hfree
  refine ⟨hfree, hnone, hentries, fun h => ?_⟩
  have hleft := hsame.1 h ⟨"b", "m", .completion⟩ (by decide)
  exact absurd hleft (by decide)

/-- An upsert without an initial value is not undone: there is no entry, but a spelling is shown. -/
theorem unmade_entry_changes_roster :
    let runner : Runner := ⟨"llama.cpp", "m", .completion⟩
    let roster : Roster Nat := Roster.empty some
    let unmade := roster.upsert runner none (· + 1)
    unmade.1 = none ∧ unmade.2 ≠ roster ∧ unmade.2.get? runner = some none ∧
      unmade.2.initialModel? runner = some (some "m") := by
  refine ⟨by decide, fun h => ?_, by decide, by decide⟩
  have hspellings := congrArg Roster.spellings h
  exact absurd hspellings (by decide)

end Roster
end InferenceRecorder
