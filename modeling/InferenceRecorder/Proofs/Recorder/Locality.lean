import InferenceRecorder.Proofs.Recorder.Changes

/-!
The reach of a call. What a call comes to depends on what is kept under its key and on nothing else
in the tables, and under other keys it leaves both tables alone. So two recorders that agree under
some keys still agree under them after the same call: `AgreeOn.step`.
-/
namespace InferenceRecorder

namespace Operation

def key? (normalize : Normalizer) (backend : String) (op : Operation) : Option Runner :=
  (op.runner? backend).bind (Runner.normal? normalize)

def isUpdate : Operation → Bool
  | .query _ | .overview => false
  | _ => true

/-- The spelling that stands under the key of a call afterwards. The spelling of a new history is
noted even where there is no room for the history. -/
def spelling? (held : Bool) (shown : Option String) : Operation → Option String
  | .configure runner _ | .capture runner _ _ _ => if held then shown else some runner.model
  | .remove _ => none
  | _ => shown

def reply? (room : Bool) (held : Option History) : Operation → Option Reply
  | .configure _ _ => if held.isSome || room then some .configured else none
  | .capture runner _ _ time =>
    if held.isSome || room then some (.captured (Recorder.exchangeId runner.model time)) else none
  | .respond id _ came =>
    some (.responded (held.bind (History.answer? id came.response came.status)).isSome)
  | .remove _ => some (.removed held.isSome)
  | _ => none

def keyless? : Operation → Option Reply
  | .configure _ none => some .configured
  | _ => none

end Operation

namespace Roster
variable {α : Type} (roster : Roster α) (runner : Runner) (init : Option α) (change : α → α)

theorem map_upsert {β : Type} (answer : β) :
    ((roster.upsert runner init change).1.map fun _ => answer) =
      (runner.normal? roster.normalize).bind fun key =>
        if (roster.entries.lookup key).isSome || init.isSome then some answer else none := by
  unfold upsert
  rw [key?_eq]
  cases hk : runner.normal? roster.normalize with
  | none => rfl
  | some key =>
    cases hl : roster.entries.lookup key with
    | some value => simp [hl]
    | none => cases init <;> simp [hl]

theorem spellings_upsert (key : Runner) :
    (roster.upsert runner init change).2.spellings.lookup key =
      if runner.normal? roster.normalize = some key then
        if (roster.entries.lookup key).isSome then roster.spellings.lookup key
        else some runner.model
      else roster.spellings.lookup key := by
  unfold upsert
  rw [key?_eq]
  cases hk : runner.normal? roster.normalize with
  | none => simp
  | some own =>
    simp only [Option.some.injEq]
    cases hl : roster.entries.lookup own with
    | some value =>
      split_ifs with ho hs
      · rfl
      · exact absurd (ho ▸ hl ▸ rfl) hs
      · rfl
    | none =>
      have hnoted : (roster.spellings.put own runner.model).lookup key =
          if own = key then
            if (roster.entries.lookup key).isSome then roster.spellings.lookup key
            else some runner.model
          else roster.spellings.lookup key := by
        rw [Table.lookup_put]
        split_ifs with ho hs
        · simp [← ho, hl] at hs
        · rfl
        · rfl
      cases init <;> exact hnoted

theorem nodup_spellings_upsert (h : roster.spellings.keys.Nodup) :
    (roster.upsert runner init change).2.spellings.keys.Nodup := by
  unfold upsert
  split
  · exact h
  · split
    · exact h
    · cases init <;> exact Table.nodup_keys_put h

end Roster

namespace Recorder
variable (r : Recorder)

/-- What an upsert does to the spellings it does whether it goes through or not. -/
theorem roster_configure (runner : Runner) (config : BackendConfig) :
    (r.configure runner (some config)).recorder.roster =
      (r.roster.upsert runner r.reserve? fun h => { h with config := config }).2 := by
  simp only [configure, unlock]
  split
  next h => exact (congrArg Prod.snd h).symm
  next h => exact (congrArg Prod.snd h).symm

theorem roster_capture (runner : Runner) (request : RequestInfo) (body : List UInt8)
    (time : Instant) :
    (r.capture runner request body time).recorder.roster =
      (r.roster.upsert runner r.reserve?
        (History.append r.capacity (begun runner request body time))).2 := by
  simp only [capture, unlock]
  split
  next h => exact (congrArg Prod.snd h).symm
  next h => exact (congrArg Prod.snd h).symm

theorem spellings_respond (id : String) (runner : Runner) (came : Captured) :
    (r.respond id runner came).recorder.roster.spellings = r.roster.spellings := by
  obtain ⟨-, hr⟩ | ⟨own, -, ⟨-, notice, -, hr⟩ | ⟨h', -, hr⟩⟩ := r.respond_cases id runner came
  all_goals rw [hr r.poisoned]

theorem spellings_remove (model : String) :
    (r.remove model).recorder.roster.spellings =
      match (r.completionRunner model).normal? r.roster.normalize with
      | some key => r.roster.spellings.erase key
      | none => r.roster.spellings := by
  simp only [remove, unlock, completionRunner, Roster.delete, Roster.key?_eq]
  cases (Runner.mk r.backend model .completion).normal? r.roster.normalize with
  | none => rfl
  | some key => cases hl : r.roster.entries.lookup key <;> simp [hl]

/-- The spelling under a key after a call. -/
theorem spellings_step (op : Operation) (key : Runner) :
    (r.step op).recorder.roster.spellings.lookup key =
      if op.key? r.roster.normalize r.backend = some key then
        op.spelling? (r.roster.entries.lookup key).isSome (r.roster.spellings.lookup key)
      else r.roster.spellings.lookup key := by
  cases op with
  | configure runner config =>
    cases config with
    | none => simp [Operation.key?, Operation.runner?, step, Report.map, configure]
    | some config =>
      rw [step, Report.map, roster_configure]
      exact r.roster.spellings_upsert runner _ _ key
  | capture runner request body time =>
    rw [step, Report.map, roster_capture]
    exact r.roster.spellings_upsert runner _ _ key
  | respond id runner came =>
    rw [step, Report.map, spellings_respond]
    exact (ite_self _).symm
  | remove model =>
    have hkey : (Operation.remove model).key? r.roster.normalize r.backend =
        (r.completionRunner model).normal? r.roster.normalize := rfl
    rw [step, Report.map, spellings_remove, ← hkey]
    cases (Operation.remove model).key? r.roster.normalize r.backend with
    | none => simp
    | some own => simp [Table.lookup_erase, Operation.spelling?]
  | query model => rfl
  | overview => rfl

theorem nodup_spellings_step (op : Operation) (h : r.roster.spellings.keys.Nodup) :
    (r.step op).recorder.roster.spellings.keys.Nodup := by
  cases op with
  | configure runner config =>
    cases config with
    | none => exact h
    | some config =>
      rw [step, Report.map, roster_configure]
      exact r.roster.nodup_spellings_upsert runner _ _ h
  | capture runner request body time =>
    rw [step, Report.map, roster_capture]
    exact r.roster.nodup_spellings_upsert runner _ _ h
  | respond id runner came =>
    rw [step, Report.map, spellings_respond]
    exact h
  | remove model =>
    rw [step, Report.map, spellings_remove]
    split
    · exact Table.nodup_keys_erase h
    · exact h
  | query model => exact h
  | overview => exact h

theorem nodup_spellings_run {ops : List Operation} (h : r.roster.spellings.keys.Nodup) :
    (r.run ops).roster.spellings.keys.Nodup := by
  induction ops generalizing r with
  | nil => exact h
  | cons op ops ih => exact ih _ (r.nodup_spellings_step op h)

theorem result_configure (runner : Runner) (config : BackendConfig) :
    (r.configure runner (some config)).result =
      (r.roster.upsert runner r.reserve? fun h => { h with config := config }).1.map
        fun _ => () := by
  simp only [configure, unlock]
  split
  next h => exact (congrArg (fun u => u.1.map fun _ => ()) h).symm
  next h => exact (congrArg (fun u => u.1.map fun _ => ()) h).symm

theorem result_capture (runner : Runner) (request : RequestInfo) (body : List UInt8)
    (time : Instant) :
    (r.capture runner request body time).result =
      (r.roster.upsert runner r.reserve?
        (History.append r.capacity (begun runner request body time))).1.map
          fun _ => exchangeId runner.model time := by
  simp only [capture, unlock]
  split
  next h => exact (congrArg (fun u => u.1.map fun _ => exchangeId runner.model time) h).symm
  next h => exact (congrArg (fun u => u.1.map fun _ => exchangeId runner.model time) h).symm

/-- What an update comes to, from what is held under its key. -/
theorem result_step {op : Operation} (hop : op.isUpdate) :
    (r.step op).result =
      match op.key? r.roster.normalize r.backend with
      | some key => op.reply? r.reserve?.isSome (r.roster.entries.lookup key)
      | none => op.keyless? := by
  cases op with
  | configure runner config =>
    cases config with
    | none => rfl
    | some config =>
      rw [step, Report.map, result_configure, Roster.map_upsert]
      simp only [Operation.key?, Operation.runner?, Option.bind_some]
      cases runner.normal? r.roster.normalize with
      | none => rfl
      | some key =>
        simp only [Option.bind_some, Operation.reply?]
        split_ifs <;> rfl
  | capture runner request body time =>
    rw [step, Report.map, result_capture, Roster.map_upsert]
    simp only [Operation.key?, Operation.runner?, Option.bind_some]
    cases runner.normal? r.roster.normalize with
    | none => rfl
    | some key =>
      simp only [Option.bind_some, Operation.reply?]
      split_ifs <;> rfl
  | respond id runner came =>
    simp only [step, Report.map, Operation.key?, Operation.runner?, Option.bind_some]
    obtain ⟨hk, hr⟩ | ⟨own, hk, ⟨ha, notice, -, hr⟩ | ⟨h', ha, hr⟩⟩ :=
      r.respond_cases id runner came
    · rw [hr r.poisoned, hk]
      rfl
    · rw [hr r.poisoned, hk]
      simp [Operation.reply?, ha]
    · rw [hr r.poisoned, hk]
      simp [Operation.reply?, ha]
  | remove model =>
    simp only [step, Report.map, remove, unlock, completionRunner, Roster.delete, Roster.key?_eq,
      Operation.key?, Operation.runner?, Option.bind_some]
    cases (Runner.mk r.backend model .completion).normal? r.roster.normalize with
    | none => rfl
    | some key => cases hl : r.roster.entries.lookup key <;> simp [hl, Operation.reply?]
  | query model => cases hop
  | overview => cases hop

/-- An update changes what is held under its key only. -/
theorem lookup_step_other {op : Operation} {key : Runner}
    (hk : op.key? r.roster.normalize r.backend ≠ some key) :
    (r.step op).recorder.roster.entries.lookup key = r.roster.entries.lookup key := by
  have hnone : Call.change? r.roster.normalize r.backend key (op, (r.step op).result) = none :=
    if_neg hk
  rw [(r.step_makes op).lookup, hnone]

/-- What is held under the key of a call afterwards. -/
theorem lookup_step_own {op : Operation} {key : Runner}
    (hk : op.key? r.roster.normalize r.backend = some key) :
    (r.step op).recorder.roster.entries.lookup key =
      match (r.step op).result.bind (Change.of? op) with
      | some change => change.apply r.capacity (r.roster.entries.lookup key)
      | none => r.roster.entries.lookup key := by
  have hc : Call.change? r.roster.normalize r.backend key (op, (r.step op).result) =
      (r.step op).result.bind (Change.of? op) := if_pos hk
  have hl := (r.step_makes op).lookup key
  rw [hc] at hl
  exact hl

structure AgreeOn (own : Runner → Prop) (r s : Recorder) : Prop where
  normalize : r.roster.normalize = s.roster.normalize
  capacity : r.capacity = s.capacity
  backend : r.backend = s.backend
  entries : ∀ key, own key → r.roster.entries.lookup key = s.roster.entries.lookup key
  spellings : ∀ key, own key → r.roster.spellings.lookup key = s.roster.spellings.lookup key

variable {r} {s : Recorder} {own : Runner → Prop} {op : Operation}

theorem AgreeOn.refl (own : Runner → Prop) (r : Recorder) : AgreeOn own r r :=
  ⟨rfl, rfl, rfl, fun _ _ => rfl, fun _ _ => rfl⟩

theorem AgreeOn.symm (h : AgreeOn own r s) : AgreeOn own s r :=
  ⟨h.normalize.symm, h.capacity.symm, h.backend.symm, fun key hk => (h.entries key hk).symm,
    fun key hk => (h.spellings key hk).symm⟩

theorem AgreeOn.trans {t : Recorder} (h : AgreeOn own r s) (h' : AgreeOn own s t) :
    AgreeOn own r t :=
  ⟨h.normalize.trans h'.normalize, h.capacity.trans h'.capacity, h.backend.trans h'.backend,
    fun key hk => (h.entries key hk).trans (h'.entries key hk),
    fun key hk => (h.spellings key hk).trans (h'.spellings key hk)⟩

theorem AgreeOn.mono {less : Runner → Prop} (h : AgreeOn own r s) (hl : ∀ key, less key → own key) :
    AgreeOn less r s :=
  ⟨h.normalize, h.capacity, h.backend, fun key hk => h.entries key (hl key hk),
    fun key hk => h.spellings key (hl key hk)⟩

/-- An update with its key among these comes to the same. -/
theorem AgreeOn.result (h : AgreeOn own r s) (hop : op.isUpdate)
    (hk : ∀ key, op.key? r.roster.normalize r.backend = some key → own key) :
    (r.step op).result = (s.step op).result := by
  have hroom : r.reserve? = s.reserve? := by rw [reserve?, reserve?, h.capacity]
  rw [r.result_step hop, s.result_step hop, ← h.normalize, ← h.backend, hroom]
  cases hkey : op.key? r.roster.normalize r.backend with
  | none => rfl
  | some key => simp only [h.entries key (hk key hkey)]

theorem AgreeOn.step (h : AgreeOn own r s) (hop : op.isUpdate)
    (hk : ∀ key, op.key? r.roster.normalize r.backend = some key → own key) :
    AgreeOn own (r.step op).recorder (s.step op).recorder := by
  have hr := r.step_makes op
  have hs := s.step_makes op
  refine ⟨?_, ?_, ?_, fun key hown => ?_, fun key hown => ?_⟩
  · rw [hr.normalize, hs.normalize, h.normalize]
  · rw [hr.capacity, hs.capacity, h.capacity]
  · rw [hr.backend, hs.backend, h.backend]
  · rw [hr.lookup, hs.lookup, h.result hop hk, h.normalize, h.backend, h.capacity,
      h.entries key hown]
  · rw [spellings_step, spellings_step, h.normalize, h.backend, h.entries key hown,
      h.spellings key hown]

/-- An update with its key elsewhere changes nothing that they hold under these. -/
theorem AgreeOn.step_other (own : Runner → Prop) (r : Recorder)
    (hk : ∀ key, op.key? r.roster.normalize r.backend = some key → ¬own key) :
    AgreeOn own (r.step op).recorder r := by
  have hr := r.step_makes op
  refine ⟨hr.normalize, hr.capacity, hr.backend, fun key hown => ?_, fun key hown => ?_⟩
  · exact r.lookup_step_other fun hkey => hk key hkey hown
  · rw [spellings_step, if_neg fun hkey => hk key hkey hown]

end Recorder

end InferenceRecorder
