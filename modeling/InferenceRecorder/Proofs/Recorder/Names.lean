import InferenceRecorder.Proofs.Recorder.Locality
import Mathlib.Data.List.DropRight

/-!
The names in the overview. Beside each history stands the spelling of the call that made it. The
overview looks this spelling up under the normal form of a name that is in normal form already, so
it shows the right names exactly when a second normalization changes nothing:
`right_names_iff_idempotent`.
-/
namespace InferenceRecorder
open Normalizer (total)

def Operation.naming? : Operation → Option String
  | .configure runner (some _) | .capture runner _ _ _ => some runner.model
  | _ => none

theorem Operation.runner?_of_naming? {op : Operation} {name : String} (h : op.naming? = some name)
    (backend : String) : ∃ runner, op.runner? backend = some runner ∧ runner.model = name := by
  cases op with
  | configure runner config =>
    cases config with
    | none => cases h
    | some config => exact ⟨runner, rfl, Option.some.inj h⟩
  | capture runner request body time => exact ⟨runner, rfl, Option.some.inj h⟩
  | _ => cases h

namespace Call
variable (normalize : Normalizer) (backend : String) (key : Runner)

def naming? (call : Call) : Option String :=
  if call.1.key? normalize backend = some key then call.2.bind fun _ => call.1.naming? else none

def drops (call : Call) : Bool :=
  call.1.key? normalize backend = some key ∧ call.2 = some (.removed true)

/-- The spelling in the call that made the history under this key: the first that could since the
last history was dropped. -/
def creator? (calls : List Call) : Option String :=
  ((calls.rtakeWhile fun call => !call.drops normalize backend key).filterMap
    (naming? normalize backend key)).head?

theorem creator?_concat (calls : List Call) (call : Call) :
    creator? normalize backend key (calls ++ [call]) =
      if call.drops normalize backend key then none
      else (creator? normalize backend key calls).or (call.naming? normalize backend key) := by
  unfold creator?
  split_ifs with hd
  · rw [List.rtakeWhile_concat_neg _ _ _ (by simp [hd])]
    rfl
  · rw [List.rtakeWhile_concat_pos _ _ _ (by simp [hd]), List.filterMap_append,
      List.head?_append]
    cases hn : call.naming? normalize backend key <;> simp [hn]

end Call

structure Shows (name? : Option String) (entry : Runner × History) (line : RunnerSummary) :
    Prop where
  backend : line.backend = entry.1.backend
  model : some line.model = name?
  mode : line.mode = entry.1.mode
  count : line.count = entry.2.exchanges.length
  pending : line.pending = entry.2.pending

namespace Recorder
variable (r : Recorder)

structure NamedBy (calls : List Call) (key : Runner) : Prop where
  held : (Call.creator? r.roster.normalize r.backend key calls).isSome =
    (r.roster.entries.lookup key).isSome
  shown : (r.roster.entries.lookup key).isSome → r.roster.spellings.lookup key =
    Call.creator? r.roster.normalize r.backend key calls

theorem calls_concat (ops : List Operation) (op : Operation) :
    r.calls (ops ++ [op]) = r.calls ops ++ [(op, ((r.run ops).step op).result)] := by
  induction ops generalizing r with
  | nil => rfl
  | cons first ops ih =>
    rw [List.cons_append, calls_cons, calls_cons, ih, run_cons, List.cons_append]

theorem run_concat (ops : List Operation) (op : Operation) :
    r.run (ops ++ [op]) = ((r.run ops).step op).recorder := by
  simp [run]

variable {r} {calls : List Call} {key : Runner}

theorem NamedBy.step_other {op : Operation} (h : r.NamedBy calls key)
    (hk : op.key? r.roster.normalize r.backend ≠ some key) :
    (r.step op).recorder.NamedBy (calls ++ [(op, (r.step op).result)]) key := by
  have hm := r.step_makes op
  have hc : Call.creator? r.roster.normalize r.backend key (calls ++ [(op, (r.step op).result)]) =
      Call.creator? r.roster.normalize r.backend key calls := by
    rw [Call.creator?_concat]
    simp [Call.drops, Call.naming?, hk]
  constructor <;> rw [hm.normalize, hm.backend, hc, r.lookup_step_other hk]
  · exact h.held
  · rw [spellings_step, if_neg hk]
    exact h.shown

/-- A call that goes through where there is a history, or room for one, and leaves one behind. -/
theorem NamedBy.step_making {op : Operation} {runner : Runner} {reply : Reply} {change : Change}
    (h : r.NamedBy calls key) (hk : op.key? r.roster.normalize r.backend = some key)
    (hresult : (r.step op).result =
      if (r.roster.entries.lookup key).isSome || r.reserve?.isSome then some reply else none)
    (hspelling : ∀ held shown, op.spelling? held shown = if held then shown else some runner.model)
    (hname : op.naming? = some runner.model)
    (hdrop : reply ≠ .removed true) (hc : Change.of? op reply = some change)
    (happly : ∀ held, (change.apply r.capacity held).isSome) :
    (r.step op).recorder.NamedBy (calls ++ [(op, (r.step op).result)]) key := by
  have hm := r.step_makes op
  have hdrops : Call.drops r.roster.normalize r.backend key (op, (r.step op).result) = false := by
    rw [hresult]
    split_ifs <;> simp [Call.drops, hdrop]
  have hheld := h.held
  constructor <;> rw [hm.normalize, hm.backend, Call.creator?_concat, hdrops,
    r.lookup_step_own hk, Call.naming?, if_pos hk, hname, hresult]
  · by_cases hroom : (r.roster.entries.lookup key).isSome || r.reserve?.isSome
    · simp [hroom, hc, happly]
    · simp [hroom, hheld]
  · rw [spellings_step, if_pos hk, hspelling]
    by_cases hsome : (r.roster.entries.lookup key).isSome
    · rw [hsome] at hheld
      obtain ⟨name, hname⟩ := Option.isSome_iff_exists.1 hheld
      simp [hsome, h.shown hsome, hname]
    · have hnone : Call.creator? r.roster.normalize r.backend key calls = none := by
        simpa [hsome] using hheld
      by_cases hroom : r.reserve?.isSome
      · simp [hsome, hroom, hnone]
      · simp [hsome, hroom]

theorem NamedBy.step_own {op : Operation} (h : r.NamedBy calls key)
    (hk : op.key? r.roster.normalize r.backend = some key) :
    (r.step op).recorder.NamedBy (calls ++ [(op, (r.step op).result)]) key := by
  cases op with
  | configure runner config =>
    cases config with
    | none => cases hk
    | some config =>
      have hresult : (r.step (.configure runner (some config))).result =
          if (r.roster.entries.lookup key).isSome || r.reserve?.isSome then some .configured
          else none := by
        rw [r.result_step rfl, hk]
        rfl
      exact h.step_making hk hresult (fun _ _ => rfl) rfl nofun rfl fun _ => rfl
  | capture runner request body time =>
    have hresult : (r.step (.capture runner request body time)).result =
        if (r.roster.entries.lookup key).isSome || r.reserve?.isSome then
          some (.captured (exchangeId runner.model time))
        else none := by
      rw [r.result_step rfl, hk]
      rfl
    exact h.step_making hk hresult (fun _ _ => rfl) rfl nofun rfl fun _ => rfl
  | respond id runner came =>
    obtain ⟨matched, hresult⟩ : ∃ matched,
        (r.step (.respond id runner came)).result = some (.responded matched) := by
      rw [r.result_step rfl, hk]
      exact ⟨_, rfl⟩
    have hm := r.step_makes (.respond id runner came)
    have hc : Call.creator? r.roster.normalize r.backend key
        (calls ++ [(.respond id runner came, some (.responded matched))]) =
          Call.creator? r.roster.normalize r.backend key calls := by
      rw [Call.creator?_concat]
      simp [Call.drops, Call.naming?, Operation.naming?]
    constructor <;> rw [hm.normalize, hm.backend, r.lookup_step_own hk, hresult, hc]
    · simpa [Change.of?, Change.apply] using h.held
    · rw [spellings_step, if_pos hk]
      simpa [Change.of?, Change.apply, Operation.spelling?] using h.shown
  | remove model =>
    have hresult : (r.step (.remove model)).result =
        some (.removed (r.roster.entries.lookup key).isSome) := by
      rw [r.result_step rfl, hk]
      rfl
    have hm := r.step_makes (.remove model)
    have hheld := h.held
    constructor <;> rw [hm.normalize, hm.backend, r.lookup_step_own hk, hresult]
    · rw [Call.creator?_concat]
      cases hl : r.roster.entries.lookup key with
      | none =>
        rw [hl, Option.isSome_none, Option.isSome_eq_false_iff] at hheld
        simp_all [Call.drops, Call.naming?, Operation.naming?, Change.of?]
      | some history => simp [Call.drops, hk, Change.of?, Change.apply]
    · -- nothing is held afterwards, whether something was or not
      cases hl : r.roster.entries.lookup key <;> simp [Change.of?, Change.apply]
  | query model => cases hk
  | overview => cases hk

theorem NamedBy.step (h : r.NamedBy calls key) (op : Operation) :
    (r.step op).recorder.NamedBy (calls ++ [(op, (r.step op).result)]) key := by
  by_cases hk : op.key? r.roster.normalize r.backend = some key
  · exact h.step_own hk
  · exact h.step_other hk

theorem namedBy_run (normalize : Normalizer) (capacity : Nat) (backend : String)
    (ops : List Operation) (key : Runner) :
    ((empty normalize capacity backend).run ops).NamedBy
      ((empty normalize capacity backend).calls ops) key := by
  induction ops using List.reverseRecOn with
  | nil => exact ⟨rfl, nofun⟩
  | append_singleton ops op ih =>
    rw [run_concat, calls_concat]
    exact ih.step op

/-- The name of a history's maker is a spelling of its key. -/
theorem normalize_creator? {normalize : Normalizer} {backend name : String}
    (h : Call.creator? normalize backend key calls = some name) :
    normalize name = some key.model := by
  obtain ⟨⟨op, reply⟩, -, hn⟩ := List.mem_filterMap.1 (List.mem_of_head? h)
  unfold Call.naming? at hn
  split at hn
  next hk =>
    obtain ⟨-, -, hn⟩ := Option.bind_eq_some_iff.1 hn
    obtain ⟨runner, hr, rfl⟩ := Operation.runner?_of_naming? hn backend
    simp only [Operation.key?, hr, Option.bind_some, Runner.normal?, Option.map_eq_some_iff] at hk
    obtain ⟨model, hmodel, rfl⟩ := hk
    exact hmodel
  next => cases hn

/-- Beside each history stands the name of its maker, a spelling of its key. -/
theorem exists_creator (normalize : Normalizer) (capacity : Nat) (backend : String)
    (ops : List Operation) {history : History}
    (hl : ((empty normalize capacity backend).run ops).roster.entries.lookup key = some history) :
    ∃ name, Call.creator? normalize backend key ((empty normalize capacity backend).calls ops) =
        some name ∧
      ((empty normalize capacity backend).run ops).roster.spellings.lookup key = some name ∧
      normalize name = some key.model := by
  obtain ⟨hheld, hshown⟩ := namedBy_run normalize capacity backend ops key
  have hshown := hshown (by rw [hl]; rfl)
  obtain ⟨hn, -, hb⟩ := run_setup (empty normalize capacity backend) ops
  rw [hn, hb] at hheld hshown
  rw [hl] at hheld
  obtain ⟨name, hname⟩ := Option.isSome_iff_exists.1 hheld
  exact ⟨name, hname, hshown.trans hname, normalize_creator? hname⟩

variable (f : String → String) (capacity : Nat) (backend : String)

def line (roster : Roster History) (entry : Runner × History) : RunnerSummary where
  backend := entry.1.backend
  model := (roster.spellings.lookup { entry.1 with model := f entry.1.model }).getD entry.1.model
  mode := entry.1.mode
  count := entry.2.exchanges.length
  pending := entry.2.pending

def ShowsMakers (ops : List Operation) : Prop :=
  let r := (empty (total f) capacity backend).run ops
  let calls := (empty (total f) capacity backend).calls ops
  ∃ lines shown, r.overview.result = some lines ∧ lines.Perm shown ∧
    List.Forall₂ (fun entry => Shows (Call.creator? (total f) backend entry.1 calls) entry)
      r.roster.entries shown

theorem overview_total (hn : r.roster.normalize = total f) : r.overview.result =
    some ((r.roster.entries.map (line f r.roster)).mergeSort summaryNotAfter) := by
  have hline : ∀ u : Recorder, u.roster = r.roster →
      u.summary? = fun entry => some (line f r.roster entry) := by
    intro u hu
    funext entry
    simp [summary?, Roster.initialModel?, Roster.key?_eq, Runner.normal?, hu, hn, total, line]
  have hm : r.roster.entries.mapM r.unlock.1.summary? =
      some (r.roster.entries.map (line f r.roster)) := by
    rw [hline r.unlock.1 rfl]
    exact List.mapM_pure
  exact congrArg (Option.map fun lines => lines.mergeSort summaryNotAfter) hm

/-- A name in normal form is looked up as it stands, so a line shows the name of the history's
maker, which is a spelling of its key. -/
theorem exists_maker_of_line (hf : ∀ name, f (f name) = f name) (ops : List Operation)
    {key : Runner} {history : History}
    (hm : (key, history) ∈ ((empty (total f) capacity backend).run ops).roster.entries) :
    ∃ name, Call.creator? (total f) backend key
        ((empty (total f) capacity backend).calls ops) = some name ∧ f name = key.model ∧
      (line f ((empty (total f) capacity backend).run ops).roster (key, history)).model = name := by
  have hkeys : ((empty (total f) capacity backend).run ops).roster.entries.keys.Nodup :=
    run_keys _ .nil
  obtain ⟨name, hname, hshown, hspells⟩ :=
    exists_creator (total f) capacity backend ops (Table.lookup_of_mem hkeys hm)
  have hkey : f name = key.model := Option.some.inj hspells
  have hmodel : f key.model = key.model := by rw [← hkey, hf]
  refine ⟨name, hname, hkey, ?_⟩
  simp only [line, hmodel, hshown, Option.getD_some]

theorem showsMakers_of_idempotent (hf : ∀ name, f (f name) = f name) (ops : List Operation) :
    ShowsMakers f capacity backend ops := by
  refine ⟨_, _, overview_total f (run_setup _ ops).1, List.mergeSort_perm _ _, ?_⟩
  rw [List.forall₂_map_right_iff, List.forall₂_same]
  rintro ⟨key, history⟩ hm
  obtain ⟨name, hname, -, hmodel⟩ := exists_maker_of_line f capacity backend hf ops hm
  refine ⟨rfl, ?_, rfl, rfl, rfl⟩
  rw [hmodel, hname]

theorem roster_capture_first {normalize : Normalizer} {history : History}
    (hroom : (empty normalize capacity backend).reserve? = some history) (runner : Runner)
    {model : String} (hmodel : normalize runner.model = some model) (request : RequestInfo)
    (body : List UInt8) (time : Instant) :
    ((empty normalize capacity backend).run [.capture runner request body time]).roster =
      ⟨normalize, [({ runner with model := model },
          history.append capacity (begun runner request body time))],
        [({ runner with model := model }, runner.model)]⟩ := by
  refine ((empty normalize capacity backend).roster_capture runner request body time).trans ?_
  have hkey : (empty normalize capacity backend).roster.key? runner =
      some { runner with model := model } := by
    rw [Roster.key?]
    exact congrArg (Option.map fun model => { runner with model := model }) hmodel
  rw [hroom, Roster.upsert, hkey]
  rfl

/-- One request shows whether a second normalization changes the normal form of its name: if it
does, the overview misses the spelling and shows the normal form. -/
theorem idempotent_of_showsMakers {history : History}
    (hroom : (empty (total f) capacity backend).reserve? = some history)
    (h : ∀ ops, ShowsMakers f capacity backend ops) (name : String) : f (f name) = f name := by
  let ops : List Operation := [.capture ⟨backend, name, .completion⟩ ⟨"GET", "/", ""⟩ [] default]
  let key : Runner := ⟨backend, f name, .completion⟩
  have hroster := roster_capture_first capacity backend hroom ⟨backend, name, .completion⟩
    (rfl : total f name = some (f name)) ⟨"GET", "/", ""⟩ [] default
  generalize history.append capacity _ = held at hroster
  have hl : ((empty (total f) capacity backend).run ops).roster.entries.lookup key = some held := by
    rw [hroster]
    exact if_pos rfl
  obtain ⟨maker, hmaker, hspelling, -⟩ := exists_creator (total f) capacity backend ops hl
  have hname : maker = name := by
    rw [hroster] at hspelling
    simpa [Table.lookup, key] using hspelling.symm
  by_contra hne
  obtain ⟨lines, shown, hlines, hperm, hshows⟩ := h ops
  have hmissed : (line f ((empty (total f) capacity backend).run ops).roster (key, held)).model =
      f name := by
    have hkey : key ≠ { key with model := f (f name) } := fun he =>
      hne (congrArg Runner.model he).symm
    rw [hroster]
    simp [line, Table.lookup, hkey, key]
  have hshown :
      shown = [line f ((empty (total f) capacity backend).run ops).roster (key, held)] := by
    rw [overview_total f (run_setup _ ops).1] at hlines
    rw [← Option.some.inj hlines] at hperm
    refine List.perm_singleton.1 (hperm.symm.trans ((List.mergeSort_perm _ _).trans ?_))
    rw [hroster]
    exact .refl _
  have hmodel : some (f name) = some maker := by
    rw [hshown] at hshows
    rw [← hmissed, ← hmaker]
    have hone : ((empty (total f) capacity backend).run ops).roster.entries = [(key, held)] := by
      rw [hroster]
    rw [hone] at hshows
    cases hshows with
    | cons hfirst _ => exact hfirst.model
  have hfixed : f name = name := (Option.some.inj hmodel).trans hname
  exact hne (congrArg f hfixed)

/-- The overview shows every history under the name in the call that made it, whatever is called,
exactly if normal forms are their own normal forms. Where there is room for histories, this holds of
each recorder by itself. -/
theorem right_names_iff_idempotent (f : String → String) :
    ((∀ name, f (f name) = f name) ↔ ∀ capacity backend ops, ShowsMakers f capacity backend ops) ∧
    ∀ capacity backend, (empty (total f) capacity backend).reserve? = none ∨
      ((∀ name, f (f name) = f name) ↔ ∀ ops, ShowsMakers f capacity backend ops) := by
  refine ⟨⟨fun hf capacity backend => showsMakers_of_idempotent f capacity backend hf, fun h =>
    idempotent_of_showsMakers f 1 "" rfl (h 1 "")⟩, fun capacity backend => ?_⟩
  cases hroom : (empty (total f) capacity backend).reserve? with
  | none => exact .inl rfl
  | some history =>
    exact .inr ⟨showsMakers_of_idempotent f capacity backend,
      idempotent_of_showsMakers f capacity backend hroom⟩

end Recorder
end InferenceRecorder
