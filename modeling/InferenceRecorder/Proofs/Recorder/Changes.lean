import InferenceRecorder.Proofs.Runner.Roster
import InferenceRecorder.Recorder.Session
import Mathlib.Data.List.Infix

/-!
What a session does to the history of one runner. Each call that goes through makes at most one
change to it, and the history after a session is what these changes make out of the one before:
`lookup_run`.
-/
namespace InferenceRecorder

structure Capture where
  runner : Runner
  request : RequestInfo
  body : List UInt8
  time : Instant
  deriving DecidableEq, Repr

def Capture.exchange (c : Capture) : Exchange :=
  Recorder.begun c.runner c.request c.body c.time

namespace Captured

def response (captured : Captured) : String :=
  let body := Utf8.decodeLossy captured.body
  if Stream.dataMarker <:+: body.toList then (Stream.reconstruct body).text else body

def reading (captured : Captured) : List Notice × List Count :=
  (Recorder.responseText (Utf8.decodeLossy captured.body)).2

end Captured

inductive Change where
  | configured (config : BackendConfig)
  | captured (capture : Capture)
  | answered (id response : String) (status : UInt16)
  | removed
  deriving DecidableEq, Repr

def Change.apply (capacity : Nat) : Change → Option History → Option History
  | .configured config, h => some { h.getD History.empty with config := config }
  | .captured c, h => some ((h.getD History.empty).append capacity c.exchange)
  | .answered id response status, h => h.map fun h => (h.answer? id response status).getD h
  | .removed, _ => none

def Operation.runner? (backend : String) : Operation → Option Runner
  | .configure runner (some _) => some runner
  | .capture runner _ _ _ => some runner
  | .respond _ runner _ => some runner
  | .remove model => some ⟨backend, model, .completion⟩
  | _ => none

def Change.of? : Operation → Reply → Option Change
  | .configure _ (some config), .configured => some (.configured config)
  | .capture runner request body time, .captured _ => some (.captured ⟨runner, request, body, time⟩)
  | .respond id _ came, .responded _ => some (.answered id came.response came.status)
  | .remove _, .removed true => some .removed
  | _, _ => none

abbrev Call := Operation × Option Reply

def Call.change? (normalize : Normalizer) (backend : String) (key : Runner) (call : Call) :
    Option Change :=
  if (call.1.runner? backend).bind (Runner.normal? normalize) = some key then
    call.2.bind (Change.of? call.1)
  else none

def changes (normalize : Normalizer) (backend : String) (key : Runner) (calls : List Call) :
    List Change :=
  calls.filterMap (Call.change? normalize backend key)

def Recorder.calls (r : Recorder) (ops : List Operation) : List Call :=
  ops.zip ((r.reports ops).map Report.result)

theorem Stream.mentions_iff (marker s : List Char) :
    mentions marker s = true ↔ marker <:+: s := by
  induction s with
  | nil => simp [mentions]
  | cons c s ih => simp [mentions, ih, List.infix_cons_iff]

theorem Recorder.responseText_ite (body : String) : responseText body =
    let stream := Stream.reconstruct body
    if Stream.dataMarker <:+: body.toList then (stream.text, stream.notices, stream.counts)
    else (body, [], []) := by
  simp only [responseText, Stream.isEventStream, Stream.mentions_iff]

namespace Captured

theorem responseText_eq (captured : Captured) :
    Recorder.responseText (Utf8.decodeLossy captured.body) =
      (captured.response, captured.reading) := by
  refine Prod.ext ?_ rfl
  rw [Recorder.responseText_ite, response]
  split_ifs <;> rfl

theorem reading_eq (captured : Captured) : captured.reading =
    let body := Utf8.decodeLossy captured.body
    let stream := Stream.reconstruct body
    if Stream.dataMarker <:+: body.toList then (stream.notices, stream.counts) else ([], []) := by
  rw [reading, Recorder.responseText_ite]
  dsimp only
  split_ifs <;> rfl

end Captured

namespace Recorder
variable (r : Recorder)

theorem eq_empty_of_reserve? {h : History} (hr : r.reserve? = some h) : h = History.empty := by
  unfold reserve? at hr
  split at hr
  · exact (Option.some.inj hr).symm
  · simp at hr

/-- The other recorder came from this one by a call: the normalizer, the capacity and the backend
are the same, and under each key the change that the call makes was made. -/
structure Makes (r r' : Recorder) (call : Call) : Prop where
  normalize : r'.roster.normalize = r.roster.normalize
  capacity : r'.capacity = r.capacity
  backend : r'.backend = r.backend
  keys : r.roster.entries.keys.Nodup → r'.roster.entries.keys.Nodup
  lookup : ∀ key, r'.roster.entries.lookup key =
    match call.change? r.roster.normalize r.backend key with
    | some change => change.apply r.capacity (r.roster.entries.lookup key)
    | none => r.roster.entries.lookup key

theorem makes_failed {roster : Roster History} {poisoned : Bool} {op : Operation}
    (hn : roster.normalize = r.roster.normalize) (he : roster.entries = r.roster.entries) :
    Makes r ⟨roster, r.capacity, r.backend, poisoned⟩ (op, none) :=
  ⟨hn, rfl, rfl, fun h => by simpa [he] using h, fun key => by simp [Call.change?, he]⟩

/-- A call that goes through changes the history under the key of its runner and no other. -/
theorem makes_through {roster : Roster History} {poisoned : Bool} {op : Operation} {reply : Reply}
    {runner : Runner} {change : Change} (hn : roster.normalize = r.roster.normalize)
    (hd : r.roster.entries.keys.Nodup → roster.entries.keys.Nodup)
    (hr : op.runner? r.backend = some runner) (hc : Change.of? op reply = some change)
    (hl : ∀ key, roster.entries.lookup key =
      if runner.normal? r.roster.normalize = some key then
        change.apply r.capacity (r.roster.entries.lookup key)
      else r.roster.entries.lookup key) :
    Makes r ⟨roster, r.capacity, r.backend, poisoned⟩ (op, some reply) := by
  refine ⟨hn, rfl, rfl, hd, fun key => ?_⟩
  simp only [hl key]
  by_cases hk : runner.normal? r.roster.normalize = some key
  · simp [Call.change?, hr, hk, hc]
  · simp [Call.change?, hr, hk]

/-- An upsert that goes through puts the edited history under the key of the runner. -/
theorem makes_upserted {roster : Roster History} {poisoned : Bool} {op : Operation} {reply : Reply}
    {runner : Runner} {change : Change} {edit : History → History} {u : Upserted History}
    (hu : r.roster.upsert runner r.reserve? edit = (some u, roster))
    (hr : op.runner? r.backend = some runner) (hc : Change.of? op reply = some change)
    (he : ∀ h, change.apply r.capacity h = some (edit (h.getD History.empty))) :
    Makes r ⟨roster, r.capacity, r.backend, poisoned⟩ (op, some reply) := by
  obtain ⟨own, -, -, -, hn, hput⟩ := Roster.upsert_some hu
  have hd : r.roster.entries.keys.Nodup → roster.entries.keys.Nodup := by
    rw [hput]
    exact Table.nodup_keys_put
  refine r.makes_through hn hd hr hc fun key => ?_
  rw [he]
  exact Roster.lookup_upsert (fun _ => r.eq_empty_of_reserve?) hu key

theorem configure_makes (runner : Runner) (config : BackendConfig) :
    Makes r (r.configure runner (some config)).recorder
      (.configure runner (some config),
        (r.configure runner (some config)).result.map fun _ => .configured) := by
  simp only [configure, unlock]
  split
  next u roster hu => exact r.makes_upserted hu rfl rfl fun _ => rfl
  next roster hu =>
    obtain ⟨hn, he⟩ := Roster.upsert_none hu
    exact r.makes_failed hn he

theorem capture_makes (runner : Runner) (request : RequestInfo) (body : List UInt8)
    (time : Instant) :
    Makes r (r.capture runner request body time).recorder
      (.capture runner request body time,
        (r.capture runner request body time).result.map .captured) := by
  simp only [capture, unlock]
  split
  next u roster hu => exact r.makes_upserted hu rfl rfl fun _ => rfl
  next roster hu =>
    obtain ⟨hn, he⟩ := Roster.upsert_none hu
    exact r.makes_failed hn he

def warning (poisoned : Bool) : List Notice := if poisoned then [.lockRecovered] else []

/-- What a response does, whether the lock is poisoned or not: nothing but to fail where the runner
has no normal form; nothing where no request of that id is held under it; else the history with the
response filled in is put back. -/
theorem respond_cases (id : String) (runner : Runner) (came : Captured) :
    (runner.normal? r.roster.normalize = none ∧ ∀ poisoned,
      ({ r with poisoned := poisoned } : Recorder).respond id runner came =
        ⟨none, { r with poisoned := true }, came.reading.1 ++ warning poisoned, came.reading.2⟩) ∨
    ∃ key, runner.normal? r.roster.normalize = some key ∧
      (((r.roster.entries.lookup key).bind (History.answer? id came.response came.status) = none ∧
        ∃ notice, notice ≠ .lockRecovered ∧ ∀ poisoned,
          ({ r with poisoned := poisoned } : Recorder).respond id runner came =
            ⟨some false, { r with poisoned := false },
              came.reading.1 ++ warning poisoned ++ [notice],
              came.reading.2 ++ [.responseRecorded runner.backend runner.mode false]⟩) ∨
      ∃ h, (r.roster.entries.lookup key).bind (History.answer? id came.response came.status) =
          some h ∧ ∀ poisoned,
        ({ r with poisoned := poisoned } : Recorder).respond id runner came =
          ⟨some true, ⟨{ r.roster with entries := r.roster.entries.put key h }, r.capacity,
              r.backend, false⟩, came.reading.1 ++ warning poisoned,
            came.reading.2 ++ [.responseRecorded runner.backend runner.mode true]⟩) := by
  simp only [respond, Captured.responseText_eq, Roster.get?, Roster.modify, Roster.key?_eq, unlock]
  cases hk : runner.normal? r.roster.normalize with
  | none => exact .inl ⟨rfl, fun _ => rfl⟩
  | some key =>
    refine .inr ⟨key, rfl, ?_⟩
    simp only [Option.map_some]
    cases hl : r.roster.entries.lookup key with
    | none => exact .inl ⟨rfl, .runnerUnknown _ _ _, by simp, fun _ => rfl⟩
    | some h =>
      simp only [Option.bind_some]
      cases ha : h.answer? id came.response came.status with
      | none => exact .inl ⟨rfl, .requestUnknown _ _ _ _, by simp, fun _ => rfl⟩
      | some h' => exact .inr ⟨h', rfl, fun _ => rfl⟩

theorem respond_makes (id : String) (runner : Runner) (came : Captured) :
    Makes r (r.respond id runner came).recorder
      (.respond id runner came, (r.respond id runner came).result.map .responded) := by
  obtain ⟨hk, hr⟩ | ⟨own, hk, ⟨ha, notice, -, hr⟩ | ⟨h', ha, hr⟩⟩ := r.respond_cases id runner came
  · rw [hr r.poisoned]
    exact r.makes_failed rfl rfl
  · rw [hr r.poisoned]
    refine r.makes_through rfl (fun h => h) rfl rfl fun key => ?_
    rw [hk]
    by_cases hkey : own = key
    · subst hkey
      cases hl : r.roster.entries.lookup own with
      | none => simp [Change.apply]
      | some h =>
        rw [hl, Option.bind_some] at ha
        simp [Change.apply, ha]
    · simp [hkey]
  · rw [hr r.poisoned]
    obtain ⟨h, hl, ha⟩ := Option.bind_eq_some_iff.1 ha
    refine r.makes_through rfl Table.nodup_keys_put rfl rfl fun key => ?_
    rw [hk, Table.lookup_put]
    by_cases hkey : own = key
    · subst hkey
      simp [hl, Change.apply, ha]
    · simp [hkey]

theorem remove_makes (model : String) :
    Makes r (r.remove model).recorder
      (.remove model, (r.remove model).result.map .removed) := by
  simp only [remove, unlock, completionRunner]
  split
  next => exact r.makes_failed rfl rfl
  next history roster hd =>
    obtain ⟨own, hk, -, hn, he⟩ := Roster.delete_some hd
    have hd : r.roster.entries.keys.Nodup → roster.entries.keys.Nodup := by
      rw [he]
      exact Table.nodup_keys_erase
    refine r.makes_through hn hd rfl rfl fun key => ?_
    rw [hk, he, Table.lookup_erase]
    simp only [Option.some.injEq]
    rfl
  next roster hd =>
    obtain ⟨own, hk, hl, hn, he⟩ := Roster.delete_some hd
    have hnone : Change.of? (.remove model) (.removed false) = none := rfl
    refine ⟨hn, rfl, rfl, fun h => he ▸ Table.nodup_keys_erase h, fun key => ?_⟩
    simp only [he, Table.lookup_erase, Call.change?, Option.map_some, Option.bind_some, hnone,
      ite_self]
    split
    · rename_i hkey
      rw [← hkey, hl]
    · rfl

theorem step_makes (op : Operation) : Makes r (r.step op).recorder (op, (r.step op).result) := by
  cases op with
  | configure runner config =>
    cases config with
    | none => exact ⟨rfl, rfl, rfl, id, fun key => rfl⟩
    | some config => exact r.configure_makes runner config
  | capture runner request body time => exact r.capture_makes runner request body time
  | respond id runner came => exact r.respond_makes id runner came
  | query model => exact ⟨rfl, rfl, rfl, id, fun key => rfl⟩
  | remove model => exact r.remove_makes model
  | overview => exact ⟨rfl, rfl, rfl, id, fun key => rfl⟩

theorem calls_cons (op : Operation) (ops : List Operation) :
    r.calls (op :: ops) = (op, (r.step op).result) :: (r.step op).recorder.calls ops := rfl

theorem run_cons (op : Operation) (ops : List Operation) :
    r.run (op :: ops) = (r.step op).recorder.run ops := rfl

theorem run_setup (ops : List Operation) : (r.run ops).roster.normalize = r.roster.normalize ∧
    (r.run ops).capacity = r.capacity ∧ (r.run ops).backend = r.backend := by
  induction ops generalizing r with
  | nil => exact ⟨rfl, rfl, rfl⟩
  | cons op ops ih =>
    have hm := r.step_makes op
    rw [run_cons, ← hm.normalize, ← hm.capacity, ← hm.backend]
    exact ih _

theorem run_keys {ops : List Operation} (h : r.roster.entries.keys.Nodup) :
    (r.run ops).roster.entries.keys.Nodup := by
  induction ops generalizing r with
  | nil => exact h
  | cons op ops ih => exact ih _ ((r.step_makes op).keys h)

/-- The history under a key after a session: the changes of its calls, one after the other. -/
theorem lookup_run (ops : List Operation) (key : Runner) :
    (r.run ops).roster.entries.lookup key =
      (changes r.roster.normalize r.backend key (r.calls ops)).foldl
        (fun h change => change.apply r.capacity h) (r.roster.entries.lookup key) := by
  induction ops generalizing r with
  | nil => rfl
  | cons op ops ih =>
    have hm := r.step_makes op
    rw [run_cons, ih, hm.normalize, hm.capacity, hm.backend, hm.lookup, calls_cons]
    unfold changes
    rw [List.filterMap_cons]
    split <;> simp_all

theorem lookup_run_empty (normalize : Normalizer) (capacity : Nat) (backend : String)
    (ops : List Operation) (key : Runner) :
    ((empty normalize capacity backend).run ops).roster.entries.lookup key =
      (changes normalize backend key ((empty normalize capacity backend).calls ops)).foldl
        (fun h change => change.apply capacity h) none :=
  lookup_run _ ops key

end Recorder
end InferenceRecorder
