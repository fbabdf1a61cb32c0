import InferenceRecorder.Http.Router
import InferenceRecorder.Proofs.Json.Reading
import InferenceRecorder.Proofs.Recorder.Changes

/-!
What comes to a recorder, and the lock that it takes. A step under the lock comes to the same
whether the lock is poisoned or not; that it was poisoned shows in one notice: `idle_or_takesLock`.
-/
namespace InferenceRecorder

inductive Lock where
  | read
  | write
  deriving DecidableEq, Repr

inductive Event where
  | call (op : Operation)
  | visit (request : Http.Request)

inductive Answer where
  | reply (reply : Reply)
  | response (response : Http.Response)
  deriving DecidableEq, Repr

namespace Http

def Route.operation? (query : Option String) : Route → Option Operation
  | .records => (askedModel? query).map .query
  | .runners => some .overview

def Request.operation? (request : Request) : Option Operation :=
  if request.method = "GET" ∨ request.method = "HEAD" then
    (route? request.uri.path).bind (Route.operation? request.uri.query)
  else none

end Http

namespace Operation

def lock? : Operation → Option Lock
  | .configure _ none => none
  | .query _ | .overview => some .read
  | _ => some .write

/-- The names of which a call needs the normal form. The overview looks up what it shows by the
normal forms, as if they were names. -/
def names (entries : Table Runner History) : Operation → List String
  | .configure _ none => []
  | .configure runner (some _) | .capture runner _ _ _ | .respond _ runner _ => [runner.model]
  | .query model | .remove model => [model]
  | .overview => entries.map fun e => e.1.model

def fails (roster : Roster History) (op : Operation) : Bool :=
  (op.names roster.entries).any fun name => (roster.normalize name).isNone

def early : Operation → List Notice × List Count
  | .respond _ _ came =>
    let body := Utf8.decodeLossy came.body
    let stream := Stream.reconstruct body
    if Stream.dataMarker <:+: body.toList then (stream.notices, stream.counts) else ([], [])
  | _ => ([], [])

end Operation

namespace Event

def operation? : Event → Option Operation
  | .call op => some op
  | .visit request => request.operation?

def lock? (event : Event) : Option Lock := event.operation?.bind Operation.lock?

def fails (roster : Roster History) (event : Event) : Bool :=
  event.operation?.any (Operation.fails roster)

def early (event : Event) : List Notice × List Count :=
  (event.operation?.map Operation.early).getD ([], [])

end Event

structure Locked {α : Type} (act : Recorder → Report α) (lock : Lock)
    (early : List Notice × List Count) (fails : Bool) (r : Recorder) (result : Option α)
    (roster : Roster History) (late : List Notice) (counts : List Count) : Prop where
  report : ∀ poisoned, act { r with poisoned := poisoned } =
    ⟨result, ⟨roster, r.capacity, r.backend, lock == .write && result.isNone⟩,
      early.1 ++ Recorder.warning poisoned ++ late, early.2 ++ counts⟩
  calm : .lockRecovered ∉ late
  silent : result = none → late = [] ∧ counts = []
  failed : fails = true → result = none ∧ roster = r.roster
  cause : result = none → fails = true ∨ r.reserve? = none

def TakesLock {α : Type} (act : Recorder → Report α) (lock : Lock)
    (early : List Notice × List Count) (fails : Bool) (r : Recorder) : Prop :=
  ∃ result roster late counts, Locked act lock early fails r result roster late counts

section
variable {α : Type} {act : Recorder → Report α} {lock : Lock} {early : List Notice × List Count}
  {fails : Bool} {r : Recorder}

theorem TakesLock.of_failed (hf : fails = true)
    (h : ∀ poisoned, act { r with poisoned := poisoned } =
      ⟨none, { r with poisoned := lock == .write }, early.1 ++ Recorder.warning poisoned,
        early.2⟩) :
    TakesLock act lock early fails r :=
  ⟨none, r.roster, [], [],
    { report := fun poisoned => by simp [h]
      calm := by simp
      silent := fun _ => ⟨rfl, rfl⟩
      failed := fun _ => ⟨rfl, rfl⟩
      cause := fun _ => .inl hf }⟩

theorem TakesLock.of_done (answer : α) (roster : Roster History) (late : List Notice)
    (counts : List Count) (hf : fails = false) (hn : .lockRecovered ∉ late)
    (h : ∀ poisoned, act { r with poisoned := poisoned } =
      ⟨some answer, ⟨roster, r.capacity, r.backend, false⟩,
        early.1 ++ Recorder.warning poisoned ++ late, early.2 ++ counts⟩) :
    TakesLock act lock early fails r :=
  ⟨some answer, roster, late, counts,
    { report := fun poisoned => by simp [h]
      calm := hn
      silent := by simp
      failed := by simp [hf]
      cause := by simp }⟩

theorem TakesLock.map {β : Type} (h : TakesLock act lock early fails r) (f : α → β) :
    TakesLock (fun r => (act r).map f) lock early fails r := by
  obtain ⟨result, roster, late, counts, h⟩ := h
  refine ⟨result.map f, roster, late, counts, fun poisoned => ?_, h.calm, fun hr => ?_,
    fun hf => ?_, fun hr => ?_⟩
  · rw [h.report]
    simp [Report.map]
  · exact h.silent (Option.map_eq_none_iff.1 hr)
  · obtain ⟨hr, hs⟩ := h.failed hf
    exact ⟨by rw [hr]; rfl, hs⟩
  · exact h.cause (Option.map_eq_none_iff.1 hr)

end

theorem Roster.upsert_of_normal?_none {roster : Roster α} {runner : Runner}
    (hk : runner.normal? roster.normalize = none) (init : Option α) (change : α → α) :
    roster.upsert runner init change = (none, roster) := by
  simp [upsert, key?_eq, hk]

theorem Roster.init_of_upsert_none {roster roster' : Roster α} {runner key : Runner}
    {init : Option α} {change : α → α} (hk : runner.normal? roster.normalize = some key)
    (h : roster.upsert runner init change = (none, roster')) : init = none := by
  simp only [upsert, key?_eq, hk] at h
  split at h
  · cases h
  · split at h
    · rfl
    · cases h

theorem Operation.fails_eq {op : Operation} {roster : Roster History} (runner : Runner)
    (h : op.names roster.entries = [runner.model]) :
    op.fails roster = (runner.normal? roster.normalize).isNone := by
  simp [fails, h, Runner.normal?]

/-- A response is read before the lock is taken. -/
theorem Operation.early_respond (id : String) (runner : Runner) (came : Captured) :
    (respond id runner came).early = came.reading :=
  came.reading_eq.symm

namespace Recorder
variable (r : Recorder)

/-- A call that upserts, as configuring and capturing do. -/
theorem takesLock_upsert {α : Type} {act : Recorder → Report α} (op : Operation) (runner : Runner)
    (edit : History → History) (answer : α) (counted : Upserted History → List Count)
    (hn : op.names r.roster.entries = [runner.model]) (he : op.early = ([], []))
    (ha : ∀ poisoned, act { r with poisoned := poisoned } =
      match r.roster.upsert runner r.reserve? edit with
      | (some u, roster) => ⟨some answer, ⟨roster, r.capacity, r.backend, false⟩,
          warning poisoned, counted u⟩
      | (none, roster) => ⟨none, ⟨roster, r.capacity, r.backend, true⟩, warning poisoned, []⟩) :
    TakesLock act .write op.early (op.fails r.roster) r := by
  rw [he, Operation.fails_eq runner hn]
  cases hk : runner.normal? r.roster.normalize with
  | none =>
    rw [Roster.upsert_of_normal?_none hk] at ha
    exact .of_failed rfl ha
  | some key =>
    cases hu : r.roster.upsert runner r.reserve? edit with
    | mk entry roster =>
      rw [hu] at ha
      cases entry with
      | some u => exact .of_done _ _ [] _ rfl (by simp) fun poisoned => by simpa using ha poisoned
      | none =>
        -- the name has a normal form, but there is no room for a new history
        exact ⟨none, roster, [], [], fun poisoned => by simp [ha], by simp, by simp, by simp,
          fun _ => .inr (Roster.init_of_upsert_none hk hu)⟩

theorem takesLock_respond (id : String) (runner : Runner) (came : Captured) :
    TakesLock (fun r => r.respond id runner came) .write (Operation.respond id runner came).early
      ((Operation.respond id runner came).fails r.roster) r := by
  rw [Operation.early_respond, Operation.fails_eq runner rfl]
  obtain ⟨hk, hr⟩ | ⟨key, hk, ⟨-, notice, hn, hr⟩ | ⟨h, -, hr⟩⟩ := r.respond_cases id runner came
  · exact .of_failed (by rw [hk]; rfl) hr
  · exact .of_done _ _ _ _ (by rw [hk]; rfl) (by simp [hn.symm]) hr
  · exact .of_done _ _ [] _ (by rw [hk]; rfl) (by simp) fun poisoned => by simpa using hr poisoned

theorem takesLock_remove (model : String) :
    TakesLock (fun r => r.remove model) .write (Operation.remove model).early
      ((Operation.remove model).fails r.roster) r := by
  rw [Operation.fails_eq (r.completionRunner model) rfl]
  cases hr : r.roster.delete (r.completionRunner model) with
  | none =>
    have hk : (r.completionRunner model).normal? r.roster.normalize = none :=
      Option.map_eq_none_iff.1 hr
    rw [completionRunner] at hr
    refine .of_failed (by rw [hk]; rfl) fun poisoned => ?_
    simp [remove, unlock, completionRunner, failedLocked, hr, warning, Operation.early]
  | some after =>
    obtain ⟨held, roster⟩ := after
    obtain ⟨key, hk, -⟩ := Roster.delete_some hr
    rw [completionRunner] at hr
    refine .of_done held.isSome roster
      [if held.isSome then .recordsRemoved model else .nothingToRemove model] [] (by rw [hk]; rfl)
      (by cases held <;> simp) fun poisoned => ?_
    cases held <;> simp [remove, unlock, completionRunner, hr, warning, Operation.early]

theorem takesLock_query (model : String) :
    TakesLock (fun r => r.query model) .read (Operation.query model).early
      ((Operation.query model).fails r.roster) r := by
  have hq : ∀ poisoned, ({ r with poisoned := poisoned } : Recorder).query model =
      ⟨r.roster.get? (r.completionRunner model), { r with poisoned := false }, warning poisoned,
        []⟩ := fun _ => rfl
  rw [Operation.fails_eq (r.completionRunner model) rfl]
  cases hk : (r.completionRunner model).normal? r.roster.normalize with
  | none =>
    simp only [Roster.get?, Roster.key?_eq, hk, Option.map_none] at hq
    exact .of_failed rfl hq
  | some key =>
    simp only [Roster.get?, Roster.key?_eq, hk, Option.map_some] at hq
    exact .of_done _ _ [] [] rfl (by simp) fun poisoned => by
      simpa [Operation.early] using hq poisoned

theorem summary?_eq_none_iff {entry : Runner × History} :
    r.summary? entry = none ↔ r.roster.normalize entry.1.model = none := by
  simp [summary?, Roster.initialModel?, Roster.key?]

theorem takesLock_overview :
    TakesLock overview .read Operation.overview.early (Operation.overview.fails r.roster) r := by
  have ho : ∀ poisoned, ({ r with poisoned := poisoned } : Recorder).overview =
      ⟨(r.roster.entries.mapM r.summary?).map fun lines => lines.mergeSort summaryNotAfter,
        { r with poisoned := false }, warning poisoned, []⟩ := fun _ => rfl
  have hf : Operation.overview.fails r.roster = (r.roster.entries.mapM r.summary?).isNone := by
    rw [Bool.eq_iff_iff, Option.isNone_iff_eq_none, Json.mapM_eq_none_iff]
    simp [summary?_eq_none_iff, Operation.fails, Operation.names]
  rw [hf]
  cases hm : r.roster.entries.mapM r.summary? with
  | none =>
    rw [hm] at ho
    exact .of_failed rfl ho
  | some lines =>
    rw [hm] at ho
    exact .of_done _ _ [] [] rfl (by simp) fun poisoned => by
      simpa [Operation.early] using ho poisoned

/-- What a call that takes the lock comes to does not depend on whether the lock is poisoned. -/
theorem takesLock_step {op : Operation} {lock : Lock} (h : op.lock? = some lock) :
    TakesLock (fun r => r.step op) lock op.early (op.fails r.roster) r := by
  cases op with
  | configure runner config =>
    cases config with
    | none => cases h
    | some config =>
      cases h
      have ht : TakesLock (fun r => r.configure runner (some config)) .write _ _ r :=
        r.takesLock_upsert (.configure runner (some config)) runner
          (fun h => { h with config := config }) () (fun _ => []) rfl rfl fun poisoned => rfl
      exact ht.map fun _ => Reply.configured
  | capture runner request body time =>
    cases h
    have ht : TakesLock (fun r => r.capture runner request body time) .write _ _ r :=
      r.takesLock_upsert (.capture runner request body time) runner
        (History.append r.capacity (begun runner request body time))
        (begun runner request body time).id
        (fun u => requestCounts runner (u.before.evictedBy r.capacity)) rfl rfl
        fun poisoned => rfl
    exact ht.map Reply.captured
  | respond id runner came =>
    cases h
    exact (r.takesLock_respond id runner came).map Reply.responded
  | query model =>
    cases h
    exact (r.takesLock_query model).map Reply.found
  | remove model =>
    cases h
    exact (r.takesLock_remove model).map Reply.removed
  | overview =>
    cases h
    exact r.takesLock_overview.map Reply.listed

end Recorder

namespace Http

def Answers (answer : Recorder → Report Response) (op? : Option Operation) : Prop :=
  match op? with
  | none => ∃ response, ∀ r, answer r = ⟨some response, r, [], []⟩
  | some op => op.lock? = some .read ∧
    ∃ view : Reply → Response, ∀ r, answer r = (r.step op).map view

theorem Answers.map {answer : Recorder → Report Response} {op? : Option Operation}
    (h : Answers answer op?) (f : Response → Response) :
    Answers (fun r => (answer r).map f) op? := by
  cases op? with
  | none =>
    obtain ⟨response, h⟩ := h
    exact ⟨f response, fun r => by simp [h, Report.map]⟩
  | some op =>
    obtain ⟨hl, view, h⟩ := h
    exact ⟨hl, fun reply => f (view reply), fun r => by
      simp [h, Report.map, Function.comp_def]⟩

def recordsView (model : String) : Reply → Response
  | .found (some h) => jsonResponse (recordsDocument model h)
  | _ => recordsMissing model

def runnersView : Reply → Response
  | .listed lines => jsonResponse (runnersDocument lines)
  | _ => notFound

theorem answers_route (query : Option String) (route : Route) :
    Answers (fun r => answerRoute r query route) (route.operation? query) := by
  cases route with
  | records =>
    simp only [Route.operation?, answerRoute, answerRecords]
    cases askedModel? query with
    | none => exact ⟨modelMissing, fun r => rfl⟩
    | some model =>
      refine ⟨rfl, recordsView model, fun r => ?_⟩
      simp only [Recorder.step, Report.map]
      cases (r.query model).result with
      | none => rfl
      | some held => cases held <;> rfl
  | runners =>
    refine ⟨rfl, runnersView, fun r => ?_⟩
    simp only [Recorder.step, Report.map, answerRoute, answerRunners]
    cases r.overview.result <;> rfl

theorem answers_request (request : Request) :
    Answers (fun r => answer r request) request.operation? := by
  unfold Request.operation?
  cases hr : route? request.uri.path with
  | none =>
    rw [Option.bind_none, ite_self]
    exact ⟨notFound, fun r => by simp [answer, hr]⟩
  | some route =>
    have ha := answers_route request.uri.query route
    rw [Option.bind_some]
    by_cases hg : request.method = "GET"
    · rw [if_pos (.inl hg)]
      simpa [answer, hr, hg] using ha
    · by_cases hh : request.method = "HEAD"
      · rw [if_pos (.inr hh)]
        simpa [answer, hr, hh] using ha.map withoutBody
      · rw [if_neg (by simp [hg, hh])]
        exact ⟨methodNotAllowed, fun r => by simp [answer, hr, hg, hh]⟩

end Http

namespace Recorder

def react (r : Recorder) : Event → Report Answer
  | .call op => (r.step op).map .reply
  | .visit request => (Http.answer r request).map .response

structure Idle (event : Event) : Prop where
  lock : event.lock? = none
  early : event.early = ([], [])
  fails (roster : Roster History) : event.fails roster = false
  report : ∃ answer notices, .lockRecovered ∉ notices ∧
    ∀ r : Recorder, r.react event = ⟨some answer, r, notices, []⟩

theorem idle_or_takesLock (event : Event) : Idle event ∨ ∃ lock, event.lock? = some lock ∧
    ∀ r, TakesLock (fun r => r.react event) lock event.early (event.fails r.roster) r := by
  cases event with
  | call op =>
    cases hl : op.lock? with
    | none =>
      unfold Operation.lock? at hl
      split at hl <;> cases hl
      exact .inl ⟨rfl, rfl, fun _ => rfl, .reply .configured, [_], by simp, fun _ => rfl⟩
    | some lock => exact .inr ⟨lock, hl, fun r => (r.takesLock_step hl).map Answer.reply⟩
  | visit request =>
    have ha := Http.answers_request request
    cases ho : request.operation? with
    | none =>
      rw [ho] at ha
      obtain ⟨response, ha⟩ := ha
      refine .inl ⟨?_, ?_, ?_, .response response, [], by simp, ?_⟩
      · simp [Event.lock?, Event.operation?, ho]
      · simp [Event.early, Event.operation?, ho]
      · simp [Event.fails, Event.operation?, ho]
      · intro r
        simp [react, ha, Report.map]
    | some op =>
      rw [ho] at ha
      obtain ⟨hl, view, ha⟩ := ha
      refine .inr ⟨.read, ?_, fun r => ?_⟩
      · simp [Event.lock?, Event.operation?, ho, hl]
      · simp only [react, ha, Event.early, Event.fails, Event.operation?, ho]
        exact ((r.takesLock_step hl).map view).map Answer.response

end Recorder
end InferenceRecorder
