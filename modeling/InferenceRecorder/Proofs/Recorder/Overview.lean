import InferenceRecorder.Proofs.Recorder.Contents
import InferenceRecorder.Proofs.Recorder.Lock
import InferenceRecorder.Proofs.Recorder.Names

/-!
When the overview completes. Every history stands under a name that the normalizer gave back, and
the overview normalizes this name once more. It completes exactly if none of these second calls
fails, which is so after every run exactly if there is no room for histories or the normalizer never
fails on what it gave back itself: `overview_completes_iff`.
-/
namespace InferenceRecorder

def Normalizer.Renormalizes (normalize : Normalizer) : Prop :=
  ∀ name normal, normalize name = some normal → (normalize normal).isSome

theorem Http.answer_runners {r : Recorder} {request : Request} (hm : request.method = "GET")
    (hp : request.uri.path = "/requests/runners") : answer r request = answerRunners r := by
  simp [answer, route?, hp, hm, answerRoute]

namespace Recorder

theorem isSome_overview (r : Recorder) : r.overview.result.isSome ↔
    ∀ entry ∈ r.roster.entries, (r.roster.normalize entry.1.model).isSome := by
  have hresult : r.overview.result = (r.roster.entries.mapM r.unlock.1.summary?).map
      fun lines => lines.mergeSort summaryNotAfter := rfl
  rw [hresult, Option.isSome_map, Json.isSome_mapM]
  refine forall₂_congr fun entry _ => ?_
  simp [summary?, Roster.initialModel?, Roster.key?, unlock]

variable (normalize : Normalizer) (capacity : Nat) (backend : String)

/-- Every key that is held was given back by the normalizer, in the call that made its history. -/
theorem exists_creator_of_mem (ops : List Operation) {entry : Runner × History}
    (he : entry ∈ ((empty normalize capacity backend).run ops).roster.entries) :
    ∃ name, Call.creator? normalize backend entry.1
        ((empty normalize capacity backend).calls ops) = some name ∧
      normalize name = some entry.1.model := by
  have hkeys : ((empty normalize capacity backend).run ops).roster.entries.keys.Nodup :=
    run_keys _ .nil
  obtain ⟨name, hname, -, hspells⟩ :=
    exists_creator normalize capacity backend ops (Table.lookup_of_mem hkeys he)
  exact ⟨name, hname, hspells⟩

theorem isSome_overview_run (ops : List Operation) :
    ((empty normalize capacity backend).run ops).overview.result.isSome ↔
      ∀ entry ∈ ((empty normalize capacity backend).run ops).roster.entries,
        (normalize entry.1.model).isSome := by
  rw [isSome_overview, (run_setup (empty normalize capacity backend) ops).1]
  rfl

/-- One request for a name shows whether its normal form can be normalized again. -/
theorem renormalizes_of_overview {history : History}
    (hroom : (empty normalize capacity backend).reserve? = some history)
    (h : ∀ ops, ((empty normalize capacity backend).run ops).overview.result.isSome) :
    normalize.Renormalizes := by
  intro name normal hnormal
  have hroster := roster_capture_first capacity backend hroom ⟨backend, name, .completion⟩ hnormal
    ⟨"GET", "/", ""⟩ [] default
  have hlisted := h [.capture ⟨backend, name, .completion⟩ ⟨"GET", "/", ""⟩ [] default]
  rw [isSome_overview_run, hroster] at hlisted
  exact hlisted _ List.mem_cons_self

/-- Whatever is held was given back by the normalizer, and where there is no room nothing is
held. -/
theorem overview_of_renormalizes
    (h : (empty normalize capacity backend).reserve? = none ∨ normalize.Renormalizes)
    (ops : List Operation) :
    ((empty normalize capacity backend).run ops).overview.result.isSome := by
  rw [isSome_overview_run]
  intro entry he
  obtain ⟨name, -, hspells⟩ := exists_creator_of_mem normalize capacity backend ops he
  rcases h with hnone | hn
  · have hkeys : ((empty normalize capacity backend).run ops).roster.entries.keys.Nodup :=
      run_keys _ .nil
    have hroom := room_run (empty normalize capacity backend) ops nofun
      (Option.isSome_of_eq_some (Table.lookup_of_mem hkeys he))
    rw [hnone] at hroom
    cases hroom
  · exact hn name _ hspells

/-- The overview completes, as does the answer to who asks for it over the network, exactly if each
name under which something is held can be normalized again, though each of them was given back by
the normalizer. It completes after every run exactly if there is no room for histories or the
normalizer never fails on what it gave back. -/
theorem overview_completes_iff :
    (∀ ops, let r := (empty normalize capacity backend).run ops
      let calls := (empty normalize capacity backend).calls ops
      (∀ entry ∈ r.roster.entries, ∃ name, Call.creator? normalize backend entry.1 calls =
        some name ∧ normalize name = some entry.1.model) ∧
      (r.overview.result.isSome ↔
        ∀ entry ∈ r.roster.entries, (normalize entry.1.model).isSome) ∧
      ∀ request : Http.Request, request.method = "GET" → request.uri.path = "/requests/runners" →
        ((Http.answer r request).result.isSome ↔ r.overview.result.isSome)) ∧
    (((empty normalize capacity backend).reserve? = none ∨ normalize.Renormalizes) ↔
      ∀ ops, ((empty normalize capacity backend).run ops).overview.result.isSome) := by
  refine ⟨fun ops => ⟨fun _ he => exists_creator_of_mem normalize capacity backend ops he,
    isSome_overview_run normalize capacity backend ops, fun request hm hp => ?_⟩,
    overview_of_renormalizes normalize capacity backend, fun h => ?_⟩
  · rw [Http.answer_runners hm hp, Http.answerRunners, Report.map, Option.isSome_map]
  · cases hroom : (empty normalize capacity backend).reserve? with
    | none => exact .inl rfl
    | some history => exact .inr (renormalizes_of_overview normalize capacity backend hroom h)

def strict : Normalizer := fun name =>
  if name = "" then none else if name = "M" then some "m" else some name

def strictSession : List Operation :=
  [.capture ⟨"b", "M", .completion⟩ ⟨"POST", "/v1", ""⟩ [] default,
    .capture ⟨"b", "", .completion⟩ ⟨"POST", "/v1", ""⟩ [] default]

theorem overview_completes_iff_strict : strict.Renormalizes ∧
    ((empty strict 10 "b").run strictSession).overview.result.isSome ∧
    ∃ request, Http.Request.of? "GET" "/requests/runners" [] = some request ∧
      (Http.answer ((empty strict 10 "b").run strictSession) request).result.isSome := by
  have hn : strict.Renormalizes := by
    intro name normal h
    unfold strict at h ⊢
    split_ifs at h with hempty hm
    · cases h
      decide
    · cases h
      simp [hempty, hm]
  obtain ⟨hruns, hall⟩ := overview_completes_iff strict 10 "b"
  have hlisted := hall.1 (.inr hn) strictSession
  have hread : (Http.Request.of? "GET" "/requests/runners" []).map
      (fun request => (request.method, request.uri.path)) = some ("GET", "/requests/runners") := by
    decide +kernel
  obtain ⟨request, hrequest, hasks⟩ := Option.map_eq_some_iff.1 hread
  obtain ⟨hmethod, hpath⟩ := Prod.mk.inj hasks
  exact ⟨hn, hlisted, request, hrequest,
    ((hruns strictSession).2.2 request hmethod hpath).2 hlisted⟩

def lapsing : Normalizer := fun name =>
  if name = "bad" then none else if name = "BAD" then some "bad" else some name

theorem overview_fails_on_recorded :
    let op : Operation := .capture ⟨"llama.cpp", "BAD", .completion⟩ ⟨"POST", "/v1", ""⟩ [] default
    let r := empty lapsing standardCapacity standardBackend
    (r.step op).result.isSome ∧ (r.run [op]).overview.result = none ∧
    ∀ request : Http.Request, request.method = "GET" → request.uri.path = "/requests/runners" →
      (Http.answer (r.run [op]) request).result = none := by
  intro op r
  have hnone : (r.run [op]).overview.result = none :=
    Option.isNone_iff_eq_none.1 (by decide +kernel)
  refine ⟨by decide +kernel, hnone, fun request hm hp => ?_⟩
  rw [Http.answer_runners hm hp, Http.answerRunners, Report.map, hnone]
  rfl

end Recorder
end InferenceRecorder
