import InferenceRecorder.Proofs.Record.History
import InferenceRecorder.Proofs.Recorder.Changes
import Mathlib.Data.List.DropRight

/-!
The window of a runner. Whatever calls were made, what is held for a runner is what the changes
since its last removal say: the last of the captured requests, oldest first, and the last
configuration.
-/
namespace InferenceRecorder
open History (lastly)

namespace Change

def isRemoval : Change → Bool
  | .removed => true
  | _ => false

def creates : Change → Bool
  | .configured _ | .captured _ => true
  | _ => false

def capture? : Change → Option Capture
  | .captured c => some c
  | _ => none

def config? : Change → Option BackendConfig
  | .configured config => some config
  | _ => none

end Change

def sinceRemoval (past : List Change) : List Change :=
  past.rtakeWhile fun change => !change.isRemoval

def captures (past : List Change) : List Capture := past.filterMap Change.capture?

def lastConfig (past : List Change) : BackendConfig :=
  (past.filterMap Change.config?).getLast?.getD BackendConfig.empty

structure Capture.Began (c : Capture) (e : Exchange) : Prop where
  id : e.id = Recorder.exchangeId c.runner.model c.time
  model : e.model = c.runner.model
  method : e.method = c.request.method
  url : e.url = c.request.path
  request : e.request = Utf8.decodeLossy c.body
  time : e.time = c.time
  userAgent : e.userAgent = c.request.userAgent

/-- What is held after these changes. Of a history that is not there everything is empty. -/
structure Window (capacity : Nat) (past : List Change) (h : Option History) : Prop where
  held : h.isSome ↔ ∃ change ∈ sinceRemoval past, change.creates
  config : (h.getD History.empty).config = lastConfig (sinceRemoval past)
  exchanges : List.Forall₂ Capture.Began (lastly capacity (captures (sinceRemoval past)))
    (h.getD History.empty).exchanges

theorem Capture.began_exchange (c : Capture) : c.Began c.exchange :=
  ⟨rfl, rfl, rfl, rfl, rfl, rfl, rfl⟩

theorem Capture.Began.answered {c : Capture} {e : Exchange} (h : c.Began e) (response : String)
    (status : UInt16) : c.Began { e with response := response, status := status } :=
  ⟨h.id, h.model, h.method, h.url, h.request, h.time, h.userAgent⟩

theorem sinceRemoval_removed (past : List Change) : sinceRemoval (past ++ [.removed]) = [] :=
  List.rtakeWhile_concat_neg _ _ _ (by simp [Change.isRemoval])

theorem sinceRemoval_concat {past : List Change} {change : Change} (h : change.isRemoval = false) :
    sinceRemoval (past ++ [change]) = sinceRemoval past ++ [change] :=
  List.rtakeWhile_concat_pos _ _ _ (by simp [h])

theorem began_append {capacity : Nat} {cs : List Capture} {h : History} (c : Capture)
    (hb : List.Forall₂ Capture.Began (lastly capacity cs) h.exchanges) :
    List.Forall₂ Capture.Began (lastly capacity (cs ++ [c]))
      (h.append capacity c.exchange).exchanges := by
  rw [History.exchanges_append, ← History.lastly_lastly_concat]
  apply History.forall₂_lastly
  exact List.rel_append hb (.cons c.began_exchange .nil)

theorem captures_concat (past : List Change) (change : Change) :
    captures (past ++ [change]) = captures past ++ change.capture?.toList := by
  cases hc : change.capture? <;> simp [captures, hc]

theorem lastConfig_concat (past : List Change) (change : Change) :
    lastConfig (past ++ [change]) = change.config?.getD (lastConfig past) := by
  cases hc : change.config? <;> simp [lastConfig, hc]

/-- Neither the configuration nor the requests that were captured depend on the answers. -/
theorem answered_keeps (capacity : Nat) (id response : String) (status : UInt16)
    (h : Option History) :
    (((Change.answered id response status).apply capacity h).getD History.empty).config =
        (h.getD History.empty).config ∧
      ∀ {cs : List Capture}, List.Forall₂ Capture.Began cs (h.getD History.empty).exchanges →
        List.Forall₂ Capture.Began cs
          (((Change.answered id response status).apply capacity h).getD
            History.empty).exchanges := by
  cases h with
  | none => exact ⟨rfl, fun hb => hb⟩
  | some kept =>
    simp only [Change.apply, Option.map_some, Option.getD_some]
    cases ha : kept.answer? id response status with
    | none => exact ⟨rfl, fun hb => hb⟩
    | some filled =>
      refine ⟨?_, fun hb => ?_⟩
      · obtain ⟨u, e, v, -, -, -, rfl⟩ := History.answer?_eq_some ha
        rfl
      · exact History.forall₂_answer? (fun _ _ h => h.answered response status) ha hb

theorem Window.empty (capacity : Nat) : Window capacity [] none :=
  ⟨by simp [sinceRemoval], rfl, by simp [sinceRemoval, captures, lastly, History.empty]⟩

theorem Window.apply {capacity : Nat} {past : List Change} {h : Option History}
    (w : Window capacity past h) (change : Change) :
    Window capacity (past ++ [change]) (change.apply capacity h) := by
  cases change with
  | removed =>
    constructor <;> rw [sinceRemoval_removed]
    · simp [Change.apply]
    · rfl
    · exact (Window.empty capacity).exchanges
  | configured config =>
    constructor <;> rw [sinceRemoval_concat rfl]
    · simp [Change.apply, Change.creates]
    · rw [lastConfig_concat]
      rfl
    · simpa [captures_concat, Change.capture?, Change.apply] using w.exchanges
  | captured c =>
    constructor <;> rw [sinceRemoval_concat rfl]
    · simp [Change.apply, Change.creates]
    · rw [lastConfig_concat]
      exact w.config
    · simpa [captures_concat, Change.capture?, Change.apply] using began_append c w.exchanges
  | answered id response status =>
    obtain ⟨hconfig, hbegan⟩ := answered_keeps capacity id response status h
    constructor <;> rw [sinceRemoval_concat rfl]
    · simpa [Change.apply, Change.creates] using w.held
    · rw [lastConfig_concat, hconfig]
      exact w.config
    · simpa [captures_concat, Change.capture?] using hbegan w.exchanges

theorem window_changes (capacity : Nat) (past : List Change) :
    Window capacity past (past.foldl (fun h change => change.apply capacity h) none) := by
  induction past using List.reverseRecOn with
  | nil => exact Window.empty capacity
  | append_singleton past change ih =>
    rw [List.foldl_append]
    exact ih.apply change

theorem Window.length_le {capacity : Nat} {past : List Change} {h : History}
    (w : Window capacity past (some h)) : h.exchanges.length ≤ capacity := by
  have hl := w.exchanges.length_eq
  rw [History.length_lastly] at hl
  simp only [Option.getD_some] at hl
  omega

namespace Recorder
variable (normalize : Normalizer) (capacity : Nat) (backend : String) (ops : List Operation)

theorem lookup_window (key : Runner) :
    Window capacity
      (changes normalize backend key ((Recorder.empty normalize capacity backend).calls ops))
      (((Recorder.empty normalize capacity backend).run ops).roster.entries.lookup key) := by
  rw [lookup_run_empty]
  exact window_changes capacity _

def oneName : Normalizer := fun model => if model = "" then none else some "m"

def ask (model : String) (nano : Nat) : Operation :=
  .capture ⟨"b", model, .completion⟩ ⟨"POST", "/", ""⟩ [104, 105] ⟨2024, 1, 1, 12, 0, 0, nano⟩

def respelled : List Operation :=
  [ask "M" 0, .remove "m", ask "M" 1, ask "" 2,
    .configure ⟨"b", "m", .completion⟩ (some ⟨some 5, [], none⟩), ask "m" 3]

end Recorder
end InferenceRecorder
