import InferenceRecorder.Proofs.Recorder.Lock

/-!
Steps that fail. A step in which the normalizer fails leaves the roster as it was. What it leaves is
the reading of a streamed response, made before the lock was taken, and after a step that writes a
poisoned lock, which the next step that takes the lock clears with a notice. Without the failed
steps a run comes to the same: `failures_leave_no_trace`.
-/
namespace InferenceRecorder.Recorder

def course (r : Recorder) : List Event → List (Recorder × Event)
  | [] => []
  | event :: events => (r, event) :: course (r.react event).recorder events

def after (r : Recorder) (events : List Event) : Recorder :=
  events.foldl (fun r event => (r.react event).recorder) r

/-- The last of these steps that took the lock failed while it wrote. -/
def leftPoisoned (past : List (Recorder × Event)) : Bool :=
  match (past.filter fun s => s.2.lock?.isSome).getLast? with
  | some s => s.2.lock? == some .write && (s.1.react s.2).result.isNone
  | none => false

def unfailed (past : List (Recorder × Event)) : List (Recorder × Event) :=
  past.filter fun s => !s.2.fails s.1.roster

/-- Reports of one step in two runs: they differ in the notice that the lock was recovered, and in
whether it is poisoned. -/
structure Alike (a b : Report Answer) : Prop where
  result : a.result = b.result
  counts : a.counts = b.counts
  notices : a.notices.filter (· ≠ .lockRecovered) = b.notices.filter (· ≠ .lockRecovered)
  recorder : a.recorder = { b.recorder with poisoned := a.recorder.poisoned }

structure Reported (r : Recorder) (event : Event) (recovers : Bool) (report : Report Answer) :
    Prop where
  notices : ∃ late, report.notices = event.early.1 ++ warning recovers ++ late ∧
    .lockRecovered ∉ event.early.1 ++ late
  failed : event.fails r.roster = true → report.result = none ∧
    report.recorder.roster = r.roster ∧ report.notices = event.early.1 ++ warning recovers ∧
    report.counts = event.early.2
  cause : report.result = none → event.fails r.roster = true ∨ r.reserve? = none
  idle : event.lock? = none → report.result.isSome = true ∧ report.recorder = r

variable (r : Recorder)

theorem after_cons (event : Event) (events : List Event) :
    r.after (event :: events) = (r.react event).recorder.after events := rfl

theorem course_concat (events : List Event) (event : Event) :
    r.course (events ++ [event]) = r.course events ++ [(r.after events, event)] := by
  induction events generalizing r with
  | nil => rfl
  | cons first events ih => simp [course, after, ih]

theorem after_concat (events : List Event) (event : Event) :
    r.after (events ++ [event]) = ((r.after events).react event).recorder := by
  simp [after]

theorem leftPoisoned_concat (past : List (Recorder × Event)) (s : Recorder × Event) :
    leftPoisoned (past ++ [s]) = if s.2.lock?.isSome then
      s.2.lock? == some .write && (s.1.react s.2).result.isNone else leftPoisoned past := by
  unfold leftPoisoned
  split_ifs with h <;> simp [List.filter_append, h]

/-- The lock is poisoned exactly when the last step that took it failed while it wrote. -/
theorem poisoned_after (h : r.poisoned = false) (events : List Event) :
    (r.after events).poisoned = leftPoisoned (r.course events) := by
  induction events using List.reverseRecOn with
  | nil => exact h
  | append_singleton events event ih =>
    rw [after_concat, course_concat, leftPoisoned_concat]
    obtain ⟨hlock, -, -, answer, notices, -, hr⟩ | ⟨lock, hlock, ht⟩ := idle_or_takesLock event
    · simp [hlock, hr, ih]
    · obtain ⟨result, roster, late, counts, ht⟩ := ht (r.after events)
      have hr : (r.after events).react event = _ := ht.report (r.after events).poisoned
      simp [hlock, hr]

theorem alike_react (poisoned : Bool) (event : Event) :
    Alike (({ r with poisoned := poisoned } : Recorder).react event) (r.react event) := by
  obtain ⟨-, -, -, answer, notices, -, hr⟩ | ⟨lock, -, ht⟩ := idle_or_takesLock event
  · rw [hr, hr]
    exact ⟨rfl, rfl, rfl, rfl⟩
  · obtain ⟨result, roster, late, counts, ht⟩ := ht r
    have hr : r.react event = _ := ht.report r.poisoned
    rw [hr, ht.report poisoned]
    refine ⟨rfl, rfl, ?_, rfl⟩
    cases poisoned <;> cases r.poisoned <;> simp [warning]

/-- A step in which the normalizer fails may poison the lock, and that is all. -/
theorem recorder_of_fails {event : Event} (h : event.fails r.roster = true) :
    (r.react event).recorder = { r with poisoned := (r.react event).recorder.poisoned } := by
  obtain ⟨-, -, hf, -⟩ | ⟨lock, -, ht⟩ := idle_or_takesLock event
  · rw [hf] at h
    cases h
  · obtain ⟨result, roster, late, counts, ht⟩ := ht r
    have hr : r.react event = _ := ht.report r.poisoned
    rw [hr, (ht.failed h).2]

theorem alike_course (poisoned : Bool) (events : List Event) :
    let kept := unfailed (r.course events)
    (({ r with poisoned := poisoned } : Recorder).after (kept.map Prod.snd)).roster =
        (r.after events).roster ∧
      List.Forall₂ (fun s s' => s.2 = s'.2 ∧ Alike (s.1.react s.2) (s'.1.react s'.2))
        (({ r with poisoned := poisoned } : Recorder).course (kept.map Prod.snd)) kept := by
  induction events generalizing r poisoned with
  | nil => exact ⟨rfl, .nil⟩
  | cons event events ih =>
    cases hf : event.fails r.roster with
    | true =>
      have hk : unfailed (r.course (event :: events)) =
          unfailed ((r.react event).recorder.course events) := by
        simp [unfailed, course, hf]
      have ih := ih (r.react event).recorder poisoned
      rw [hk, after_cons]
      rw [r.recorder_of_fails hf] at ih ⊢
      exact ih
    | false =>
      have hk : unfailed (r.course (event :: events)) =
          (r, event) :: unfailed ((r.react event).recorder.course events) := by
        simp [unfailed, course, hf]
      have ha := r.alike_react poisoned event
      obtain ⟨hroster, hsteps⟩ := ih (r.react event).recorder
        (({ r with poisoned := poisoned } : Recorder).react event).recorder.poisoned
      rw [← ha.recorder] at hroster hsteps
      rw [hk]
      exact ⟨hroster, .cons ⟨rfl, ha⟩ hsteps⟩

theorem not_mem_early (event : Event) : .lockRecovered ∉ event.early.1 := by
  unfold Event.early
  cases event.operation? with
  | none => simp
  | some op =>
    unfold Operation.early
    cases op <;> simp
    split_ifs <;> simp [Stream.Reconstruction.notices]

theorem reported (event : Event) :
    Reported r event (event.lock?.isSome && r.poisoned) (r.react event) := by
  have hearly := not_mem_early event
  obtain ⟨hlock, he, hf, answer, notices, hn, hr⟩ | ⟨lock, hlock, ht⟩ := idle_or_takesLock event
  · rw [hr, hlock]
    refine ⟨⟨notices, by simp [he, warning], by simp [he, hn]⟩, ?_, ?_, fun _ => ⟨rfl, rfl⟩⟩
    · simp [hf]
    · simp
  · obtain ⟨result, roster, late, counts, ht⟩ := ht r
    have hr : r.react event = _ := ht.report r.poisoned
    rw [hr, hlock]
    refine ⟨⟨late, rfl, by simp [hearly, ht.calm]⟩, fun h => ?_, ht.cause, fun h => ?_⟩
    · obtain ⟨hresult, hroster⟩ := ht.failed h
      obtain ⟨hlate, hcounts⟩ := ht.silent hresult
      exact ⟨hresult, hroster, by simp [hlate], by simp [hcounts]⟩
    · rw [hlock] at h
      cases h

theorem capacity_react (event : Event) : (r.react event).recorder.capacity = r.capacity := by
  obtain ⟨-, -, -, answer, notices, -, hr⟩ | ⟨lock, -, ht⟩ := idle_or_takesLock event
  · rw [hr]
  · obtain ⟨result, roster, late, counts, ht⟩ := ht r
    have hr : r.react event = _ := ht.report r.poisoned
    rw [hr]

theorem capacity_course {events : List Event} :
    ∀ s ∈ r.course events, s.1.capacity = r.capacity := by
  induction events generalizing r with
  | nil => simp [course]
  | cons event events ih =>
    rw [course]
    refine List.forall_mem_cons.2 ⟨rfl, fun s hs => ?_⟩
    rw [ih _ s hs, capacity_react]

/-- Where there is room for new histories, all steps that fail do so for want of a normal form. -/
theorem unfailed_eq (h : r.reserve? ≠ none) (events : List Event) : unfailed (r.course events) =
    (r.course events).filter fun s => (s.1.react s.2).result.isSome := by
  refine List.filter_congr fun s hs => ?_
  have hr := s.1.reported s.2
  have hroom : s.1.reserve? ≠ none := by
    rw [reserve?, r.capacity_course s hs]
    exact h
  cases hf : s.2.fails s.1.roster with
  | true => simp [(hr.failed hf).1]
  | false =>
    cases hresult : (s.1.react s.2).result with
    | some answer => rfl
    | none =>
      have hc := hr.cause hresult
      simp [hf, hroom] at hc

/-- Without the steps in which the normalizer failed (all that failed, where there is room for new
histories) a run leaves the same roster, and each of its other steps has the same result. A failed
step leaves nothing in the log but what was read before the lock was taken; and whatever step takes
the lock notices that it was poisoned exactly if the last step before it that took the lock failed
while it wrote. -/
theorem failures_leave_no_trace (normalize : Normalizer) (capacity : Nat) (backend : String)
    (events : List Event) :
    let r := Recorder.empty normalize capacity backend
    let kept := unfailed (r.course events)
    (r.reserve? = none ∨
        kept = (r.course events).filter fun s => (s.1.react s.2).result.isSome) ∧
      (r.after (kept.map Prod.snd)).roster = (r.after events).roster ∧
      List.Forall₂ (fun s s' => s.2 = s'.2 ∧ Alike (s.1.react s.2) (s'.1.react s'.2))
        (r.course (kept.map Prod.snd)) kept ∧
      ∀ event, Reported (r.after events) event
        (event.lock?.isSome && leftPoisoned (r.course events)) ((r.after events).react event) := by
  intro r kept
  obtain ⟨hroster, hsteps⟩ := r.alike_course false events
  refine ⟨?_, hroster, hsteps, fun event => ?_⟩
  · by_cases hroom : r.reserve? = none
    · exact .inl hroom
    · exact .inr (r.unfailed_eq hroom events)
  · rw [← r.poisoned_after rfl events]
    exact (r.after events).reported event

end InferenceRecorder.Recorder
