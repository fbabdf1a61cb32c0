import InferenceRecorder.Recorder.Calls
import InferenceRecorder.Tap.MemorySink
import Mathlib.Algebra.GroupWithZero.Nat

/-!
Taps in a row. However many of them stand in front of a sink, the sink gets the same steps and the
caller gets its replies; only a flush that the sink is unable to do goes unnoticed. Every tap has
kept the bytes that the sink took and the last status.
-/
namespace InferenceRecorder
variable {σ : Type}

def Layered (σ : Type) : Nat → Type
  | 0 => σ
  | depth + 1 => Tap (Layered σ depth)

def Sink.layered (sink : Sink σ) : (depth : Nat) → Sink (Layered σ depth)
  | 0 => sink
  | depth + 1 => (sink.layered depth).tapped

namespace Layered

def fresh (state : σ) : (depth : Nat) → Layered σ depth
  | 0 => state
  | depth + 1 => Tap.fresh (fresh state depth)

def inner : {depth : Nat} → Layered σ depth → σ
  | 0, state => state
  | _ + 1, tap => inner (Tap.inner tap)

def captured : {depth : Nat} → Layered σ depth → List Captured
  | 0, _ => []
  | _ + 1, tap => Tap.captured tap :: captured (Tap.inner tap)

def stack (state : σ) (c : Captured) : (depth : Nat) → Layered σ depth
  | 0 => state
  | depth + 1 => (⟨stack state c depth, c.body, c.status⟩ : Tap (Layered σ depth))

end Layered

def SinkStep.taken : SinkStep → SinkReply → List UInt8
  | .write bytes, .accepted count => bytes.take count
  | _, _ => []

def SinkStep.status? : SinkStep → Option UInt16
  | .setStatus status => some status
  | _ => none

def SinkReply.tapped : SinkReply → SinkReply
  | .noFlush => .flushed
  | reply => reply

def SinkReply.count : SinkReply → Nat
  | .accepted count => count
  | _ => 0

def Sink.accepted (sink : Sink σ) (state : σ) (steps : List SinkStep) : List UInt8 :=
  (List.zipWith SinkStep.taken steps (sink.run state steps).1).flatten

def lastStatus (steps : List SinkStep) : UInt16 :=
  (steps.filterMap SinkStep.status?).getLast?.getD 200

def Captured.after (c : Captured) (steps : List SinkStep) (replies : List SinkReply) : Captured :=
  ⟨c.body ++ (List.zipWith SinkStep.taken steps replies).flatten,
    (steps.filterMap SinkStep.status?).getLast?.getD c.status⟩

theorem SinkReply.tapped_idem (reply : SinkReply) : reply.tapped.tapped = reply.tapped := by
  cases reply <;> rfl

theorem SinkStep.taken_tapped (s : SinkStep) (reply : SinkReply) :
    s.taken reply.tapped = s.taken reply := by
  cases s <;> cases reply <;> rfl

theorem Sink.run_cons (sink : Sink σ) (state : σ) (s : SinkStep) (steps : List SinkStep) :
    sink.run state (s :: steps) =
      ((sink.step state s).1 :: (sink.run (sink.step state s).2 steps).1,
        (sink.run (sink.step state s).2 steps).2) := rfl

/-- One step through a tap: the sink makes the step, and the tap notes what was taken. -/
theorem Sink.step_tapped (sink : Sink σ) (tap : Tap σ) (s : SinkStep) :
    sink.tapped.step tap s = ((sink.step tap.inner s).1.tapped,
      ⟨(sink.step tap.inner s).2, tap.body ++ s.taken (sink.step tap.inner s).1,
        s.status?.getD tap.status⟩) := by
  cases s with
  | write bytes =>
    simp only [Sink.step, Sink.tapped, Tap.write]
    cases sink.write tap.inner bytes with
    | mk result state => cases result <;> simp [SinkReply.tapped, SinkStep.taken, SinkStep.status?]
  | setStatus status =>
    simp [Sink.step, Sink.tapped, Tap.setStatus, SinkReply.tapped, SinkStep.taken, SinkStep.status?]
  | flush =>
    simp only [Sink.step, Sink.tapped, Tap.flush]
    cases sink.flush tap.inner with
    | none => simp [SinkReply.tapped, SinkStep.taken, SinkStep.status?]
    | some flushed =>
      obtain ⟨result, state⟩ := flushed
      cases result <;> simp [SinkReply.tapped, SinkStep.taken, SinkStep.status?]

theorem Captured.after_cons (c : Captured) (s : SinkStep) (reply : SinkReply)
    (steps : List SinkStep) (replies : List SinkReply) :
    c.after (s :: steps) (reply :: replies) =
      Captured.after ⟨c.body ++ s.taken reply, s.status?.getD c.status⟩ steps replies := by
  cases hs : s.status? with
  | none => simp [after, hs]
  | some status => simp [after, hs, List.getLast?_cons]

theorem Layered.inner_stack (state : σ) (c : Captured) (depth : Nat) :
    (stack state c depth).inner = state := by
  induction depth with
  | zero => rfl
  | succ depth ih => exact ih

theorem Layered.captured_stack (state : σ) (c : Captured) (depth : Nat) :
    (stack state c depth).captured = List.replicate depth c := by
  induction depth with
  | zero => rfl
  | succ depth ih => exact congrArg (c :: ·) ih

theorem Layered.fresh_eq (state : σ) (depth : Nat) :
    fresh state depth = stack state ⟨[], 200⟩ depth := by
  induction depth with
  | zero => rfl
  | succ depth ih =>
    rw [fresh, ih]
    rfl

/-- All taps of the row take note of the same. -/
theorem Sink.step_stack (sink : Sink σ) (state : σ) (c : Captured) (depth : Nat) (s : SinkStep) :
    (sink.layered (depth + 1)).step (Layered.stack state c (depth + 1)) s =
      ((sink.step state s).1.tapped, Layered.stack (sink.step state s).2
        ⟨c.body ++ s.taken (sink.step state s).1, s.status?.getD c.status⟩ (depth + 1)) := by
  induction depth with
  | zero => exact sink.step_tapped ⟨state, c.body, c.status⟩ s
  | succ depth ih =>
    have hstep := (sink.layered (depth + 1)).step_tapped
      ⟨Layered.stack state c (depth + 1), c.body, c.status⟩ s
    rw [ih, SinkReply.tapped_idem, SinkStep.taken_tapped] at hstep
    exact hstep

theorem Sink.run_stack (sink : Sink σ) (state : σ) (c : Captured) (depth : Nat)
    (steps : List SinkStep) :
    (sink.layered (depth + 1)).run (Layered.stack state c (depth + 1)) steps =
      ((sink.run state steps).1.map SinkReply.tapped, Layered.stack (sink.run state steps).2
        (c.after steps (sink.run state steps).1) (depth + 1)) := by
  induction steps generalizing state c with
  | nil => simp [Sink.run, Captured.after]
  | cons s steps ih =>
    rw [run_cons, step_stack, ih, run_cons, Captured.after_cons]
    rfl

theorem Sink.captured_tapped (sink : Sink σ) (state : σ) (steps : List SinkStep) :
    (sink.tapped.run (Tap.fresh state) steps).2.captured =
      ⟨sink.accepted state steps, lastStatus steps⟩ :=
  congrArg (fun r => Tap.captured r.2) (sink.run_stack state ⟨[], 200⟩ 0 steps)

def Sink.Bounded (sink : Sink σ) : Prop :=
  ∀ state bytes count after, sink.write state bytes = (.ok count, after) → count ≤ bytes.length

theorem Sink.Bounded.length_taken {sink : Sink σ} (h : sink.Bounded) (state : σ) (s : SinkStep) :
    (s.taken (sink.step state s).1).length = (sink.step state s).1.count := by
  cases s with
  | write bytes =>
    simp only [Sink.step]
    cases hw : sink.write state bytes with
    | mk result after =>
      cases result with
      | ok count => exact List.length_take_of_le (h state bytes count after hw)
      | error fault => rfl
  | setStatus status => rfl
  | flush =>
    simp only [Sink.step]
    split <;> rfl

/-- Of every write, as many bytes are kept as the sink told. -/
theorem Sink.Bounded.length_accepted {sink : Sink σ} (h : sink.Bounded) (state : σ)
    (steps : List SinkStep) : (sink.accepted state steps).length =
      ((sink.run state steps).1.map SinkReply.count).sum := by
  induction steps generalizing state with
  | nil => rfl
  | cons s steps ih =>
    simp only [accepted] at ih ⊢
    rw [run_cons, List.zipWith_cons_cons, List.flatten_cons, List.length_append, ih,
      h.length_taken, List.map_cons, List.sum_cons]

/-- What a row of taps in front of a sink shows, against the sink alone. -/
structure Transparent (sink : Sink σ) (state : σ) (steps : List SinkStep)
    (replies : List SinkReply) {depth : Nat} (row : Layered σ depth) : Prop where
  replies_eq : replies = (sink.run state steps).1.map SinkReply.tapped
  inner_eq : row.inner = (sink.run state steps).2
  layers : row.captured.length = depth
  body_eq : ∀ c ∈ row.captured, c.body = sink.accepted state steps
  length_body : ∀ c ∈ row.captured,
    c.body.length = ((sink.run state steps).1.map SinkReply.count).sum
  status_eq : ∀ c ∈ row.captured, c.status = lastStatus steps

/-- Taps are transparent at any depth. -/
theorem taps_transparent {sink : Sink σ} (hsink : sink.Bounded) (state : σ) {depth : Nat}
    (hdepth : 1 ≤ depth) (steps : List SinkStep) :
    Transparent sink state steps ((sink.layered depth).run (Layered.fresh state depth) steps).1
      ((sink.layered depth).run (Layered.fresh state depth) steps).2 := by
  obtain ⟨below, rfl⟩ : ∃ below, depth = below + 1 := ⟨depth - 1, by omega⟩
  have hrun := sink.run_stack state ⟨[], 200⟩ below steps
  rw [← Layered.fresh_eq] at hrun
  rw [hrun]
  have hc : ∀ c ∈ (Layered.stack (sink.run state steps).2
      (Captured.after ⟨[], 200⟩ steps (sink.run state steps).1) (below + 1)).captured,
      c = ⟨sink.accepted state steps, lastStatus steps⟩ := by
    rw [Layered.captured_stack]
    exact fun c hc => List.eq_of_mem_replicate hc
  refine ⟨rfl, Layered.inner_stack _ _ _, ?_, fun c h => ?_, fun c h => ?_, fun c h => ?_⟩
  · rw [Layered.captured_stack, List.length_replicate]
  · rw [hc c h]
  · rw [hc c h, hsink.length_accepted]
  · rw [hc c h]

theorem MemorySink.atMost_le (bound : Option Nat) (n : Nat) : atMost bound n ≤ n := by
  cases bound with
  | none => exact Nat.le_refl n
  | some bound => exact Nat.min_le_right bound n

theorem Sink.bounded_memory (setup : MemorySetup) : (Sink.memory setup).Bounded := by
  intro state bytes count after hw
  simp only [Sink.memory, MemorySink.write] at hw
  split at hw
  next => cases hw
  next =>
    cases hw
    exact Nat.le_trans (MemorySink.atMost_le _ _) (MemorySink.atMost_le _ _)

def narrowSink : Sink MemorySink := Sink.memory ⟨some 2, none, [1], .unable⟩

def narrowSteps : List SinkStep :=
  [.write [1, 2, 3], .write [3], .setStatus 404, .flush, .write [3], .setStatus 500]

theorem taps_transparent_narrow : narrowSink.Bounded ∧ 1 ≤ 3 ∧
    ((narrowSink.layered 3).run (Layered.fresh MemorySink.empty 3) narrowSteps).1 =
      [.accepted 2, .failed ⟨"sink write failed"⟩, .done, .flushed, .accepted 1, .done] ∧
    Transparent narrowSink MemorySink.empty narrowSteps
      ((narrowSink.layered 3).run (Layered.fresh MemorySink.empty 3) narrowSteps).1
      ((narrowSink.layered 3).run (Layered.fresh MemorySink.empty 3) narrowSteps).2 := by
  have hb : narrowSink.Bounded := Sink.bounded_memory _
  exact ⟨hb, by decide, by decide, taps_transparent hb MemorySink.empty (by decide) narrowSteps⟩

end InferenceRecorder
