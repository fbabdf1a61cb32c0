import InferenceRecorder.Error
import InferenceRecorder.Record.Exchange
import InferenceRecorder.Report.Count
import InferenceRecorder.Report.Notice
import InferenceRecorder.Runner.Roster

/-!
The recorder: a history for each runner, behind a lock. A call that fails while it holds the lock
leaves the lock poisoned, and the next call that takes it clears it and says so.
-/
namespace InferenceRecorder

structure Recorder where
  roster : Roster History
  capacity : Nat
  backend : String
  poisoned : Bool

/-- What a call did: its result, the recorder after it, and what it logged and counted. The result
is none where the call failed. -/
structure Report (α : Type) where
  result : Option α
  recorder : Recorder
  notices : List Notice
  counts : List Count

def Report.map (f : α → β) (report : Report α) : Report β :=
  { report with result := report.result.map f }

structure RecorderSetup where
  normalize : Normalizer
  capacity : Nat
  backend : String

namespace Recorder

def standardCapacity : Nat := 10

def standardBackend : String := "llama.cpp"

def empty (normalize : Normalizer) (capacity : Nat) (backend : String) : Recorder :=
  ⟨Roster.empty normalize, capacity, backend, false⟩

def standard (normalize : Normalizer) : Recorder :=
  empty normalize standardCapacity standardBackend

def unlock (r : Recorder) : Recorder × List Notice :=
  ({ r with poisoned := false }, if r.poisoned then [.lockRecovered] else [])

def completionRunner (r : Recorder) (model : String) : Runner := ⟨r.backend, model, .completion⟩

def exchangeBytes : Nat := 184

def memoryBound : Nat := Nat.pow 2 63

/-- A new history has room for one exchange more than it will hold; none where so much room cannot
be set aside. The room is counted in a word of 64 bits with a check for overflow, so that a capacity
that fills the word gets none; without the check its room would wrap around to nothing. -/
def reserve? (r : Recorder) : Option History :=
  if (r.capacity + 1) * exchangeBytes < memoryBound then some History.empty else none

def describe (r : Recorder) : String :=
  "Recorder \x7b history_capacity: " ++ String.ofList (Numeral.decimal r.capacity)
    ++ ", backend: " ++ Text.quoted r.backend ++ ", .. \x7d"

end Recorder

namespace RecorderSetup

def standard : RecorderSetup := ⟨some, Recorder.standardCapacity, Recorder.standardBackend⟩

def build (setup : RecorderSetup) : Except ConfigFault Recorder :=
  if setup.capacity = 0 then .error .noCapacity
  else if setup.backend = "" then .error .noBackend
  else .ok (Recorder.empty setup.normalize setup.capacity setup.backend)

end RecorderSetup

def Roster.describe (roster : Roster α) : String :=
  "RunnerMap \x7b len: " ++ String.ofList (Numeral.decimal roster.size) ++ ", .. \x7d"

end InferenceRecorder
