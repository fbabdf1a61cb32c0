import InferenceRecorder.Runner.Mode
import InferenceRecorder.Stream.Completion

/-!
What the recorder counts. Each count raises one counter, told apart by its name and its labels.
-/
namespace InferenceRecorder

inductive Count where
  | requestRecorded (backend : String) (mode : Mode)
  | recordsEvicted (backend : String) (mode : Mode) (number : Nat)
  | responseRecorded (backend : String) (mode : Mode) (matched : Bool)
  | streamReconstructed (outcome : Stream.Outcome)
  deriving DecidableEq, Repr

namespace Count

def counter : Count → String
  | .requestRecorded .. => "huginn_requests_recorded_total"
  | .recordsEvicted .. => "huginn_records_evicted_total"
  | .responseRecorded .. => "huginn_responses_recorded_total"
  | .streamReconstructed _ => "huginn_stream_reconstructions_total"

def labels : Count → List (String × String)
  | .requestRecorded backend mode => [("backend", backend), ("mode", mode.name)]
  | .recordsEvicted backend mode _ => [("backend", backend), ("mode", mode.name)]
  | .responseRecorded backend mode matched =>
    [("backend", backend), ("mode", mode.name),
      ("outcome", if matched then "matched" else "dropped")]
  | .streamReconstructed .passthrough => [("outcome", "passthrough")]
  | .streamReconstructed .reconstructed => [("outcome", "reconstructed")]

def amount : Count → Nat
  | .recordsEvicted _ _ number => number
  | _ => 1

end Count

end InferenceRecorder
