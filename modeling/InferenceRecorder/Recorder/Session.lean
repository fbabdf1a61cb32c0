import InferenceRecorder.Recorder.Calls

/-!
Sessions: calls on a recorder one after the other, as data.
-/
namespace InferenceRecorder

inductive Operation where
  | configure (runner : Runner) (config : Option BackendConfig)
  | capture (runner : Runner) (request : RequestInfo) (body : List UInt8) (time : Instant)
  | respond (id : String) (runner : Runner) (captured : Captured)
  | query (model : String)
  | remove (model : String)
  | overview

inductive Reply where
  | configured
  | captured (id : String)
  | responded (matched : Bool)
  | found (history : Option History)
  | removed (held : Bool)
  | listed (lines : List RunnerSummary)
  deriving DecidableEq, Repr

namespace Recorder

def step (r : Recorder) : Operation → Report Reply
  | .configure runner config => (r.configure runner config).map fun _ => .configured
  | .capture runner request body time => (r.capture runner request body time).map .captured
  | .respond id runner captured => (r.respond id runner captured).map .responded
  | .query model => (r.query model).map .found
  | .remove model => (r.remove model).map .removed
  | .overview => r.overview.map .listed

def reports (r : Recorder) : List Operation → List (Report Reply)
  | [] => []
  | op :: ops =>
    let report := r.step op
    report :: reports report.recorder ops

def run (r : Recorder) (ops : List Operation) : Recorder :=
  ops.foldl (fun r op => (r.step op).recorder) r

end Recorder
end InferenceRecorder
