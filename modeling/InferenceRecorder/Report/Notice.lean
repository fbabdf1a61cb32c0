/-!
What the recorder writes to its log. A notice says what happened; its level, its words and its
fields follow from that.
-/
namespace InferenceRecorder

inductive Level where
  | debug
  | info
  | warn
  | error
  deriving DecidableEq, Repr

def Level.name : Level → String
  | .debug => "debug"
  | .info => "info"
  | .warn => "warn"
  | .error => "error"

inductive FieldValue where
  | number (n : Nat)
  | text (s : String)
  deriving DecidableEq, Repr

inductive Notice where
  | chunksSkipped (count : Nat)
  | lockRecovered
  | configMissing (model : String)
  | runnerUnknown (model : String) (status length : Nat)
  | requestUnknown (id model : String) (status length : Nat)
  | recordsRemoved (model : String)
  | nothingToRemove (model : String)
  deriving DecidableEq, Repr

namespace Notice

def level : Notice → Level
  | .chunksSkipped _ => .debug
  | .lockRecovered => .warn
  | .configMissing _ => .warn
  | .runnerUnknown .. => .error
  | .requestUnknown .. => .error
  | .recordsRemoved _ => .info
  | .nothingToRemove _ => .warn

def message : Notice → String
  | .chunksSkipped _ => "skipped unparseable stream chunks"
  | .lockRecovered => "recovering recorder lock poisoned by a panicking caller"
  | .configMissing _ => "set_config called without a configuration"
  | .runnerUnknown .. => "model not found in records"
  | .requestUnknown .. => "matching request not found"
  | .recordsRemoved _ => "removed records for model"
  | .nothingToRemove _ => "no records found for model"

def fields : Notice → List (String × FieldValue)
  | .chunksSkipped count => [("skipped", .number count)]
  | .lockRecovered => []
  | .configMissing model => [("model", .text model)]
  | .runnerUnknown model status length =>
    [("model", .text model), ("status_code", .number status), ("response_len", .number length)]
  | .requestUnknown id model status length =>
    [("id", .text id), ("model", .text model), ("status_code", .number status),
      ("response_len", .number length)]
  | .recordsRemoved model => [("model", .text model)]
  | .nothingToRemove model => [("model", .text model)]

end Notice
end InferenceRecorder
