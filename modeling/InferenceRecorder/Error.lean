import InferenceRecorder.Tap.Sink
import InferenceRecorder.Text.Quoted

/-!
What can go wrong, by its cause, and the words for it.
-/
namespace InferenceRecorder

inductive ReadFault where
  | isDirectory
  | notText
  deriving DecidableEq, Repr

inductive ConfigFault where
  | noCapacity
  | noBackend
  | badAddress
  | fileMissing (path : String)
  | fileUnreadable (path : String) (fault : ReadFault)
  | malformed (path : Option String)
  deriving DecidableEq, Repr

inductive Error where
  | configuration (fault : ConfigFault)
  | io (fault : SinkFault)
  | json
  deriving DecidableEq, Repr

def ReadFault.message : ReadFault → String
  | .isDirectory => "Is a directory (os error 21)"
  | .notText => "stream did not contain valid UTF-8"

def ConfigFault.message : ConfigFault → String
  | .noCapacity => "history capacity must be at least 1"
  | .noBackend => "backend name must not be empty"
  | .badAddress => "Invalid address: invalid socket address syntax"
  | .fileMissing path => "Config file not found: " ++ Text.quoted path
  | .fileUnreadable path fault =>
    "Failed to read config file " ++ Text.quoted path ++ ": " ++ fault.message
  | .malformed none => "Failed to parse config"
  | .malformed (some path) => "Failed to parse config file " ++ Text.quoted path

def Error.message : Error → String
  | .configuration fault => "configuration error: " ++ fault.message
  | .io fault => "I/O error: " ++ fault.reason
  | .json => "JSON error"

end InferenceRecorder
