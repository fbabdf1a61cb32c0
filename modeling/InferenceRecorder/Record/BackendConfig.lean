import InferenceRecorder.Numeral.Binary64

/-!
How a backend is set up for a model.
-/
namespace InferenceRecorder

open Numeral (Binary64)

structure Speculation where
  draftModel : String
  tokens : Option UInt32
  /-- Finite: an infinite rate, or one that is no number, cannot be held. -/
  leastAcceptance : Option Binary64
  deriving DecidableEq, Repr

structure BackendConfig where
  contextSize : Option UInt64
  flags : List String
  speculation : Option Speculation
  deriving DecidableEq, Repr

namespace BackendConfig

def empty : BackendConfig := ⟨none, [], none⟩

def withContextSize (tokens : UInt64) (config : BackendConfig) : BackendConfig :=
  { config with contextSize := some tokens }

def withFlag (flag : String) (config : BackendConfig) : BackendConfig :=
  { config with flags := config.flags ++ [flag] }

def withSpeculation (speculation : Speculation) (config : BackendConfig) : BackendConfig :=
  { config with speculation := some speculation }

end BackendConfig
end InferenceRecorder
