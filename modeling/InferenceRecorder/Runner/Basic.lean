import InferenceRecorder.Runner.Mode

/-!
A runner is one model on one backend, doing one kind of work.
-/
namespace InferenceRecorder

structure Runner where
  backend : String
  model : String
  mode : Mode
  deriving DecidableEq, Repr, Inhabited

namespace Runner

def before (a b : Runner) : Bool :=
  if a.backend = b.backend then
    if a.model = b.model then a.mode.rank < b.mode.rank else a.model < b.model
  else a.backend < b.backend

def notAfter (a b : Runner) : Bool := !before b a

def dropRepeated : List Runner → List Runner
  | [] => []
  | [a] => [a]
  | a :: b :: runners =>
    if a = b then dropRepeated (b :: runners) else a :: dropRepeated (b :: runners)

def sorted (runners : List Runner) : List Runner := dropRepeated (runners.mergeSort notAfter)

end Runner
end InferenceRecorder
