/-!
The kinds of work that a runner does.
-/
namespace InferenceRecorder

inductive Mode where
  | completion
  | embedding
  | reranking
  deriving DecidableEq, Repr, Inhabited

namespace Mode

def standard : Mode := .completion

def name : Mode → String
  | .completion => "completion"
  | .embedding => "embedding"
  | .reranking => "reranking"

def all : List Mode := [.completion, .embedding, .reranking]

def ofName? (name : String) : Option Mode := all.find? fun mode => mode.name == name

def rank : Mode → Nat
  | .completion => 0
  | .embedding => 1
  | .reranking => 2

theorem ofName?_name (mode : Mode) : ofName? mode.name = some mode := by cases mode <;> decide

end Mode
end InferenceRecorder
