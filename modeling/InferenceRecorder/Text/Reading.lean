/-!
Reading from the front of a text: what was read, and what follows it.
-/
namespace InferenceRecorder.Text

abbrev Reading (α : Type) := Option (α × List Char)

def takeIf (isKind : Char → Bool) : List Char → Option (List Char)
  | c :: s => if isKind c then some s else none
  | [] => none

def takeMark (mark : Char) (s : List Char) : Option (List Char) := takeIf (· == mark) s

end InferenceRecorder.Text
