import InferenceRecorder.Json.Source
import InferenceRecorder.Table

/-!
The members of an object as a table: of a repeated key the first place and the last value count.
-/
namespace InferenceRecorder.Json

def tableOf? (s : List Char) : Option (Table String Source) := (members? s).map Table.ofList

end InferenceRecorder.Json
