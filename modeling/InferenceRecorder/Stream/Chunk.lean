import InferenceRecorder.Json.Value
import InferenceRecorder.Stream.Lines

/-!
Chunks of a streamed completion. A chunk is an object of which the values stay as they are written;
the text that it adds to the answer stands at `choices`, first element, `delta`, `content`.
-/
namespace InferenceRecorder.Stream

open Json (Source)

abbrev Chunk := Table String Source

def chunk? (payload : List Char) : Option Chunk := Json.tableOf? payload

def fragmentPath : List String := ["0", "delta", "content"]

def fragment? (chunk : Chunk) : Option String :=
  match Table.lookup "choices" chunk with
  | none => none
  | some choices =>
    match Json.read? choices with
    | none => none
    | some value => (value.at? fragmentPath).bind Json.Value.text?

def arrivals (body : List Char) : List (Option Chunk) := (payloads body).map chunk?

def content (chunks : List Chunk) : String := String.join (chunks.filterMap fragment?)

end InferenceRecorder.Stream
