import InferenceRecorder.Stream.Chunk

/-!
A streamed completion put together again. The last chunk of the stream is the template: its first
choice gets the whole text as the message of the assistant, and the object is named a completion.
Everything else of the template is kept as it is written.
-/
namespace InferenceRecorder.Stream

open Json (Member Source)

def completionObject : String := "chat.completion"

def defaultFinish : String := "stop"

def message (content : String) : Source :=
  Json.object [("role", Json.quote "assistant"), ("content", Json.quote content)]

def isMessageKey (key : String) : Bool := key == "delta" || key == "message"

/-- Puts the message where the first of `delta` and `message` stands and drops the other one;
a choice with neither gets it at the end. -/
def placeMessage (msg : Source) : List Member → List Member
  | [] => [("message", msg)]
  | (key, value) :: choice =>
    if isMessageKey key then ("message", msg) :: choice.filter (fun m => !isMessageKey m.1)
    else (key, value) :: placeMessage msg choice

def hasFinish (choice : List Member) : Bool :=
  match Table.lookup "finish_reason" choice with
  | some reason => reason != ['n', 'u', 'l', 'l']
  | none => false

def placeFinish (choice : List Member) : List Member :=
  if hasFinish choice then choice
  else Table.put "finish_reason" (Json.quote defaultFinish) choice

def completeChoice (content : String) (choice : List Member) : List Member :=
  placeFinish (placeMessage (message content) choice)

def completeChoices? (content : String) (choices : Source) : Option Source :=
  match Json.elements? choices with
  | some (first :: others) =>
    match Json.tableOf? first with
    | some choice => some (Json.array (Json.object (completeChoice content choice) :: others))
    | none => none
  | _ => none

def placeChoices (content : String) (chunk : Chunk) : Chunk :=
  match Table.lookup "choices" chunk with
  | none => chunk
  | some choices =>
    match completeChoices? content choices with
    | some choices => Table.put "choices" choices chunk
    | none => chunk

def complete (content : String) (chunk : Chunk) : Chunk :=
  Table.put "object" (Json.quote completionObject) (placeChoices content chunk)

inductive Outcome where
  | passthrough
  | reconstructed
  deriving DecidableEq, Repr

structure Reconstruction where
  text : String
  outcome : Outcome
  skipped : Nat
  deriving DecidableEq, Repr

def reconstruct (body : String) : Reconstruction :=
  let arrived := arrivals body.toList
  let chunks := arrived.filterMap id
  let skipped := arrived.countP Option.isNone
  match chunks.getLast? with
  | none => ⟨body, .passthrough, skipped⟩
  | some last =>
    ⟨String.ofList (Json.object (complete (content chunks) last)), .reconstructed, skipped⟩

end InferenceRecorder.Stream
