import InferenceRecorder.Http.Form
import InferenceRecorder.Http.Request
import InferenceRecorder.Record.Document

/-!
What can be asked over the network: the records of one model, and the overview of all runners. Both
are read only.
-/
namespace InferenceRecorder.Http

structure Response where
  status : Nat
  contentType : Option String
  allow : Option String
  body : String
  deriving DecidableEq, Repr

def jsonType : String := "application/json"

def textType : String := "text/plain; charset=utf-8"

def jsonResponse (body : Json.Source) : Response :=
  ⟨200, some jsonType, none, String.ofList body⟩

def textResponse (status : Nat) (body : String) : Response := ⟨status, some textType, none, body⟩

def notFound : Response := ⟨404, none, none, ""⟩

def methodNotAllowed : Response := ⟨405, none, some "GET,HEAD", ""⟩

def modelMissing : Response := textResponse 400 "A 'model' query parameter is required"

def recordsMissing (model : String) : Response :=
  textResponse 404 ("No records found for model '" ++ model ++ "'")

def recordsDocument (model : String) (h : History) : Json.Source :=
  Json.object [("model", Json.quote model),
    ("records", Json.array (h.exchanges.map Exchange.write)),
    ("count", Json.writeNat h.exchanges.length), ("config", h.config.write)]

def runnersDocument (lines : List RunnerSummary) : Json.Source :=
  Json.array (lines.map RunnerSummary.write)

inductive Route where
  | records
  | runners
  deriving DecidableEq, Repr

def route? (path : String) : Option Route :=
  if path = "/requests" then some .records
  else if path = "/requests/runners" then some .runners
  else none

def askedModel? (query : Option String) : Option String :=
  (formValue? "model" (decodeForm (query.getD ""))).filter (· != "")

def answerRecords (r : Recorder) (query : Option String) : Report Response :=
  match askedModel? query with
  | none => ⟨some modelMissing, r, [], []⟩
  | some model =>
    (r.query model).map fun
      | some h => jsonResponse (recordsDocument model h)
      | none => recordsMissing model

def answerRunners (r : Recorder) : Report Response :=
  r.overview.map fun lines => jsonResponse (runnersDocument lines)

def answerRoute (r : Recorder) (query : Option String) : Route → Report Response
  | .records => answerRecords r query
  | .runners => answerRunners r

def withoutBody (response : Response) : Response := { response with body := "" }

def answer (r : Recorder) (request : Request) : Report Response :=
  match route? request.uri.path with
  | none => ⟨some notFound, r, [], []⟩
  | some route =>
    if request.method = "GET" then answerRoute r request.uri.query route
    else if request.method = "HEAD" then
      (answerRoute r request.uri.query route).map withoutBody
    else ⟨some methodNotAllowed, r, [], []⟩

end InferenceRecorder.Http
