import InferenceRecorder.Recorder.Basic
import InferenceRecorder.Report.Reconstruction
import InferenceRecorder.Tap.Basic

/-!
The calls on a recorder. Requests are captured when they come and answered when the response has
gone through; what is held can be asked for and removed.
-/
namespace InferenceRecorder

structure RequestInfo where
  method : String
  path : String
  userAgent : String
  deriving DecidableEq, Repr

structure Captured where
  body : List UInt8
  status : UInt16
  deriving DecidableEq, Repr

def Tap.captured (tap : Tap σ) : Captured := ⟨tap.body, tap.status⟩

namespace Recorder

def exchangeId (model : String) (time : Instant) : String :=
  model ++ "_" ++ String.ofList (Numeral.signedDecimal time.nanoseconds)

def failedLocked (r : Recorder) (notices : List Notice) (counts : List Count) : Report α :=
  ⟨none, { r with poisoned := true }, notices, counts⟩

def configure (r : Recorder) (runner : Runner) : Option BackendConfig → Report Unit
  | none => ⟨some (), r, [.configMissing runner.model], []⟩
  | some config =>
    let (r, recovered) := r.unlock
    match r.roster.upsert runner r.reserve? (fun h => { h with config := config }) with
    | (some _, roster) => ⟨some (), { r with roster := roster }, recovered, []⟩
    | (none, roster) => failedLocked { r with roster := roster } recovered []

def begun (runner : Runner) (request : RequestInfo) (body : List UInt8) (time : Instant) :
    Exchange where
  id := exchangeId runner.model time
  model := runner.model
  method := request.method
  url := request.path
  request := Utf8.decodeLossy body
  response := ""
  time := time
  status := 0
  userAgent := request.userAgent

def requestCounts (runner : Runner) (evicted : Nat) : List Count :=
  .requestRecorded runner.backend runner.mode
    :: if 0 < evicted then [.recordsEvicted runner.backend runner.mode evicted] else []

def capture (r : Recorder) (runner : Runner) (request : RequestInfo) (body : List UInt8)
    (time : Instant) : Report String :=
  let e := begun runner request body time
  let (r, recovered) := r.unlock
  match r.roster.upsert runner r.reserve? (History.append r.capacity e) with
  | (some u, roster) =>
    ⟨some e.id, { r with roster := roster }, recovered,
      requestCounts runner (u.before.evictedBy r.capacity)⟩
  | (none, roster) => failedLocked { r with roster := roster } recovered []

def responseText (body : String) : String × List Notice × List Count :=
  if Stream.isEventStream body then
    let stream := Stream.reconstruct body
    (stream.text, stream.notices, stream.counts)
  else (body, [], [])

def respond (r : Recorder) (id : String) (runner : Runner) (captured : Captured) : Report Bool :=
  let (response, notices, counts) := responseText (Utf8.decodeLossy captured.body)
  let (r, recovered) := r.unlock
  let status := captured.status.toNat
  let done (matched : Bool) : Count := .responseRecorded runner.backend runner.mode matched
  match r.roster.get? runner with
  | none => failedLocked r (notices ++ recovered) counts
  | some none =>
    ⟨some false, r,
      notices ++ recovered ++ [.runnerUnknown runner.model status (Utf8.size response)],
      counts ++ [done false]⟩
  | some (some h) =>
    match h.answer? id response captured.status with
    | none =>
      ⟨some false, r,
        notices ++ recovered ++ [.requestUnknown id runner.model status (Utf8.size response)],
        counts ++ [done false]⟩
    | some h =>
      match r.roster.modify runner (fun _ => h) with
      | none => failedLocked r (notices ++ recovered) counts
      | some (_, roster) =>
        ⟨some true, { r with roster := roster }, notices ++ recovered, counts ++ [done true]⟩

def query (r : Recorder) (model : String) : Report (Option History) :=
  let (r, recovered) := r.unlock
  ⟨r.roster.get? (r.completionRunner model), r, recovered, []⟩

def remove (r : Recorder) (model : String) : Report Bool :=
  let (r, recovered) := r.unlock
  match r.roster.delete (r.completionRunner model) with
  | none => failedLocked r recovered []
  | some (some _, roster) =>
    ⟨some true, { r with roster := roster }, recovered ++ [.recordsRemoved model], []⟩
  | some (none, roster) =>
    ⟨some false, { r with roster := roster }, recovered ++ [.nothingToRemove model], []⟩

/-- One line of the overview. The spelling is looked up under the normal form of the name. -/
def summary? (r : Recorder) (entry : Runner × History) : Option RunnerSummary :=
  (r.roster.initialModel? entry.1).map fun spelling =>
    { backend := entry.1.backend
      model := spelling.getD entry.1.model
      mode := entry.1.mode
      count := entry.2.exchanges.length
      pending := entry.2.pending }

def summaryNotAfter (a b : RunnerSummary) : Bool :=
  let ra : Runner := ⟨a.backend, a.model, a.mode⟩
  let rb : Runner := ⟨b.backend, b.model, b.mode⟩
  if ra = rb then
    if a.count = b.count then a.pending ≤ b.pending else a.count < b.count
  else ra.notAfter rb

def overview (r : Recorder) : Report (List RunnerSummary) :=
  let (r, recovered) := r.unlock
  ⟨(r.roster.entries.mapM r.summary?).map fun lines => lines.mergeSort summaryNotAfter,
    r, recovered, []⟩

end Recorder
end InferenceRecorder
