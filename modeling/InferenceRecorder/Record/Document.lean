import InferenceRecorder.Calendar.Timestamp
import InferenceRecorder.Json.Fields
import InferenceRecorder.Record.Exchange
import InferenceRecorder.Runner.Basic

/-!
The JSON documents of records. Members that say nothing are left out when a record is written, and
what is left out is put back when it is read.
-/
namespace InferenceRecorder

open Json
open Numeral (Binary64)

def writeUInt16 (n : UInt16) : Source := writeNat n.toNat

def writeUInt32 (n : UInt32) : Source := writeNat n.toNat

def writeUInt64 (n : UInt64) : Source := writeNat n.toNat

def readUInt16 (s : Source) : Option UInt16 := (readNat (Nat.pow 2 16) s).map UInt16.ofNat

def readUInt32 (s : Source) : Option UInt32 := (readNat (Nat.pow 2 32) s).map UInt32.ofNat

def readUInt64 (s : Source) : Option UInt64 := (readNat (Nat.pow 2 64) s).map UInt64.ofNat

def Mode.write (mode : Mode) : Source := quote mode.name

def Mode.read? (s : Source) : Option Mode :=
  match unquote? s with
  | some name => Mode.ofName? name
  | none =>
    match members? s with
    | some [(name, value)] => if isNull value then Mode.ofName? name else none
    | _ => none

namespace Runner

def write (r : Runner) : Source :=
  object [("backend", quote r.backend), ("model", quote r.model), ("mode", r.mode.write)]

def read? (s : Source) : Option Runner :=
  match fields? ["backend", "model", "mode"] s with
  | some [backend, model, mode] => do
    some ⟨← required readText backend, ← required readText model, ← required Mode.read? mode⟩
  | _ => none

end Runner

namespace Speculation

def write (s : Speculation) : Source :=
  object (("draft_model", quote s.draftModel) :: memberOf "num_tokens" writeUInt32 s.tokens
    ++ memberOf "min_acceptance_rate" writeFloat s.leastAcceptance)

def readWith? (readRate : Source → Option Binary64) (s : Source) : Option Speculation :=
  match fields? ["draft_model", "num_tokens", "min_acceptance_rate"] s with
  | some [draftModel, tokens, leastAcceptance] => do
    some ⟨← required readText draftModel, ← optional readUInt32 tokens,
      ← optional readRate leastAcceptance⟩
  | _ => none

def read? : Source → Option Speculation := readWith? readFloat

end Speculation

namespace BackendConfig

def write (config : BackendConfig) : Source :=
  object (memberOf "context_size" writeUInt64 config.contextSize
    ++ memberIf (!config.flags.isEmpty) "runtime_flags" (array (config.flags.map quote))
    ++ memberOf "speculative" Speculation.write config.speculation)

def readWith? (readRate : Source → Option Binary64) (s : Source) : Option BackendConfig :=
  match fields? ["context_size", "runtime_flags", "speculative"] s with
  | some [contextSize, flags, speculation] => do
    some ⟨← optional readUInt64 contextSize, ← defaulted [] (readList readText) flags,
      ← optional (Speculation.readWith? readRate) speculation⟩
  | _ => none

def read? : Source → Option BackendConfig := readWith? readFloat

end BackendConfig

namespace Exchange

def write (e : Exchange) : Source :=
  object ([("id", quote e.id), ("model", quote e.model), ("method", quote e.method),
      ("url", quote e.url), ("request", quote e.request), ("response", quote e.response),
      ("timestamp", quoteChars (Timestamp.write e.time)), ("status_code", writeUInt16 e.status)]
    ++ memberIf (e.userAgent != "") "user_agent" (quote e.userAgent))

def readTime (s : Source) : Option Instant :=
  (readText s).bind fun text => Timestamp.read? text.toList

def read? (s : Source) : Option Exchange :=
  match fields? ["id", "model", "method", "url", "request", "response", "timestamp",
      "status_code", "user_agent"] s with
  | some [id, model, method, url, request, response, time, status, userAgent] => do
    some ⟨← required readText id, ← required readText model, ← required readText method,
      ← required readText url, ← required readText request, ← required readText response,
      ← required readTime time, ← required readUInt16 status,
      ← defaulted "" readText userAgent⟩
  | _ => none

end Exchange

namespace History

def write (h : History) : Source :=
  object [("config", h.config.write), ("records", array (h.exchanges.map Exchange.write))]

def readWith? (readRate : Source → Option Binary64) (s : Source) : Option History :=
  match fields? ["config", "records"] s with
  | some [config, exchanges] => do
    some ⟨← required (BackendConfig.readWith? readRate) config,
      ← required (readList Exchange.read?) exchanges⟩
  | _ => none

def read? : Source → Option History := readWith? readFloat

end History

namespace RunnerSummary

def write (r : RunnerSummary) : Source :=
  object [("backend", quote r.backend), ("model", quote r.model), ("mode", r.mode.write),
    ("count", writeNat r.count), ("pending", writeNat r.pending)]

def read? (s : Source) : Option RunnerSummary :=
  match fields? ["backend", "model", "mode", "count", "pending"] s with
  | some [backend, model, mode, count, pending] => do
    some ⟨← required readText backend, ← required readText model, ← required Mode.read? mode,
      ← required (readNat wordBound) count, ← required (readNat wordBound) pending⟩
  | _ => none

end RunnerSummary
end InferenceRecorder
