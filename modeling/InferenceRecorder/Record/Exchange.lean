import InferenceRecorder.Calendar.Instant
import InferenceRecorder.Record.BackendConfig
import InferenceRecorder.Runner.Mode

/-!
Recorded exchanges. An exchange is a request with the response to it; a history is what is held for
one runner.
-/
namespace InferenceRecorder

structure Exchange where
  id : String
  model : String
  method : String
  url : String
  request : String
  response : String
  time : Instant
  status : UInt16
  userAgent : String
  deriving DecidableEq, Repr

def Exchange.isPending (e : Exchange) : Bool := e.status == 0

structure History where
  config : BackendConfig
  /-- The oldest exchange comes first. -/
  exchanges : List Exchange
  deriving DecidableEq, Repr

namespace History

def empty : History := ⟨BackendConfig.empty, []⟩

def append (capacity : Nat) (e : Exchange) (h : History) : History :=
  let exchanges := h.exchanges ++ [e]
  { h with exchanges := exchanges.drop (exchanges.length - capacity) }

def evictedBy (capacity : Nat) (h : History) : Nat := h.exchanges.length + 1 - capacity

def answer? (id response : String) (status : UInt16) (h : History) : Option History :=
  let rec fill : List Exchange → Option (List Exchange)
    | [] => none
    | e :: exchanges =>
      if e.id = id then some ({ e with response := response, status := status } :: exchanges)
      else (fill exchanges).map (e :: ·)
  (fill h.exchanges).map fun exchanges => { h with exchanges := exchanges }

def pending (h : History) : Nat := h.exchanges.countP Exchange.isPending

end History

structure RunnerSummary where
  backend : String
  model : String
  mode : Mode
  count : Nat
  pending : Nat
  deriving DecidableEq, Repr

end InferenceRecorder
