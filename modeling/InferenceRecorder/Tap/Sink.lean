/-!
Sinks for responses. A sink takes the bytes of a body, as many at a time as it likes, and status
codes; some sinks can be flushed.
-/
namespace InferenceRecorder

structure SinkFault where
  reason : String
  deriving DecidableEq, Repr

structure Sink (σ : Type) where
  write : σ → List UInt8 → Except SinkFault Nat × σ
  setStatus : σ → UInt16 → σ
  flush : σ → Option (Except SinkFault Unit × σ)

inductive SinkStep where
  | write (bytes : List UInt8)
  | setStatus (status : UInt16)
  | flush
  deriving DecidableEq, Repr

inductive SinkReply where
  | accepted (count : Nat)
  | done
  | flushed
  | noFlush
  | failed (fault : SinkFault)
  deriving DecidableEq, Repr

namespace Sink

variable {σ : Type}

def step (sink : Sink σ) (state : σ) : SinkStep → SinkReply × σ
  | .write bytes =>
    match sink.write state bytes with
    | (.ok count, state) => (.accepted count, state)
    | (.error fault, state) => (.failed fault, state)
  | .setStatus status => (.done, sink.setStatus state status)
  | .flush =>
    match sink.flush state with
    | none => (.noFlush, state)
    | some (.ok _, state) => (.flushed, state)
    | some (.error fault, state) => (.failed fault, state)

def run (sink : Sink σ) : σ → List SinkStep → List SinkReply × σ
  | state, [] => ([], state)
  | state, s :: steps =>
    let (reply, state) := sink.step state s
    let (replies, state) := sink.run state steps
    (reply :: replies, state)

end Sink
end InferenceRecorder
