import InferenceRecorder.Tap.Sink
import InferenceRecorder.Text.Utf8

/-!
A tap in front of a sink. It passes everything on, answers what the sink answers, and keeps a copy
of the bytes that the sink took and of the last status. A tapped sink is a sink again, so that taps
may stand in a row.
-/
namespace InferenceRecorder

structure Tap (σ : Type) where
  inner : σ
  body : List UInt8
  status : UInt16
  deriving Repr

namespace Tap

variable {σ : Type}

def initialStatus : UInt16 := 200

def fresh (inner : σ) : Tap σ := ⟨inner, [], initialStatus⟩

def text (tap : Tap σ) : String := Utf8.decodeLossy tap.body

def write (sink : Sink σ) (tap : Tap σ) (bytes : List UInt8) : Except SinkFault Nat × Tap σ :=
  match sink.write tap.inner bytes with
  | (.ok count, inner) => (.ok count, { tap with inner, body := tap.body ++ bytes.take count })
  | (.error fault, inner) => (.error fault, { tap with inner })

def setStatus (sink : Sink σ) (tap : Tap σ) (status : UInt16) : Tap σ :=
  { tap with inner := sink.setStatus tap.inner status, status := status }

def flush (sink : Sink σ) (tap : Tap σ) : Except SinkFault Unit × Tap σ :=
  match sink.flush tap.inner with
  | some (result, inner) => (result, { tap with inner })
  | none => (.ok (), tap)

end Tap

def Sink.tapped (sink : Sink σ) : Sink (Tap σ) where
  write := Tap.write sink
  setStatus := Tap.setStatus sink
  flush tap := some (tap.flush sink)

end InferenceRecorder
