import InferenceRecorder.Tap.Sink

/-!
A sink in memory, which can be set up to take few bytes, to fill up, and to fail.
-/
namespace InferenceRecorder

inductive Flushing where
  | unable
  | works
  | fails
  deriving DecidableEq, Repr

structure MemorySetup where
  limit : Option Nat
  room : Option Nat
  /-- The writes that fail, counted from zero. -/
  failures : List Nat
  flushing : Flushing
  deriving Repr

structure MemorySink where
  body : List UInt8
  statuses : List UInt16
  flushes : Nat
  writes : Nat
  deriving Repr

namespace MemorySink

def empty : MemorySink := ⟨[], [], 0, 0⟩

def atMost (bound : Option Nat) (n : Nat) : Nat :=
  match bound with
  | some bound => min bound n
  | none => n

def accepts (setup : MemorySetup) (sink : MemorySink) (offered : Nat) : Nat :=
  atMost (setup.room.map (· - sink.body.length)) (atMost setup.limit offered)

def write (setup : MemorySetup) (sink : MemorySink) (bytes : List UInt8) :
    Except SinkFault Nat × MemorySink :=
  let called := { sink with writes := sink.writes + 1 }
  if setup.failures.contains sink.writes then (.error ⟨"sink write failed"⟩, called)
  else
    let count := sink.accepts setup bytes.length
    (.ok count, { called with body := sink.body ++ bytes.take count })

def setStatus (sink : MemorySink) (status : UInt16) : MemorySink :=
  { sink with statuses := sink.statuses ++ [status] }

def flush (setup : MemorySetup) (sink : MemorySink) :
    Option (Except SinkFault Unit × MemorySink) :=
  let flushed := { sink with flushes := sink.flushes + 1 }
  match setup.flushing with
  | .unable => none
  | .works => some (.ok (), flushed)
  | .fails => some (.error ⟨"sink flush failed"⟩, flushed)

end MemorySink

def Sink.memory (setup : MemorySetup) : Sink MemorySink where
  write := MemorySink.write setup
  setStatus := MemorySink.setStatus
  flush := MemorySink.flush setup

end InferenceRecorder
