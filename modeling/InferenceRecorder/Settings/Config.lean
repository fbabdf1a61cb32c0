import InferenceRecorder.Net.SocketAddress
import InferenceRecorder.Recorder.Basic
import InferenceRecorder.Toml.Document

/-!
The configuration of the service: where it listens, and how its recorder is set up. What a
configuration text does not mention takes its standard value, and what it mentions beside that is
passed over.
-/
namespace InferenceRecorder

open Toml (Value)

structure Config where
  address : String
  capacity : Nat
  backend : String
  deriving DecidableEq, Repr

namespace Config

def standardAddress : String := "127.0.0.1:9742"

def standard : Config := ⟨standardAddress, Recorder.standardCapacity, Recorder.standardBackend⟩

/-- The fields of a table by their names, or of an array by their places. A moment is a table in
which no field has a name. -/
def fields? (names : List String) : Value → Option (List (Option Value))
  | .table _ members => some (names.map fun name => Table.lookup name members)
  | .moment => some (names.map fun _ => none)
  | .array elements => some ((List.range names.length).map fun i => elements[i]?)
  | .tables tables =>
    some ((List.range names.length).map fun i => tables[i]?.map (Value.table .header))
  | _ => none

def textOr (standard : String) : Option Value → Option String
  | none => some standard
  | some (.text s) => some s
  | some _ => none

def natOr (standard : Nat) : Option Value → Option Nat
  | none => some standard
  | some (.integer i) => if 0 ≤ i then some i.toNat else none
  | some _ => none

def readAddress? : Option Value → Option String
  | none => some standardAddress
  | some v =>
    match fields? ["address"] v with
    | some [address] => textOr standardAddress address
    | _ => none

def readRecorder? : Option Value → Option (Nat × String)
  | none => some (Recorder.standardCapacity, Recorder.standardBackend)
  | some v =>
    match fields? ["history_capacity", "backend"] v with
    | some [capacity, backend] => do
      some (← natOr Recorder.standardCapacity capacity, ← textOr Recorder.standardBackend backend)
    | _ => none

def ofMembers? (members : Toml.Members) : Option Config := do
  let address ← readAddress? (members.lookup "server")
  let (capacity, backend) ← readRecorder? (members.lookup "recorder")
  some ⟨address, capacity, backend⟩

def ofText? (text : String) : Option Config := (Toml.read? text).bind ofMembers?

def parse (text : String) : Except ConfigFault Config :=
  match ofText? text with
  | some config => .ok config
  | none => .error (.malformed none)

def socketAddress (config : Config) : Except ConfigFault Net.SocketAddress :=
  match Net.SocketAddress.read? config.address with
  | some address => .ok address
  | none => .error .badAddress

def recorderSetup (config : Config) : RecorderSetup :=
  { RecorderSetup.standard with capacity := config.capacity, backend := config.backend }

end Config
end InferenceRecorder
