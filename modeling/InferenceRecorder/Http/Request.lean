import InferenceRecorder.Http.Uri
import InferenceRecorder.Recorder.Calls

/-!
Requests as they come over the wire. Methods and header names are tokens; header values hold any
bytes but controls.
-/
namespace InferenceRecorder.Http

structure Request where
  method : String
  uri : Uri
  /-- Names are in small letters. -/
  headers : List (String × List UInt8)
  deriving Repr

def isTokenChar (c : Char) : Bool :=
  c.isAlphanum || "!#$%&'*+-.^_`|~".toList.contains c

def isToken (s : String) : Bool := s != "" && s.toList.all isTokenChar

def longestName : Nat := 65535

def isValueByte (b : UInt8) : Bool := b == 9 || (32 ≤ b && b != 127)

def header? (name : String) (value : List UInt8) : Option (String × List UInt8) :=
  if isToken name && Utf8.size name ≤ longestName && value.all isValueByte then
    some (String.ofList (name.toList.map Char.toLower), value)
  else none

def countNames : List String → Nat
  | [] => 0
  | [_] => 1
  | a :: b :: names => (if a = b then 0 else 1) + countNames (b :: names)

def mostNames : Nat := 24576

def hasRoom (headers : List (String × List UInt8)) : Bool :=
  headers.length ≤ mostNames
    || countNames ((headers.dropLast.map Prod.fst).mergeSort fun a b => a ≤ b) < mostNames

def Request.of? (method uri : String) (headers : List (String × List UInt8)) : Option Request :=
  if !isToken method then none
  else
    match Uri.read? uri, headers.mapM fun h => header? h.1 h.2 with
    | some uri, some headers => if hasRoom headers then some ⟨method, uri, headers⟩ else none
    | _, _ => none

def isPlainByte (b : UInt8) : Bool := b == 9 || (32 ≤ b && b < 127)

def Request.userAgent (request : Request) : String :=
  match request.headers.find? fun h => h.1 == "user-agent" with
  | some h => if h.2.all isPlainByte then Utf8.decodeLossy h.2 else ""
  | none => ""

def Request.info (request : Request) : RequestInfo :=
  ⟨request.method, request.uri.path, request.userAgent⟩

end InferenceRecorder.Http
