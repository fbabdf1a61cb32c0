import InferenceRecorder.Json.Members
import InferenceRecorder.Json.Number

/-!
Records in JSON. A record is an object of which the named members count and others are passed over,
or an array of its fields in order, of which the last ones may be left out. The readers below tell
what a field holds and what happens when it is left out.
-/
namespace InferenceRecorder.Json

def repeatsName (names : List String) : List Member → Bool
  | [] => false
  | m :: members =>
    (names.contains m.1 && members.any fun n => n.1 == m.1) || repeatsName names members

def fields? (names : List String) (s : Source) : Option (List (Option Source)) :=
  match elements? s with
  | some elements =>
    if elements.length ≤ names.length then
      some (elements.map some ++ List.replicate (names.length - elements.length) none)
    else none
  | none =>
    match members? s with
    | some members =>
      if repeatsName names members then none
      else some (names.map fun name => Table.lookup name members)
    | none => none

def required (read : Source → Option α) : Option Source → Option α
  | some s => read s
  | none => none

def defaulted (standard : α) (read : Source → Option α) : Option Source → Option α
  | some s => read s
  | none => some standard

def isNull (s : Source) : Bool := s == ['n', 'u', 'l', 'l']

def optional (read : Source → Option α) : Option Source → Option (Option α)
  | some s => if isNull s then some none else (read s).map some
  | none => some none

def readText (s : Source) : Option String := unquote? s

def readNat (bound : Nat) (s : Source) : Option Nat :=
  match number? s with
  | some (.integer i) => if 0 ≤ i ∧ i < bound then some i.toNat else none
  | _ => none

def readFloat (s : Source) : Option Numeral.Binary64 :=
  (number? s).bind Number.toFloat?

def readList (read : Source → Option α) (s : Source) : Option (List α) :=
  (elements? s).bind fun elements => elements.mapM read

def readDocument (read : Source → Option α) (text : String) : Option α :=
  (value? text.toList).bind read

def memberIf (present : Bool) (name : String) (value : Source) : List Member :=
  if present then [(name, value)] else []

def memberOf (name : String) (write : α → Source) : Option α → List Member
  | some a => [(name, write a)]
  | none => []

end InferenceRecorder.Json
