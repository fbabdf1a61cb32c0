import InferenceRecorder.Json.Members
import InferenceRecorder.Json.Number

/-!
Values read all the way down: every string and key has to spell a text, every number has to be
within range, and brackets nest to a bounded depth. A text may follow the grammar and still have no
value. An object may stand for a value that it holds spelled out in a text.
-/
namespace InferenceRecorder.Json

inductive Value where
  | null
  | bool (b : Bool)
  | number (n : Number)
  | string (text : String)
  | array (elements : List Value)
  | object (members : List (String × Value))

def depthLimit : Nat := 127

/-- An object of which this is the first key stands for the value that it spells out in a text. -/
def spellingKey : String := "$serde_json::private::RawValue"

def holdsSpelling : List Member → Bool
  | [] => false
  | m :: _ => m.1 == spellingKey

def spelling? : List Member → Option Source
  | [m] => (unquote? m.2).map String.toList
  | _ => none

/-- Reads a value of which the brackets nest no deeper than `depth`. What is spelled out in a text
is read by `readSpelled`. -/
def readValue? (readSpelled : Source → Option Value) : (depth : Nat) → Source → Option Value
  | depth, s =>
    match value? s with
    | none => none
    | some ['n', 'u', 'l', 'l'] => some .null
    | some ['t', 'r', 'u', 'e'] => some (.bool true)
    | some ['f', 'a', 'l', 's', 'e'] => some (.bool false)
    | some ('"' :: rest) => (unquote? ('"' :: rest)).map .string
    | some ('[' :: rest) =>
      match depth with
      | 0 => none
      | depth + 1 =>
        match elements? ('[' :: rest) with
        | none => none
        | some sources => (sources.mapM (readValue? readSpelled depth)).map .array
    | some ('{' :: rest) =>
      match depth with
      | 0 => none
      | depth + 1 =>
        match members? ('{' :: rest) with
        | none => none
        | some members =>
          if holdsSpelling members then (spelling? members).bind readSpelled
          else
            (members.mapM fun m => (readValue? readSpelled depth m.2).map (m.1, ·)).map .object
    | some lexeme => (number? lexeme).map .number

def readNested? : (texts : Nat) → Source → Option Value
  | 0 => readValue? (fun _ => none) depthLimit
  | texts + 1 => readValue? (readNested? texts) depthLimit

/-- Reads a value. A spelled value is shorter than the object that stands for it, so the length of
the source bounds how deep they go. -/
def read? (s : Source) : Option Value := readNested? s.length s

def arrayIndex? (name : String) : Option Nat :=
  match name.toList with
  | [] => none
  | ['0'] => some 0
  | '0' :: _ => none
  | digits => if digits.all Char.isDigit then some (Numeral.ofDecimal digits) else none

def Value.child? (name : String) : Value → Option Value
  | .array elements => (arrayIndex? name).bind fun i => elements[i]?
  | .object members => (Table.ofList members).lookup name
  | _ => none

def Value.at? : Value → List String → Option Value
  | v, [] => some v
  | v, name :: path =>
    match v.child? name with
    | some v => v.at? path
    | none => none

def Value.text? : Value → Option String
  | .string text => some text
  | _ => none

end InferenceRecorder.Json
