import InferenceRecorder.Numeral.Digits

/-!
The grammar of JSON as a scanner. A phase says what the text is in the middle of, a stack holds the
brackets still open, and `step` reads one character. `scan` cuts one value off the front of a text
and hands back its spelling unchanged; it never looks into what a string or a number means, and
brackets may nest to any depth.
-/
namespace InferenceRecorder.Json

open Numeral (isHexDigit)

inductive Bracket where
  | square
  | curly
  deriving DecidableEq, Repr

def Bracket.opening : Bracket → Char
  | .square => '['
  | .curly => '{'

def Bracket.closing : Bracket → Char
  | .square => ']'
  | .curly => '}'

inductive Phase where
  | value
  | firstElement
  | firstKey
  | key
  | colon
  | ended
  | string (isKey : Bool)
  | escape (isKey : Bool)
  /-- Inside a four digit escape, with this many digits to come after the next one. -/
  | hex (isKey : Bool) (left : Nat)
  /-- Inside `true`, `false` or `null`, with these letters to come. -/
  | word (left : List Char)
  | minus
  | zero
  | integer
  | point
  | fraction
  | exponent
  | exponentSign
  | exponentDigits
  deriving DecidableEq, Repr

abbrev State := List Bracket × Phase

def isBlank (c : Char) : Bool := c == ' ' || c == '\t' || c == '\n' || c == '\r'

def isEscapeLetter (c : Char) : Bool :=
  c == '"' || c == '\\' || c == '/' || c == 'b' || c == 'f' || c == 'n' || c == 'r' || c == 't'

def isControl (c : Char) : Bool := c < ' '

def startValue (stack : List Bracket) (c : Char) : Option State :=
  match c with
  | '[' => some (.square :: stack, .firstElement)
  | '{' => some (.curly :: stack, .firstKey)
  | '"' => some (stack, .string false)
  | 't' => some (stack, .word ['r', 'u', 'e'])
  | 'f' => some (stack, .word ['a', 'l', 's', 'e'])
  | 'n' => some (stack, .word ['u', 'l', 'l'])
  | '-' => some (stack, .minus)
  | '0' => some (stack, .zero)
  | c => if c.isDigit then some (stack, .integer) else none

def followValue : List Bracket → Char → Option State
  | [], _ => none
  | b :: stack, c =>
    if isBlank c then some (b :: stack, .ended)
    else match b, c with
      | .square, ',' => some (.square :: stack, .value)
      | .square, ']' => some (stack, .ended)
      | .curly, ',' => some (.curly :: stack, .key)
      | .curly, '}' => some (stack, .ended)
      | _, _ => none

def startExponent (stack : List Bracket) (c : Char) : Option State :=
  if c == 'e' || c == 'E' then some (stack, .exponent) else followValue stack c

def stringEnd (isKey : Bool) : Phase := if isKey then .colon else .ended

def step (stack : List Bracket) : Phase → Char → Option State
  | .value, c => if isBlank c then some (stack, .value) else startValue stack c
  | .firstElement, c =>
    if isBlank c then some (stack, .firstElement)
    else if c == ']' then some (stack.tail, .ended)
    else startValue stack c
  | .firstKey, c =>
    if isBlank c then some (stack, .firstKey)
    else if c == '}' then some (stack.tail, .ended)
    else if c == '"' then some (stack, .string true)
    else none
  | .key, c =>
    if isBlank c then some (stack, .key)
    else if c == '"' then some (stack, .string true)
    else none
  | .colon, c =>
    if isBlank c then some (stack, .colon)
    else if c == ':' then some (stack, .value)
    else none
  | .ended, c => followValue stack c
  | .string isKey, c =>
    if c == '"' then some (stack, stringEnd isKey)
    else if c == '\\' then some (stack, .escape isKey)
    else if isControl c then none
    else some (stack, .string isKey)
  | .escape isKey, c =>
    if c == 'u' then some (stack, .hex isKey 3)
    else if isEscapeLetter c then some (stack, .string isKey)
    else none
  | .hex isKey left, c =>
    if isHexDigit c then
      match left with
      | 0 => some (stack, .string isKey)
      | left + 1 => some (stack, .hex isKey left)
    else none
  | .word left, c =>
    match left with
    | [] => none
    | [d] => if c == d then some (stack, .ended) else none
    | d :: left => if c == d then some (stack, .word left) else none
  | .minus, c =>
    if c == '0' then some (stack, .zero)
    else if c.isDigit then some (stack, .integer)
    else none
  | .zero, c => if c == '.' then some (stack, .point) else startExponent stack c
  | .integer, c =>
    if c.isDigit then some (stack, .integer)
    else if c == '.' then some (stack, .point)
    else startExponent stack c
  | .point, c => if c.isDigit then some (stack, .fraction) else none
  | .fraction, c => if c.isDigit then some (stack, .fraction) else startExponent stack c
  | .exponent, c =>
    if c.isDigit then some (stack, .exponentDigits)
    else if c == '+' || c == '-' then some (stack, .exponentSign)
    else none
  | .exponentSign, c => if c.isDigit then some (stack, .exponentDigits) else none
  | .exponentDigits, c =>
    if c.isDigit then some (stack, .exponentDigits) else followValue stack c

def Phase.mayEnd : Phase → Bool
  | .ended | .zero | .integer | .fraction | .exponentDigits => true
  | _ => false

def accepts (stack : List Bracket) (phase : Phase) : Bool := stack.isEmpty && phase.mayEnd

/-- Reads as far as the value goes: its spelling and what comes after it. `taken` holds what was
read before, last character first. -/
def scan (stack : List Bracket) (phase : Phase) (taken : List Char) :
    List Char → Option (List Char × List Char)
  | [] => if accepts stack phase then some (taken.reverse, []) else none
  | c :: rest =>
    match step stack phase c with
    | some (stack, phase) => scan stack phase (c :: taken) rest
    | none => if accepts stack phase then some (taken.reverse, c :: rest) else none

def takeValue (s : List Char) : Option (List Char × List Char) := scan [] .value [] s

theorem scan_append {stack : List Bracket} {phase : Phase} {taken s lexeme rest : List Char}
    (h : scan stack phase taken s = some (lexeme, rest)) : taken.reverse ++ s = lexeme ++ rest := by
  induction s generalizing stack phase taken with
  | nil =>
    simp only [scan] at h
    split at h <;> simp_all
  | cons c s ih =>
    simp only [scan] at h
    split at h
    · simpa using ih h
    · split at h <;> simp_all

theorem scan_rest_le {stack : List Bracket} {phase : Phase} {taken s lexeme rest : List Char}
    (h : scan stack phase taken s = some (lexeme, rest)) : rest.length ≤ s.length := by
  induction s generalizing stack phase taken with
  | nil =>
    simp only [scan] at h
    split at h <;> simp_all
  | cons c s ih =>
    simp only [scan] at h
    split at h
    · exact Nat.le_succ_of_le (ih h)
    · split at h <;> simp_all

theorem takeValue_append {s lexeme rest : List Char} (h : takeValue s = some (lexeme, rest)) :
    s = lexeme ++ rest := by
  simpa using scan_append h

theorem takeValue_rest_lt {s lexeme rest : List Char} (h : takeValue s = some (lexeme, rest)) :
    rest.length < s.length := by
  cases s with
  | nil => simp [takeValue, scan, accepts, Phase.mayEnd] at h
  | cons c s =>
    simp only [takeValue, scan] at h
    split at h
    · exact Nat.lt_succ_of_le (scan_rest_le h)
    · simp [accepts, Phase.mayEnd] at h

end InferenceRecorder.Json
