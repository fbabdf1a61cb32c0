import InferenceRecorder.Numeral.Binary64
import InferenceRecorder.Toml.Text

/-!
Numbers, dates and times of configuration texts.
-/
namespace InferenceRecorder.Toml

open Numeral (isHexDigit ofDecimal ofDigits)
open Text (Reading takeIf takeMark)

def hasGoodUnderscores : List Char → Bool
  | [] => false
  | [c] => c != '_'
  | c :: '_' :: s => c != '_' && hasGoodUnderscores s
  | c :: s => c != '_' && hasGoodUnderscores s

def takeDigits (isDigit : Char → Bool) (s : List Char) : Reading (List Char) :=
  let run := s.takeWhile fun c => isDigit c || c == '_'
  if hasGoodUnderscores run then some (run.filter (· != '_'), s.drop run.length) else none

def takeDecimal : List Char → Reading (List Char)
  | '0' :: s => some (['0'], s)
  | s => takeDigits Char.isDigit s

def takeSign : List Char → Bool × List Char
  | '-' :: s => (true, s)
  | '+' :: s => (false, s)
  | s => (false, s)

def integerOf? (negative : Bool) (n : Nat) : Option Int :=
  let i : Int := if negative then -n else n
  if -Int.pow 2 63 ≤ i && i < Int.pow 2 63 then some i else none

def integerReading (negative : Bool) (radix : Nat) (reading : Reading (List Char)) : Reading Int :=
  match reading with
  | none => none
  | some (digits, rest) =>
    (integerOf? negative (ofDigits radix digits)).map fun i => (i, rest)

def isOctal (c : Char) : Bool := '0' ≤ c && c ≤ '7'

def isBinary (c : Char) : Bool := c == '0' || c == '1'

def takeInteger : List Char → Reading Int
  | '0' :: 'x' :: s => integerReading false 16 (takeDigits isHexDigit s)
  | '0' :: 'o' :: s => integerReading false 8 (takeDigits isOctal s)
  | '0' :: 'b' :: s => integerReading false 2 (takeDigits isBinary s)
  | s =>
    let (negative, s) := takeSign s
    integerReading negative 10 (takeDecimal s)

def takeFraction : List Char → Reading (List Char)
  | '.' :: s => takeDigits Char.isDigit s
  | _ => none

def takeExponent : List Char → Reading Int
  | 'e' :: s | 'E' :: s =>
    let (negative, s) := takeSign s
    (takeDigits Char.isDigit s).map fun (digits, rest) =>
      let n : Int := ofDecimal digits
      (if negative then -n else n, rest)
  | _ => none

/-- Beyond this many decimal places no number is left in range, or none but zero. -/
def farPlace : Int := 400

def isInRange (digits : List Char) (power : Int) : Bool :=
  let significant := digits.dropWhile (· == '0')
  let place : Int := significant.length + power
  if significant.isEmpty || place < -farPlace then true
  else if farPlace < place then false
  else
    let n := ofDecimal significant
    let (num, den) :=
      if 0 ≤ power then (n * Nat.pow 10 power.toNat, 1) else (n, Nat.pow 10 power.natAbs)
    (Numeral.Binary64.ofRatio? false num den).isSome

def takeSpecial : List Char → Option (List Char)
  | 'i' :: 'n' :: 'f' :: s => some s
  | 'n' :: 'a' :: 'n' :: s => some s
  | _ => none

def takeFloat (s : List Char) : Option (List Char) :=
  let (negative, s) := takeSign s
  match takeDecimal s with
  | none => takeSpecial s
  | some (whole, rest) =>
    let (fraction, rest, hasFraction) := match takeFraction rest with
      | some (fraction, rest) => (fraction, rest, true)
      | none => ([], rest, false)
    let (power, rest, hasExponent) := match takeExponent rest with
      | some (power, rest) => (power, rest, true)
      | none => (0, rest, false)
    if !hasFraction && !hasExponent then none
    else if negative || isInRange (whole ++ fraction) (power - fraction.length) then some rest
    else none

def takeTwo (least most : Nat) : List Char → Reading Nat
  | a :: b :: s =>
    if a.isDigit && b.isDigit then
      let n := ofDecimal [a, b]
      if least ≤ n && n ≤ most then some (n, s) else none
    else none
  | _ => none

def lastDay (year month : Nat) : Nat :=
  if month = 2 then
    if year % 4 = 0 && (year % 100 ≠ 0 || year % 400 = 0) then 29 else 28
  else if month = 4 || month = 6 || month = 9 || month = 11 then 30
  else 31

def takeDate : List Char → Option (List Char)
  | a :: b :: c :: d :: s => do
    if !([a, b, c, d].all Char.isDigit) then none
    let s ← takeMark '-' s
    let (month, s) ← takeTwo 1 12 s
    let s ← takeMark '-' s
    let (_, s) ← takeTwo 1 (lastDay (ofDecimal [a, b, c, d]) month) s
    some s
  | _ => none

def takeTime (s : List Char) : Option (List Char) := do
  let (_, s) ← takeTwo 0 23 s
  let s ← takeMark ':' s
  let (_, s) ← takeTwo 0 59 s
  let s ← takeMark ':' s
  let (_, s) ← takeTwo 0 60 s
  match s with
  | '.' :: c :: rest => if c.isDigit then some (rest.dropWhile Char.isDigit) else none
  | s => some s

def skipOffset (s : List Char) : List Char :=
  match s with
  | 'Z' :: rest => rest
  | 'z' :: rest => rest
  | _ =>
    let offset : Option (List Char) := do
      let rest ← takeIf (fun c => c == '+' || c == '-') s
      let (_, rest) ← takeTwo 0 23 rest
      let rest ← takeMark ':' rest
      let (_, rest) ← takeTwo 0 59 rest
      some rest
    offset.getD s

def takeMoment (s : List Char) : Option (List Char) :=
  match takeDate s with
  | none => takeTime s
  | some rest =>
    match (takeIf (fun c => c == 'T' || c == 't' || c == ' ') rest).bind takeTime with
    | some rest => some (skipOffset rest)
    | none => some rest

end InferenceRecorder.Toml
