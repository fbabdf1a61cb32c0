import InferenceRecorder.Calendar.Instant
import InferenceRecorder.Numeral.Digits
import InferenceRecorder.Text.Blank
import InferenceRecorder.Text.Reading

/-!
Instants as text. They are written as `2024-02-29T12:34:56.789Z`, with as many groups of three
fraction digits as they need. The reader takes any offset from universal time, blanks between the
parts, and parts that are not padded with zeros.
-/
namespace InferenceRecorder.Timestamp

open Numeral (decimal ofDecimal)
open Text (Reading skipSpace takeIf)

def padded (width n : Nat) : List Char :=
  List.replicate (width - (decimal n).length) '0' ++ decimal n

def writeYear (year : Int) : List Char :=
  if 0 ≤ year ∧ year ≤ 9999 then padded 4 year.toNat
  else (if year < 0 then '-' else '+') :: padded 4 year.natAbs

def writeFraction (nano : Nat) : List Char :=
  if nano = 0 then []
  else if nano % 1000000 = 0 then '.' :: padded 3 (nano / 1000000)
  else if nano % 1000 = 0 then '.' :: padded 6 (nano / 1000)
  else '.' :: padded 9 nano

def write (t : Instant) : List Char :=
  writeYear t.year ++ '-' :: padded 2 t.month ++ '-' :: padded 2 t.day ++ 'T' :: padded 2 t.hour
    ++ ':' :: padded 2 t.minute ++ ':' :: padded 2 t.second ++ writeFraction t.nano ++ ['Z']

def takeNumber (width : Nat) (s : List Char) : Reading Nat :=
  let ds := (s.take width).takeWhile Char.isDigit
  if ds.isEmpty then none else some (ofDecimal ds, s.drop ds.length)

def takeYear (s : List Char) : Reading Int :=
  match skipSpace s with
  | '-' :: s => (takeNumber s.length s).map fun (n, s) => (-(n : Int), s)
  | '+' :: s => (takeNumber s.length s).map fun (n, s) => ((n : Int), s)
  | s => (takeNumber 4 s).map fun (n, s) => ((n : Int), s)

def takeTwo (s : List Char) : Reading Nat := takeNumber 2 (skipSpace s)

def takeMark (mark : Char) (s : List Char) : Option (List Char) :=
  Text.takeMark mark (skipSpace s)

def takeFraction : List Char → Reading Nat
  | '.' :: s =>
    (takeNumber 9 s).map fun (n, rest) =>
      (n * Nat.pow 10 (9 - (s.length - rest.length)), rest.dropWhile Char.isDigit)
  | s => some (0, s)

def takeSeparator (s : List Char) : Option (List Char) :=
  takeIf (fun c => c == 't' || c == 'T' || c == ' ') s

def takeOffset (s : List Char) : Option (Int × List Char) := do
  let (ahead, s) ← match s with
    | '+' :: s => some (true, s)
    | '-' :: s => some (false, s)
    | '−' :: s => some (false, s)
    | _ => none
  match s with
  | a :: b :: s =>
    match s.dropWhile (fun c => c = ':' || Text.isSpace c) with
    | c :: d :: s =>
      if a.isDigit && b.isDigit && '0' ≤ c && c ≤ '5' && d.isDigit then
        let minutes : Int := ofDecimal [a, b] * 60 + ofDecimal [c, d]
        some (if ahead then minutes else -minutes, s)
      else none
    | _ => none
  | _ => none

def takeZone (s : List Char) : Reading Int :=
  match s with
  | 'Z' :: s => some (0, s)
  | 'z' :: s => some (0, s)
  | a :: b :: c :: rest =>
    if [a.toUpper, b.toUpper, c.toUpper] = ['U', 'T', 'C'] then some (0, rest) else takeOffset s
  | s => takeOffset s

def isOffset (minutes : Int) : Bool := minutes.natAbs < 1440

def read? (s : List Char) : Option Instant := do
  let (year, s) ← takeYear s
  let s ← takeMark '-' s
  let (month, s) ← takeTwo s
  let s ← takeMark '-' s
  let (day, s) ← takeTwo s
  let s ← takeSeparator s
  let (hour, s) ← takeTwo s
  let s ← takeMark ':' s
  let (minute, s) ← takeTwo s
  let s ← takeMark ':' s
  let (second, s) ← takeTwo s
  let (nano, s) ← takeFraction s
  let (offset, s) ← takeZone (skipSpace s)
  let localTime : Instant := ⟨year, month, day, hour, minute, second, nano⟩
  let t := localTime.addMinutes (-offset)
  if (skipSpace s).isEmpty && localTime.isValid && isOffset offset && t.isValid then some t
  else none

end InferenceRecorder.Timestamp
