import InferenceRecorder.Json.Source
import InferenceRecorder.Numeral.Digits
import InferenceRecorder.Numeral.Shortest

/-!
What a number lexeme denotes. A whole number without fraction and exponent that fits 64 bits, signed
or not, is exact; every other number is a floating-point number, read from as many leading digits as
an unsigned 64 bit word holds, and refused when it is too great for one.
-/
namespace InferenceRecorder.Json

open Numeral (Binary64 decimal ofDecimal)

inductive Number where
  | integer (i : Int)
  | float (x : Binary64)
  deriving DecidableEq, Repr

structure NumberParts where
  negative : Bool
  whole : List Char
  fraction : Option (List Char)
  exponent : Option (Bool × List Char)
  deriving Repr

def digitValue (c : Char) : Nat := c.toNat - '0'.toNat

def isExponentMark (c : Char) : Bool := c == 'e' || c == 'E'

def exponentPart : List Char → Option (Bool × List Char)
  | [] => none
  | _ :: '-' :: digits => some (true, digits)
  | _ :: '+' :: digits => some (false, digits)
  | _ :: digits => some (false, digits)

def NumberParts.of (lexeme : List Char) : NumberParts :=
  let (negative, s) := match lexeme with
    | '-' :: s => (true, s)
    | s => (false, s)
  let rest := s.dropWhile Char.isDigit
  let fraction := match rest with
    | '.' :: s => some (s.takeWhile Char.isDigit)
    | _ => none
  ⟨negative, s.takeWhile Char.isDigit, fraction,
    exponentPart (s.dropWhile fun c => !isExponentMark c)⟩

def wordBound : Nat := Nat.pow 2 64

def leadingDigits (n : Nat) : List Char → Nat × List Char
  | [] => (n, [])
  | c :: s =>
    if n * 10 + digitValue c < wordBound then leadingDigits (n * 10 + digitValue c) s
    else (n, c :: s)

def NumberParts.significand (parts : NumberParts) : Nat × Int :=
  let (n, dropped) := leadingDigits 0 parts.whole
  match parts.fraction with
  | none => (n, dropped.length)
  | some fraction =>
    let (m, left) := leadingDigits n fraction
    (m, (dropped.length : Int) - ((fraction.length : Int) - left.length))

def NumberParts.power (parts : NumberParts) : Int :=
  match parts.exponent with
  | none => 0
  | some (true, digits) => -(ofDecimal digits : Int)
  | some (false, digits) => ofDecimal digits

def NumberParts.float? (parts : NumberParts) : Option Binary64 :=
  let (n, power) := parts.significand
  ((Binary64.ofNat? n).bind fun x => x.scaleByTen? (power + parts.power)).map fun x =>
    if parts.negative then x.negate else x

def leastInteger : Int := -Int.pow 2 63

def NumberParts.integer? (parts : NumberParts) : Option Int :=
  if parts.fraction.isSome || parts.exponent.isSome then none
  else
    let n := ofDecimal parts.whole
    if parts.negative then
      if n = 0 || (-(n : Int)) < leastInteger then none else some (-(n : Int))
    else if n < wordBound then some n
    else none

def isNumber : Source → Bool
  | '-' :: _ => true
  | c :: _ => c.isDigit
  | [] => false

def number? (lexeme : Source) : Option Number :=
  if isNumber lexeme then
    let parts := NumberParts.of lexeme
    match parts.integer? with
    | some i => some (.integer i)
    | none => parts.float?.map .float
  else none

def Number.toFloat? : Number → Option Binary64
  | .integer i => Binary64.ofInt? i
  | .float x => some x

def writeFloat (x : Binary64) : Source := x.write .standard

def writeNat (n : Nat) : Source := decimal n

end InferenceRecorder.Json
