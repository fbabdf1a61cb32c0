import InferenceRecorder.Numeral.Binary64
import InferenceRecorder.Numeral.Digits

/-!
The shortest decimal text that reads back as a given number. Among the decimals with the fewest
digits that lie nearer to the number than to any other one, the nearest is chosen.
-/
namespace InferenceRecorder.Numeral

structure Decimal where
  digits : Nat
  power : Int
  deriving DecidableEq, Repr

def digitCount (n : Nat) : Nat := (decimal n).length

def leadingPower (num den : Nat) : Int :=
  if den ≤ num then (digitCount (num / den) : Int) - 1
  else
    let places := digitCount (den / num)
    if den ≤ num * Nat.pow 10 (places - 1) then -((places : Int) - 1) else -(places : Int)

/-- The decimals that read back as a number: between `low` and `high` over `den`, with or without
the ends, around `mid`. -/
structure Window where
  low : Nat
  mid : Nat
  high : Nat
  den : Nat
  closed : Bool

namespace Window

/-- Half a unit around a number, or less below a power of two; an even mantissa takes the ends. -/
def of (x : Binary64) : Window :=
  let atPower := x.mantissa == Binary64.mantissaBound / 2 && x.exponent != Binary64.leastExponent
  let below := if atPower then 1 else 2
  let (num, den) := Binary64.scaled 1 4 (-x.exponent)
  ⟨(4 * x.mantissa - below) * num, 4 * x.mantissa * num, (4 * x.mantissa + 2) * num, den,
    x.mantissa % 2 == 0⟩

def inUnits (w : Window) (power : Int) : Window :=
  let (num, den) :=
    if 0 ≤ power then (1, Nat.pow 10 power.toNat) else (Nat.pow 10 (-power).toNat, 1)
  ⟨w.low * num, w.mid * num, w.high * num, w.den * den, w.closed⟩

def contains (w : Window) (n : Nat) : Bool :=
  if w.closed then w.low ≤ n * w.den && n * w.den ≤ w.high
  else w.low < n * w.den && n * w.den < w.high

def nearest? (w : Window) : Option Nat :=
  let down := w.mid / w.den
  let up := down + 1
  match w.contains down, w.contains up with
  | true, true => some (Binary64.nearest w.mid w.den)
  | true, false => some down
  | false, true => some up
  | false, false => none

def search (w : Window) : Nat → Int → Option Decimal
  | 0, _ => none
  | grids + 1, power =>
    match (w.inUnits power).nearest? with
    | some digits => some ⟨digits, power⟩
    | none => search w grids (power - 1)

end Window

/-- Seventeen digits tell all numbers apart. -/
def digitsNeeded : Nat := 17

def shortest? (x : Binary64) : Option Decimal :=
  if x.isZero then none
  else
    let w := Window.of x
    w.search digitsNeeded (leadingPower w.mid w.den)

def Decimal.scientific (d : Decimal) : List Char × Int :=
  let digits := decimal d.digits
  let significant := (digits.reverse.dropWhile (· == '0')).reverse
  (significant, d.power + digits.length - 1)

structure DecimalStyle where
  leastPlain : Int
  greatestPlain : Int
  plusSign : Bool

def DecimalStyle.standard : DecimalStyle := ⟨-5, 15, true⟩

def zeros (n : Nat) : List Char := List.replicate n '0'

def writePlain (digits : List Char) (power : Int) : List Char :=
  if power < 0 then '0' :: '.' :: (zeros (power.natAbs - 1) ++ digits)
  else
    let whole := power.toNat + 1
    if digits.length ≤ whole then digits ++ zeros (whole - digits.length) ++ ['.', '0']
    else digits.take whole ++ '.' :: digits.drop whole

def writeExponent (style : DecimalStyle) (digits : List Char) (power : Int) : List Char :=
  let fraction := if digits.length ≤ 1 then [] else '.' :: digits.drop 1
  let sign := if power < 0 then ['-'] else if style.plusSign then ['+'] else []
  digits.take 1 ++ fraction ++ 'e' :: (sign ++ decimal power.natAbs)

def Decimal.write (style : DecimalStyle) (d : Decimal) : List Char :=
  let (digits, power) := d.scientific
  if style.leastPlain ≤ power && power ≤ style.greatestPlain then writePlain digits power
  else writeExponent style digits power

def Binary64.write (style : DecimalStyle) (x : Binary64) : List Char :=
  let magnitude :=
    match shortest? x with
    | some d => d.write style
    | none => ['0', '.', '0']
  if x.negative then '-' :: magnitude else magnitude

end InferenceRecorder.Numeral
