/-!
Finite binary floating-point numbers of 64 bits, with exact rounding. A number is
`mantissa * 2 ^ exponent` with its sign beside it; sums of digits, products and quotients are formed
exactly and rounded once, to the nearest number and to the even mantissa between two. There are no
infinities and there is nothing that is not a number: what overflows has no result.
-/
namespace InferenceRecorder.Numeral

structure Binary64 where
  negative : Bool
  mantissa : Nat
  exponent : Int
  deriving DecidableEq, Repr, Inhabited

namespace Binary64

def mantissaBound : Nat := Nat.pow 2 53

def leastExponent : Int := -1074

def greatestExponent : Int := 971

def zero (negative : Bool) : Binary64 := ⟨negative, 0, leastExponent⟩

def isZero (x : Binary64) : Bool := x.mantissa == 0

def negate (x : Binary64) : Binary64 := { x with negative := !x.negative }

def scaled (num den : Nat) (exponent : Int) : Nat × Nat :=
  if 0 ≤ exponent then (num, den * Nat.pow 2 exponent.toNat)
  else (num * Nat.pow 2 (-exponent).toNat, den)

def exponentFor (num den : Nat) : Int :=
  let guess : Int := max ((num.log2 : Int) - den.log2 - 53) leastExponent
  let (n, d) := scaled num den guess
  if n / d < mantissaBound then guess else guess + 1

def nearest (num den : Nat) : Nat :=
  let whole := num / den
  let twice := 2 * (num % den)
  if den < twice || (twice == den && whole % 2 == 1) then whole + 1 else whole

def ofRatio? (negative : Bool) (num den : Nat) : Option Binary64 :=
  if num = 0 then some (zero negative)
  else
    let exponent := exponentFor num den
    let (n, d) := scaled num den exponent
    let mantissa := nearest n d
    let (mantissa, exponent) :=
      if mantissa = mantissaBound then (mantissa / 2, exponent + 1) else (mantissa, exponent)
    if greatestExponent < exponent then none else some ⟨negative, mantissa, exponent⟩

def ofNat? (n : Nat) : Option Binary64 := ofRatio? false n 1

def ofInt? (i : Int) : Option Binary64 := ofRatio? (i < 0) i.natAbs 1

def ratio (x : Binary64) : Nat × Nat :=
  if 0 ≤ x.exponent then (x.mantissa * Nat.pow 2 x.exponent.toNat, 1)
  else (x.mantissa, Nat.pow 2 (-x.exponent).toNat)

def mul? (x y : Binary64) : Option Binary64 :=
  ofRatio? (x.negative != y.negative) (x.ratio.1 * y.ratio.1) (x.ratio.2 * y.ratio.2)

def div? (x y : Binary64) : Option Binary64 :=
  ofRatio? (x.negative != y.negative) (x.ratio.1 * y.ratio.2) (x.ratio.2 * y.ratio.1)

def greatestPower : Nat := 308

def timesPower? (x : Binary64) (n : Nat) : Option Binary64 := (ofNat? (Nat.pow 10 n)).bind x.mul?

def overPower? (x : Binary64) (n : Nat) : Option Binary64 := (ofNat? (Nat.pow 10 n)).bind x.div?

theorem natAbs_add_lt {p : Int} {n : Nat} (h : p < -(n : Int)) (hn : 0 < n) :
    (p + n).natAbs < p.natAbs := by omega

/-- Multiplies or divides by a power of ten in steps of at most `greatestPower`. Each step rounds,
so the result may be off the nearest number by a unit in the last place. -/
def scaleByTen? (x : Binary64) (power : Int) : Option Binary64 :=
  if _h : power < -(greatestPower : Int) then
    if x.isZero then some x
    else (x.overPower? greatestPower).bind fun x => scaleByTen? x (power + greatestPower)
  else if power < 0 then x.overPower? power.natAbs
  else if power ≤ greatestPower then x.timesPower? power.toNat
  else if x.isZero then some x else none
termination_by power.natAbs
decreasing_by exact natAbs_add_lt _h (by decide)

end Binary64
end InferenceRecorder.Numeral
