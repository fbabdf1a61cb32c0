/-!
Points in time, as a date and a time of day in universal time. A second may be the sixtieth of its
minute, where a leap second is put in.
-/
namespace InferenceRecorder

structure Instant where
  year : Int
  month : Nat
  day : Nat
  hour : Nat
  minute : Nat
  second : Nat
  nano : Nat
  deriving DecidableEq, Repr, Inhabited

namespace Instant

def isLeapYear (year : Int) : Bool := year % 4 == 0 && (year % 100 != 0 || year % 400 == 0)

def daysInMonth (year : Int) (month : Nat) : Nat :=
  if month = 2 then (if isLeapYear year then 29 else 28)
  else if month = 4 || month = 6 || month = 9 || month = 11 then 30
  else 31

def leastYear : Int := -262143

def greatestYear : Int := 262142

def isValid (t : Instant) : Bool :=
  leastYear ≤ t.year && t.year ≤ greatestYear
    && 1 ≤ t.month && t.month ≤ 12
    && 1 ≤ t.day && t.day ≤ daysInMonth t.year t.month
    && t.hour < 24 && t.minute < 60 && t.second ≤ 60 && t.nano < 1000000000

def nextDay (t : Instant) : Instant :=
  if t.day < daysInMonth t.year t.month then { t with day := t.day + 1 }
  else if t.month < 12 then { t with month := t.month + 1, day := 1 }
  else { t with year := t.year + 1, month := 1, day := 1 }

def previousDay (t : Instant) : Instant :=
  if 1 < t.day then { t with day := t.day - 1 }
  else if 1 < t.month then
    { t with month := t.month - 1, day := daysInMonth t.year (t.month - 1) }
  else { t with year := t.year - 1, month := 12, day := 31 }

def addMinutes (t : Instant) (minutes : Int) : Instant :=
  let moved := (t.hour : Int) * 60 + t.minute + minutes
  let t := if moved < 0 then t.previousDay else if moved < 1440 then t else t.nextDay
  let ofDay := (moved % 1440).toNat
  { t with hour := ofDay / 60, minute := ofDay % 60 }

def daysBeforeMonth : Nat → Nat
  | 1 => 0 | 2 => 31 | 3 => 59 | 4 => 90 | 5 => 120 | 6 => 151
  | 7 => 181 | 8 => 212 | 9 => 243 | 10 => 273 | 11 => 304 | _ => 334

def daysBeforeYear (year : Int) : Int :=
  let y := year - 1
  365 * y + y / 4 - y / 100 + y / 400

def epochDay (t : Instant) : Int :=
  let leapDay := if 2 < t.month && isLeapYear t.year then 1 else 0
  daysBeforeYear t.year - daysBeforeYear 1970 + daysBeforeMonth t.month + leapDay +
    (t.day - 1 : Int)

/-- Nanoseconds since the start of 1970, or zero where a signed word of 64 bits does not hold
them. -/
def nanoseconds (t : Instant) : Int :=
  let n := ((epochDay t * 24 + t.hour) * 60 + t.minute) * 60 + t.second
  let n := n * 1000000000 + t.nano
  if -Int.pow 2 63 ≤ n && n < Int.pow 2 63 then n else 0

end Instant
end InferenceRecorder
