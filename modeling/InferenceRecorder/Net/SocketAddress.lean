import InferenceRecorder.Numeral.Digits
import InferenceRecorder.Text.Reading

/-!
Socket addresses: an internet address of version four or six, and a port.
-/
namespace InferenceRecorder.Net

open Numeral (decimal hexadecimal isHexDigit ofDecimal ofDigits)
open Text (Reading takeMark)

inductive SocketAddress where
  | v4 (a b c d : Nat) (port : Nat)
  /-- Eight groups, and the number of the zone that they belong to. -/
  | v6 (groups : List Nat) (zone : Nat) (port : Nat)
  deriving DecidableEq, Repr

def takeDigits (isDigit : Char → Bool) (s : List Char) : List Char × List Char :=
  (s.takeWhile isDigit, s.dropWhile isDigit)

def takeBounded (bound : Nat) (s : List Char) : Reading Nat :=
  let (digits, rest) := takeDigits Char.isDigit s
  if digits.isEmpty || bound ≤ ofDecimal digits then none else some (ofDecimal digits, rest)

def takeOctet (s : List Char) : Reading Nat :=
  let (digits, rest) := takeDigits Char.isDigit s
  let isPadded := digits.head? == some '0' && 1 < digits.length
  if digits.isEmpty || 3 < digits.length || isPadded || 256 ≤ ofDecimal digits then none
  else some (ofDecimal digits, rest)

structure Octets where
  a : Nat
  b : Nat
  c : Nat
  d : Nat
  deriving DecidableEq, Repr

def takeOctets (s : List Char) : Option (Octets × List Char) := do
  let (a, s) ← takeOctet s
  let s ← takeMark '.' s
  let (b, s) ← takeOctet s
  let s ← takeMark '.' s
  let (c, s) ← takeOctet s
  let s ← takeMark '.' s
  let (d, s) ← takeOctet s
  some (⟨a, b, c, d⟩, s)

def takeGroup (s : List Char) : Reading Nat :=
  let (digits, rest) := takeDigits isHexDigit s
  if digits.isEmpty || 4 < digits.length then none else some (ofDigits 16 digits, rest)

structure Groups where
  groups : List Nat
  endsInOctets : Bool
  deriving Repr

def takeGroups : (left : Nat) → (first : Bool) → List Char → Groups × List Char
  | 0, _, s => (⟨[], false⟩, s)
  | left + 1, first, s =>
    match if first then some s else takeMark ':' s with
    | none => (⟨[], false⟩, s)
    | some t =>
      match if left = 0 then none else takeOctets t with
      | some (o, rest) => (⟨[o.a * 256 + o.b, o.c * 256 + o.d], true⟩, rest)
      | none =>
        match takeGroup t with
        | none => (⟨[], false⟩, s)
        | some (group, rest) =>
          let (more, rest) := takeGroups left false rest
          (⟨group :: more.groups, more.endsInOctets⟩, rest)

def takeAddress6 (s : List Char) : Option (List Nat × List Char) := do
  let (front, s) := takeGroups 8 true s
  if front.groups.length = 8 then some (front.groups, s)
  else if front.endsInOctets then none
  else
    let s ← takeMark ':' s
    let s ← takeMark ':' s
    let (back, s) := takeGroups (7 - front.groups.length) true s
    let zeros := 8 - front.groups.length - back.groups.length
    some (front.groups ++ List.replicate zeros 0 ++ back.groups, s)

def portBound : Nat := Nat.pow 2 16

def zoneBound : Nat := Nat.pow 2 32

def takePort (s : List Char) : Option (Nat × List Char) := do
  let s ← takeMark ':' s
  takeBounded portBound s

def takeZone (s : List Char) : Nat × List Char :=
  match (takeMark '%' s).bind (takeBounded zoneBound) with
  | some (zone, rest) => (zone, rest)
  | none => (0, s)

def takeSocket4 (s : List Char) : Option (SocketAddress × List Char) := do
  let (o, s) ← takeOctets s
  let (port, s) ← takePort s
  some (.v4 o.a o.b o.c o.d port, s)

def takeSocket6 (s : List Char) : Option (SocketAddress × List Char) := do
  let s ← takeMark '[' s
  let (groups, s) ← takeAddress6 s
  let (zone, s) := takeZone s
  let s ← takeMark ']' s
  let (port, s) ← takePort s
  some (.v6 groups zone port, s)

namespace SocketAddress

def read? (text : String) : Option SocketAddress :=
  match (takeSocket4 text.toList).orElse fun _ => takeSocket6 text.toList with
  | some (address, []) => some address
  | _ => none

def port : SocketAddress → Nat
  | .v4 _ _ _ _ port => port
  | .v6 _ _ port => port

def isV6 : SocketAddress → Bool
  | .v4 .. => false
  | .v6 .. => true

def dotted (a b c d : Nat) : List Char :=
  decimal a ++ '.' :: decimal b ++ '.' :: decimal c ++ '.' :: decimal d

def joined : List Nat → List Char
  | [] => []
  | [group] => hexadecimal group
  | group :: groups => hexadecimal group ++ ':' :: joined groups

structure Stretch where
  start : Nat
  length : Nat
  deriving DecidableEq, Repr

def longestZeros (i : Nat) (current longest : Stretch) : List Nat → Stretch
  | [] => longest
  | group :: groups =>
    if group = 0 then
      let start := if current.length = 0 then i else current.start
      let current : Stretch := ⟨start, current.length + 1⟩
      longestZeros (i + 1) current (if longest.length < current.length then current else longest)
        groups
    else longestZeros (i + 1) ⟨0, 0⟩ longest groups

/-- Two colons stand for the longest stretch of two or more groups of zeros. An address of version
four in disguise shows its octets. -/
def writeGroups (groups : List Nat) : List Char :=
  match groups with
  | [0, 0, 0, 0, 0, 0xFFFF, high, low] =>
    "::ffff:".toList ++ dotted (high / 256) (high % 256) (low / 256) (low % 256)
  | _ =>
    let zeros := longestZeros 0 ⟨0, 0⟩ ⟨0, 0⟩ groups
    if 1 < zeros.length then
      joined (groups.take zeros.start) ++ [':', ':']
        ++ joined (groups.drop (zeros.start + zeros.length))
    else joined groups

def writeZone (zone : Nat) : List Char := if zone = 0 then [] else '%' :: decimal zone

def write : SocketAddress → List Char
  | .v4 a b c d port => dotted a b c d ++ ':' :: decimal port
  | .v6 groups zone port =>
    '[' :: writeGroups groups ++ writeZone zone ++ ']' :: ':' :: decimal port

end SocketAddress
end InferenceRecorder.Net
