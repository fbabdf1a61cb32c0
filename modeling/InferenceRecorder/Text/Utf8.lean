/-!
Bytes read as UTF-8. A decoder is fed one byte at a time; where the bytes stop making up a character
it notes one gap for what it had of it. A strict reading allows no gaps; a lossy one puts the
replacement character into each.
-/
namespace InferenceRecorder.Utf8

/-- A character of which bytes are still missing: its bits so far, how many bytes come after the
next one, and the range of the next one. -/
structure Pending where
  bits : Nat
  left : Nat
  low : Nat
  high : Nat
  deriving DecidableEq, Repr

structure Decoder where
  read : List (Option Char)
  pending : Option Pending
  deriving DecidableEq, Repr

def Decoder.empty : Decoder := ⟨[], none⟩

def lead? (b : Nat) : Option Pending :=
  if 0xC2 ≤ b && b ≤ 0xDF then some ⟨b - 0xC0, 0, 0x80, 0xBF⟩
  else if b = 0xE0 then some ⟨0, 1, 0xA0, 0xBF⟩
  else if b = 0xED then some ⟨0xD, 1, 0x80, 0x9F⟩
  else if 0xE1 ≤ b && b ≤ 0xEF then some ⟨b - 0xE0, 1, 0x80, 0xBF⟩
  else if b = 0xF0 then some ⟨0, 2, 0x90, 0xBF⟩
  else if 0xF1 ≤ b && b ≤ 0xF3 then some ⟨b - 0xF0, 2, 0x80, 0xBF⟩
  else if b = 0xF4 then some ⟨4, 2, 0x80, 0x8F⟩
  else none

def Decoder.start (read : List (Option Char)) (b : Nat) : Decoder :=
  if b < 0x80 then ⟨some (Char.ofNat b) :: read, none⟩
  else
    match lead? b with
    | some pending => ⟨read, some pending⟩
    | none => ⟨none :: read, none⟩

def Decoder.feed (d : Decoder) (byte : UInt8) : Decoder :=
  let b := byte.toNat
  match d.pending with
  | none => start d.read b
  | some p =>
    if p.low ≤ b && b ≤ p.high then
      let bits := p.bits * 64 + (b - 0x80)
      match p.left with
      | 0 => ⟨some (Char.ofNat bits) :: d.read, none⟩
      | left + 1 => ⟨d.read, some ⟨bits, left, 0x80, 0xBF⟩⟩
    else start (none :: d.read) b

def Decoder.finish (d : Decoder) : List (Option Char) :=
  (if d.pending.isSome then none :: d.read else d.read).reverse

def pieces (bytes : List UInt8) : List (Option Char) :=
  (bytes.foldl Decoder.feed Decoder.empty).finish

def replacement : Char := Char.ofNat 0xFFFD

def decodeLossy (bytes : List UInt8) : String :=
  String.ofList ((pieces bytes).map fun c => c.getD replacement)

def decode? (bytes : List UInt8) : Option String := ((pieces bytes).mapM id).map String.ofList

def encode (text : String) : List UInt8 := text.toUTF8.toList

def size (text : String) : Nat := text.utf8ByteSize

end InferenceRecorder.Utf8
