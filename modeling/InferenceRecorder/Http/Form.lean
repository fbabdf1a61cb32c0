import InferenceRecorder.Text.Utf8

/-!
Form encoding. Pairs are parted by ampersands, a key from its value by the first equals sign; a plus
sign stands for a blank, and a percent sign with two hexadecimal digits for a byte. A percent sign
without them stands for itself.
-/
namespace InferenceRecorder.Http

def pieces (separator : UInt8) : List UInt8 → List (List UInt8)
  | [] => [[]]
  | b :: s =>
    if b = separator then [] :: pieces separator s
    else
      match pieces separator s with
      | piece :: more => (b :: piece) :: more
      | [] => [[b]]

def hexByte? (b : UInt8) : Option UInt8 :=
  if 0x30 ≤ b && b ≤ 0x39 then some (b - 0x30)
  else if 0x61 ≤ b && b ≤ 0x66 then some (b - 0x61 + 10)
  else if 0x41 ≤ b && b ≤ 0x46 then some (b - 0x41 + 10)
  else none

def plusSign : UInt8 := 0x2B

def percentSign : UInt8 := 0x25

def decodeBytes : List UInt8 → List UInt8
  | b :: c :: d :: s =>
    if b = percentSign then
      match hexByte? c, hexByte? d with
      | some high, some low => (high * 16 + low) :: decodeBytes s
      | _, _ => b :: decodeBytes (c :: d :: s)
    else (if b = plusSign then 0x20 else b) :: decodeBytes (c :: d :: s)
  | b :: s => (if b = plusSign then 0x20 else b) :: decodeBytes s
  | [] => []

def decodeText (bytes : List UInt8) : String := Utf8.decodeLossy (decodeBytes bytes)

def decodePair (piece : List UInt8) : String × String :=
  let key := piece.takeWhile (· != 0x3D)
  (decodeText key, decodeText (piece.drop (key.length + 1)))

def decodeForm (query : String) : List (String × String) :=
  ((pieces 0x26 (Utf8.encode query)).filter fun piece => !piece.isEmpty).map decodePair

def formValue? (key : String) (pairs : List (String × String)) : Option String :=
  (pairs.find? fun pair => pair.1 == key).map Prod.snd

end InferenceRecorder.Http
