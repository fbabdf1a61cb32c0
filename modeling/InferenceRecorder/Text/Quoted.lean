import InferenceRecorder.Numeral.Digits
import InferenceRecorder.Text.Hidden

/-!
Texts between quotation marks, for people to read: what cannot be seen is spelled by its number.
-/
namespace InferenceRecorder.Text

def numbered (c : Char) : List Char := ['\\', 'u', '{'] ++ Numeral.hexadecimal c.toNat ++ ['}']

def showChar (c : Char) : List Char :=
  if c = '"' then ['\\', '"']
  else if c = '\\' then ['\\', '\\']
  else if c = '\n' then ['\\', 'n']
  else if c = '\r' then ['\\', 'r']
  else if c = '\t' then ['\\', 't']
  else if c.toNat = 0 then ['\\', '0']
  else if c < ' ' then numbered c
  else if c.toNat < 0x7F then [c]
  else if isHidden c then numbered c
  else [c]

def quoted (text : String) : String :=
  String.ofList ('"' :: (text.toList.flatMap showChar ++ ['"']))

end InferenceRecorder.Text
