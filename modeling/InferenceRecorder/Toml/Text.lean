import InferenceRecorder.Json.Quoted
import InferenceRecorder.Text.Reading

/-!
Strings, keys and comments of configuration texts.
-/
namespace InferenceRecorder.Toml

open Text (Reading)

def isTabOrBlank (c : Char) : Bool := c == ' ' || c == '\t'

def skipBlanks (s : List Char) : List Char := s.dropWhile isTabOrBlank

def isPlain (c : Char) : Bool := c == '\t' || (' ' ≤ c && c.toNat != 0x7F)

def takeNewline : List Char → Option (List Char)
  | '\n' :: s => some s
  | '\r' :: '\n' :: s => some s
  | _ => none

def skipComment : List Char → List Char
  | '#' :: s => s.dropWhile isPlain
  | s => s

def takeLineEnd (s : List Char) : Option (List Char) :=
  match skipComment (skipBlanks s) with
  | [] => some []
  | s => takeNewline s

def charOf? (n : Nat) : Option Char :=
  if n < 0xD800 || (0xE000 ≤ n && n < 0x110000) then some (Char.ofNat n) else none

def shortChar? (a b c d : Char) : Option Char := (Json.hexUnit? a b c d).bind charOf?

def longChar? (a b c d e f g h : Char) : Option Char :=
  match Json.hexUnit? a b c d, Json.hexUnit? e f g h with
  | some high, some low => charOf? (high * 0x10000 + low)
  | _, _ => none

def unescape? : Char → Option Char
  | '"' => some '"'
  | '\\' => some '\\'
  | 'b' => some '\x08'
  | 'f' => some '\x0c'
  | 'n' => some '\n'
  | 'r' => some '\r'
  | 't' => some '\t'
  | _ => none

def consIf (c : Option Char) (reading : Reading (List Char)) : Reading (List Char) :=
  match c, reading with
  | some c, some (text, rest) => some (c :: text, rest)
  | _, _ => none

def takeBasic : List Char → Reading (List Char)
  | [] => none
  | '"' :: s => some ([], s)
  | '\\' :: 'u' :: a :: b :: c :: d :: s => consIf (shortChar? a b c d) (takeBasic s)
  | '\\' :: 'U' :: a :: b :: c :: d :: e :: f :: g :: h :: s =>
    consIf (longChar? a b c d e f g h) (takeBasic s)
  | '\\' :: c :: s => consIf (unescape? c) (takeBasic s)
  | c :: s => if isPlain c && c != '\\' then consIf (some c) (takeBasic s) else none

def takeLiteral : List Char → Reading (List Char)
  | [] => none
  | '\'' :: s => some ([], s)
  | c :: s => if isPlain c then consIf (some c) (takeLiteral s) else none

def endsLine (s : List Char) : Bool := (takeNewline (skipBlanks s)).isSome

/-- A string with escapes over several lines. Up to two quotation marks may stand before the three
that close it. After a backslash at the end of a line, `trimming` passes over all blanks. -/
def takeLongBasic (trimming : Bool) : List Char → Reading (List Char)
  | [] => none
  | '"' :: '"' :: '"' :: '"' :: '"' :: s => some (['"', '"'], s)
  | '"' :: '"' :: '"' :: '"' :: s => some (['"'], s)
  | '"' :: '"' :: '"' :: s => some ([], s)
  | '\r' :: '\n' :: s =>
    if trimming then takeLongBasic true s else consIf (some '\n') (takeLongBasic false s)
  | '\n' :: s =>
    if trimming then takeLongBasic true s else consIf (some '\n') (takeLongBasic false s)
  | '\\' :: 'u' :: a :: b :: c :: d :: s => consIf (shortChar? a b c d) (takeLongBasic false s)
  | '\\' :: 'U' :: a :: b :: c :: d :: e :: f :: g :: h :: s =>
    consIf (longChar? a b c d e f g h) (takeLongBasic false s)
  | '\\' :: c :: s =>
    if endsLine (c :: s) then takeLongBasic true (c :: s)
    else consIf (unescape? c) (takeLongBasic false s)
  | c :: s =>
    if trimming && isTabOrBlank c then takeLongBasic true s
    else if isPlain c && c != '\\' then consIf (some c) (takeLongBasic false s)
    else none

def takeLongLiteral : List Char → Reading (List Char)
  | [] => none
  | '\'' :: '\'' :: '\'' :: '\'' :: '\'' :: s => some (['\'', '\''], s)
  | '\'' :: '\'' :: '\'' :: '\'' :: s => some (['\''], s)
  | '\'' :: '\'' :: '\'' :: s => some ([], s)
  | '\r' :: '\n' :: s => consIf (some '\n') (takeLongLiteral s)
  | '\n' :: s => consIf (some '\n') (takeLongLiteral s)
  | c :: s => if isPlain c then consIf (some c) (takeLongLiteral s) else none

def dropFirstNewline (s : List Char) : List Char := (takeNewline s).getD s

def takeText : List Char → Reading (List Char)
  | '"' :: '"' :: '"' :: s => takeLongBasic false (dropFirstNewline s)
  | '"' :: s => takeBasic s
  | '\'' :: '\'' :: '\'' :: s => takeLongLiteral (dropFirstNewline s)
  | '\'' :: s => takeLiteral s
  | _ => none

def isBareChar (c : Char) : Bool := c.isAlphanum || c == '-' || c == '_'

def takeKeyPart : List Char → Reading (List Char)
  | '"' :: s => takeBasic s
  | '\'' :: s => takeLiteral s
  | s =>
    let bare := s.takeWhile isBareChar
    if bare.isEmpty then none else some (bare, s.drop bare.length)

def nestingBound : Nat := 80

def takeKey : (parts : Nat) → List Char → Reading (List String)
  | 0, _ => none
  | parts + 1, s =>
    match takeKeyPart (skipBlanks s) with
    | none => none
    | some (part, rest) =>
      match skipBlanks rest with
      | '.' :: rest =>
        (takeKey parts rest).map fun (more, rest) => (String.ofList part :: more, rest)
      | rest => some ([String.ofList part], rest)

end InferenceRecorder.Toml
