import InferenceRecorder.Json.Grammar

/-!
JSON strings. `quote` writes a text between quotation marks, escaping no more than it has to;
`takeString` reads what follows an opening quotation mark. A text is a sequence of characters, so an
escape that names half of a surrogate pair spells nothing and is refused.
-/
namespace InferenceRecorder.Json

open Numeral (hexValue?)

def hexUnit? (a b c d : Char) : Option Nat :=
  match hexValue? a, hexValue? b, hexValue? c, hexValue? d with
  | some a, some b, some c, some d => some (((a * 16 + b) * 16 + c) * 16 + d)
  | _, _, _, _ => none

def isHighSurrogate (n : Nat) : Bool := 0xD800 ≤ n && n ≤ 0xDBFF

def isLowSurrogate (n : Nat) : Bool := 0xDC00 ≤ n && n ≤ 0xDFFF

def surrogatePair (high low : Nat) : Char :=
  Char.ofNat (0x10000 + (high - 0xD800) * 0x400 + (low - 0xDC00))

def unescape? : Char → Option Char
  | '"' => some '"'
  | '\\' => some '\\'
  | '/' => some '/'
  | 'b' => some '\x08'
  | 'f' => some '\x0c'
  | 'n' => some '\n'
  | 'r' => some '\r'
  | 't' => some '\t'
  | _ => none

inductive Piece where
  | char (c : Char)
  | unit (n : Nat)
  deriving DecidableEq, Repr

def Piece.cons (p : Piece) : Option (List Piece × List Char) → Option (List Piece × List Char)
  | some (pieces, rest) => some (p :: pieces, rest)
  | none => none

def takePieces : List Char → Option (List Piece × List Char)
  | [] => none
  | '"' :: rest => some ([], rest)
  | '\\' :: 'u' :: a :: b :: c :: d :: rest =>
    match hexUnit? a b c d with
    | none => none
    | some n => (Piece.unit n).cons (takePieces rest)
  | '\\' :: c :: rest =>
    match unescape? c with
    | none => none
    | some c => (Piece.char c).cons (takePieces rest)
  | c :: rest =>
    if isControl c || c == '\\' then none else (Piece.char c).cons (takePieces rest)

def joinPieces : List Piece → Option (List Char)
  | [] => some []
  | .char c :: pieces => (joinPieces pieces).map (c :: ·)
  | .unit n :: .unit m :: pieces =>
    if isHighSurrogate n && isLowSurrogate m then
      (joinPieces pieces).map (surrogatePair n m :: ·)
    else if isHighSurrogate n || isLowSurrogate n then none
    else (joinPieces (.unit m :: pieces)).map (Char.ofNat n :: ·)
  | .unit n :: pieces =>
    if isHighSurrogate n || isLowSurrogate n then none
    else (joinPieces pieces).map (Char.ofNat n :: ·)

def takeString (s : List Char) : Option (List Char × List Char) :=
  match takePieces s with
  | none => none
  | some (pieces, rest) => (joinPieces pieces).map fun text => (text, rest)

def unquote? : List Char → Option String
  | '"' :: rest =>
    match takeString rest with
    | some (text, []) => some (String.ofList text)
    | _ => none
  | _ => none

def escape (c : Char) : List Char :=
  if c = '"' then ['\\', '"']
  else if c = '\\' then ['\\', '\\']
  else if c = '\x08' then ['\\', 'b']
  else if c = '\x0c' then ['\\', 'f']
  else if c = '\n' then ['\\', 'n']
  else if c = '\r' then ['\\', 'r']
  else if c = '\t' then ['\\', 't']
  else if isControl c then
    ['\\', 'u', '0', '0', Nat.digitChar (c.toNat / 16), Nat.digitChar (c.toNat % 16)]
  else [c]

def quoteChars (text : List Char) : List Char := '"' :: (text.flatMap escape ++ ['"'])

def quote (text : String) : List Char := quoteChars text.toList

theorem Piece.of_cons_eq_some {p : Piece} {o : Option (List Piece × List Char)}
    {pieces : List Piece} {rest : List Char} (h : p.cons o = some (pieces, rest)) :
    ∃ more, o = some (more, rest) ∧ pieces = p :: more := by
  cases o with
  | none => simp [Piece.cons] at h
  | some q =>
    simp only [Piece.cons, Option.some.injEq, Prod.mk.injEq] at h
    exact ⟨q.1, by simp [← h.2], h.1.symm⟩

theorem takePieces_rest_lt {s : List Char} {pieces : List Piece} {rest : List Char}
    (h : takePieces s = some (pieces, rest)) : rest.length < s.length := by
  fun_induction takePieces s generalizing pieces rest with
  | case1 => simp at h
  | case2 => simp at h; simp [h]
  | case3 => simp at h
  | case4 a b c d s n hn ih =>
    obtain ⟨more, hm, -⟩ := Piece.of_cons_eq_some h
    have := ih hm
    simp only [List.length_cons]; omega
  | case5 => simp at h
  | case6 c s _ e he ih =>
    obtain ⟨more, hm, -⟩ := Piece.of_cons_eq_some h
    have := ih hm
    simp only [List.length_cons]; omega
  | case7 => simp at h
  | case8 c s _ _ _ _ ih =>
    obtain ⟨more, hm, -⟩ := Piece.of_cons_eq_some h
    have := ih hm
    simp only [List.length_cons]; omega

theorem takeString_rest_lt {s text rest : List Char} (h : takeString s = some (text, rest)) :
    rest.length < s.length := by
  simp only [takeString] at h
  split at h
  · simp at h
  · rename_i pieces after hp
    obtain ⟨t, -, ht⟩ := Option.map_eq_some_iff.1 h
    simp only [Prod.mk.injEq] at ht
    exact ht.2 ▸ takePieces_rest_lt hp

end InferenceRecorder.Json
