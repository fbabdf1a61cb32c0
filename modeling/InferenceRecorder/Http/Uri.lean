import InferenceRecorder.Text.Utf8

/-!
Request targets. A target is a path with a query, an absolute address, an authority alone, or a
star; what comes after a number sign is dropped. Only path and query are kept.
-/
namespace InferenceRecorder.Http

structure Uri where
  path : String
  query : Option String
  deriving DecidableEq, Repr

def longestUri : Nat := 65534

def longestScheme : Nat := 64

def isSchemeChar (c : Char) : Bool := c.isAlphanum || "+-.~".toList.contains c

def isAuthorityChar (c : Char) : Bool :=
  c.isAlphanum || "!$&'()*+,-.;=_~".toList.contains c

def isPathChar (c : Char) : Bool :=
  let n := c.toNat
  n == 0x21 || (0x24 ≤ n && n ≤ 0x3B) || n == 0x3D || (0x40 ≤ n && n ≤ 0x5F)
    || (0x61 ≤ n && n ≤ 0x7E) || 0x80 ≤ n || c == '"'

def isQueryChar (c : Char) : Bool :=
  let n := c.toNat
  n == 0x21 || (0x24 ≤ n && n ≤ 0x3B) || n == 0x3D || (0x3F ≤ n && n ≤ 0x7E) || 0x80 ≤ n

def afterScheme? (s : List Char) : Option (List Char) :=
  let scheme := s.takeWhile isSchemeChar
  match s.drop scheme.length with
  | ':' :: '/' :: '/' :: rest => some rest
  | _ => none

structure Authority where
  colons : Nat
  opened : Bool
  closed : Bool
  percent : Bool
  endsWithAt : Bool
  isEmpty : Bool
  deriving Repr

namespace Authority

def start : Authority := ⟨0, false, false, false, false, true⟩

def mostColons : Nat := 8

/-- Colons and percent signs count for nothing before an at sign and inside brackets. -/
def feed? (a : Authority) (c : Char) : Option Authority :=
  let b := { a with endsWithAt := false, isEmpty := false }
  if c = ':' then
    if mostColons ≤ a.colons then none else some { b with colons := a.colons + 1 }
  else if c = '[' then
    if a.percent || a.opened then none else some { b with opened := true }
  else if c = ']' then
    if !a.opened || a.closed then none
    else some { b with closed := true, colons := 0, percent := false }
  else if c = '@' then some { b with colons := 0, percent := false, endsWithAt := true }
  else if c = '%' then some { b with percent := true }
  else if isAuthorityChar c then some b
  else none

def isGood (a : Authority) : Bool :=
  a.opened == a.closed && a.colons ≤ 1 && !a.endsWithAt && !a.percent

def endsAt (c : Char) : Bool := c == '/' || c == '?' || c == '#'

def take? (a : Authority) : List Char → Option (Authority × List Char)
  | [] => if a.isGood then some (a, []) else none
  | c :: s =>
    if endsAt c then if a.isGood then some (a, c :: s) else none
    else
      match a.feed? c with
      | some a => take? a s
      | none => none

end Authority

def pathAndQuery? (s : List Char) : Option (List Char × Option (List Char)) :=
  let s := s.takeWhile (· != '#')
  let path := s.takeWhile (· != '?')
  if !path.all isPathChar then none
  else
    match s.drop path.length with
    | [] => some (path, none)
    | _ :: query => if query.all isQueryChar then some (path, some query) else none

def rootIfEmpty (path : List Char) : List Char := if path.isEmpty then ['/'] else path

def uriOf (path : List Char) (query : Option (List Char)) : Uri :=
  ⟨String.ofList path, query.map String.ofList⟩

def absolute? (rest : List Char) : Option Uri :=
  match Authority.start.take? rest with
  | none => none
  | some (authority, rest) =>
    if authority.isEmpty then none
    else (pathAndQuery? rest).map fun (path, query) => uriOf (rootIfEmpty path) query

def authorityForm? (s : List Char) : Option Uri :=
  match Authority.start.take? s with
  | some (_, []) => some (uriOf [] none)
  | _ => none

def Uri.read? (text : String) : Option Uri :=
  if longestUri < Utf8.size text then none
  else
    match text.toList with
    | [] => none
    | ['*'] => some (uriOf ['*'] none)
    | '/' :: s =>
      (pathAndQuery? ('/' :: s)).map fun (path, query) => uriOf (rootIfEmpty path) query
    | s =>
      match afterScheme? s with
      | some rest =>
        if longestScheme < (s.takeWhile isSchemeChar).length then none else absolute? rest
      | none => authorityForm? s

end InferenceRecorder.Http
