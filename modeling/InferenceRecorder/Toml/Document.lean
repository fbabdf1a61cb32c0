import InferenceRecorder.Toml.Number
import InferenceRecorder.Toml.Value

/-!
Configuration texts: lines of keys and values, under headers that open tables. `read?` gives the
members of the whole text, or nothing if any part of it breaks a rule.
-/
namespace InferenceRecorder.Toml

open Text (Reading)

def skipSpace : (lines : Nat) → List Char → List Char
  | 0, s => s
  | lines + 1, s =>
    match takeNewline (skipComment (skipBlanks s)) with
    | some rest => skipSpace lines rest
    | none => skipBlanks s

def takeElements (takeValue : List Char → Reading Value) : (count : Nat) → List Char →
    Reading (List Value)
  | 0, _ => none
  | count + 1, s =>
    match skipSpace s.length s with
    | ']' :: rest => some ([], rest)
    | s =>
      match takeValue s with
      | none => none
      | some (v, rest) =>
        match skipSpace rest.length rest with
        | ',' :: rest =>
          (takeElements takeValue count rest).map fun (more, rest) => (v :: more, rest)
        | ']' :: rest => some ([v], rest)
        | _ => none

def takeBinding (takeValue : List Char → Reading Value) (s : List Char) :
    Reading (List String × String × Value) :=
  match takeKey (nestingBound - 1) s with
  | some (parts, '=' :: rest) =>
    match parts.getLast?, takeValue (skipBlanks rest) with
    | some key, some (v, rest) => some ((parts.dropLast, key, v), rest)
    | _, _ => none
  | _ => none

def takeMembers (takeValue : List Char → Reading Value) : (count : Nat) → Members → List Char →
    Reading Members
  | 0, _, _ => none
  | count + 1, members, s =>
    match takeBinding takeValue s with
    | none => none
    | some ((path, key, v), rest) =>
      match setDotted none key v path members with
      | none => none
      | some members =>
        match skipBlanks rest with
        | ',' :: rest => takeMembers takeValue count members rest
        | '}' :: rest => some (members, rest)
        | _ => none

def takeValue : (depth : Nat) → List Char → Reading Value
  | depth, s =>
    match s with
    | [] => none
    | c :: rest =>
      if c = '"' ∨ c = '\'' then
        (takeText s).map fun (text, rest) => (.text (String.ofList text), rest)
      else if c = '[' then
        match depth with
        | 0 => none
        | depth + 1 =>
          (takeElements (takeValue depth) s.length rest).map fun (elements, rest) =>
            (.array elements, rest)
      else if c = '{' then
        match depth with
        | 0 => none
        | depth + 1 =>
          match skipBlanks rest with
          | '}' :: rest => some (.table .inline [], rest)
          | rest =>
            (takeMembers (takeValue depth) s.length [] rest).map fun (members, rest) =>
              (.table .inline members, rest)
      else if c = 't' then
        match rest with
        | 'r' :: 'u' :: 'e' :: rest => some (.other, rest)
        | _ => none
      else if c = 'f' then
        match rest with
        | 'a' :: 'l' :: 's' :: 'e' :: rest => some (.other, rest)
        | _ => none
      else
        match takeMoment s with
        | some rest => some (.moment, rest)
        | none =>
          match takeFloat s with
          | some rest => some (.other, rest)
          | none => (takeInteger s).map fun (i, rest) => (.integer i, rest)

def takeHeader (closing : List Char) (s : List Char) : Reading (List String × String) :=
  match takeKey (nestingBound - 1) s with
  | none => none
  | some (parts, rest) =>
    match parts.getLast? with
    | none => none
    | some key =>
      if closing.isPrefixOf rest then
        (takeLineEnd (rest.drop closing.length)).map fun rest => ((parts.dropLast, key), rest)
      else none

def takeLine (draft : Draft) (s : List Char) : Reading Draft :=
  match skipBlanks s with
  | '[' :: '[' :: s =>
    match takeHeader [']', ']'] s with
    | none => none
    | some ((path, key), rest) => (draft.openElement path key).map fun draft => (draft, rest)
  | '[' :: s =>
    match takeHeader [']'] s with
    | none => none
    | some ((path, key), rest) => (draft.openTable path key).map fun draft => (draft, rest)
  | s =>
    match takeLineEnd s with
    | some rest => some (draft, rest)
    | none =>
      match takeBinding (takeValue (nestingBound - 1)) s with
      | none => none
      | some ((path, key, v), rest) =>
        match takeLineEnd rest, draft.set path key v with
        | some rest, some draft => some (draft, rest)
        | _, _ => none

def takeLines : (count : Nat) → Draft → List Char → Option Draft
  | _, draft, [] => some draft
  | 0, _, _ => none
  | count + 1, draft, s =>
    match takeLine draft s with
    | some (draft, rest) => takeLines count draft rest
    | none => none

def orderMark : Char := Char.ofNat 0xFEFF

def skipOrderMark : List Char → List Char
  | c :: s => if c = orderMark then s else c :: s
  | [] => []

def read? (text : String) : Option Members :=
  let s := skipOrderMark text.toList
  (takeLines s.length Draft.empty s).bind Draft.finish

end InferenceRecorder.Toml
