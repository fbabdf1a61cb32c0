import InferenceRecorder.Json.Quoted

/-!
JSON values kept as they are written. A `Source` is the spelling of a value; `elements?` and
`members?` take an array or an object apart without touching the spelling of what is inside, and
`array` and `object` put sources together again with no blanks between them.
-/
namespace InferenceRecorder.Json

abbrev Source := List Char

def skipBlanks (s : List Char) : List Char := s.dropWhile isBlank

def isAllBlank (s : List Char) : Bool := s.all isBlank

theorem skipBlanks_le (s : List Char) : (skipBlanks s).length ≤ s.length :=
  (List.dropWhile_suffix _).length_le

structure Reader (α : Type) where
  read : List Char → Option (α × List Char)
  read_lt {s : List Char} {item : α} {rest : List Char} :
    read s = some (item, rest) → rest.length < s.length

def takeItems {α : Type} (reader : Reader α) (b : Bracket) (s : List Char) :
    Option (List α × List Char) :=
  match _h : reader.read s with
  | none => none
  | some (item, afterItem) =>
    match _h' : skipBlanks afterItem with
    | [] => none
    | c :: rest =>
      if c = ',' then
        match takeItems reader b rest with
        | none => none
        | some (items, rest) => some (item :: items, rest)
      else if c = b.closing then some ([item], rest)
      else none
termination_by s.length
decreasing_by
  have h1 := reader.read_lt _h
  have h2 := skipBlanks_le afterItem
  rw [_h'] at h2
  simp only [List.length_cons] at h2
  omega

def itemsInside? {α : Type} (reader : Reader α) (b : Bracket) : List Char → Option (List α)
  | [] => none
  | c :: s =>
    if c = b.closing then if isAllBlank s then some [] else none
    else
      match takeItems reader b (c :: s) with
      | some (items, rest) => if isAllBlank rest then some items else none
      | none => none

def items? {α : Type} (reader : Reader α) (b : Bracket) (s : List Char) : Option (List α) :=
  match skipBlanks s with
  | [] => none
  | c :: s => if c = b.opening then itemsInside? reader b (skipBlanks s) else none

def elementReader : Reader Source where
  read s := takeValue (skipBlanks s)
  read_lt {s _ _} h := Nat.lt_of_lt_of_le (takeValue_rest_lt h) (skipBlanks_le s)

def elements? (s : List Char) : Option (List Source) := items? elementReader .square s

abbrev Member := String × Source

def takeMember (s : List Char) : Option (Member × List Char) :=
  match skipBlanks s with
  | '"' :: s =>
    match takeString s with
    | none => none
    | some (key, rest) =>
      match skipBlanks rest with
      | ':' :: rest =>
        match takeValue (skipBlanks rest) with
        | some (value, rest) => some ((String.ofList key, value), rest)
        | none => none
      | _ => none
  | _ => none

theorem takeMember_rest_lt {s : List Char} {member : Member} {rest : List Char}
    (h : takeMember s = some (member, rest)) : rest.length < s.length := by
  unfold takeMember at h
  split at h <;> try simp at h
  rename_i s' hs
  split at h <;> try simp at h
  rename_i key rest' hk
  split at h <;> try simp at h
  rename_i rest'' hr
  split at h <;> simp at h
  rename_i value rest''' hv
  obtain ⟨-, rfl⟩ := h
  have h1 := takeValue_rest_lt hv
  have h2 := takeString_rest_lt hk
  have h3 := skipBlanks_le s
  have h4 := skipBlanks_le rest'
  have h5 := skipBlanks_le rest''
  rw [hs] at h3
  rw [hr] at h4
  simp only [List.length_cons] at h3 h4
  omega

def memberReader : Reader Member := ⟨takeMember, takeMember_rest_lt⟩

def members? (s : List Char) : Option (List Member) := items? memberReader .curly s

def value? (s : List Char) : Option Source :=
  match takeValue (skipBlanks s) with
  | some (value, rest) => if isAllBlank rest then some value else none
  | none => none

def commaSeparated : List (List Char) → List Char
  | [] => []
  | [item] => item
  | item :: items => item ++ ',' :: commaSeparated items

def array (elements : List Source) : Source := '[' :: (commaSeparated elements ++ [']'])

def member (m : Member) : List Char := quote m.1 ++ ':' :: m.2

def object (members : List Member) : Source :=
  '{' :: (commaSeparated (members.map member) ++ ['}'])

end InferenceRecorder.Json
