import InferenceRecorder.Table

/-!
What a configuration text holds, and the rules by which tables grow. A table may be opened by one
header, may have come up on the way to another header, may be made by dotted keys, or may stand
complete between brackets; each of them can be extended in its own way only, and no key is set
twice.
-/
namespace InferenceRecorder.Toml

inductive Origin where
  | header
  /-- On the way to the table of a header. -/
  | implied
  | dotted
  | inline
  deriving DecidableEq, Repr

inductive Value where
  | text (s : String)
  | integer (i : Int)
  | moment
  | other
  | array (elements : List Value)
  | table (origin : Origin) (members : List (String × Value))
  | tables (tables : List (List (String × Value)))

abbrev Members := Table String Value

def Origin.isOpen (origin : Origin) : Bool := origin == .implied || origin == .dotted

/-- Sets a dotted key. The table that gets the last part must itself be made by dotted keys, unless
it is the one at hand; `reached` is its origin, or none for the table at hand. -/
def setDotted (reached : Option Origin) (key : String) (value : Value) :
    List String → Members → Option Members
  | [], members =>
    if reached.getD .dotted ≠ .dotted || (members.lookup key).isSome then none
    else some (members.put key value)
  | part :: path, members =>
    match members.lookup part with
    | none =>
      (setDotted (some .dotted) key value path []).map fun inner =>
        members.put part (.table .dotted inner)
    | some (.table origin inner) =>
      if origin.isOpen then
        (setDotted (some origin) key value path inner).map fun inner =>
          members.put part (.table origin inner)
      else none
    | some (.tables tables) =>
      (setDotted (some .header) key value path (tables.getLast?.getD [])).map fun last =>
        members.put part (.tables (tables.dropLast ++ [last]))
    | some _ => none

def alongPath (change : Members → Option Members) : List String → Members → Option Members
  | [], members => change members
  | part :: path, members =>
    match members.lookup part with
    | none =>
      (alongPath change path []).map fun inner => members.put part (.table .implied inner)
    | some (.table origin inner) =>
      if origin = .inline then none
      else (alongPath change path inner).map fun inner => members.put part (.table origin inner)
    | some (.tables tables) =>
      (alongPath change path (tables.getLast?.getD [])).map fun last =>
        members.put part (.tables (tables.dropLast ++ [last]))
    | some _ => none

def membersAt? : List String → Members → Option Members
  | [], members => some members
  | part :: path, members =>
    match members.lookup part with
    | none => some []
    | some (.table origin inner) => if origin = .inline then none else membersAt? path inner
    | some (.tables tables) => membersAt? path (tables.getLast?.getD [])
    | some _ => none

inductive Section where
  | top
  | table (path : List String) (key : String)
  | element (path : List String) (key : String)
  deriving DecidableEq, Repr

structure Draft where
  root : Members
  part : Section
  members : Members

namespace Draft

def empty : Draft := ⟨[], .top, []⟩

def set (draft : Draft) (path : List String) (key : String) (value : Value) : Option Draft :=
  (setDotted none key value path draft.members).map fun members => { draft with members := members }

def addElement (key : String) (element members : Members) : Option Members :=
  match members.lookup key with
  | none => some (members.put key (.tables [element]))
  | some (.tables tables) => some (members.put key (.tables (tables ++ [element])))
  | some _ => none

def finish (draft : Draft) : Option Members :=
  match draft.part with
  | .top => some draft.members
  | .table path key =>
    alongPath (fun members => some (members.put key (.table .header draft.members))) path draft.root
  | .element path key => alongPath (addElement key draft.members) path draft.root

/-- Opens a table. A table that came up on the way to another one is taken over with its members;
no other table may be there. -/
def openTable (draft : Draft) (path : List String) (key : String) : Option Draft := do
  let root ← draft.finish
  let parent ← membersAt? path root
  match parent.lookup key with
  | none => some ⟨root, .table path key, []⟩
  | some (.table .implied members) => some ⟨root, .table path key, members⟩
  | some _ => none

def openElement (draft : Draft) (path : List String) (key : String) : Option Draft :=
  draft.finish.map fun root => ⟨root, .element path key, []⟩

end Draft
end InferenceRecorder.Toml
