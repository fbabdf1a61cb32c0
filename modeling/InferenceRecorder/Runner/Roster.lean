import InferenceRecorder.Runner.Basic
import InferenceRecorder.Table

/-!
Rosters: what is kept for each runner, whatever spelling of the model's name it is asked for by. A
normalizer brings the spellings of a name to one form, and may fail on some; backend and mode count
as they are. Beside each entry stands the spelling it was made under, in a table of its own.
-/
namespace InferenceRecorder

abbrev Normalizer := String → Option String

structure Roster (α : Type) where
  normalize : Normalizer
  entries : Table Runner α
  spellings : Table Runner String

structure Upserted (α : Type) where
  before : α
  after : α
  created : Bool
  deriving DecidableEq, Repr

namespace Roster

variable {α : Type}

def empty (normalize : Normalizer) : Roster α := ⟨normalize, [], []⟩

def key? (roster : Roster α) (runner : Runner) : Option Runner :=
  (roster.normalize runner.model).map fun model => { runner with model := model }

def set (roster : Roster α) (runner : Runner) (value : α) : Option (Roster α) :=
  (roster.key? runner).map fun key =>
    { roster with
      entries := roster.entries.put key value
      spellings := roster.spellings.put key runner.model }

/-- What is kept for the runner; the outer option is none where the normalizer fails, here and
below. -/
def get? (roster : Roster α) (runner : Runner) : Option (Option α) :=
  (roster.key? runner).map fun key => roster.entries.lookup key

def modify (roster : Roster α) (runner : Runner) (change : α → α) :
    Option (Option α × Roster α) :=
  (roster.key? runner).map fun key =>
    match roster.entries.lookup key with
    | some value =>
      (some (change value), { roster with entries := roster.entries.put key (change value) })
    | none => (none, roster)

/-- Changes what is kept, starting from `init` where nothing is. The spelling of a new entry is
noted before `init` is asked for, and stays noted if there is none. -/
def upsert (roster : Roster α) (runner : Runner) (init : Option α) (change : α → α) :
    Option (Upserted α) × Roster α :=
  match roster.key? runner with
  | none => (none, roster)
  | some key =>
    match roster.entries.lookup key with
    | some value =>
      (some ⟨value, change value, false⟩,
        { roster with entries := roster.entries.put key (change value) })
    | none =>
      let noted := { roster with spellings := roster.spellings.put key runner.model }
      match init with
      | none => (none, noted)
      | some value =>
        (some ⟨value, change value, true⟩,
          { noted with entries := roster.entries.put key (change value) })

def initialModel? (roster : Roster α) (runner : Runner) : Option (Option String) :=
  (roster.key? runner).map fun key => roster.spellings.lookup key

def delete (roster : Roster α) (runner : Runner) : Option (Option α × Roster α) :=
  (roster.key? runner).map fun key =>
    (roster.entries.lookup key,
      { roster with
        entries := roster.entries.erase key
        spellings := roster.spellings.erase key })

def size (roster : Roster α) : Nat := roster.entries.length

def isEmpty (roster : Roster α) : Bool := roster.entries.isEmpty

def items (roster : Roster α) : List (Runner × α) :=
  roster.entries.mergeSort fun a b => a.1.notAfter b.1

end Roster
end InferenceRecorder
