import PropertyGraph.Assoc
import PropertyGraph.Toml.Basic

/-!
# Building the tables of a TOML document

A table comes into being by its header, by the path of another header that leads through it, or by the dots in a name.
How it came to be decides who may still write into it: a header may follow a path that led through a table, once;
dotted names write only into tables that dots made. A value that has been written is closed. A list of tables grows by
its headers, and a path that leads through it goes to its last table.
-/

namespace PropertyGraph
namespace Toml

/-- How a table came to be. -/
inductive Making where
  /-- By a header of its own, or as the document. -/
  | headed
  /-- By a header that leads through it. -/
  | passed
  /-- By the dots in a name. -/
  | dotted
  deriving DecidableEq, Repr

/-- What stands under a name while a document is read. -/
inductive Slot where
  | closed (value : Toml)
  | table (making : Making) (slots : List (String × Slot))
  /-- A list of tables, the last first. -/
  | tables (reversed : List (List (String × Slot)))

/-- A table while a document is read. -/
abbrev Slots := List (String × Slot)

namespace Slots

/-- Changes the table that a path leads to. Where there is none, one of the given making is put there; by dots no path
leads through a table with a header of its own, and none through a closed value. -/
def within? (making : Making) (change : Making → Slots → Option Slots) : List String → Making → Slots → Option Slots
  | [], own, slots => change own slots
  | name :: path, _, slots =>
    match slots.lookup name with
    | none => (within? making change path making []).map fun below => Assoc.insert name (.table making below) slots
    | some (.table own below) =>
      if making = .dotted ∧ own = .headed then none
      else (within? making change path own below).map fun below => Assoc.insert name (.table own below) slots
    | some (.tables (last :: earlier)) =>
      (within? making change path .headed last).map fun last => Assoc.insert name (.tables (last :: earlier)) slots
    | some _ => none

/-- Writes a value under a name that a path of dots leads to. The name must be new, and the table must be of that
path's making. -/
def write? (path : List String) (name : String) (value : Toml) (own : Making) (slots : Slots) : Option Slots :=
  within? .dotted
    (fun own slots =>
      if (own = .dotted ↔ path = []) ∨ (slots.lookup name).isSome then none
      else some (Assoc.insert name (.closed value) slots))
    path own slots

/-- Gives a table its header. -/
def head? (path : List String) (name : String) (slots : Slots) : Option Slots :=
  within? .passed
    (fun _ slots =>
      match slots.lookup name with
      | none => some (Assoc.insert name (.table .headed []) slots)
      | some (.table .passed below) => some (Assoc.insert name (.table .headed below) slots)
      | some _ => none)
    path .headed slots

/-- Adds a table to a list of tables, which its first header begins. -/
def add? (path : List String) (name : String) (slots : Slots) : Option Slots :=
  within? .passed
    (fun _ slots =>
      match slots.lookup name with
      | none => some (Assoc.insert name (.tables [[]]) slots)
      | some (.tables tables) => some (Assoc.insert name (.tables ([] :: tables)) slots)
      | some _ => none)
    path .headed slots

end Slots

mutual

/-- The value that a slot holds in the end. -/
def Slot.toToml : Slot → Toml
  | .closed value => value
  | .table _ slots => .table (slotsToToml slots)
  | .tables reversed => .array (tablesToToml reversed [])

/-- The entries of a table in the end. -/
def slotsToToml : List (String × Slot) → List (String × Toml)
  | [] => []
  | (name, slot) :: rest => (name, slot.toToml) :: slotsToToml rest

/-- The tables of a list in the end, in front of others. -/
def tablesToToml : List (List (String × Slot)) → List Toml → List Toml
  | [], after => after
  | slots :: rest, after => tablesToToml rest (.table (slotsToToml slots) :: after)

end

end Toml
end PropertyGraph
