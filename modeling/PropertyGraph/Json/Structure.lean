import PropertyGraph.Json.Basic
import PropertyGraph.Json.Form

/-!
# Structures on the wire

A structure is read from a JSON object, by the names of its members, or from an array, by their places. Other members
of an object are ignored; a member of the structure that comes twice is refused. Of the array form only a tail of
members may be missing, and nothing may be left over. Whether a member may be absent or null is a matter of the member.
-/

namespace PropertyGraph
namespace Json

/-- The members of a structure, how many of them the array form must have, and which of them are not read as a whole. -/
structure Shape where
  names : List String
  least : Nat
  inner : List (String × Form)

/-- What is read of a structure, with the same for all members that it does not name. -/
def Shape.formWith (others : Form) (shape : Shape) : Form :=
  .members (shape.names.map fun name => (name, (shape.inner.lookup name).getD .whole)) others

/-- What is read of a structure that ignores the members that it does not name. -/
def Shape.form (shape : Shape) : Form := shape.formWith .ignored

/-- Whether no name comes twice. -/
def distinct : List String → Bool
  | [] => true
  | name :: rest => !rest.contains name && distinct rest

/-- The members that a structure has, each at most once; nothing where the value is not of its form. -/
def Shape.read? (shape : Shape) : Json → Option (List (String × Json))
  | .object members =>
    let known := members.filter fun member => shape.names.contains member.1
    if distinct (known.map Prod.fst) then some known else none
  | .array items =>
    if shape.least ≤ items.length ∧ items.length ≤ shape.names.length then some (shape.names.zip items) else none
  | _ => none

/-- The members that a structure has, where it is read from objects alone. -/
def Shape.readObject? (shape : Shape) : Json → Option (List (String × Json))
  | .object members => shape.read? (.object members)
  | _ => none

/-- A member that must be there. -/
def required? {α : Type} (read : Json → Option α) (members : List (String × Json)) (name : String) : Option α :=
  (members.lookup name).bind read

/-- A member with a default; it may be absent, but not null unless its reader takes null. -/
def defaulted? {α : Type} (default : α) (read : Json → Option α) (members : List (String × Json)) (name : String) :
    Option α :=
  match members.lookup name with
  | some j => read j
  | none => some default

/-- A value that may be null. -/
def nullable? {α : Type} (read : Json → Option α) (j : Json) : Option (Option α) :=
  match j with
  | .null => some none
  | j => (read j).map some

/-- A member that may be absent or null. -/
def optional? {α : Type} (read : Json → Option α) (members : List (String × Json)) (name : String) :
    Option (Option α) :=
  defaulted? none (nullable? read) members name

/-- The items of an array, each read in turn. -/
def list? {α : Type} (read : Json → Option α) : Json → Option (List α)
  | .array items => items.mapM read
  | _ => none

/-- A choice among names: the name itself, or an object whose one member has that name and holds null. -/
def choice? {α : Type} (options : List (String × α)) : Json → Option α
  | .string s => options.lookup s
  | .object [(name, .null)] => options.lookup name
  | _ => none

/-- A value that may be null, on the wire. -/
def ofOption {α : Type} (write : α → Json) : Option α → Json
  | some a => write a
  | none => .null

end Json
end PropertyGraph
