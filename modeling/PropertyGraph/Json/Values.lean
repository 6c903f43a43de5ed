import PropertyGraph.Json.Basic
import PropertyGraph.Value

/-!
# Field values and JSON

There are two ways from JSON to field values. `Value.ofJson` is lenient: it drops nulls wherever they stand, and an
integer above the signed range becomes a floating point number. `Value.read?` is strict: a null anywhere is refused,
and named values keep the order of the text. Of the two ways back, `Value.toJson` writes named values in the order of
their names, and `Value.write` in their own.
-/

namespace PropertyGraph
namespace Value

/-- A number as a field value. -/
def ofNumber : Json.Number → Value
  | .int n => .int n
  | .large n _ => .float (Float.ofNat n.toNat)
  | .real x _ => .float x

mutual

/-- A JSON value as a field value without nulls; nothing for null itself. -/
def ofJson : Json → Option Value
  | .null => none
  | .bool b => some (.bool b)
  | .number n => some (ofNumber n)
  | .string s => some (.string s)
  | .array items => some (.list (ofItems items))
  | .object members => some (.node ((sortedBy Prod.fst (ofMembers members)).filterMap fun m => m.2.map (m.1, ·)))

/-- The items of an array that are not null. -/
def ofItems : List Json → List Value
  | [] => []
  | j :: rest =>
    match ofJson j with
    | some v => v :: ofItems rest
    | none => ofItems rest

/-- The contents of members, with nothing for null. -/
def ofMembers : List (String × Json) → List (String × Option Value)
  | [] => []
  | (name, j) :: rest => (name, ofJson j) :: ofMembers rest

end

mutual

/-- A JSON value as a field value, where no null is in it. Of a repeated name the first place and the last content
stay. -/
def read? : Json → Option Value
  | .null => none
  | .bool b => some (.bool b)
  | .number n => some (ofNumber n)
  | .string s => some (.string s)
  | .array items => (readItems? items).map .list
  | .object members => (readMembers? members).map fun fields => .node (Assoc.ofList fields)

/-- The items of an array as field values. -/
def readItems? : List Json → Option (List Value)
  | [] => some []
  | j :: rest =>
    match read? j, readItems? rest with
    | some v, some vs => some (v :: vs)
    | _, _ => none

/-- The members of an object as fields, in the order of the text. -/
def readMembers? : List (String × Json) → Option (List (String × Value))
  | [] => some []
  | (name, j) :: rest =>
    match read? j, readMembers? rest with
    | some v, some fields => some ((name, v) :: fields)
    | _, _ => none

end

mutual

/-- A field value as JSON, named values in the order of their names. -/
def toJson : Value → Json
  | .bool b => .bool b
  | .int n => .int n
  | .float x => .ofFloat x
  | .string s => .string s
  | .list items => .array (toItems items)
  | .node fields => .object (sortedBy Prod.fst (toMembers fields))

/-- The values of a list as JSON. -/
def toItems : List Value → List Json
  | [] => []
  | v :: rest => toJson v :: toItems rest

/-- Named values as members, in their own order. -/
def toMembers : List (String × Value) → List (String × Json)
  | [] => []
  | (name, v) :: rest => (name, toJson v) :: toMembers rest

end

mutual

/-- A field value as JSON, named values in their own order. -/
def write : Value → Json
  | .bool b => .bool b
  | .int n => .int n
  | .float x => .ofFloat x
  | .string s => .string s
  | .list items => .array (writeItems items)
  | .node fields => .object (writeFields fields)

/-- The values of a list as JSON. -/
def writeItems : List Value → List Json
  | [] => []
  | v :: rest => write v :: writeItems rest

/-- Named values as members. -/
def writeFields : List (String × Value) → List (String × Json)
  | [] => []
  | (name, v) :: rest => (name, write v) :: writeFields rest

end

end Value

/-- Fields as a JSON object, in their own order. -/
def Fields.write (fields : Fields) : Json := .object (Value.writeFields fields)

/-- The fields of a JSON object without a null in it. -/
def Fields.read? (j : Json) : Option Fields := (Value.read? j).bind Value.node?

/-- The fields of the members of an object; null members are left out. -/
def Fields.ofMembers (members : Dict Json) : Fields :=
  members.entries.filterMap fun member => (Value.ofJson member.2).map (member.1, ·)

end PropertyGraph
