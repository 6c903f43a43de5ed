import PropertyGraph.Json.Reader
import PropertyGraph.Json.Structure
import PropertyGraph.Schema.Basic

/-!
# Schemas on the wire

A schema is written as a JSON array of its sides. The principal flag is a text, `TRUE` or `FALSE`; in reading, its
letters may have either case, and a JSON boolean is accepted as well.
-/

namespace PropertyGraph

/-- The cardinalities by their names. -/
def Cardinality.options : List (String × Cardinality) := [("ONE", .one), ("MANY", .many)]

/-- The name of a cardinality. -/
def Cardinality.name : Cardinality → String
  | .one => "ONE"
  | .many => "MANY"

/-- A letter of the English alphabet in lower case; any other character as it is. -/
def lowerAscii (c : Char) : Char := if 'A' ≤ c ∧ c ≤ 'Z' then Char.ofNat (c.toNat + 32) else c

/-- A principal flag. -/
def flag? : Json → Option Bool
  | .bool b => some b
  | .string s =>
    let lower := s.toList.map lowerAscii
    if lower = "true".toList then some true else if lower = "false".toList then some false else none
  | _ => none

/-- A principal flag as a text. -/
def flagText (principal : Bool) : Json := .string (if principal then "TRUE" else "FALSE")

namespace TypeField

/-- The form of a field of a type. -/
def shape : Json.Shape := ⟨["typeName", "field"], 2, []⟩

/-- A field of a type. -/
def read? (j : Json) : Option TypeField := do
  let members ← shape.read? j
  let typeName ← Json.required? Json.string? members "typeName"
  let field ← Json.required? Json.string? members "field"
  return ⟨typeName, field⟩

/-- A field of a type as an object. -/
def write (f : TypeField) : Json := .object [("typeName", .string f.typeName), ("field", .string f.field)]

end TypeField

namespace EdgeSide

/-- The form of a side. -/
def shape : Json.Shape :=
  ⟨["typeName", "field", "fieldType", "edgeName", "required", "cardinality", "principal", "counterpart"], 8,
    [("counterpart", TypeField.shape.form)]⟩

/-- A side of a relationship. -/
def read? (j : Json) : Option EdgeSide := do
  let members ← shape.read? j
  let typeName ← Json.required? Json.string? members "typeName"
  let field ← Json.required? Json.string? members "field"
  let target ← Json.required? Json.string? members "fieldType"
  let edgeName ← Json.required? Json.string? members "edgeName"
  let required ← Json.defaulted? false Json.bool? members "required"
  let cardinality ← Json.required? (Json.choice? Cardinality.options) members "cardinality"
  let principal ← Json.required? flag? members "principal"
  let counterpart ← Json.required? TypeField.read? members "counterpart"
  return ⟨⟨typeName, field⟩, target, edgeName, required, cardinality, principal, counterpart⟩

/-- A side as an object. -/
def write (side : EdgeSide) : Json :=
  .object [("typeName", .string side.owner.typeName), ("field", .string side.owner.field),
    ("fieldType", .string side.target), ("edgeName", .string side.edgeName), ("required", .bool side.required),
    ("cardinality", .string side.cardinality.name), ("principal", flagText side.principal),
    ("counterpart", side.counterpart.write)]

end EdgeSide

namespace Schema

/-- The schema of a JSON array of sides. -/
def read? (j : Json) : Option Schema := (Json.list? EdgeSide.read? j).map ofSides

/-- What is read of a schema. -/
def form : Json.Form := .items EdgeSide.shape.form

/-- The schema of a JSON text. -/
def parse (text : String) : Except GraphError Schema :=
  match (Json.parseAs? form text).bind read? with
  | some schema => .ok schema
  | none => .error .notJson

/-- A schema as an array of its sides. -/
def write (s : Schema) : Json := .array (s.sides.map EdgeSide.write)

end Schema

end PropertyGraph
