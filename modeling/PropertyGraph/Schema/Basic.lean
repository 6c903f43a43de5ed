import PropertyGraph.Error
import PropertyGraph.Schema.Side

/-!
# Schemas

A schema is a list of sides of relationships. Two tables are built from it once: the sides of a type, in the order of
the list, and the side behind a field, which is the first one of that field. A schema is valid when every side is
mirrored by exactly one side.
-/

namespace PropertyGraph

/-- The tables by which sides are found. -/
structure SideTables where
  /-- The sides of each type, in the order of the list. -/
  byType : Assoc (List EdgeSide)
  /-- The side behind each field of a type. -/
  byField : List (TypeField × EdgeSide)

namespace SideTables

/-- The tables without sides. -/
def empty : SideTables := ⟨[], []⟩

/-- The tables with one more side; a field that is there already keeps its side. -/
def add (tables : SideTables) (side : EdgeSide) : SideTables where
  byType := tables.byType.insert side.owner.typeName ((tables.byType.lookup side.owner.typeName).getD [] ++ [side])
  byField :=
    if (tables.byField.lookup side.owner).isSome then tables.byField else tables.byField ++ [(side.owner, side)]

/-- The tables of a list of sides. -/
def ofSides (sides : List EdgeSide) : SideTables := sides.foldl add empty

end SideTables

/-- Sides of relationships, with the tables by which they are found. -/
structure Schema where
  sides : List EdgeSide
  tables : SideTables
  /-- The tables are those of the sides. -/
  tables_eq : tables = SideTables.ofSides sides

namespace Schema

/-- The schema of a list of sides. -/
def ofSides (sides : List EdgeSide) : Schema := ⟨sides, SideTables.ofSides sides, rfl⟩

/-- The schema without relationships. -/
def empty : Schema := ofSides []

/-- Whether a schema has no relationships. -/
def isEmpty (s : Schema) : Bool := s.sides.isEmpty

/-- The sides of a type, in the order of the schema. -/
def sidesOf (s : Schema) (typeName : String) : List EdgeSide := (s.tables.byType.lookup typeName).getD []

/-- The side behind a field of a type, where the field leads over a relationship. -/
def side? (s : Schema) (typeName field : String) : Option EdgeSide := s.tables.byField.lookup ⟨typeName, field⟩

/-- How many sides of a list mirror a side. -/
def mirrorCount (sides : List EdgeSide) (side : EdgeSide) : Nat := (sides.filter side.mirrors).length

/-- The fault of the first side that is not mirrored by exactly one side, where there is one. -/
def fault? (s : Schema) : Option GraphError :=
  (s.sides.find? fun side => mirrorCount s.sides side != 1).map fun side =>
    .input (.unpairedSide side.edgeName side.owner.typeName side.owner.field (mirrorCount s.sides side))

/-- Accepts a schema in which every side is mirrored by exactly one side. -/
def validate (s : Schema) : Except GraphError Unit :=
  match s.fault? with
  | some e => .error e
  | none => .ok ()

end Schema

end PropertyGraph
