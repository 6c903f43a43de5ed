/-!
# Sides of relationships

A relationship between two types is described twice, once from each side: as a field of one type that leads to the
other. The two sides share the name of the edge, and exactly one of them is the principal side, in whose partition the
edges lie.
-/

namespace PropertyGraph

/-- How many nodes may be at the other side. -/
inductive Cardinality where
  | one | many
  deriving DecidableEq, Repr

/-- A field of a type. -/
structure TypeField where
  typeName : String
  field : String
  deriving DecidableEq, Repr, Inhabited

/-- One side of a relationship. -/
structure EdgeSide where
  /-- The field that leads over the relationship, and its type. -/
  owner : TypeField
  /-- The type at the other side. -/
  target : String
  /-- The name that both sides share. -/
  edgeName : String
  required : Bool
  cardinality : Cardinality
  /-- Whether the edges lie in the partitions of this side. -/
  principal : Bool
  /-- The field at the other side that leads back. -/
  counterpart : TypeField
  deriving DecidableEq, Repr

namespace EdgeSide

/-- A principal side with any number of nodes at the other side, whose field back is not yet named. -/
def outgoing (typeName field target edgeName : String) : EdgeSide :=
  ⟨⟨typeName, field⟩, target, edgeName, false, .many, true, ⟨target, ""⟩⟩

/-- Whether two sides describe one relationship: they share its name, one of them is principal, and each leads back to
the other. -/
def mirrors (a b : EdgeSide) : Bool :=
  a.edgeName == b.edgeName && a.principal != b.principal && a.owner == b.counterpart && b.owner == a.counterpart

end EdgeSide

end PropertyGraph
