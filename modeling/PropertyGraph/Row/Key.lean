import PropertyGraph.Value

/-!
# Attributes and keys of rows

Nodes and edges are rows of one table. A row is a group of attributes; its partition is the attribute `id`, and its
place in the partition is the data type. The row of a node has the data type `Node`; the row of an edge has the name of
the edge, two colons and the id at the far end. The attributes that the library adds are reserved: a caller may not use
their names for fields.
-/

namespace PropertyGraph

namespace Attribute

/-- The partition of a row. -/
def id : String := "id"

/-- The place of a row in its partition. -/
def dataType : String := "linnet:dataType"

/-- The far end of an edge; the partition of its row in the edge index. -/
def edge : String := "linnet:edge"

/-- The name of the type of a row. -/
def namedType : String := "linnet:namedType"

/-- When a row expires, in seconds since 1970. -/
def ttl : String := "linnet:ttl"

/-- When a row was created. -/
def createdAt : String := "createdAt"

/-- When a row was last written. -/
def updatedAt : String := "updatedAt"

/-- Who created a row. -/
def createdBy : String := "createdBy"

/-- What the names of the library's own attributes begin with. -/
def reservedBeginning : String := "linnet:"

/-- Whether a name may not be used for a field. -/
def isReserved (name : String) : Bool :=
  name == id || reservedBeginning.toList.isPrefixOf name.toList || [createdAt, updatedAt, createdBy].contains name

end Attribute

/-- The data type of the row of a node. -/
def nodeMarker : String := "Node"

/-- What stands between the name of an edge and the id at its far end. -/
def sortSeparator : String := "::"

/-- The key of a row: its partition, and its place in the partition. -/
structure Key where
  id : String
  dataType : String
  deriving DecidableEq, Repr, Inhabited

namespace Key

/-- The key of the row of a node. -/
def node (id : String) : Key := ⟨id, nodeMarker⟩

/-- The place of a key in the order of the table: by partition, then by data type. -/
def position (k : Key) : List String := [k.id, k.dataType]

/-- A key in a message. -/
def display (k : Key) : String := k.id ++ " / " ++ k.dataType

theorem position_injective {j k : Key} (h : j.position = k.position) : j = k := by
  cases j
  cases k
  simp only [position, List.cons.injEq, and_true] at h
  obtain ⟨rfl, rfl⟩ := h
  rfl

end Key

/-- The key that a group of attributes carries, where both of its parts are there and are texts. -/
def Fields.key? (attributes : Fields) : Option Key :=
  match attributes.string? Attribute.id, attributes.string? Attribute.dataType with
  | some id, some dataType => some ⟨id, dataType⟩
  | _, _ => none

end PropertyGraph
