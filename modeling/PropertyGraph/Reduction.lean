import PropertyGraph.Row.Codec
import PropertyGraph.Schema.Basic

/-!
# A node as a caller sees it

From a flat list of records a node is put together: its id, its stamp and its fields, and under each edge field of its
type the ids at the other ends of its edges. Expired records count as absent.
-/

namespace PropertyGraph

/-- A neighbor under an edge field. -/
structure EdgeItem where
  id : String
  /-- The node that has the field. -/
  parentId : String
  edgeName : String
  deriving DecidableEq, Repr

/-- A neighbor as a value. -/
def EdgeItem.toValue (item : EdgeItem) : Value :=
  .node [("id", .string item.id), ("parentId", .string item.parentId), ("edgeName", .string item.edgeName)]

/-- The end of an edge at which a side stands. -/
def EdgeSide.near (side : EdgeSide) (e : Edge) : String := if side.principal then e.id else e.neighbor

/-- The end of an edge to which a side leads. -/
def EdgeSide.far (side : EdgeSide) (e : Edge) : String := if side.principal then e.neighbor else e.id

/-- The records that have not expired. -/
def liveRecords (now : Int64) (records : List Record) : List Record := records.filter fun r => !r.isExpired now

/-- The live node of an id. -/
def findRoot (now : Int64) (root : String) (records : List Record) : Option Node :=
  ((liveRecords now records).filterMap Record.node?).find? fun n => n.id == root

/-- The neighbors of a node along a side of its type. -/
def edgeItems (now : Int64) (root : String) (side : EdgeSide) (records : List Record) : List EdgeItem :=
  (((liveRecords now records).filterMap Record.edge?).filter
    fun e => e.name == side.edgeName && side.near e == root).map
    fun e => ⟨side.far e, root, side.edgeName⟩

/-- What stands under an edge field. -/
def edgeContent (now : Int64) (root : String) (side : EdgeSide) (records : List Record) : Value :=
  .node [("items", .list ((edgeItems now root side records).map EdgeItem.toValue))]

/-- The live node of an id with its neighbors under the edge fields of its type. -/
def reduce (schema : Schema) (now : Int64) (root : String) (records : List Record) : Option Fields :=
  (findRoot now root records).map fun node =>
    (schema.sidesOf node.typeName).foldl
      (fun out side => Assoc.insert side.owner.field (edgeContent now root side records) out) node.toOutput

end PropertyGraph
