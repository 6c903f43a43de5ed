import PropertyGraph.Clock
import PropertyGraph.Row.Key

/-!
# Nodes and edges

A record is a node or an edge. A node has an id, the name of its type and its fields. An edge lies in the partition of
its principal end and names the other end, its neighbor; one edge serves the traversals from both of its ends. Both
carry a stamp (who wrote them, and when) and, once deleted, a time to live: from then on they are not seen any more.
-/

namespace PropertyGraph

/-- Who wrote a record, and when. -/
structure Stamp where
  createdAt : String
  updatedAt : String
  createdBy : String
  deriving DecidableEq, Repr, Inhabited

/-- The stamp of a record written at one time. -/
def Stamp.ofInstant (instant : Instant) (createdBy : String) : Stamp :=
  ⟨instant.timestamp, instant.timestamp, createdBy⟩

/-- An entity. -/
structure Node where
  id : String
  typeName : String
  stamp : Stamp
  ttl : Option Int64
  fields : Fields
  deriving Inhabited

/-- A connection of two entities. -/
structure Edge where
  /-- The principal end, in whose partition the edge lies. -/
  id : String
  /-- The name that both sides of the relationship share. -/
  name : String
  /-- The other end. -/
  neighbor : String
  namedType : String
  stamp : Stamp
  ttl : Option Int64
  deriving DecidableEq, Repr, Inhabited

/-- A row of the table, by what it stands for. -/
inductive Record where
  | node (n : Node)
  | edge (e : Edge)
  deriving Inhabited

/-- Whether a time to live is over at a time. -/
def isOver (ttl : Option Int64) (now : Int64) : Bool :=
  match ttl with
  | some t => t ≤ now
  | none => false

/-- The place of an edge in its partition: its name, two colons, its neighbor. -/
def Edge.sortKey (e : Edge) : String := e.name ++ sortSeparator ++ e.neighbor

namespace Record

/-- The partition of a record. -/
def id : Record → String
  | .node n => n.id
  | .edge e => e.id

/-- The key of the row of a record. -/
def key : Record → Key
  | .node n => Key.node n.id
  | .edge e => ⟨e.id, e.sortKey⟩

/-- The time to live of a record. -/
def ttl : Record → Option Int64
  | .node n => n.ttl
  | .edge e => e.ttl

/-- Whether a record is not seen any more at a time. -/
def isExpired (r : Record) (now : Int64) : Bool := isOver r.ttl now

/-- Whether two records are the same up to the order of named values. -/
def same : Record → Record → Bool
  | .node m, .node n =>
    m.id == n.id && m.typeName == n.typeName && m.stamp == n.stamp && m.ttl == n.ttl &&
      Value.same (.node m.fields) (.node n.fields)
  | .edge e, .edge f => e == f
  | _, _ => false

/-- The node, where the record is one. -/
def node? : Record → Option Node
  | .node n => some n
  | .edge _ => none

/-- The edge, where the record is one. -/
def edge? : Record → Option Edge
  | .edge e => some e
  | .node _ => none

end Record

end PropertyGraph
