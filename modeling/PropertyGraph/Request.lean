import PropertyGraph.Json.Basic

/-!
# Requests

What callers ask of the engine: to create nodes from a payload, to create or overwrite them, to follow the edges of a
node along one of its fields, and to delete. Members that a caller leaves out are absent here; what stands in for them
is the engine's matter.
-/

namespace PropertyGraph

/-- The nodes that a request is about: one, or several. -/
structure Target where
  id : Option String := none
  ids : List String := []
  deriving DecidableEq, Repr

/-- Asks to create nodes from a payload. -/
structure CreateRequest where
  /-- An object, or an array of objects. -/
  data : Option Json := none
  /-- Links to nodes that exist, which are not supported. -/
  connections : Option Json := none

/-- Asks to create nodes, or to overwrite those that exist. -/
structure UpsertRequest where
  /-- Its id becomes that of the first node. -/
  target : Option Target := none
  create : CreateRequest := {}

/-- What narrows a traversal. -/
structure ConnectionArguments where
  /-- Its id is that of the root, where the source has none. -/
  target : Option Target := none
  /-- How many nodes; without it, or with zero, as many as the settings say. -/
  limit : Option Nat := none
  /-- Where an earlier page ended. -/
  cursor : Option String := none
  filter : Option Json := none

/-- Asks for the neighbors of a node under an edge field. -/
structure ConnectionRequest where
  typeName : String
  field : String
  /-- The node as far as it is known to the caller. -/
  source : Option Json := none
  arguments : ConnectionArguments := {}

/-- The time to live that a deletion writes. -/
structure Marking where
  timeToLive : Option Int64 := none
  deriving DecidableEq, Repr

/-- Asks to delete one node or several. -/
structure DeleteRequest where
  target : Target := {}
  marking : Option Marking := none
  deriving DecidableEq, Repr

/-- The nodes of one id. -/
def Target.ofId (id : String) : Target := { id := some id }

/-- The id that a target names, where it is not empty. -/
def Target.namedId? (t : Target) : Option String := t.id.filter (· ≠ "")

namespace ConnectionRequest

/-- The same request from a source of an id. -/
def fromSource (r : ConnectionRequest) (id : String) : ConnectionRequest :=
  { r with source := some (.object [("id", .string id)]) }

/-- The same request with other arguments. -/
def withArguments (r : ConnectionRequest) (arguments : ConnectionArguments) : ConnectionRequest := { r with arguments }

/-- The id of the node from which edges are followed: that of the source, where it is a text that is not empty, else
that of the target. -/
def rootId? (r : ConnectionRequest) : Option String :=
  let ofSource := ((r.source.bind (·.get? "id")).bind Json.string?).filter (· ≠ "")
  ofSource.or (r.arguments.target.bind Target.namedId?)

end ConnectionRequest

/-- The time to live that the caller supplies. -/
def DeleteRequest.timeToLive? (r : DeleteRequest) : Option Int64 := r.marking.bind Marking.timeToLive

end PropertyGraph
