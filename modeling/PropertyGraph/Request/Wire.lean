import PropertyGraph.Json.Structure
import PropertyGraph.Request

/-!
# Requests on the wire

Requests are JSON objects, or arrays of their members in order, but for an upsert, which is an object always. Members
that may be absent may be null too, unless the reader below says otherwise. What is written reads back as the same
request.
-/

namespace PropertyGraph

namespace Target

/-- The form of a target. -/
def shape : Json.Shape := ⟨["id", "ids"], 0, []⟩

/-- A target; the list of ids must not be null. -/
def read? (j : Json) : Option Target := do
  let members ← shape.read? j
  let id ← Json.optional? Json.string? members "id"
  let ids ← Json.defaulted? [] (Json.list? Json.string?) members "ids"
  return { id, ids }

/-- A target as an object, without what it does not name. -/
def write (t : Target) : Json :=
  .object ((t.id.toList.map fun id => ("id", .string id)) ++
    (if t.ids.isEmpty then [] else [("ids", .array (t.ids.map Json.string))]))

end Target

namespace CreateRequest

/-- The form of a create. -/
def shape : Json.Shape := ⟨["data", "connections"], 0, []⟩

/-- The members of a create. -/
def ofMembers? (members : List (String × Json)) : Option CreateRequest := do
  let data ← Json.optional? some members "data"
  let connections ← Json.optional? some members "connections"
  return { data, connections }

/-- A create. -/
def read? (j : Json) : Option CreateRequest := (shape.read? j).bind ofMembers?

/-- The members of a create; connections only where they are there. -/
def toMembers (r : CreateRequest) : List (String × Json) :=
  ("data", r.data.getD .null) :: r.connections.toList.map fun connections => ("connections", connections)

/-- A create as an object. -/
def write (r : CreateRequest) : Json := .object r.toMembers

end CreateRequest

namespace UpsertRequest

/-- The form of an upsert: the members of a create stand beside the target. -/
def shape : Json.Shape := ⟨"where" :: CreateRequest.shape.names, 0, [("where", Target.shape.form)]⟩

/-- What is read of an upsert: the members that it does not name are read too, though they say nothing. -/
def form : Json.Form := shape.formWith .whole

/-- An upsert. -/
def read? (j : Json) : Option UpsertRequest := do
  let members ← shape.readObject? j
  let target ← Json.optional? Target.read? members "where"
  let create ← CreateRequest.ofMembers? members
  return { target, create }

/-- An upsert as an object. -/
def write (r : UpsertRequest) : Json := .object (("where", Json.ofOption Target.write r.target) :: r.create.toMembers)

end UpsertRequest

namespace ConnectionArguments

/-- The form of what narrows a traversal. -/
def shape : Json.Shape := ⟨["where", "limit", "cursor", "filter"], 0, [("where", Target.shape.form)]⟩

/-- What narrows a traversal. -/
def read? (j : Json) : Option ConnectionArguments := do
  let members ← shape.read? j
  let target ← Json.optional? Target.read? members "where"
  let limit ← Json.optional? (Json.nat? Json.largest) members "limit"
  let cursor ← Json.optional? Json.string? members "cursor"
  let filter ← Json.optional? some members "filter"
  return { target, limit, cursor, filter }

/-- What narrows a traversal, as an object. -/
def write (a : ConnectionArguments) : Json :=
  .object [("where", Json.ofOption Target.write a.target), ("limit", Json.ofOption Json.count a.limit),
    ("cursor", Json.ofOption Json.string a.cursor), ("filter", a.filter.getD .null)]

end ConnectionArguments

namespace ConnectionRequest

/-- The form of a traversal. -/
def shape : Json.Shape :=
  ⟨["typeName", "field", "source", "arguments"], 2, [("arguments", ConnectionArguments.shape.form)]⟩

/-- A traversal; its arguments must not be null. -/
def read? (j : Json) : Option ConnectionRequest := do
  let members ← shape.read? j
  let typeName ← Json.required? Json.string? members "typeName"
  let field ← Json.required? Json.string? members "field"
  let source ← Json.optional? some members "source"
  let arguments ← Json.defaulted? {} ConnectionArguments.read? members "arguments"
  return { typeName, field, source, arguments }

/-- A traversal as an object. -/
def write (r : ConnectionRequest) : Json :=
  .object [("typeName", .string r.typeName), ("field", .string r.field), ("source", r.source.getD .null),
    ("arguments", r.arguments.write)]

end ConnectionRequest

namespace Marking

/-- The form of what a deletion writes. -/
def shape : Json.Shape := ⟨["timeToLive"], 0, []⟩

/-- What a deletion writes. -/
def read? (j : Json) : Option Marking := do
  let members ← shape.read? j
  let timeToLive ← Json.optional? Json.int? members "timeToLive"
  return { timeToLive }

/-- What a deletion writes, as an object. -/
def write (m : Marking) : Json := .object [("timeToLive", Json.ofOption Json.int m.timeToLive)]

end Marking

namespace DeleteRequest

/-- The form of a deletion. -/
def shape : Json.Shape := ⟨["where", "set"], 0, [("where", Target.shape.form), ("set", Marking.shape.form)]⟩

/-- A deletion; its target must not be null. -/
def read? (j : Json) : Option DeleteRequest := do
  let members ← shape.read? j
  let target ← Json.defaulted? {} Target.read? members "where"
  let marking ← Json.optional? Marking.read? members "set"
  return { target, marking }

/-- A deletion as an object. -/
def write (r : DeleteRequest) : Json :=
  .object [("where", r.target.write), ("set", Json.ofOption Marking.write r.marking)]

end DeleteRequest

end PropertyGraph
