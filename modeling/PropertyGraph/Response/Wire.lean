import PropertyGraph.Json.Structure
import PropertyGraph.Json.Values
import PropertyGraph.Response

/-!
# Responses on the wire

Responses and what is in them are JSON objects, or arrays of their members in order. Only a member that may be null may
be missing, and from an object alone. Fields are read strictly: a null among them is refused, and they keep the order
of the text.
-/

namespace PropertyGraph

namespace UpsertResult

/-- The form of the answer to an upsert. -/
def shape : Json.Shape := ⟨["node", "unprocessed"], 2, []⟩

/-- The answer to an upsert. -/
def read? (j : Json) : Option UpsertResult := do
  let members ← shape.read? j
  let node ← Json.optional? Fields.read? members "node"
  let unprocessed ← Json.required? (Json.list? Fields.read?) members "unprocessed"
  return { node, unprocessed }

/-- The answer to an upsert as an object. -/
def write (r : UpsertResult) : Json :=
  .object [("node", Json.ofOption Fields.write r.node), ("unprocessed", .array (r.unprocessed.map Fields.write))]

end UpsertResult

namespace ConnectionPage

/-- The form of the answer to a plural traversal. -/
def shape : Json.Shape := ⟨["edges", "count", "cursor"], 3, []⟩

/-- The answer to a plural traversal. -/
def read? (j : Json) : Option ConnectionPage := do
  let members ← shape.read? j
  let edges ← Json.required? (Json.list? Fields.read?) members "edges"
  let count ← Json.required? Json.string? members "count"
  let cursor ← Json.optional? Json.string? members "cursor"
  return { edges, count, cursor }

/-- The answer to a plural traversal as an object. -/
def write (p : ConnectionPage) : Json :=
  .object [("edges", .array (p.edges.map Fields.write)), ("count", .string p.count),
    ("cursor", Json.ofOption Json.string p.cursor)]

end ConnectionPage

namespace DeleteCount

/-- The form of the answer to a deletion. -/
def shape : Json.Shape := ⟨["count"], 1, []⟩

/-- The answer to a deletion. -/
def read? (j : Json) : Option DeleteCount := do
  let members ← shape.read? j
  let count ← Json.required? (Json.nat? Json.largest) members "count"
  return { count }

/-- The answer to a deletion as an object. -/
def write (c : DeleteCount) : Json := .object [("count", .count c.count)]

end DeleteCount

namespace Response

variable {α : Type}

/-- The form of a response, from what is read of its data. -/
def shape (data : Json.Form) : Json.Shape := ⟨["data", "errors"], 2, [("data", data)]⟩

/-- A response with data of a given form. -/
def read? (data? : Json → Option α) (j : Json) : Option (Response α) := do
  let members ← (shape .whole).read? j
  let data ← Json.required? data? members "data"
  let errors ← Json.required? (Json.list? Json.string?) members "errors"
  return { data, errors }

/-- A response as an object. -/
def write (data : α → Json) (r : Response α) : Json :=
  .object [("data", data r.data), ("errors", .array (r.errors.map Json.string))]

end Response

end PropertyGraph
