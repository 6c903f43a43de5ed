import PropertyGraph.Error
import PropertyGraph.Row.Record

/-!
# Records as attributes, and back

A record is stored as attributes. `Record.toAttributes` writes them in a fixed order, `Record.ofAttributes` takes them
apart again: every attribute that the library adds is taken out by its name, and what is left of a node's row are its
fields. A row that lacks an attribute, has one of the wrong sort, or whose data type does not end with its neighbor, is
refused with the first such fault.
-/

namespace PropertyGraph

/-- The attributes with those of a stamp. -/
def Stamp.write (s : Stamp) (attributes : Fields) : Fields :=
  ((attributes.insert Attribute.createdAt (.string s.createdAt)).insert
    Attribute.updatedAt (.string s.updatedAt)).insert Attribute.createdBy (.string s.createdBy)

/-- The stamp among attributes; a part that is not there or not a text is empty. -/
def Stamp.read (attributes : Fields) : Stamp :=
  ⟨(attributes.string? Attribute.createdAt).getD "", (attributes.string? Attribute.updatedAt).getD "",
    (attributes.string? Attribute.createdBy).getD ""⟩

/-- The attributes with a time to live, where there is one. -/
def writeTtl (ttl : Option Int64) (attributes : Fields) : Fields :=
  match ttl with
  | some t => Assoc.insert Attribute.ttl (.int t) attributes
  | none => attributes

/-- The attributes with each of the fields, in order. -/
def writeFields (fields attributes : Fields) : Fields :=
  fields.foldl (fun written field => Assoc.insert field.1 field.2 written) attributes

/-- A node as a caller sees it: its id, its stamp, then its fields. -/
def Node.toOutput (n : Node) : Fields := writeFields n.fields (n.stamp.write [(Attribute.id, .string n.id)])

/-- The attributes of the row of a node. -/
def Node.toAttributes (n : Node) : Fields :=
  writeTtl n.ttl <| writeFields n.fields <| n.stamp.write
    [(Attribute.id, .string n.id), (Attribute.dataType, .string nodeMarker), (Attribute.namedType, .string n.typeName)]

/-- The attributes of the row of an edge. -/
def Edge.toAttributes (e : Edge) : Fields :=
  writeTtl e.ttl <| e.stamp.write
    [(Attribute.id, .string e.id), (Attribute.dataType, .string e.sortKey), (Attribute.namedType, .string e.namedType),
      (Attribute.edge, .string e.neighbor)]

/-- The text of an attribute that must be one. -/
def requireString (attributes : Fields) (name : String) : Except GraphError String :=
  match attributes.lookup name with
  | some (.string s) => .ok s
  | some other => .error (.row (.notString name other))
  | none => .error (.row (.missing name))

/-- The time to live among the attributes of the row of `id`. -/
def readTtl (attributes : Fields) (id : String) : Except GraphError (Option Int64) :=
  match attributes.lookup Attribute.ttl with
  | none => .ok none
  | some (.int t) => .ok (some t)
  | some other => .error (.row (.ttlNotInteger id other))

/-- The text without an ending, where it ends so. -/
def stripEnding? (ending text : String) : Option String :=
  if ending.toList.isSuffixOf text.toList then
    some (String.ofList (text.toList.take (text.toList.length - ending.toList.length)))
  else none

/-- The attributes that the library adds to the row of a node. -/
def Node.ownAttributes : List String :=
  [Attribute.id, Attribute.dataType, Attribute.namedType, Attribute.ttl, Attribute.createdAt, Attribute.updatedAt,
    Attribute.createdBy, Attribute.edge]

/-- The fields of a node among the attributes of its row. -/
def Node.fieldsOf (attributes : Fields) : Fields := attributes.filter fun a => !ownAttributes.contains a.1

/-- The name of an edge, from its data type and its neighbor. -/
def Edge.nameOf (id dataType neighbor : String) : Except GraphError String :=
  match stripEnding? (sortSeparator ++ neighbor) dataType with
  | some name => .ok name
  | none => .error (.row (.foreignSortKey dataType id neighbor))

namespace Record

/-- The attributes of the row of a record. -/
def toAttributes : Record → Fields
  | .node n => n.toAttributes
  | .edge e => e.toAttributes

/-- The record of a row. -/
def ofAttributes (attributes : Fields) : Except GraphError Record := do
  let id ← requireString attributes Attribute.id
  let dataType ← requireString attributes Attribute.dataType
  let namedType := (attributes.string? Attribute.namedType).getD ""
  let ttl ← readTtl attributes id
  let stamp := Stamp.read attributes
  if dataType = nodeMarker then
    return .node ⟨id, namedType, stamp, ttl, Node.fieldsOf attributes⟩
  let neighbor ← requireString attributes Attribute.edge
  let name ← Edge.nameOf id dataType neighbor
  return .edge ⟨id, name, neighbor, namedType, stamp, ttl⟩

end Record

/-- The key that attributes carry, which a row must have. -/
def Key.ofAttributes (attributes : Fields) : Except GraphError Key :=
  match attributes.key? with
  | some key => .ok key
  | none => .error (.row .withoutKey)

end PropertyGraph
