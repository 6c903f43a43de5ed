import PropertyGraph.Json.Values
import PropertyGraph.Payload.Branch
import PropertyGraph.Payload.Identity
import PropertyGraph.Schema.Basic

/-!
# Growing the tree of a payload

A level of a payload has `data`, one object or an array of objects, and `connections`, which must not be used. Each
object becomes a node. A field of the object that the schema knows as an edge field holds another level, with the nodes
at the other side; any other field holds a value. The fields are taken in the order of their names, and the id of a
node is drawn before those below it.

The first fault in that order is reported: reserved names, an edge field that holds no object, too many nodes below an
edge field that takes one.
-/

namespace PropertyGraph

/-- The objects of an array of `data`; nulls are passed over. -/
def readEntries (typeName : String) : List Json → Except GraphError (List (Dict Json))
  | [] => .ok []
  | .null :: rest => readEntries typeName rest
  | .object members :: rest => (readEntries typeName rest).map (Dict.ofList members :: ·)
  | _ :: _ => .error (.input (.entryNotObject typeName))

/-- The objects of `data`. -/
def readData (typeName : String) : Option Json → Except GraphError (List (Dict Json))
  | none => .ok []
  | some .null => .ok []
  | some (.object members) => .ok [Dict.ofList members]
  | some (.array items) => readEntries typeName items
  | some _ => .error (.input (.dataNotObjects typeName))

/-- Whether `connections` asks for something. -/
def asksConnections : Option Json → Bool
  | none => false
  | some j => !j.isNull

namespace ExpandAux

/-- Insertion into a sorted object makes it no larger than writing the member in front. -/
theorem sizeOf_insertSorted_le (member : String × Json) (members : List (String × Json)) :
    sizeOf (insertSorted Prod.fst member members) ≤ 1 + sizeOf member + sizeOf members := by
  induction members with
  | nil => simp [insertSorted]
  | cons first rest ih =>
    unfold insertSorted
    split
    · simp
    · split <;> simp only [List.cons.sizeOf_spec] <;> omega

/-- Sorting an object makes it no larger. -/
theorem sizeOf_sortedBy_le (members : List (String × Json)) : sizeOf (sortedBy Prod.fst members) ≤ sizeOf members := by
  suffices ∀ (members sorted : List (String × Json)),
      sizeOf (members.foldl (fun sorted m => insertSorted Prod.fst m sorted) sorted) + 1 ≤
        sizeOf sorted + sizeOf members by
    have := this members []
    simp only [List.nil.sizeOf_spec] at this
    simp only [sortedBy]
    omega
  intro members
  induction members with
  | nil => intro sorted; simp
  | cons m rest ih =>
    intro sorted
    have h := ih (insertSorted Prod.fst m sorted)
    have hi := sizeOf_insertSorted_le m sorted
    simp only [List.foldl_cons, List.cons.sizeOf_spec] at *
    omega

/-- How large the objects of a level are. -/
noncomputable def weight : List (Dict Json) → Nat
  | [] => 0
  | object :: rest => 1 + sizeOf object.entries + weight rest

theorem sizeOf_ofList_le (members : List (String × Json)) : sizeOf (Dict.ofList members).entries ≤ sizeOf members :=
  sizeOf_sortedBy_le members

/-- The objects of an array are no larger than the array. -/
theorem weight_of_readEntries {typeName : String} {items : List Json} {objects : List (Dict Json)}
    (h : readEntries typeName items = .ok objects) : weight objects ≤ sizeOf items := by
  induction items generalizing objects with
  | nil =>
    simp only [readEntries, Except.ok.injEq] at h
    subst h
    simp [weight]
  | cons j rest ih =>
    cases j with
    | null =>
      have := ih (show readEntries typeName rest = .ok objects by simpa only [readEntries] using h)
      simp only [List.cons.sizeOf_spec]
      omega
    | object members =>
      simp only [readEntries] at h
      cases hr : readEntries typeName rest with
      | error e => simp [hr, Except.map] at h
      | ok more =>
        simp only [hr, Except.map, Except.ok.injEq] at h
        subst h
        have := ih hr
        have := sizeOf_ofList_le members
        simp only [weight, List.cons.sizeOf_spec, Json.object.sizeOf_spec]
        omega
    | bool b => simp [readEntries] at h
    | number n => simp [readEntries] at h
    | string s => simp [readEntries] at h
    | array items => simp [readEntries] at h

/-- The objects of `data` are no larger than the data. -/
theorem weight_of_readData {typeName : String} {data : Option Json} {objects : List (Dict Json)}
    (h : readData typeName data = .ok objects) : weight objects ≤ sizeOf data := by
  cases data with
  | none =>
    simp only [readData, Except.ok.injEq] at h
    subst h
    simp [weight]
  | some j =>
    cases j with
    | null =>
      simp only [readData, Except.ok.injEq] at h
      subst h
      simp [weight]
    | object members =>
      simp only [readData, Except.ok.injEq] at h
      subst h
      have := sizeOf_ofList_le members
      simp only [weight, Option.some.sizeOf_spec, Json.object.sizeOf_spec]
      omega
    | array items =>
      have := weight_of_readEntries (show readEntries typeName items = .ok objects by simpa only [readData] using h)
      simp only [Option.some.sizeOf_spec, Json.array.sizeOf_spec]
      omega
    | bool b => simp [readData] at h
    | number n => simp [readData] at h
    | string s => simp [readData] at h

/-- What an object holds under a name, or nothing, is smaller than the object and something around it. -/
theorem sizeOf_get?_lt (j : Json) (name : String) : sizeOf (j.get? name) < 2 + sizeOf j := by
  cases h : j.get? name with
  | none =>
    have : 0 < sizeOf j := by
      cases j <;> simp only [Json.null.sizeOf_spec, Json.bool.sizeOf_spec, Json.number.sizeOf_spec,
        Json.string.sizeOf_spec, Json.array.sizeOf_spec, Json.object.sizeOf_spec] <;> omega
    simp only [Option.none.sizeOf_spec]
    omega
  | some content =>
    have := Json.sizeOf_get?_lt h
    simp only [Option.some.sizeOf_spec]
    omega

end ExpandAux

/-- A value or an error, with the ids that are left. -/
abbrev Drawn (α : Type) := Except GraphError α × IdSource

/-- The fields of an object that are read so far. -/
structure ReadFields where
  fields : Fields
  twigs : List Twig

/-- What is known all over a payload: the schema and the stamp of every row. -/
structure Grower where
  schema : Schema
  stamp : Stamp

namespace Grower

mutual

/-- The branches of a level. The first node takes `first` as its id, where it is given. -/
def level (g : Grower) (typeName : String) (data connections : Option Json) (first : Option String) (ids : IdSource) :
    Drawn (List Branch) :=
  if asksConnections connections then (.error (.connections typeName), ids)
  else
    match _h : readData typeName data with
    | .error e => (.error e, ids)
    | .ok objects => g.branches typeName objects first ids
termination_by (sizeOf data, 1)
decreasing_by
  have := ExpandAux.weight_of_readData _h
  exact Prod.Lex.right' _ this (by omega)

/-- The branches of the objects of a level. -/
def branches (g : Grower) (typeName : String) (objects : List (Dict Json)) (first : Option String) (ids : IdSource) :
    Drawn (List Branch) :=
  match objects with
  | [] => (.ok [], ids)
  | object :: rest =>
    let (id, ids) := ids.drawUnless first
    match g.content typeName object.entries ids with
    | (.error e, ids) => (.error e, ids)
    | (.ok content, ids) =>
      match g.branches typeName rest none ids with
      | (.error e, ids) => (.error e, ids)
      | (.ok more, ids) => (.ok (.mk ⟨id, typeName, g.stamp, none, content.fields⟩ content.twigs :: more), ids)
termination_by (ExpandAux.weight objects, 0)
decreasing_by
  · exact Prod.Lex.left _ _ (by simp only [ExpandAux.weight]; omega)
  · exact Prod.Lex.left _ _ (by simp only [ExpandAux.weight]; omega)

/-- The fields and twigs of the members of an object. -/
def content (g : Grower) (typeName : String) (members : List (String × Json)) (ids : IdSource) : Drawn ReadFields :=
  match members with
  | [] => (.ok ⟨[], []⟩, ids)
  | (field, j) :: rest =>
    if Attribute.isReserved field then (.error (.input (.reservedField field typeName)), ids)
    else
      match g.schema.side? typeName field with
      | none =>
        match g.content typeName rest ids with
        | (.error e, ids) => (.error e, ids)
        | (.ok more, ids) =>
          match Value.ofJson j with
          | some v => (.ok ⟨(field, v) :: more.fields, more.twigs⟩, ids)
          | none => (.ok more, ids)
      | some side =>
        match j with
        | .null => g.content typeName rest ids
        | .object nested =>
          match g.level side.target ((Json.object nested).get? "data") ((Json.object nested).get? "connections")
            none ids with
          | (.error e, ids) => (.error e, ids)
          | (.ok children, ids) =>
            if side.cardinality = .one ∧ children.length > 1 then
              (.error (.input (.tooManyNodes field typeName children.length)), ids)
            else
              match g.content typeName rest ids with
              | (.error e, ids) => (.error e, ids)
              | (.ok more, ids) => (.ok ⟨more.fields, .mk side children :: more.twigs⟩, ids)
        | _ => (.error (.input (.edgeFieldNotObject field typeName)), ids)
termination_by (sizeOf members, 0)
decreasing_by
  · exact Prod.Lex.left _ _ (by simp only [List.cons.sizeOf_spec]; omega)
  · exact Prod.Lex.left _ _ (by simp only [List.cons.sizeOf_spec]; omega)
  · have := ExpandAux.sizeOf_get?_lt (Json.object nested) "data"
    exact Prod.Lex.left _ _ (by simp only [List.cons.sizeOf_spec, Prod.mk.sizeOf_spec]; omega)
  · exact Prod.Lex.left _ _ (by simp only [List.cons.sizeOf_spec]; omega)

end

/-- The rows of a level, and the ids of its nodes. -/
def expand (g : Grower) (typeName : String) (data connections : Option Json) (first : Option String) (ids : IdSource) :
    Drawn Expansion :=
  match g.level typeName data connections first ids with
  | (.error e, ids) => (.error e, ids)
  | (.ok branches, ids) => (.ok (.ofBranches branches), ids)

/-- The rows of a payload, which is null or an object with `data` and `connections`. -/
def expandPayload (g : Grower) (typeName : String) (payload : Json) (first : Option String) (ids : IdSource) :
    Drawn Expansion :=
  match payload with
  | .null => (.ok ⟨[], []⟩, ids)
  | .object _ => g.expand typeName (payload.get? "data") (payload.get? "connections") first ids
  | _ => (.error (.input (.payloadNotObject typeName)), ids)

end Grower

end PropertyGraph
