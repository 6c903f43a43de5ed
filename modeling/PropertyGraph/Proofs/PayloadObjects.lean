import PropertyGraph.Payload.Expand

/-!
# The objects of a payload

What a payload means is read off its objects: an object has its own fields, which hold values, and below each of its
edge fields the objects of another level. `Branch.AreOf` says that branches are those of the objects of a level: one
for each object, in their order, and below it one twig for each of its edge fields that holds a level.
-/

namespace PropertyGraph

/-- The objects of `data`: the object, or those of the array that are not null. -/
def objectsOf : Option Json → List (Dict Json)
  | some (.object members) => [Dict.ofList members]
  | some (.array items) => items.filterMap Json.members?
  | _ => []

/-- The fields that members of an object below a type hold themselves: those that lead over no relationship and hold a
value. -/
def ownFields (schema : Schema) (typeName : String) (members : List (String × Json)) : Fields :=
  members.filterMap fun (field, j) =>
    match schema.side? typeName field with
    | none => (Value.ofJson j).map (field, ·)
    | some _ => none

/-- The levels that members of an object below a type hold: the side of each edge field with an object, and the objects
of that level. -/
def nestedObjects (schema : Schema) (typeName : String) (members : List (String × Json)) :
    List (EdgeSide × List (Dict Json)) :=
  members.filterMap fun (field, j) =>
    match schema.side? typeName field, j with
    | some side, .object nested => some (side, objectsOf ((Json.object nested).get? "data"))
    | _, _ => none

mutual

/-- Whether a branch is that of an object at a place for nodes of a type. -/
def Branch.IsOf (g : Grower) (typeName : String) (object : Dict Json) : Branch → Prop
  | .mk node twigs =>
    node = ⟨node.id, typeName, g.stamp, none, ownFields g.schema typeName object.entries⟩ ∧
      Twig.AreOf g (nestedObjects g.schema typeName object.entries) twigs

/-- Whether twigs are those of levels, one for each of them. -/
def Twig.AreOf (g : Grower) : List (EdgeSide × List (Dict Json)) → List Twig → Prop
  | [], [] => True
  | level :: levels, .mk side children :: rest =>
    side = level.1 ∧ Branch.AreOf g side.target level.2 children ∧ Twig.AreOf g levels rest
  | _, _ => False

/-- Whether branches are those of objects at a place for nodes of a type, one for each of them. -/
def Branch.AreOf (g : Grower) (typeName : String) : List (Dict Json) → List Branch → Prop
  | [], [] => True
  | object :: objects, branch :: rest => branch.IsOf g typeName object ∧ Branch.AreOf g typeName objects rest
  | _, _ => False

end

namespace Branch

variable {g : Grower} {typeName : String} {branch : Branch} {rest : List Branch}

theorem IsOf.node_eq {object : Dict Json} (h : branch.IsOf g typeName object) :
    branch.node = ⟨branch.node.id, typeName, g.stamp, none, ownFields g.schema typeName object.entries⟩ := by
  obtain ⟨node, twigs⟩ := branch
  exact h.1

theorem exists_object {objects : List (Dict Json)} (h : AreOf g typeName objects (branch :: rest)) :
    ∃ object others, objects = object :: others ∧ branch.IsOf g typeName object := by
  match objects, h with
  | object :: others, h => exact ⟨object, others, rfl, h.1⟩

end Branch

section Members

variable {schema : Schema} {typeName field : String} {rest : List (String × Json)}

/-- A member that leads over no relationship is a field of its own, if it holds a value. -/
theorem ownFields_cons_plain (hside : schema.side? typeName field = none) (j : Json) :
    ownFields schema typeName ((field, j) :: rest) = ((Value.ofJson j).map (field, ·)).toList ++
      ownFields schema typeName rest := by
  cases hv : Value.ofJson j <;> simp [ownFields, hside, hv]

/-- A member that leads over a relationship is no field of its own. -/
theorem ownFields_cons_side {side : EdgeSide} (hside : schema.side? typeName field = some side) (j : Json) :
    ownFields schema typeName ((field, j) :: rest) = ownFields schema typeName rest := by
  simp [ownFields, hside]

theorem nestedObjects_cons_plain (hside : schema.side? typeName field = none) (j : Json) :
    nestedObjects schema typeName ((field, j) :: rest) = nestedObjects schema typeName rest := by
  simp [nestedObjects, hside]

theorem nestedObjects_cons_null {side : EdgeSide} (hside : schema.side? typeName field = some side) :
    nestedObjects schema typeName ((field, .null) :: rest) = nestedObjects schema typeName rest := by
  simp [nestedObjects, hside]

/-- An edge field that holds an object holds a level. -/
theorem nestedObjects_cons_object {side : EdgeSide} (hside : schema.side? typeName field = some side)
    (nested : List (String × Json)) :
    nestedObjects schema typeName ((field, .object nested) :: rest) =
      (side, objectsOf ((Json.object nested).get? "data")) :: nestedObjects schema typeName rest := by
  simp [nestedObjects, hside]

end Members

/-- The objects that are read from an array are its objects. -/
theorem filterMap_of_readEntries {typeName : String} {items : List Json} {objects : List (Dict Json)}
    (h : readEntries typeName items = .ok objects) : items.filterMap Json.members? = objects := by
  induction items generalizing objects with
  | nil => exact Except.ok.inj h
  | cons j rest ih =>
    cases j with
    | null => exact ih h
    | object members =>
      rw [readEntries] at h
      cases hrest : readEntries typeName rest with
      | error e => simp [hrest, Except.map] at h
      | ok more =>
        rw [hrest] at h
        have hcons : (Json.object members :: rest).filterMap Json.members? =
            Dict.ofList members :: rest.filterMap Json.members? := rfl
        rw [hcons, ih hrest]
        exact Except.ok.inj h
    | _ => simp [readEntries] at h

/-- The objects that are read from `data` are its objects. -/
theorem objectsOf_of_readData {typeName : String} {data : Option Json} {objects : List (Dict Json)}
    (h : readData typeName data = .ok objects) : objectsOf data = objects := by
  cases data with
  | none => exact Except.ok.inj h
  | some j =>
    cases j with
    | null => exact Except.ok.inj h
    | object members => exact Except.ok.inj h
    | array items => exact filterMap_of_readEntries h
    | _ => simp [readData] at h

end PropertyGraph
