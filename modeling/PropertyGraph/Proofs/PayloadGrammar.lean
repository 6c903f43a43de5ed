import PropertyGraph.Proofs.Reachable

/-!
# The payloads that are accepted

Which payloads a schema takes at a type is said by a grammar (`Schema.TakesLevel`): what a level may have as
`connections` and as `data`, and what each member of each of its objects may be, which for an edge field is a level
again. Growing succeeds exactly on the payloads of the grammar, whatever ids there are to draw, and a request whose
payload is not among them is answered with one message and writes nothing (`Schema.payload_grammar`).
-/

namespace PropertyGraph

/-! ## The grammar -/

/-- Whether `data` is such as objects are read from: nothing, null, an object, or an array of objects and nulls. -/
inductive HoldsObjects : Option Json → Prop
  | nothing : HoldsObjects none
  | null : HoldsObjects (some .null)
  | object (members : List (String × Json)) : HoldsObjects (some (.object members))
  | array (items : List Json) (h : ∀ item ∈ items, item = .null ∨ ∃ members, item = .object members) :
      HoldsObjects (some (.array items))

mutual

/-- Whether a schema takes `data` and `connections` as a level of nodes of a type. -/
inductive Schema.TakesLevel (schema : Schema) : String → Option Json → Option Json → Prop
  | ofMembers {typeName : String} {data connections : Option Json}
      (unconnected : connections = none ∨ connections = some .null) (holds : HoldsObjects data)
      (members : ∀ object ∈ objectsOf data,
        ∀ member ∈ object.entries, Schema.TakesMember schema typeName member.1 member.2) :
      Schema.TakesLevel schema typeName data connections

/-- Whether a schema takes a member of an object at a place for nodes of a type. -/
inductive Schema.TakesMember (schema : Schema) : String → String → Json → Prop
  | value {typeName field : String} (j : Json) (free : Attribute.isReserved field = false)
      (hside : schema.side? typeName field = none) : Schema.TakesMember schema typeName field j
  | null {typeName field : String} {side : EdgeSide} (free : Attribute.isReserved field = false)
      (hside : schema.side? typeName field = some side) : Schema.TakesMember schema typeName field .null
  | level {typeName field : String} {side : EdgeSide} {nested : List (String × Json)}
      (free : Attribute.isReserved field = false) (hside : schema.side? typeName field = some side)
      (hlevel : Schema.TakesLevel schema side.target ((Json.object nested).get? "data")
        ((Json.object nested).get? "connections"))
      (fits : side.cardinality = .one → (objectsOf ((Json.object nested).get? "data")).length ≤ 1) :
      Schema.TakesMember schema typeName field (.object nested)

end

/-- The members of an object that a schema takes, each of them. -/
def Schema.TakesMembers (schema : Schema) (typeName : String) (members : List (String × Json)) : Prop :=
  ∀ member ∈ members, schema.TakesMember typeName member.1 member.2

namespace Schema

variable {schema : Schema} {typeName field : String} {j : Json} {rest : List (String × Json)}

/-- A level is taken where it asks for no connections, holds objects, and every object has members that are taken. -/
theorem takesLevel_iff {data connections : Option Json} :
    schema.TakesLevel typeName data connections ↔
      (connections = none ∨ connections = some .null) ∧ HoldsObjects data ∧
        ∀ object ∈ objectsOf data, schema.TakesMembers typeName object.entries := by
  constructor
  · rintro ⟨hconnections, hdata, hmembers⟩
    exact ⟨hconnections, hdata, hmembers⟩
  · rintro ⟨hconnections, hdata, hmembers⟩
    exact .ofMembers hconnections hdata hmembers

theorem TakesMember.free (h : schema.TakesMember typeName field j) : Attribute.isReserved field = false := by
  cases h with
  | value _ hfree _ => exact hfree
  | null hfree _ => exact hfree
  | level hfree _ _ _ => exact hfree

/-- What an edge field takes is null, or an object that is a level at the other end and not too large for it. -/
theorem TakesMember.cases_of_side {side : EdgeSide} (h : schema.TakesMember typeName field j)
    (hside : schema.side? typeName field = some side) : j = .null ∨ ∃ nested, j = .object nested ∧
      schema.TakesLevel side.target ((Json.object nested).get? "data") ((Json.object nested).get? "connections") ∧
        (side.cardinality = .one → (objectsOf ((Json.object nested).get? "data")).length ≤ 1) := by
  cases h with
  | value _ _ hnone => exact absurd (hside.symm.trans hnone) (Option.some_ne_none _)
  | null _ _ => exact Or.inl rfl
  | level _ hother hlevel hfits =>
    obtain rfl := Option.some.inj (hside.symm.trans hother)
    exact Or.inr ⟨_, rfl, hlevel, hfits⟩

/-- An object under an edge field is taken where it is a level at the other end that is not too large. -/
theorem takesMember_object_iff {side : EdgeSide} {nested : List (String × Json)}
    (hfree : Attribute.isReserved field = false) (hside : schema.side? typeName field = some side) :
    schema.TakesMember typeName field (.object nested) ↔
      schema.TakesLevel side.target ((Json.object nested).get? "data") ((Json.object nested).get? "connections") ∧
        (side.cardinality = .one → (objectsOf ((Json.object nested).get? "data")).length ≤ 1) := by
  constructor
  · intro h
    obtain hnull | ⟨_, hobject, htaken⟩ := h.cases_of_side hside
    · exact Json.noConfusion hnull
    · obtain rfl := Json.object.inj hobject
      exact htaken
  · rintro ⟨hlevel, hfits⟩
    exact .level hfree hside hlevel hfits

theorem takesMembers_cons : schema.TakesMembers typeName ((field, j) :: rest) ↔
    schema.TakesMember typeName field j ∧ schema.TakesMembers typeName rest := List.forall_mem_cons

end Schema

/-! ## Reading objects -/

/-- Objects are read from an array exactly where it has none but objects and nulls. -/
theorem exists_readEntries_iff {typeName : String} {items : List Json} :
    (∃ objects, readEntries typeName items = .ok objects) ↔
    ∀ item ∈ items, item = .null ∨ ∃ members, item = .object members := by
  induction items with
  | nil => exact ⟨fun _ _ h => absurd h List.not_mem_nil, fun _ => ⟨[], rfl⟩⟩
  | cons j rest ih =>
    rw [List.forall_mem_cons, ← ih]
    cases j with
    | null => exact ⟨fun h => ⟨Or.inl rfl, h⟩, fun h => h.2⟩
    | object members =>
      constructor
      · rintro ⟨objects, h⟩
        refine ⟨Or.inr ⟨members, rfl⟩, ?_⟩
        cases hrest : readEntries typeName rest with
        | error e => simp [readEntries, hrest, Except.map] at h
        | ok more => exact ⟨more, rfl⟩
      · rintro ⟨-, more, hmore⟩
        exact ⟨Dict.ofList members :: more, by rw [readEntries, hmore]; rfl⟩
    | _ => simp [readEntries]

/-- Objects are read from `data` exactly where it holds objects. -/
theorem exists_readData_iff {typeName : String} {data : Option Json} :
    (∃ objects, readData typeName data = .ok objects) ↔ HoldsObjects data := by
  cases data with
  | none => exact ⟨fun _ => .nothing, fun _ => ⟨[], rfl⟩⟩
  | some j =>
    cases j with
    | null => exact ⟨fun _ => .null, fun _ => ⟨[], rfl⟩⟩
    | object members => exact ⟨fun _ => .object members, fun _ => ⟨[Dict.ofList members], rfl⟩⟩
    | array items =>
      rw [readData, exists_readEntries_iff]
      constructor
      · exact .array items
      · intro h
        cases h with
        | array _ hitems => exact hitems
    | _ =>
      constructor
      · rintro ⟨objects, h⟩
        simp [readData] at h
      · rintro ⟨⟩

/-- What asks for no connections is nothing, or null. -/
theorem asksConnections_eq_false_iff {connections : Option Json} :
    asksConnections connections = false ↔ connections = none ∨ connections = some .null := by
  cases connections with
  | none => simp [asksConnections]
  | some j => cases j <;> simp [asksConnections, Json.isNull]

/-! ## Growing -/

/-- Whether something was drawn, and not refused. -/
def Drawn.Succeeds {α : Type} (d : Drawn α) : Prop := ∃ a ids, d = (.ok a, ids)

theorem Drawn.succeeds_ok {α : Type} (a : α) (ids : IdSource) : Drawn.Succeeds (.ok a, ids) := ⟨a, ids, rfl⟩

theorem Drawn.not_succeeds_error {α : Type} {e : GraphError} {ids : IdSource} :
    ¬ Drawn.Succeeds (α := α) (.error e, ids) := by
  rintro ⟨a, ids', h⟩
  exact absurd (Prod.mk.inj h).1 (by simp)

/-- As many branches as objects grow. -/
theorem Branch.AreOf.length_eq {g : Grower} {typeName : String} {objects : List (Dict Json)} {branches : List Branch}
    (h : Branch.AreOf g typeName objects branches) : branches.length = objects.length := by
  induction objects generalizing branches with
  | nil =>
    match branches, h with
    | [], _ => rfl
  | cons object objects ih =>
    match branches, h with
    | branch :: rest, h => exact congrArg (· + 1) (ih h.2)

namespace Grower

variable {g : Grower} {typeName field : String} {rest : List (String × Json)} {ids ids' : IdSource}

/-- Branches grow after a first one where those of the other objects do. -/
theorem succeeds_branches_cons_iff {object : Dict Json} {objects : List (Dict Json)} {first : Option String}
    {id : String} {ids'' : IdSource} {read : ReadFields} (hid : ids.drawUnless first = (id, ids'))
    (hcontent : g.content typeName object.entries ids' = (.ok read, ids'')) :
    (g.branches typeName (object :: objects) first ids).Succeeds ↔
    (g.branches typeName objects none ids'').Succeeds := by
  cases hmore : g.branches typeName objects none ids'' with
  | mk answer last =>
    cases answer with
    | error e =>
      rw [branches, hid]
      dsimp only
      rw [hcontent]
      dsimp only
      rw [hmore]
    | ok more =>
      rw [branches_cons hid hcontent hmore]
      exact iff_of_true (Drawn.succeeds_ok ..) (Drawn.succeeds_ok ..)

/-- A member that leads over no relationship is taken whatever it holds, and read together with those behind it. -/
theorem succeeds_content_plain_iff {j : Json} (hfree : ¬ Attribute.isReserved field = true)
    (hside : g.schema.side? typeName field = none)
    (hrest : (g.content typeName rest ids).Succeeds ↔ g.schema.TakesMembers typeName rest) :
    (g.content typeName ((field, j) :: rest) ids).Succeeds ↔ g.schema.TakesMembers typeName ((field, j) :: rest) := by
  rw [Schema.takesMembers_cons, and_iff_right (.value j (Bool.eq_false_iff.mpr hfree) hside), ← hrest, content,
    if_neg hfree, hside]
  dsimp only
  cases g.content typeName rest ids with
  | mk answer last =>
    cases answer with
    | error e => exact iff_of_false Drawn.not_succeeds_error Drawn.not_succeeds_error
    | ok more =>
      refine iff_of_true ?_ (Drawn.succeeds_ok ..)
      cases Value.ofJson j with
      | none => exact Drawn.succeeds_ok ..
      | some v => exact Drawn.succeeds_ok ..

/-- A level under an edge field that is taken is read together with the members behind it. -/
theorem succeeds_content_twig_iff {nested : List (String × Json)} {side : EdgeSide} {children : List Branch}
    (hfree : ¬ Attribute.isReserved field = true) (hside : g.schema.side? typeName field = some side)
    (hlevel : g.level side.target ((Json.object nested).get? "data") ((Json.object nested).get? "connections") none
      ids = (.ok children, ids'))
    (hfew : ¬ (side.cardinality = .one ∧ children.length > 1))
    (htaken : g.schema.TakesMember typeName field (.object nested))
    (hrest : (g.content typeName rest ids').Succeeds ↔ g.schema.TakesMembers typeName rest) :
    (g.content typeName ((field, .object nested) :: rest) ids).Succeeds ↔
      g.schema.TakesMembers typeName ((field, .object nested) :: rest) := by
  rw [Schema.takesMembers_cons, and_iff_right htaken, ← hrest, content, if_neg hfree, hside]
  dsimp only
  rw [hlevel]
  dsimp only
  rw [if_neg hfew]
  cases g.content typeName rest ids' with
  | mk answer last =>
    cases answer with
    | error e => exact iff_of_false Drawn.not_succeeds_error Drawn.not_succeeds_error
    | ok more => exact iff_of_true (Drawn.succeeds_ok ..) (Drawn.succeeds_ok ..)

/-- An object under an edge field is taken where its level grows to no more branches than the field takes. -/
theorem takesMember_iff_of_level {nested : List (String × Json)} {side : EdgeSide} {children : List Branch}
    (hfree : ¬ Attribute.isReserved field = true) (hside : g.schema.side? typeName field = some side)
    (hlevel : g.level side.target ((Json.object nested).get? "data") ((Json.object nested).get? "connections") none
      ids = (.ok children, ids'))
    (htaken : g.schema.TakesLevel side.target ((Json.object nested).get? "data")
      ((Json.object nested).get? "connections")) :
    g.schema.TakesMember typeName field (.object nested) ↔ ¬ (side.cardinality = .one ∧ children.length > 1) := by
  rw [Schema.takesMember_object_iff (Bool.eq_false_iff.mpr hfree) hside, and_iff_right htaken,
    ← (level_eq_tree hlevel).2.1.length_eq, not_and, Nat.not_lt]

/-- A level asks for no connections and holds objects, and then its branches decide. -/
theorem succeeds_level_iff {data connections : Option Json} {first : Option String}
    (ih : asksConnections connections = false → ∀ objects, readData typeName data = .ok objects →
      ((g.branches typeName objects first ids).Succeeds ↔
        ∀ object ∈ objects, g.schema.TakesMembers typeName object.entries)) :
    (g.level typeName data connections first ids).Succeeds ↔ g.schema.TakesLevel typeName data connections := by
  rw [Schema.takesLevel_iff, ← asksConnections_eq_false_iff, ← exists_readData_iff]
  cases hasks : asksConnections connections with
  | true =>
    rw [level, if_pos hasks]
    exact iff_of_false Drawn.not_succeeds_error fun h => Bool.noConfusion h.1
  | false =>
    cases hdata : readData typeName data with
    | error e =>
      rw [level, if_neg (Bool.eq_false_iff.mp hasks), hdata]
      exact iff_of_false Drawn.not_succeeds_error fun h => h.2.1.elim fun objects hobjects => by simp at hobjects
    | ok objects =>
      rw [level_of_readData hasks hdata, ih hasks objects hdata, objectsOf_of_readData hdata]
      exact ⟨fun h => ⟨rfl, ⟨objects, rfl⟩, h⟩, fun h => h.2.2⟩

theorem succeeds_branches_nil_iff {first : Option String} : (g.branches typeName [] first ids).Succeeds ↔
    ∀ other ∈ ([] : List (Dict Json)), g.schema.TakesMembers typeName other.entries := by
  rw [branches]
  exact iff_of_true (Drawn.succeeds_ok ..) fun _ h => absurd h List.not_mem_nil

/-- The branch of an object grows where its members are taken, and then the branches of the other objects decide. -/
theorem succeeds_branches_iff {object : Dict Json} {objects : List (Dict Json)} {first : Option String} {id : String}
    (hid : ids.drawUnless first = (id, ids'))
    (hcontent : (g.content typeName object.entries ids').Succeeds ↔ g.schema.TakesMembers typeName object.entries)
    (ih : ∀ read ids'', g.content typeName object.entries ids' = (.ok read, ids'') →
      ((g.branches typeName objects none ids'').Succeeds ↔
        ∀ other ∈ objects, g.schema.TakesMembers typeName other.entries)) :
    (g.branches typeName (object :: objects) first ids).Succeeds ↔
      ∀ other ∈ object :: objects, g.schema.TakesMembers typeName other.entries := by
  rw [List.forall_mem_cons, ← hcontent]
  cases hread : g.content typeName object.entries ids' with
  | mk answer ids'' =>
    cases answer with
    | error e =>
      rw [branches, hid]
      dsimp only
      rw [hread]
      exact iff_of_false Drawn.not_succeeds_error fun h => Drawn.not_succeeds_error h.1
    | ok read =>
      rw [succeeds_branches_cons_iff hid hread, ih read ids'' hread, and_iff_right (Drawn.succeeds_ok ..)]

theorem succeeds_content_nil_iff : (g.content typeName [] ids).Succeeds ↔ g.schema.TakesMembers typeName [] := by
  rw [content]
  exact iff_of_true (Drawn.succeeds_ok ..) fun _ h => absurd h List.not_mem_nil

theorem succeeds_content_reserved_iff {j : Json} (hreserved : Attribute.isReserved field = true) :
    (g.content typeName ((field, j) :: rest) ids).Succeeds ↔ g.schema.TakesMembers typeName ((field, j) :: rest) := by
  rw [content, if_pos hreserved, Schema.takesMembers_cons]
  exact iff_of_false Drawn.not_succeeds_error fun h => Bool.false_ne_true (h.1.free.symm.trans hreserved)

/-- An object under an edge field is taken where its level is and is not too large, and then the members behind it
decide. -/
theorem succeeds_content_object_iff {nested : List (String × Json)} {side : EdgeSide}
    (hfree : ¬ Attribute.isReserved field = true) (hside : g.schema.side? typeName field = some side)
    (hnested : (g.level side.target ((Json.object nested).get? "data") ((Json.object nested).get? "connections") none
      ids).Succeeds ↔
        g.schema.TakesLevel side.target ((Json.object nested).get? "data") ((Json.object nested).get? "connections"))
    (ih : ∀ children ids', g.level side.target ((Json.object nested).get? "data")
      ((Json.object nested).get? "connections") none ids = (.ok children, ids') →
        ¬ (side.cardinality = .one ∧ children.length > 1) →
          ((g.content typeName rest ids').Succeeds ↔ g.schema.TakesMembers typeName rest)) :
    (g.content typeName ((field, .object nested) :: rest) ids).Succeeds ↔
      g.schema.TakesMembers typeName ((field, .object nested) :: rest) := by
  cases hlevel : g.level side.target ((Json.object nested).get? "data") ((Json.object nested).get? "connections") none
      ids with
  | mk answer ids' =>
    rw [hlevel] at hnested
    cases answer with
    | error e =>
      rw [content, if_neg hfree, hside, Schema.takesMembers_cons,
        Schema.takesMember_object_iff (Bool.eq_false_iff.mpr hfree) hside, ← hnested]
      simp only [hlevel]
      exact iff_of_false Drawn.not_succeeds_error fun h => Drawn.not_succeeds_error h.1.1
    | ok children =>
      have htaken := takesMember_iff_of_level hfree hside hlevel (hnested.mp (Drawn.succeeds_ok ..))
      by_cases hmany : side.cardinality = .one ∧ children.length > 1
      · rw [content, if_neg hfree, hside, Schema.takesMembers_cons, htaken]
        simp only [hlevel, if_pos hmany]
        exact iff_of_false Drawn.not_succeeds_error fun h => h.1 hmany
      · exact succeeds_content_twig_iff hfree hside hlevel hmany (htaken.mpr hmany) (ih children ids' hlevel hmany)

/-- Null under an edge field is passed over. -/
theorem succeeds_content_null_iff {side : EdgeSide} (hfree : ¬ Attribute.isReserved field = true)
    (hside : g.schema.side? typeName field = some side)
    (hrest : (g.content typeName rest ids).Succeeds ↔ g.schema.TakesMembers typeName rest) :
    (g.content typeName ((field, .null) :: rest) ids).Succeeds ↔
      g.schema.TakesMembers typeName ((field, .null) :: rest) := by
  rw [Schema.takesMembers_cons, and_iff_right (.null (Bool.eq_false_iff.mpr hfree) hside), ← hrest, content,
    if_neg hfree, hside]

/-- Under an edge field nothing but an object and null is taken. -/
theorem succeeds_content_other_iff {j : Json} {side : EdgeSide} (hfree : ¬ Attribute.isReserved field = true)
    (hside : g.schema.side? typeName field = some side) (hnull : j = .null → False)
    (hobject : ∀ nested, j = .object nested → False) :
    (g.content typeName ((field, j) :: rest) ids).Succeeds ↔ g.schema.TakesMembers typeName ((field, j) :: rest) := by
  rw [content, if_neg hfree, hside, Schema.takesMembers_cons]
  refine iff_of_false ?_ fun h => ?_
  · simp only
    exact Drawn.not_succeeds_error
  · obtain rfl | ⟨nested, rfl, -⟩ := h.1.cases_of_side hside
    · exact hnull rfl
    · exact hobject nested rfl

/-- A level is grown exactly where the schema takes it, and likewise the branches of objects and what is read from
members. -/
theorem succeeds_iff (g : Grower) :
    (∀ typeName data connections first ids,
        (g.level typeName data connections first ids).Succeeds ↔ g.schema.TakesLevel typeName data connections) ∧
      (∀ typeName objects first ids, (g.branches typeName objects first ids).Succeeds ↔
        ∀ object ∈ objects, g.schema.TakesMembers typeName object.entries) ∧
      ∀ typeName members ids, (g.content typeName members ids).Succeeds ↔ g.schema.TakesMembers typeName members :=
  growth_induct g succeeds_level_iff succeeds_branches_nil_iff succeeds_branches_iff succeeds_content_nil_iff
    succeeds_content_reserved_iff succeeds_content_plain_iff succeeds_content_null_iff succeeds_content_object_iff
    succeeds_content_other_iff

/-- A payload is expanded exactly where its topmost level is grown. -/
theorem succeeds_expand_iff {data connections : Option Json} {first : Option String} :
    (g.expand typeName data connections first ids).Succeeds ↔ g.schema.TakesLevel typeName data connections := by
  rw [← (succeeds_iff g).1 typeName data connections first ids, expand]
  cases g.level typeName data connections first ids with
  | mk answer last =>
    cases answer with
    | error e => exact iff_of_false Drawn.not_succeeds_error Drawn.not_succeeds_error
    | ok branches => exact iff_of_true (Drawn.succeeds_ok ..) (Drawn.succeeds_ok ..)

/-- What is not expanded is refused. -/
theorem expand_of_not_takesLevel (g : Grower) (ids : IdSource) {data connections : Option Json} (first : Option String)
    (h : ¬ g.schema.TakesLevel typeName data connections) :
    ∃ fault ids', g.expand typeName data connections first ids = (.error fault, ids') := by
  cases hexpand : g.expand typeName data connections first ids with
  | mk answer last =>
    cases answer with
    | error fault => exact ⟨fault, last, rfl⟩
    | ok expansion => exact absurd (succeeds_expand_iff.mp ⟨expansion, last, hexpand⟩) h

end Grower

/-- Which payloads are accepted. (1) Whatever ids are given and drawn, a payload is expanded exactly where the schema
takes it as a level: at every depth it asks for no connections, holds objects, names nothing reserved, and has under
every edge field null or an object that is a level of the type at the other end, of one object at most where the field
takes one. (2) Where the schema does not take the payload of a request, creating and upserting answer with no data and
exactly one message, and the store is what it was. -/
theorem Schema.payload_grammar :
    (∀ (g : Grower) (typeName : String) (data connections : Option Json) (first : Option String) (ids : IdSource),
      (∃ expansion ids', g.expand typeName data connections first ids = (.ok expansion, ids')) ↔
        g.schema.TakesLevel typeName data connections) ∧
    ∀ (e : Engine) (s : Store) (ids : IdSource) (now : Instant) (typeName : String),
      (∀ r : CreateRequest, ¬ e.schema.TakesLevel typeName r.data r.connections →
        ∃ message ids', e.create s ids now typeName r = (⟨none, [message]⟩, s, ids')) ∧
      ∀ r : UpsertRequest, ¬ e.schema.TakesLevel typeName r.create.data r.create.connections →
        ∃ message ids', e.upsert s ids now typeName r = (⟨{}, [message]⟩, s, ids') := by
  refine ⟨fun g typeName data connections first ids => Grower.succeeds_expand_iff, fun e s ids now typeName => ?_⟩
  refine ⟨fun r hr => ?_, fun r hr => ?_⟩
  · obtain ⟨fault, ids', hexpand⟩ := (e.grower now).expand_of_not_takesLevel ids none hr
    refine ⟨fault.message, ids', ?_⟩
    rw [Engine.create, hexpand]
    rfl
  · obtain ⟨fault, ids', hexpand⟩ := (e.grower now).expand_of_not_takesLevel ids (r.target.bind Target.id) hr
    refine ⟨fault.message, ids', ?_⟩
    rw [Engine.upsert, hexpand]
    rfl

namespace Sample

/-- A user who follows two others, of whom the second one names its id. -/
def presumptuous : Json :=
  .object [("follows", .object [("data", .array [.object [("name", .string "Hal")], .object [("id", .string "gus")]])])]

/-- The users' schema does not take that user. -/
theorem not_takesLevel_presumptuous (connections : Option Json) :
    ¬ users.schema.TakesLevel "User" (some presumptuous) connections := by
  intro h
  have hfollows := (Schema.takesLevel_iff.mp h).2.2 _ (List.mem_singleton_self _) _ (List.mem_singleton_self _)
  obtain hnull | ⟨nested, hnested, hlevel, -⟩ := hfollows.cases_of_side rfl
  · nomatch hnull
  · obtain rfl := Json.object.inj hnested
    have hid := (Schema.takesLevel_iff.mp hlevel).2.2 (Dict.ofList [("id", .string "gus")])
      (List.mem_cons_of_mem _ (List.mem_singleton_self _))
      _ (List.mem_singleton_self _)
    exact Bool.false_ne_true (hid.free.symm.trans (by decide))

/-- The payload of two users below a third one is taken; one that names an id below is refused and leaves the store
empty. -/
theorem presumptuous_is_refused : users.schema.TakesLevel "User" newcomer.data newcomer.connections ∧
    ∃ message ids', users.create (Store.empty "edge-dataType") (fresh 0) ⟨0, 0⟩ "User" { data := some presumptuous } =
      (⟨none, [message]⟩, .empty "edge-dataType", ids') :=
  ⟨(Schema.payload_grammar.1 (users.grower ⟨0, 0⟩) "User" newcomer.data newcomer.connections none (fresh 0)).mp
      ⟨_, _, expand_newcomer ⟨0, 0⟩⟩,
    (Schema.payload_grammar.2 users (.empty "edge-dataType") (fresh 0) ⟨0, 0⟩ "User").1 _
      (not_takesLevel_presumptuous none)⟩

end Sample

end PropertyGraph
