import PropertyGraph.Schema.Basic

/-!
# What the tables of a schema hold

The tables that a schema builds once answer as a search of its list of sides would: the sides of a type are those of
the list, in its order (`Schema.sidesOf_eq_filter`), and the side behind a field is the first one of that field
(`Schema.side?_eq_find?`). The two tables treat a repeated field differently: one more side of it is one more side of
its type (`SideTables.byType_add`), but the field keeps the side that it has (`SideTables.byField_add`). They agree all
the same (`Schema.tables_agree_with_list`).
-/

namespace PropertyGraph

/-- Whether an element is the first of a list that has a property. -/
def IsFirst {α : Type} (p : α → Prop) (items : List α) (a : α) : Prop :=
  ∃ before after, items = before ++ a :: after ∧ p a ∧ ∀ other ∈ before, ¬ p other

/-- A search of a list finds the first element that passes the test. -/
theorem find?_eq_some_iff_isFirst {α : Type} {p : α → Bool} {items : List α} {a : α} :
    items.find? p = some a ↔ IsFirst (fun other => p other = true) items a := by
  rw [List.find?_eq_some_iff_append]
  constructor
  · rintro ⟨ha, before, after, rfl, hbefore⟩
    exact ⟨before, after, rfl, ha, fun other hother => by simpa using hbefore other hother⟩
  · rintro ⟨before, after, rfl, ha, hbefore⟩
    exact ⟨ha, before, after, rfl, fun other hother => by simpa using hbefore other hother⟩

namespace SideTables

variable (tables : SideTables) (side : EdgeSide) (sides : List EdgeSide) (typeName : String) (owner : TypeField)

/-- One more side comes last among the sides of its type; those of the other types stay. -/
theorem byType_add : ((tables.add side).byType.lookup typeName).getD [] =
    (tables.byType.lookup typeName).getD [] ++ [side].filter fun side => side.owner.typeName == typeName := by
  rw [add, List.filter_cons, List.filter_nil]
  dsimp only
  by_cases h : side.owner.typeName = typeName
  · rw [h, beq_self_eq_true, if_pos rfl, Assoc.lookup_insert_self, Option.getD_some]
  · rw [if_neg (fun hbeq => h (eq_of_beq hbeq)), List.append_nil, Assoc.lookup_insert_of_ne (Ne.symm h)]

/-- One more side is found by its field where no side was; those behind the other fields stay. -/
theorem byField_add : (tables.add side).byField.lookup owner =
    (tables.byField.lookup owner).or ([side].find? fun side => side.owner == owner) := by
  rw [add, List.find?_singleton]
  dsimp only
  by_cases h : side.owner = owner
  · subst h
    cases hold : tables.byField.lookup side.owner with
    | none => simp [hold, List.lookup_append]
    | some old => simp [hold]
  · rw [if_neg (fun hbeq : (side.owner == owner) = true => h (eq_of_beq hbeq)), Option.or_none]
    split
    · rfl
    · rw [List.lookup_append, List.lookup_cons, beq_eq_false_iff_ne.mpr (Ne.symm h), List.lookup_nil, Option.or_none]

/-- The sides of a type after more sides are added: those that were there, then the new ones of the type. -/
theorem byType_foldl : ((sides.foldl add tables).byType.lookup typeName).getD [] =
    (tables.byType.lookup typeName).getD [] ++ sides.filter fun side => side.owner.typeName == typeName := by
  induction sides generalizing tables with
  | nil => exact (List.append_nil _).symm
  | cons side rest ih =>
    rw [List.foldl_cons, ih, byType_add, List.append_assoc, ← List.filter_append, List.singleton_append]

/-- The side behind a field after more sides are added: the one that was there, else the first new one of the field. -/
theorem byField_foldl : (sides.foldl add tables).byField.lookup owner =
    (tables.byField.lookup owner).or (sides.find? fun side => side.owner == owner) := by
  induction sides generalizing tables with
  | nil => exact Option.or_none.symm
  | cons side rest ih =>
    rw [List.foldl_cons, ih, byField_add, Option.or_assoc, ← List.find?_append, List.singleton_append]

end SideTables

namespace Schema

variable {s : Schema} {typeName field : String} {side : EdgeSide}

theorem sidesOf_eq_filter (s : Schema) (typeName : String) :
    s.sidesOf typeName = s.sides.filter fun side => side.owner.typeName == typeName := by
  rw [sidesOf, s.tables_eq, SideTables.ofSides, SideTables.byType_foldl]
  rfl

theorem side?_eq_find? (s : Schema) (typeName field : String) :
    s.side? typeName field = s.sides.find? fun side => side.owner == ⟨typeName, field⟩ := by
  rw [side?, s.tables_eq, SideTables.ofSides, SideTables.byField_foldl]
  rfl

/-- A side is one of a type where it is in the list and its field is a field of that type. -/
theorem mem_sidesOf : side ∈ s.sidesOf typeName ↔ side ∈ s.sides ∧ side.owner.typeName = typeName := by
  rw [sidesOf_eq_filter, List.mem_filter, beq_iff_eq]

/-- The side behind a field is a side of its type, and has that field. -/
theorem mem_sidesOf_of_side? (h : s.side? typeName field = some side) :
    side ∈ s.sidesOf typeName ∧ side.owner = ⟨typeName, field⟩ := by
  rw [side?_eq_find?] at h
  have howner : (side.owner == ⟨typeName, field⟩) = true :=
    List.find?_some (p := fun side : EdgeSide => side.owner == ⟨typeName, field⟩) h
  rw [beq_iff_eq] at howner
  exact ⟨mem_sidesOf.mpr ⟨List.mem_of_find?_eq_some h, by rw [howner]⟩, howner⟩

/-- The side behind a field is the first side of its type with that field. -/
theorem side?_eq_find?_sidesOf (s : Schema) (typeName field : String) :
    s.side? typeName field = (s.sidesOf typeName).find? fun side => side.owner.field == field := by
  rw [side?_eq_find?, sidesOf_eq_filter, List.find?_filter]
  congr 1
  funext side
  obtain ⟨⟨ownType, ownField⟩, -⟩ := side
  rw [Bool.eq_iff_iff]
  simp [TypeField.mk.injEq]

/-- The tables of a schema agree with its list of sides, in which types, fields and whole sides may be repeated. (1)
The side behind a field is the first of the list with that type and field, and there is none exactly where the list has
none. (2) The sides of a type are those of the list, in its order, each as often as the list has it. (3) The side
behind a field is the first one with that field among the sides of the type. -/
theorem tables_agree_with_list (sides : List EdgeSide) (typeName field : String) :
    (∀ side, (ofSides sides).side? typeName field = some side ↔
      IsFirst (fun other => other.owner = ⟨typeName, field⟩) sides side) ∧
    ((ofSides sides).side? typeName field = none ↔ ∀ side ∈ sides, side.owner ≠ ⟨typeName, field⟩) ∧
    (ofSides sides).sidesOf typeName = sides.filter (fun side => side.owner.typeName = typeName) ∧
    ∀ side, (ofSides sides).side? typeName field = some side ↔
      IsFirst (fun other => other.owner.field = field) ((ofSides sides).sidesOf typeName) side := by
  refine ⟨fun side => ?_, ?_, ?_, fun side => ?_⟩
  · rw [side?_eq_find?, find?_eq_some_iff_isFirst]
    simp only [beq_iff_eq]
    rfl
  · rw [side?_eq_find?, List.find?_eq_none]
    simp only [beq_iff_eq]
    rfl
  · rw [sidesOf_eq_filter]
    rfl
  · rw [side?_eq_find?_sidesOf, find?_eq_some_iff_isFirst]
    simp only [beq_iff_eq]

end Schema

namespace Sample

/-- The author of a post, its tags, the same field again under another name, and the tags once more. -/
def redeclared : List EdgeSide :=
  [.outgoing "Post" "author" "User" "wrote", .outgoing "Post" "tags" "Tag" "tagged",
    .outgoing "Post" "tags" "Topic" "about",
    .outgoing "User" "tags" "Tag" "likes", .outgoing "Post" "tags" "Tag" "tagged"]

/-- The field of the tags leads over the first side that is declared for it; the type has all four of its sides, and a
field that is declared on another type is none of it. -/
theorem redeclared_are_found :
    (Schema.ofSides redeclared).side? "Post" "tags" = some (.outgoing "Post" "tags" "Tag" "tagged") ∧
    (Schema.ofSides redeclared).side? "User" "author" = none ∧
    ((Schema.ofSides redeclared).sidesOf "Post").map EdgeSide.edgeName = ["wrote", "tagged", "about", "tagged"] := by
  obtain ⟨hfirst, -, hsides, -⟩ := Schema.tables_agree_with_list redeclared "Post" "tags"
  obtain ⟨-, hnone, -, -⟩ := Schema.tables_agree_with_list redeclared "User" "author"
  refine ⟨(hfirst _).mpr ⟨[.outgoing "Post" "author" "User" "wrote"], _, rfl, rfl, by decide⟩,
    hnone.mpr (by decide), ?_⟩
  rw [hsides]
  decide

end Sample

end PropertyGraph
