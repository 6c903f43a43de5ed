import PropertyGraph.Proofs.FullScan
import PropertyGraph.Proofs.Reducing

/-!
# What a valid schema tells apart

A side is mirrored by another where the two say the same of one relationship from its two ends
(`EdgeSide.mirrors_iff`). A schema is valid exactly where every side is mirrored and no two sides say the same of a
relationship (`Schema.validate_eq_ok_iff`). So sides of one type may share a field, and they may share the name and the
direction of their edges; only where they share all of these do they lead back by different fields. Of the first two
the schema looks up the first, and of the second each lists the edges of the other (`Schema.relationships_of_valid`).
-/

namespace PropertyGraph

/-! ## Relationships -/

/-- What a side says of its relationship: the fields at both ends, the name, and at which end the edges lie. -/
structure Relationship where
  owner : TypeField
  counterpart : TypeField
  edgeName : String
  principal : Bool
  deriving DecidableEq, Repr

/-- What the other end says of the same relationship. -/
def Relationship.mirrored (r : Relationship) : Relationship := ⟨r.counterpart, r.owner, r.edgeName, !r.principal⟩

@[simp] theorem Relationship.mirrored_mirrored (r : Relationship) : r.mirrored.mirrored = r := by
  simp [mirrored]

/-- What a side says of its relationship. -/
def EdgeSide.relationship (side : EdgeSide) : Relationship :=
  ⟨side.owner, side.counterpart, side.edgeName, side.principal⟩

/-- A side is mirrored by one that says the same from the other end. -/
theorem EdgeSide.mirrors_iff {a b : EdgeSide} : a.mirrors b = true ↔ b.relationship = a.relationship.mirrored := by
  simp only [mirrors, relationship, Relationship.mirrored, Relationship.mk.injEq, Bool.and_eq_true, beq_iff_eq,
    bne_iff_ne]
  constructor
  · rintro ⟨⟨⟨hname, hprincipal⟩, howner⟩, hback⟩
    refine ⟨hback, howner.symm, hname.symm, ?_⟩
    cases ha : a.principal <;> cases hb : b.principal <;> simp_all
  · rintro ⟨hback, howner, hname, hprincipal⟩
    exact ⟨⟨⟨hname.symm, by simp [hprincipal]⟩, howner.symm⟩, hback⟩

namespace Schema

variable {s : Schema} {typeName : String} {side : EdgeSide}

/-- How many sides mirror a side is how many say of their relationship what the other end of the side says. -/
theorem mirrorCount_eq (sides : List EdgeSide) (side : EdgeSide) :
    mirrorCount sides side = (sides.map EdgeSide.relationship).count side.relationship.mirrored := by
  rw [mirrorCount, ← List.countP_eq_length_filter, List.count, List.countP_map]
  refine List.countP_congr ?_
  intro other _
  rw [EdgeSide.mirrors_iff, Function.comp_apply, beq_iff_eq]

/-- A schema is valid where every side is mirrored by exactly one side. -/
theorem validate_eq_ok : s.validate = .ok () ↔ ∀ side ∈ s.sides, mirrorCount s.sides side = 1 := by
  rw [validate, fault?]
  cases hfind : s.sides.find? fun side => mirrorCount s.sides side != 1 with
  | none =>
    rw [List.find?_eq_none] at hfind
    refine iff_of_true rfl ?_
    intro side hside
    simpa using hfind side hside
  | some side =>
    have hcount := List.find?_some hfind
    refine iff_of_false (by simp) ?_
    intro h
    simp [h side (List.mem_of_find?_eq_some hfind)] at hcount

/-- A schema is valid exactly where no two sides say the same of a relationship and every side is mirrored: those that
say the same are the ones that mirror the side which mirrors one of them. -/
theorem validate_eq_ok_iff : s.validate = .ok () ↔
    (s.sides.map EdgeSide.relationship).Nodup ∧ ∀ side ∈ s.sides, ∃ other ∈ s.sides, side.mirrors other = true := by
  rw [validate_eq_ok]
  constructor
  · intro h
    have hmirrored : ∀ side ∈ s.sides, ∃ other ∈ s.sides, side.mirrors other = true := by
      intro side hside
      have hsome : 0 < (s.sides.filter side.mirrors).length := by
        rw [← mirrorCount, h side hside]
        exact Nat.one_pos
      obtain ⟨other, hother⟩ := List.exists_mem_of_length_pos hsome
      exact ⟨other, (List.mem_filter.mp hother).1, (List.mem_filter.mp hother).2⟩
    refine ⟨List.nodup_iff_count.mpr ?_, hmirrored⟩
    intro relationship
    by_cases hmem : relationship ∈ s.sides.map EdgeSide.relationship
    · obtain ⟨side, hside, rfl⟩ := List.mem_map.mp hmem
      obtain ⟨other, hother, hmirrors⟩ := hmirrored side hside
      have hcount := h other hother
      rw [mirrorCount_eq, EdgeSide.mirrors_iff.mp hmirrors, Relationship.mirrored_mirrored] at hcount
      exact Nat.le_of_eq hcount
    · rw [List.count_eq_zero.mpr hmem]
      exact Nat.zero_le 1
  · rintro ⟨hnodup, hmirrored⟩ side hside
    obtain ⟨other, hother, hmirrors⟩ := hmirrored side hside
    rw [mirrorCount_eq, hnodup.count, if_pos]
    exact List.mem_map.mpr ⟨other, hother, EdgeSide.mirrors_iff.mp hmirrors⟩

end Schema

/-! ## What stands under a field -/

/-- An edge that is made along one side stands under the field of another exactly where both have one name and one
direction, or one name and the edge leads from a node to itself. -/
theorem edgeItems_link_ne_nil (a b : EdgeSide) (now : Int64) (near far : String) (stamp : Stamp) :
    edgeItems now near b [.edge (a.link near far stamp)] ≠ [] ↔
      a.edgeName = b.edgeName ∧ (a.principal = b.principal ∨ near = far) := by
  have hlive : ∀ r ∈ [Record.edge (a.link near far stamp)], r.isExpired now = false := by
    intro r hr
    rw [List.mem_singleton.mp hr, EdgeSide.link]
    split <;> rfl
  have hedges : edgesOf [Record.edge (a.link near far stamp)] = [a.link near far stamp] := rfl
  have hfrom : b.isFrom near (a.link near far stamp) = true ↔
      a.edgeName = b.edgeName ∧ (a.principal = b.principal ∨ near = far) := by
    rw [EdgeSide.isFrom, Bool.and_eq_true, beq_iff_eq, beq_iff_eq, EdgeSide.link, EdgeSide.near]
    cases a.principal <;> cases b.principal <;> simp [eq_comm]
  rw [edgeItems_eq hlive, hedges, ← hfrom, ne_eq, List.map_eq_nil_iff, List.filter_eq_nil_iff]
  simp

namespace Schema

/-- What a valid schema tells apart among the sides of a type:
1. Two different sides that share the field, the name and the direction of their edges lead back by different fields.
2. An edge that is made along one side stands under the field of another exactly where they share the name and either
   the direction or both ends of the edge.
3. The side behind a field is the first one of the type with that field. -/
theorem relationships_of_valid {s : Schema} (h : s.validate = .ok ()) (typeName : String) :
    (s.sidesOf typeName).Pairwise (fun a b =>
        a.owner.field = b.owner.field → a.edgeName = b.edgeName → a.principal = b.principal →
        a.counterpart ≠ b.counterpart) ∧
      (∀ a ∈ s.sidesOf typeName, ∀ b ∈ s.sidesOf typeName, ∀ now near far stamp,
        edgeItems now near b [.edge (a.link near far stamp)] ≠ [] ↔
          a.edgeName = b.edgeName ∧ (a.principal = b.principal ∨ near = far)) ∧
      ∀ field, s.side? typeName field = (s.sidesOf typeName).find? fun side => side.owner.field == field := by
  obtain ⟨hnodup, -⟩ := validate_eq_ok_iff.mp h
  refine ⟨?_, ?_, s.side?_eq_find?_sidesOf typeName⟩
  · rw [sidesOf_eq_filter]
    have hapart : (s.sides.filter fun side => side.owner.typeName == typeName).Pairwise
        fun a b => a.relationship ≠ b.relationship :=
      (List.pairwise_map.mp hnodup).filter _
    refine List.Pairwise.imp_of_mem ?_ hapart
    intro a b ha hb hne hfield hname hprincipal hback
    have htype : a.owner.typeName = b.owner.typeName :=
      (beq_iff_eq.mp (List.mem_filter.mp ha).2).trans (beq_iff_eq.mp (List.mem_filter.mp hb).2).symm
    have howner : a.owner = b.owner := by
      cases hao : a.owner
      cases hbo : b.owner
      simp_all
    refine hne ?_
    rw [EdgeSide.relationship, EdgeSide.relationship, howner, hback, hname, hprincipal]
  · intro a _ b _ now near far stamp
    exact edgeItems_link_ne_nil a b now near far stamp

end Schema

namespace Sample

/-- Whom a user follows, led back to by another field. -/
def fanOf : EdgeSide := { follows with counterpart := ⟨"User", "fans"⟩ }

/-- Who follows a user, by another field. -/
def fans : EdgeSide := { followers with owner := ⟨"User", "fans"⟩ }

/-- Two relationships of one name and direction that begin at one field. -/
def doubled : Schema := .ofSides [follows, followers, fanOf, fans]

/-- In that schema, which is valid, the two sides that share the field, name and direction lead back by different
fields, and an edge that is made along one of the other two stands under the field of the last one as well. -/
theorem doubled_relationships : doubled.validate = .ok () ∧ follows.counterpart ≠ fanOf.counterpart ∧
    edgeItems 0 "eve" fans [.edge (followers.link "eve" "gus" default)] ≠ [] ∧
    doubled.side? "User" "follows" = (doubled.sidesOf "User").find? fun side => side.owner.field == "follows" := by
  have hvalid : doubled.validate = .ok () := rfl
  obtain ⟨happart, hlisted, hfield⟩ := Schema.relationships_of_valid hvalid "User"
  have hsides : doubled.sidesOf "User" = [follows, followers, fanOf, fans] := by decide
  rw [hsides] at happart hlisted
  refine ⟨hvalid, ?_, ?_, hfield "follows"⟩
  · exact (List.pairwise_cons.mp happart).1 fanOf (by decide) rfl rfl rfl
  · exact (hlisted followers (by decide) fans (by decide) 0 "eve" "gus" default).mpr ⟨rfl, Or.inl rfl⟩

/-- That schema is valid, and on its type two different sides have one field, one name and one direction, of which the
field leads to the first alone; and an edge that is made along a side of one field stands under another field. -/
theorem doubled_is_valid : doubled.validate = .ok () ∧
    (follows ∈ doubled.sidesOf "User" ∧ fanOf ∈ doubled.sidesOf "User" ∧ follows ≠ fanOf ∧ follows.owner = fanOf.owner ∧
      follows.edgeName = fanOf.edgeName ∧ follows.principal = fanOf.principal ∧
      doubled.side? "User" "follows" ≠ some fanOf) ∧
    (followers ∈ doubled.sidesOf "User" ∧ fans ∈ doubled.sidesOf "User" ∧ followers.owner ≠ fans.owner ∧
      edgeItems 0 "eve" fans [.edge (followers.link "eve" "gus" default)] = [⟨"gus", "eve", "follow"⟩]) := by
  refine ⟨rfl, ?_⟩
  decide

end Sample

end PropertyGraph
