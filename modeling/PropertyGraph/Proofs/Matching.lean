import Mathlib.Data.List.Nodup
import PropertyGraph.Proofs.Pairing

/-!
# A valid schema is a perfect matching

Validation counts, for each side, the sides that mirror it. A side is mirrored by those that say the same of its
relationship from the other end, and it mirrors them in turn; so where each count is one, the places of the schema are
paired off, each side with the one that it mirrors (`Schema.valid_is_matching`).
-/

namespace PropertyGraph

/-- Whether a map of the places of a list pairs its sides off: each side with another one that has the same name, is
principal where the first is not, and is found by the field that leads back from the first. -/
structure IsMatching (sides : List EdgeSide) (partner : Fin sides.length → Fin sides.length) : Prop where
  partner_partner : ∀ i, partner (partner i) = i
  partner_ne : ∀ i, partner i ≠ i
  edgeName_partner : ∀ i, (sides.get (partner i)).edgeName = (sides.get i).edgeName
  principal_partner : ∀ i, (sides.get (partner i)).principal = !(sides.get i).principal
  owner_partner : ∀ i, (sides.get (partner i)).owner = (sides.get i).counterpart
  counterpart_partner : ∀ i, (sides.get (partner i)).counterpart = (sides.get i).owner

namespace EdgeSide

variable {a b : EdgeSide}

theorem mirrors_comm : a.mirrors b = true ↔ b.mirrors a = true := by
  rw [mirrors_iff, mirrors_iff]
  constructor <;> intro h <;> rw [h, Relationship.mirrored_mirrored]

theorem not_mirrors_self : ¬ a.mirrors a = true := by
  simp [mirrors]

end EdgeSide

section Places

variable {sides : List EdgeSide} {partner : Fin sides.length → Fin sides.length}

/-- Where no two sides say the same of a relationship, sides at two places do not. -/
theorem eq_of_relationship_eq (h : (sides.map EdgeSide.relationship).Nodup) {i j : Fin sides.length}
    (hsame : (sides.get i).relationship = (sides.get j).relationship) : i = j := by
  have hsides : sides.get i = sides.get j := List.inj_on_of_nodup_map h (List.get_mem ..) (List.get_mem ..) hsame
  exact List.nodup_iff_injective_get.mp (List.Nodup.of_map _ h) hsides

/-- A map that sends each place to the one whose side is mirrored pairs the sides off. -/
theorem isMatching_of_mirrors (h : ∀ i j, (sides.get i).mirrors (sides.get j) = true ↔ j = partner i) :
    IsMatching sides partner := by
  have hmirrors : ∀ i, (sides.get i).mirrors (sides.get (partner i)) = true := fun i => (h i _).mpr rfl
  have hmirrored : ∀ i, (sides.get (partner i)).relationship = (sides.get i).relationship.mirrored :=
    fun i => EdgeSide.mirrors_iff.mp (hmirrors i)
  refine ⟨fun i => ?_, fun i heq => ?_, fun i => ?_, fun i => ?_, fun i => ?_, fun i => ?_⟩
  · exact ((h (partner i) i).mp (EdgeSide.mirrors_comm.mp (hmirrors i))).symm
  · exact EdgeSide.not_mirrors_self ((h i i).mpr heq.symm)
  · exact congrArg Relationship.edgeName (hmirrored i)
  · exact congrArg Relationship.principal (hmirrored i)
  · exact congrArg Relationship.owner (hmirrored i)
  · exact congrArg Relationship.counterpart (hmirrored i)

namespace IsMatching

/-- A side mirrors its partner. -/
theorem mirrors_partner (h : IsMatching sides partner) (i : Fin sides.length) :
    (sides.get i).mirrors (sides.get (partner i)) = true := by
  rw [EdgeSide.mirrors_iff, EdgeSide.relationship, h.owner_partner, h.counterpart_partner, h.edgeName_partner,
    h.principal_partner]
  rfl

/-- Where sides mirror their partners alone, no two say the same of a relationship. -/
theorem nodup_relationships (h : IsMatching sides partner)
    (halone : ∀ i j, (sides.get i).mirrors (sides.get j) = true → j = partner i) :
    (sides.map EdgeSide.relationship).Nodup := by
  have hplaces : ∀ i j, (sides.get i).relationship = (sides.get j).relationship → i = j := by
    intro i j hsame
    have hmirrors : (sides.get (partner i)).mirrors (sides.get j) = true := by
      rw [EdgeSide.mirrors_iff, ← hsame, ← EdgeSide.mirrors_iff, EdgeSide.mirrors_comm]
      exact h.mirrors_partner i
    rw [halone _ _ hmirrors, h.partner_partner]
  have hnodup : sides.Nodup :=
    List.nodup_iff_injective_get.mpr fun i j heq => hplaces i j (congrArg EdgeSide.relationship heq)
  refine (List.nodup_map_iff_inj_on hnodup).mpr fun a ha b hb hsame => ?_
  obtain ⟨i, rfl⟩ := List.get_of_mem ha
  obtain ⟨j, rfl⟩ := List.get_of_mem hb
  rw [hplaces i j hsame]

end IsMatching

end Places

namespace Schema

variable {s t : Schema}

/-- In a valid schema every place has a partner, whose side and no other one mirrors the side of the place. -/
theorem exists_partner (h : s.validate = .ok ()) :
    ∃ partner : Fin s.sides.length → Fin s.sides.length,
      ∀ i j, (s.sides.get i).mirrors (s.sides.get j) = true ↔ j = partner i := by
  obtain ⟨hnodup, hmirrored⟩ := validate_eq_ok_iff.mp h
  have hsome : ∀ i, ∃ j, (s.sides.get i).mirrors (s.sides.get j) = true := by
    intro i
    obtain ⟨other, hother, hmirrors⟩ := hmirrored (s.sides.get i) (List.get_mem ..)
    obtain ⟨j, rfl⟩ := List.get_of_mem hother
    exact ⟨j, hmirrors⟩
  choose partner hpartner using hsome
  refine ⟨partner, fun i j => ⟨fun hmirrors => eq_of_relationship_eq hnodup ?_, fun heq => heq ▸ hpartner i⟩⟩
  rw [EdgeSide.mirrors_iff.mp hmirrors, EdgeSide.mirrors_iff.mp (hpartner i)]

/-- A schema is valid where its sides are paired off and mirror their partners alone. -/
theorem validate_of_isMatching {partner : Fin s.sides.length → Fin s.sides.length} (h : IsMatching s.sides partner)
    (halone : ∀ i j, (s.sides.get i).mirrors (s.sides.get j) = true → j = partner i) : s.validate = .ok () := by
  refine validate_eq_ok_iff.mpr ⟨h.nodup_relationships halone, fun side hside => ?_⟩
  obtain ⟨i, rfl⟩ := List.get_of_mem hside
  exact ⟨_, List.get_mem .., h.mirrors_partner i⟩

/-- What the sides of a valid schema say of their relationships is the same as what is said from the other ends. -/
theorem mirrored_perm (h : s.validate = .ok ()) :
    ((s.sides.map EdgeSide.relationship).map Relationship.mirrored).Perm (s.sides.map EdgeSide.relationship) := by
  obtain ⟨hnodup, hmirrored⟩ := validate_eq_ok_iff.mp h
  have hinjective : Function.Injective Relationship.mirrored :=
    Function.LeftInverse.injective Relationship.mirrored_mirrored
  have hmem : ∀ r ∈ s.sides.map EdgeSide.relationship, r.mirrored ∈ s.sides.map EdgeSide.relationship := by
    intro r hr
    obtain ⟨side, hside, rfl⟩ := List.mem_map.mp hr
    obtain ⟨other, hother, hmirrors⟩ := hmirrored side hside
    exact List.mem_map.mpr ⟨other, hother, EdgeSide.mirrors_iff.mp hmirrors⟩
  refine (List.perm_ext_iff_of_nodup (hnodup.map hinjective) hnodup).mpr fun r => ⟨fun hr => ?_, fun hr => ?_⟩
  · obtain ⟨r', hr', rfl⟩ := List.mem_map.mp hr
    exact hmem r' hr'
  · exact List.mem_map.mpr ⟨r.mirrored, hmem r hr, r.mirrored_mirrored⟩

/-- A valid schema has as many principal sides as others. -/
theorem countP_principal (h : s.validate = .ok ()) : s.sides.countP (·.principal) = s.sides.countP (!·.principal) :=
  calc s.sides.countP (·.principal)
    _ = (s.sides.map EdgeSide.relationship).countP (·.principal) := by rw [List.countP_map]; rfl
    _ = ((s.sides.map EdgeSide.relationship).map Relationship.mirrored).countP (·.principal) :=
      ((mirrored_perm h).countP_eq _).symm
    _ = s.sides.countP (!·.principal) := by rw [List.countP_map, List.countP_map]; rfl

theorem validate_perm (h : s.sides.Perm t.sides) : s.validate = .ok () ↔ t.validate = .ok () := by
  simp only [validate_eq_ok_iff, (h.map EdgeSide.relationship).nodup_iff, h.mem_iff]

/-- A valid schema is a perfect matching:
1. Its places are paired off so that each side mirrors its partner and no other side. It has as many principal sides as
   others, and no side twice.
2. Every schema is valid whose sides are paired off and mirror no others than their partners.
3. The order of the sides does not tell. -/
theorem valid_is_matching (s : Schema) :
    (s.validate = .ok () →
      (∃ partner, IsMatching s.sides partner ∧ ∀ i j, (s.sides.get i).mirrors (s.sides.get j) = true ↔ j = partner i) ∧
      s.sides.countP (·.principal) = s.sides.countP (!·.principal) ∧ s.sides.Nodup) ∧
    (∀ partner, IsMatching s.sides partner → (∀ i j, (s.sides.get i).mirrors (s.sides.get j) = true → j = partner i) →
      s.validate = .ok ()) ∧
    ∀ t : Schema, s.sides.Perm t.sides → (s.validate = .ok () ↔ t.validate = .ok ()) := by
  refine ⟨fun h => ⟨?_, countP_principal h, ?_⟩, fun _ => validate_of_isMatching, fun _ => validate_perm⟩
  · obtain ⟨partner, hpartner⟩ := exists_partner h
    exact ⟨partner, isMatching_of_mirrors hpartner, hpartner⟩
  · exact List.Nodup.of_map _ (validate_eq_ok_iff.mp h).1

end Schema

namespace Sample

/-- The places of the doubled schema, each with that of the other side of its relationship. -/
def doubledPartner : Fin doubled.sides.length → Fin doubled.sides.length :=
  fun place => ([1, 0, 3, 2] : List (Fin 4)).get place

/-- The doubled schema is paired off by that map, so that it is valid in any order of its sides, and no two of its
sides are one. -/
theorem doubled_is_matched :
    IsMatching doubled.sides doubledPartner ∧
    (Schema.ofSides [fans, followers, fanOf, follows]).validate = .ok () ∧ doubled.sides.Nodup := by
  have hmatching : IsMatching doubled.sides doubledPartner := by constructor <;> decide
  obtain ⟨hvalid, hmatched, hperm⟩ := Schema.valid_is_matching doubled
  have h := hmatched doubledPartner hmatching (by decide)
  exact ⟨hmatching, (hperm (.ofSides [fans, followers, fanOf, follows]) (by decide)).mp h, (hvalid h).2.2⟩

end Sample

end PropertyGraph
