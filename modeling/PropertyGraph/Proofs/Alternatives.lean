import Mathlib.Data.List.Induction
import PropertyGraph.Proofs.FilterGrammar

/-!
# The predicates of a filter are alternatives

A filter is built by adding predicates on fields to the filter without any. A predicate joins those that are there on
its field, or opens the field at the end, so that the same predicates in another order give another filter; but every
filter has exactly the predicates that were added (`Filter.hasPredicate_ofPredicates`), and a node is kept for any one
of them. What is kept therefore depends on which predicates were added alone (`Filter.predicates_are_alternatives`).
-/

namespace PropertyGraph

/-- The field filters with one more predicate have those that were there, and the new one on its field. -/
theorem mem_addPredicate {field other : String} {p q : Predicate} {filters : List FieldFilter} :
    (∃ filter ∈ addPredicate field p filters, filter.field = other ∧ q ∈ filter.predicates) ↔
      (∃ filter ∈ filters, filter.field = other ∧ q ∈ filter.predicates) ∨ (other = field ∧ q = p) := by
  induction filters with
  | nil => simp [addPredicate, eq_comm]
  | cons first rest ih =>
    rw [addPredicate]
    split
    next hfield =>
      subst hfield
      simp only [List.exists_mem_cons_iff, List.mem_append, List.mem_singleton]
      constructor
      · rintro (⟨rfl, hq | rfl⟩ | hrest)
        · exact Or.inl (Or.inl ⟨rfl, hq⟩)
        · exact Or.inr ⟨rfl, rfl⟩
        · exact Or.inl (Or.inr hrest)
      · rintro ((⟨rfl, hq⟩ | hrest) | ⟨rfl, rfl⟩)
        · exact Or.inl ⟨rfl, Or.inl hq⟩
        · exact Or.inr hrest
        · exact Or.inl ⟨rfl, Or.inr rfl⟩
    · rw [List.exists_mem_cons_iff, List.exists_mem_cons_iff, ih, or_assoc]

namespace Filter

/-- The filter of predicates on fields, added one after the other to the filter without any. -/
def ofPredicates (pairs : List (String × Predicate)) : Filter := pairs.foldl (fun f pair => f.add pair.1 pair.2) empty

variable {pairs others : List (String × Predicate)} {node : Fields}

theorem ofPredicates_concat (pairs : List (String × Predicate)) (field : String) (p : Predicate) :
    ofPredicates (pairs ++ [(field, p)]) = (ofPredicates pairs).add field p := by
  rw [ofPredicates, List.foldl_append, List.foldl_cons, List.foldl_nil, ofPredicates]

/-- A filter with one more predicate has those that it had, and the new one on its field. -/
theorem hasPredicate_add {f : Filter} {field other : String} {p q : Predicate} :
    (f.add field p).HasPredicate other q ↔ f.HasPredicate other q ∨ (other = field ∧ q = p) :=
  mem_addPredicate

/-- A filter has exactly the predicates that were added to it. -/
theorem hasPredicate_ofPredicates {field : String} {p : Predicate} :
    (ofPredicates pairs).HasPredicate field p ↔ (field, p) ∈ pairs := by
  induction pairs using List.reverseRecOn with
  | nil => simp [ofPredicates, empty, HasPredicate]
  | append_singleton pairs last ih =>
    obtain ⟨name, q⟩ := last
    rw [ofPredicates_concat, hasPredicate_add, ih, List.mem_append, List.mem_singleton, Prod.mk.injEq]

/-- A filter keeps the nodes in which some added predicate is satisfied by the field that it is on. -/
theorem keeps_ofPredicates :
    (ofPredicates pairs).keeps node = true ↔
    ∃ pair ∈ pairs, ∃ v, node.lookup pair.1 = some v ∧ pair.2.isMatch v = true := by
  simp only [keeps_iff, hasPredicate_ofPredicates]
  constructor
  · rintro ⟨field, c, o, v, hpair, hv, hmatch⟩
    exact ⟨(field, ⟨c, o⟩), hpair, v, hv, hmatch⟩
  · rintro ⟨⟨field, ⟨c, o⟩⟩, hpair, v, hv, hmatch⟩
    exact ⟨field, c, o, v, hpair, hv, hmatch⟩

/-- What is kept by more predicates is kept still. -/
theorem keeps_ofPredicates_of_subset (h : pairs ⊆ others) (hkept : (ofPredicates pairs).keeps node = true) :
    (ofPredicates others).keeps node = true := by
  obtain ⟨pair, hpair, hmatch⟩ := keeps_ofPredicates.mp hkept
  exact keeps_ofPredicates.mpr ⟨pair, h hpair, hmatch⟩

/-- Predicates that are added after others keep what either of them keep. -/
theorem keeps_ofPredicates_append :
    (ofPredicates (pairs ++ others)).keeps node =
      ((ofPredicates pairs).keeps node || (ofPredicates others).keeps node) := by
  rw [Bool.eq_iff_iff, Bool.or_eq_true, keeps_ofPredicates, keeps_ofPredicates, keeps_ofPredicates]
  simp only [List.mem_append, or_and_right, exists_or]

/-- The predicates that were added to a filter are alternatives, and nothing else about them tells:
1. A node is kept exactly where, for some added predicate, it has the field and the value there satisfies the predicate.
2. The same predicates, in another order or repeated, keep the same nodes of every list.
3. Adding a predicate takes away no node that was kept.
4. Predicates that are added after others keep exactly the nodes that the first or the second keep.
5. What is kept of a list stands in it in this order, and filtering it again changes nothing. -/
theorem predicates_are_alternatives (pairs : List (String × Predicate)) (nodes : List Fields) :
    (∀ node : Fields, (ofPredicates pairs).keeps node = true ↔
      ∃ pair ∈ pairs, ∃ v, node.lookup pair.1 = some v ∧ pair.2.isMatch v = true) ∧
    (∀ others : List (String × Predicate), (∀ pair, pair ∈ others ↔ pair ∈ pairs) →
      (ofPredicates others).apply nodes = (ofPredicates pairs).apply nodes) ∧
    (∀ field p, ((ofPredicates pairs).apply nodes).Sublist (((ofPredicates pairs).add field p).apply nodes)) ∧
    (∀ others : List (String × Predicate), (ofPredicates (pairs ++ others)).apply nodes =
      nodes.filter fun node => (ofPredicates pairs).keeps node || (ofPredicates others).keeps node) ∧
    ((ofPredicates pairs).apply nodes).Sublist nodes ∧
    (ofPredicates pairs).apply ((ofPredicates pairs).apply nodes) = (ofPredicates pairs).apply nodes := by
  refine ⟨fun node => keeps_ofPredicates, ?_, ?_, ?_, List.filter_sublist, ?_⟩
  · intro others hsame
    refine List.filter_congr fun node _ => ?_
    rw [Bool.eq_iff_iff, keeps_ofPredicates, keeps_ofPredicates]
    simp only [hsame]
  · intro field p
    rw [← ofPredicates_concat]
    exact List.monotone_filter_right nodes fun node => keeps_ofPredicates_of_subset (List.subset_append_left ..)
  · intro others
    exact List.filter_congr fun node _ => keeps_ofPredicates_append
  · rw [apply, apply, List.filter_filter]
    simp only [Bool.and_self]

end Filter

namespace Sample

/-- Whose name begins with a G, or whose age is below 30, or whose name ends with an l. -/
def alternatives : List (String × Predicate) :=
  [("name", ⟨.beginsWith, .value (.string "G")⟩), ("age", ⟨.lessThan, .value (.int 30)⟩),
    ("name", ⟨.endsWith, .value (.string "l")⟩)]

/-- The same predicates in another order, the first of them repeated: other filters, with the fields the other way
round. -/
def rearranged : List (String × Predicate) :=
  [("age", ⟨.lessThan, .value (.int 30)⟩), ("name", ⟨.endsWith, .value (.string "l")⟩),
    ("name", ⟨.beginsWith, .value (.string "G")⟩),
    ("age", ⟨.lessThan, .value (.int 30)⟩)]

/-- Three users, none of them below 30. -/
def elders : List Fields :=
  [[("name", .string "Gus"), ("age", .int 40)], [("name", .string "Eve"), ("age", .int 40)],
    [("age", .int 40), ("name", .string "Hal")]]

/-- The two filters have their fields in another order, and keep the same of the three users: Gus and Hal, each for his
name. -/
theorem rearranged_keep_the_same :
    (Filter.ofPredicates rearranged).fields.map FieldFilter.field ≠
      (Filter.ofPredicates alternatives).fields.map FieldFilter.field ∧
    (∀ pair, pair ∈ rearranged ↔ pair ∈ alternatives) ∧
    (Filter.ofPredicates rearranged).apply elders = (Filter.ofPredicates alternatives).apply elders ∧
    ((Filter.ofPredicates rearranged).apply elders).map (Fields.string? · "name") = [some "Gus", some "Hal"] := by
  have hsame : ∀ pair, pair ∈ rearranged ↔ pair ∈ alternatives := by
    intro pair
    simp only [rearranged, alternatives, List.mem_cons, List.not_mem_nil, or_false]
    tauto
  have hequal := (Filter.predicates_are_alternatives alternatives elders).2.1 rearranged hsame
  refine ⟨by decide, hsame, hequal, ?_⟩
  rw [hequal]
  decide +kernel

end Sample

end PropertyGraph
