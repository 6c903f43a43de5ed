import PropertyGraph.Filter.Predicate

/-!
# Filters

A filter has predicates on fields, and keeps the nodes of which some field satisfies some predicate on it. The
predicates on one field stand together, at the place at which the field first came.
-/

namespace PropertyGraph

/-- The predicates on one field. -/
structure FieldFilter where
  field : String
  predicates : List Predicate

/-- Predicates on fields. -/
structure Filter where
  fields : List FieldFilter

/-- The field filters with one more predicate on a field. -/
def addPredicate (field : String) (p : Predicate) : List FieldFilter → List FieldFilter
  | [] => [⟨field, [p]⟩]
  | f :: rest => if f.field = field then ⟨f.field, f.predicates ++ [p]⟩ :: rest else f :: addPredicate field p rest

namespace Filter

/-- The filter without predicates, which keeps nothing. -/
def empty : Filter := ⟨[]⟩

/-- The filter with one more predicate on a field. -/
def add (f : Filter) (field : String) (p : Predicate) : Filter := ⟨addPredicate field p f.fields⟩

/-- Whether a filter has no predicate. -/
def isEmpty (f : Filter) : Bool := f.fields.all fun field => field.predicates.isEmpty

/-- Whether some field of a node satisfies some predicate on it. -/
def keeps (f : Filter) (node : Fields) : Bool :=
  f.fields.any fun filter =>
    match node.lookup filter.field with
    | some v => filter.predicates.any fun p => p.isMatch v
    | none => false

/-- The nodes that a filter keeps, in their order. -/
def apply (f : Filter) (nodes : List Fields) : List Fields := nodes.filter f.keeps

end Filter

end PropertyGraph
