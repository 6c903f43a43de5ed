/-!
# Fresh ids

Ids are drawn one after the other from a sequence. What draws them says which ids they are; here only their order
matters. A step that draws ids keeps those it drew also when it fails.
-/

namespace PropertyGraph

/-- A sequence of ids, of which some are drawn already. -/
structure IdSource where
  /-- The ids by their place in the sequence. -/
  sequence : Nat → String
  /-- How many are drawn. -/
  drawn : Nat

/-- The next id, and the sequence after it. -/
def IdSource.draw (ids : IdSource) : String × IdSource := (ids.sequence ids.drawn, { ids with drawn := ids.drawn + 1 })

/-- The id that is given, else the next one. -/
def IdSource.drawUnless (ids : IdSource) : Option String → String × IdSource
  | some id => (id, ids)
  | none => ids.draw

/-- The ids drawn between two states of a sequence. -/
def IdSource.drawnSince (before after : IdSource) : List String :=
  (List.range' before.drawn (after.drawn - before.drawn)).map before.sequence

end PropertyGraph
