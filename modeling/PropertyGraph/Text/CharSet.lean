/-!
# Sets of characters

A large set of characters is given by the ranges of their code points.
-/

namespace PropertyGraph
namespace Text

/-- A set of characters: the first and the last code point of each of its ranges, in order. -/
structure CharSet where
  ranges : Array (Nat × Nat)

/-- Whether a character is in the set. -/
def CharSet.contains (set : CharSet) (c : Char) : Bool :=
  set.ranges.any fun range => range.1 ≤ c.toNat && c.toNat ≤ range.2

end Text
end PropertyGraph
