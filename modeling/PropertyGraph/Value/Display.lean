import PropertyGraph.Decimal.Shortest
import PropertyGraph.Text.Quoted
import PropertyGraph.Value

/-!
# Values in messages

A message that reports an attribute of the wrong sort shows its value with the sort in front, so that the text `5` and
the number 5 are told apart.
-/

namespace PropertyGraph

/-- A number in a message is positional from a ten-thousandth up to below ten to the sixteenth. -/
def messageNumber : Decimal.Style := ⟨-4, 15⟩

/-- A floating point number in a message: the fewest digits that read back, or its name where it is not finite. -/
def displayFloat (x : Float) : String :=
  if x.isNaN then "NaN"
  else if x.isInf then (if x > 0 then "inf" else "-inf")
  else messageNumber.text x

namespace Value

mutual

/-- A value with its sort, as messages show it. -/
def display : Value → String
  | .bool b => "Bool(" ++ (if b then "true" else "false") ++ ")"
  | .int n => "Int(" ++ toString n.toInt ++ ")"
  | .float x => "Float(" ++ displayFloat x ++ ")"
  | .string s => "String(" ++ Text.quoted s ++ ")"
  | .list items => "List([" ++ ", ".intercalate (displayItems items) ++ "])"
  | .node fields => "Node(\x7b" ++ ", ".intercalate (displayFields fields) ++ "\x7d)"

/-- The values of a list, as messages show them. -/
def displayItems : List Value → List String
  | [] => []
  | v :: rest => display v :: displayItems rest

/-- Named values, as messages show them. -/
def displayFields : List (String × Value) → List String
  | [] => []
  | (name, v) :: rest => (Text.quoted name ++ ": " ++ display v) :: displayFields rest

end

end Value
end PropertyGraph
