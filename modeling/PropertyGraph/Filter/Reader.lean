import PropertyGraph.Error
import PropertyGraph.Filter.Basic
import PropertyGraph.Json.Values

/-!
# Reading a filter

A filter is given as a JSON object from field names to objects from comparison names to operands. A null stands for
something that is not asked for and is passed over, a field or an operand, but the name of a comparison must be known
even above a null. The comparison `between` takes an array of two numbers, every other comparison one boolean, number
or text.
-/

namespace PropertyGraph

/-- A bound of `between`. -/
def readBound (field : String) (j : Json) : Except GraphError Value :=
  match Value.ofJson j with
  | some (.int n) => .ok (.int n)
  | some (.float x) => .ok (.float x)
  | _ => .error (.input (.boundsNotNumbers field))

/-- The operand of a comparison on a field. -/
def readOperand (field : String) (c : Comparison) (j : Json) : Except GraphError Operand :=
  if c = .between then
    match j with
    | .array [low, high] => do return .range (← readBound field low) (← readBound field high)
    | _ => .error (.input (.boundsNotTwo field))
  else
    match Value.ofJson j with
    | some (.bool b) => .ok (.value (.bool b))
    | some (.int n) => .ok (.value (.int n))
    | some (.float x) => .ok (.value (.float x))
    | some (.string s) => .ok (.value (.string s))
    | _ => .error (.input (.operandNotScalar c.name field))

/-- The predicates on a field. -/
def readPredicates (field : String) : List (String × Json) → Except GraphError (List Predicate)
  | [] => .ok []
  | (name, j) :: rest =>
    match Comparison.ofName? name with
    | none => .error (.input (.unknownComparison name))
    | some c =>
      if j.isNull then readPredicates field rest
      else do
        let operand ← readOperand field c j
        let predicates ← readPredicates field rest
        return ⟨c, operand⟩ :: predicates

/-- The field filters of the members of a filter. -/
def readFieldFilters : List (String × Json) → Except GraphError (List FieldFilter)
  | [] => .ok []
  | (field, j) :: rest =>
    if j.isNull then readFieldFilters rest
    else
      match j.members? with
      | none => .error (.input (.fieldFilterNotObject field))
      | some comparisons => do
        let predicates ← readPredicates field comparisons.entries
        let filters ← readFieldFilters rest
        return ⟨field, predicates⟩ :: filters

/-- The filter that a JSON value gives. -/
def Filter.ofJson (j : Json) : Except GraphError Filter :=
  match j.members? with
  | none => .error (.input .filterNotObject)
  | some fields => (readFieldFilters fields.entries).map Filter.mk

end PropertyGraph
