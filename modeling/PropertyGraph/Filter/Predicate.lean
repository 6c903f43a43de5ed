import PropertyGraph.Value

/-!
# Predicates on field values

A predicate is a comparison with its operand. What a comparison means is decided by the sort of the field's value and
then by the operand: booleans are equal or not, texts are ordered by code points and may contain one another, numbers
are ordered, and integers are compared with integers exactly. Values that cannot be compared match no predicate, the
negated ones included.
-/

namespace PropertyGraph

/-- The comparisons. -/
inductive Comparison where
  | notEqualTo | equalTo | lessThan | lessThanOrEqualTo | greaterThan | greaterThanOrEqualTo
  | contains | notContains | beginsWith | endsWith | between
  deriving DecidableEq, Repr

namespace Comparison

/-- The name of a comparison in a filter. -/
def name : Comparison → String
  | .notEqualTo => "notEqualTo"
  | .equalTo => "equalTo"
  | .lessThan => "lessThan"
  | .lessThanOrEqualTo => "lessThanOrEqualTo"
  | .greaterThan => "greaterThan"
  | .greaterThanOrEqualTo => "greaterThanOrEqualTo"
  | .contains => "contains"
  | .notContains => "notContains"
  | .beginsWith => "beginsWith"
  | .endsWith => "endsWith"
  | .between => "between"

/-- All comparisons. -/
def all : List Comparison :=
  [.notEqualTo, .equalTo, .lessThan, .lessThanOrEqualTo, .greaterThan, .greaterThanOrEqualTo, .contains, .notContains,
    .beginsWith, .endsWith, .between]

/-- The comparison of a name. -/
def ofName? (name : String) : Option Comparison := all.find? fun c => c.name == name

end Comparison

/-- What a field is compared with. -/
inductive Operand where
  | value (v : Value)
  /-- Two bounds, both inclusive. -/
  | range (low high : Value)

/-- A comparison with its operand. -/
structure Predicate where
  comparison : Comparison
  operand : Operand

/-- Whether the first text stands somewhere in the second. -/
def isInfix (part : List Char) : List Char → Bool
  | [] => part.isEmpty
  | c :: rest => part.isPrefixOf (c :: rest) || isInfix part rest

namespace Comparison

/-- The comparison of two booleans. -/
def onBools (c : Comparison) (field operand : Bool) : Bool :=
  match c with
  | .equalTo => field == operand
  | .notEqualTo => field != operand
  | _ => false

/-- The comparison of two texts. -/
def onTexts (c : Comparison) (field operand : String) : Bool :=
  match c with
  | .notEqualTo => field != operand
  | .equalTo => field == operand
  | .lessThan => field < operand
  | .lessThanOrEqualTo => !(operand < field)
  | .greaterThan => operand < field
  | .greaterThanOrEqualTo => !(field < operand)
  | .contains => isInfix operand.toList field.toList
  | .notContains => !isInfix operand.toList field.toList
  | .beginsWith => operand.toList.isPrefixOf field.toList
  | .endsWith => operand.toList.isSuffixOf field.toList
  | .between => false

/-- The comparison of two numbers, by their order. -/
def onOrder (c : Comparison) (order : Ordering) : Bool :=
  match c with
  | .equalTo | .contains => order == .eq
  | .notEqualTo | .notContains => order != .eq
  | .lessThan => order == .lt
  | .lessThanOrEqualTo => order != .gt
  | .greaterThan => order == .gt
  | .greaterThanOrEqualTo => order != .lt
  | .beginsWith | .endsWith | .between => false

end Comparison

/-- The order of two floating point numbers, where neither is undefined. -/
def floatOrder? (a b : Float) : Option Ordering :=
  if a < b then some .lt else if b < a then some .gt else if a == b then some .eq else none

/-- The order of two integers. -/
def intOrder (a b : Int64) : Ordering := if a < b then .lt else if b < a then .gt else .eq

/-- The order of two numbers: exact for integers, by their nearest floating point numbers otherwise. -/
def numberOrder? : Value → Value → Option Ordering
  | .int a, .int b => some (intOrder a b)
  | a, b =>
    match a.number?, b.number? with
    | some a, some b => floatOrder? a b
    | _, _ => none

/-- The comparison of a number with an operand. -/
def matchesNumber (c : Comparison) (field : Value) : Operand → Bool
  | .range low high =>
    c == .between && ((numberOrder? field low).any (· != .lt)) && ((numberOrder? field high).any (· != .gt))
  | .value operand => (numberOrder? field operand).any c.onOrder

/-- Whether the value of a field satisfies a predicate. -/
def Predicate.isMatch (p : Predicate) : Value → Bool
  | .bool field =>
    match p.operand with
    | .value (.bool operand) => p.comparison.onBools field operand
    | _ => false
  | .string field =>
    match p.operand with
    | .value (.string operand) => p.comparison.onTexts field operand
    | _ => false
  | .int field => matchesNumber p.comparison (.int field) p.operand
  | .float field => matchesNumber p.comparison (.float field) p.operand
  | _ => false

end PropertyGraph
