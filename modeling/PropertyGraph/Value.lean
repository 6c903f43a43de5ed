import PropertyGraph.Assoc

/-!
# Field values

A field of a node holds a boolean, a signed 64-bit integer, a binary64 number, a text, a list of values or named
values. There is no null: a field without content is absent. Named values keep the order in which they were written;
the operations that build them never repeat a name.
-/

namespace PropertyGraph

/-- What a field holds. -/
inductive Value where
  | bool (b : Bool)
  | int (n : Int64)
  | float (x : Float)
  | string (s : String)
  | list (items : List Value)
  | node (fields : List (String × Value))
  deriving Inhabited

/-- Fields under their names, in the order in which they were written. -/
abbrev Fields := Assoc Value

/-- What sort of content a value is; comparison with an operand is decided by it. -/
inductive Kind where
  | bool | int | float | string | list | node
  deriving DecidableEq, Repr

namespace Value

/-- The sort of a value. -/
def kind : Value → Kind
  | .bool _ => .bool
  | .int _ => .int
  | .float _ => .float
  | .string _ => .string
  | .list _ => .list
  | .node _ => .node

/-- The text, where the value is one. -/
def string? : Value → Option String
  | .string s => some s
  | _ => none

/-- The integer, where the value is one. -/
def int? : Value → Option Int64
  | .int n => some n
  | _ => none

/-- The boolean, where the value is one. -/
def bool? : Value → Option Bool
  | .bool b => some b
  | _ => none

/-- The named values, where the value is a group of them. -/
def node? : Value → Option Fields
  | .node fields => some fields
  | _ => none

/-- An integer or a floating point number as the nearest floating point number. -/
def number? : Value → Option Float
  | .int n => some (Float.ofInt n.toInt)
  | .float x => some x
  | _ => none

mutual

/-- Whether two values are the same up to the order of named values. -/
def same : Value → Value → Bool
  | .bool a, .bool b => a == b
  | .int a, .int b => a == b
  | .float a, .float b => a == b
  | .string a, .string b => a == b
  | .list a, .list b => sameItems a b
  | .node a, .node b => a.length == b.length && sameFields a b
  | _, _ => false

/-- Whether two lists hold the same values in the same order. -/
def sameItems : List Value → List Value → Bool
  | [], [] => true
  | a :: as, b :: bs => same a b && sameItems as bs
  | _, _ => false

/-- Whether every field of the first group is in the second with the same value. -/
def sameFields : List (String × Value) → List (String × Value) → Bool
  | [], _ => true
  | (name, a) :: rest, others =>
    (match others.lookup name with
      | some b => same a b
      | none => false) && sameFields rest others

end

end Value

/-- The text of a field, where the field is there and is one. -/
def Fields.string? (fields : Fields) (name : String) : Option String := (fields.lookup name).bind Value.string?

end PropertyGraph
