/-!
# Values of a TOML document

A value is a text, a number, a boolean, an array or a table. The names in a table are distinct.
-/

namespace PropertyGraph

/-- A value of a TOML document. -/
inductive Toml where
  | text (s : String)
  | integer (n : Int64)
  | real (x : Float)
  | boolean (b : Bool)
  | array (items : List Toml)
  | table (entries : List (String × Toml))

instance : Inhabited Toml := ⟨.table []⟩

end PropertyGraph
