import PropertyGraph.Settings.Environment
import PropertyGraph.Settings.Layers
import PropertyGraph.Toml.Reader

/-!
# Loading settings

The usual settings come first, then a document, then the environment. What comes of them must be valid.
-/

namespace PropertyGraph
namespace Settings

/-- The contents of a document. -/
def readDocument (text : String) : Except GraphError Content :=
  match Toml.parse? text with
  | some entries => .ok (Content.ofToml (.table entries))
  | none => .error (.settings .unreadable)

/-- The settings of a content, where they are valid. -/
def accept (c : Content) : Except GraphError Settings := do
  let settings ← ofContent c
  settings.validate
  return settings

/-- The settings of a document. -/
def ofDocument (text : String) : Except GraphError Settings := do
  accept (← readDocument text)

/-- The settings of a document, where there is one, and the environment. -/
def load (document : Option String) (environment : List (String × String)) : Except GraphError Settings := do
  let below ← match document with
    | some text => readDocument text
    | none => pure (.table .document [])
  accept ((Environment.read environment).laidOver below)

end Settings
end PropertyGraph
