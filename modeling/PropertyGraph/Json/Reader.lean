import PropertyGraph.Json.Form
import PropertyGraph.Json.Token

/-!
# Reading a JSON text

A text is read token by token. What has been opened and not yet closed is a stack of frames, so that reading is a fold
over the tokens and needs no recursion of its own. A form goes along and says what is read: there arrays and objects
nest at most 127 deep, and every string and every numeral stands for a value.
-/

namespace PropertyGraph
namespace Json

/-- An array or an object that is open, with what is read of it and what it holds so far, the latest first. -/
inductive Frame where
  | array (form : Form) (done : List Json)
  | object (form : Form) (done : List (String × Json)) (name : String)

/-- What has been read and what may follow. -/
inductive Reading where
  /-- A value must follow, of which the form is read. -/
  | value (frames : List Frame) (form : Form)
  /-- An array was opened: a value or its end must follow. -/
  | first (frames : List Frame) (form : Form)
  /-- An object was opened: a name or its end must follow. -/
  | firstName (frames : List Frame) (form : Form)
  /-- A name must follow. -/
  | nextName (frames : List Frame) (form : Form) (done : List (String × Json))
  /-- A colon must follow. -/
  | colon (frames : List Frame) (form : Form) (done : List (String × Json)) (name : String)
  /-- A value is complete: a comma, an end, or nothing at all must follow. -/
  | complete (frames : List Frame) (j : Json)

/-- How deep arrays and objects may nest where they are read. -/
def deepest : Nat := 127

/-- Whether an array or an object may be opened. -/
def mayOpen (frames : List Frame) (form : Form) : Bool := form.isIgnored || frames.length < deepest

/-- Reads the first token of a value. -/
def Reading.begin (frames : List Frame) (form : Form) : Token → Option Reading
  | .scalar j => some (.complete frames j)
  | .loneUnit | .hugeNumeral => if form.isIgnored then some (.complete frames .null) else none
  | .openArray => if mayOpen frames form then some (.first frames form) else none
  | .openObject => if mayOpen frames form then some (.firstName frames form) else none
  | _ => none

/-- Reads the name of a member. -/
def Reading.name (frames : List Frame) (form : Form) (done : List (String × Json)) : Token → Option Reading
  | .scalar (.string s) => some (.colon frames form done s)
  | .loneUnit => if form.isIgnored then some (.colon frames form done "") else none
  | _ => none

/-- Reads one token. -/
def Reading.step : Reading → Token → Option Reading
  | .value frames form, t => begin frames form t
  | .first frames _, .closeArray => some (.complete frames (.array []))
  | .first frames form, t => begin (.array form [] :: frames) (form.item 0) t
  | .firstName frames _, .closeObject => some (.complete frames (.object []))
  | .firstName frames form, t => Reading.name frames form [] t
  | .nextName frames form done, t => Reading.name frames form done t
  | .colon frames form done name, .colon => some (.value (.object form done name :: frames) (form.member name))
  | .complete (.array form done :: frames) j, .comma =>
    some (.value (.array form (j :: done) :: frames) (form.item (done.length + 1)))
  | .complete (.array _ done :: frames) j, .closeArray => some (.complete frames (.array (j :: done).reverse))
  | .complete (.object form done name :: frames) j, .comma => some (.nextName frames form ((name, j) :: done))
  | .complete (.object _ done name :: frames) j, .closeObject =>
    some (.complete frames (.object ((name, j) :: done).reverse))
  | _, _ => none

/-- The value of a text that has been read to its end. -/
def Reading.finish : Reading → Option Json
  | .complete [] j => some j
  | _ => none

/-- The value that a list of tokens makes up, so far as the form says. -/
def ofTokens? (form : Form) (tokens : List Token) : Option Json :=
  (tokens.foldlM Reading.step (.value [] form)).bind Reading.finish

/-- The value of a JSON text, so far as the form says; null stands for a scalar that is not read and has no value. -/
def parseAs? (form : Form) (text : String) : Option Json := (tokens? text.toList).bind (ofTokens? form)

/-- The value of a JSON text. -/
def parse? (text : String) : Option Json := parseAs? .whole text

end Json
end PropertyGraph
