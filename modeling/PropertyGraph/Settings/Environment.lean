import PropertyGraph.Assoc
import PropertyGraph.Settings.Content
import PropertyGraph.Text.Blank
import PropertyGraph.Toml.Numeral
import PropertyGraph.Toml.Quoted

/-!
# Settings in the environment

A variable whose name begins with `LINNET_`, in letters of either case, is a setting; two underscores separate a
section from an item. Its value is an integer, a fraction, a boolean, a quoted text, an array or a table where it has
that form from end to end, and a text as it stands otherwise. A later variable is laid over the earlier ones; one that
is set again keeps its place.
-/

namespace PropertyGraph
namespace Environment

open Text (Scan)

/-- What the names of settings begin with. -/
def namePrefix : String := "LINNET_"

/-- Whether a character is a blank around a value. -/
def isBlank (c : Char) : Bool := c = ' ' || c = '\t' || c = '\n' || c = '\x0c' || c = '\r'

/-- Whether a character may stand in a value that is neither quoted nor bracketed. -/
def isBare (c : Char) : Bool := !(c = ',' || c = '\x7b' || c = '\x7d' || c = '[' || c = ']')

/-- Whether a character may stand in a name without quotes. -/
def isNameChar (c : Char) : Bool := c.isAlphanum || c = '_' || c = '-'

/-- Blanks around a value. -/
def blanks : Scan Unit := do
  let _ ← Scan.many isBlank

/-- Whether a text is an exponent or empty. -/
def isExponent : List Char → Bool
  | [] => true
  | mark :: rest =>
    (mark = 'e' || mark = 'E') && !(Toml.unsigned rest).2.isEmpty && (Toml.unsigned rest).2.all Char.isDigit

/-- Whether a text is a decimal numeral with a point. -/
def isFraction (cs : List Char) : Bool :=
  let whole := (Toml.unsigned cs).2.takeWhile Char.isDigit
  match (Toml.unsigned cs).2.dropWhile Char.isDigit with
  | '.' :: rest =>
    !(whole ++ rest.takeWhile Char.isDigit).isEmpty && isExponent (rest.dropWhile Char.isDigit)
  | _ => false

/-- The integer that a text is, between the least signed and the largest unsigned one of 64 bits. -/
def integer? (cs : List Char) : Option Int :=
  let (negative, digits) := Toml.unsigned cs
  let size : Int := digits.foldl (fun n c => n * 10 + (c.toNat - '0'.toNat : Nat)) 0
  let n := if negative then -size else size
  if digits.isEmpty ∨ ¬ digits.all Char.isDigit then none
  else if -0x8000000000000000 ≤ n ∧ n < 0x10000000000000000 then some n
  else none

/-- A value that is neither quoted nor bracketed. -/
def ofBare (cs : List Char) : Content :=
  if isFraction (Text.trimmed cs) then .other .environment
  else
    match integer? (Text.trimmed cs) with
    | some n => .integer .environment n
    | none => .text .environment (String.ofList (Text.trimmed cs))

/-- Items between brackets, after the opening one; a comma may follow the last. -/
def bracketed {α : Type} (item : Scan α) (close : Char) : Scan (List α) := do
  let next := do
    if (← Scan.next?) = some close then failure
    item
  let items ← Scan.separated next (Scan.char ',') <|> pure []
  unless items.isEmpty do
    Scan.char ',' <|> pure ()
  Scan.char close
  pure items

/-- The characters at the front that take so many bytes at most. -/
def withinBytes (bytes : Nat) : List Char → List Char
  | [] => []
  | c :: rest => if c.utf8Size ≤ bytes then c :: withinBytes (bytes - c.utf8Size) rest else []

/-- A text between double quotes. Of what stands before the first escape, only as many bytes are kept as it has
characters. -/
def quotedText : Scan String
  | '"' :: cs =>
    (Toml.lineBody cs).map fun (text, rest) =>
      let front := cs.takeWhile fun c => c ≠ '"' && c ≠ '\\'
      let kept :=
        if (cs.drop front.length).head? = some '\\' then withinBytes front.length front ++ text.drop front.length
        else text
      (String.ofList kept, rest)
  | _ => none

/-- An entry of a table between braces. -/
def entry (value : Scan Content) : Scan (String × Content) := do
  blanks
  let name ← match ← Scan.next? with
    | some '"' => quotedText
    | _ => String.ofList <$> Scan.some1 isNameChar
  blanks
  Scan.char '='
  pure (name, ← value)

/-- A value that is not a boolean; `inner` reads what stands in brackets, where they may open. -/
def plainValue (inner : Option (Scan Content)) : Scan Content := do
  match inner, ← Scan.next? with
  | some inner, some '[' => do
    Scan.char '['
    return .array .environment (← bracketed inner ']')
  | some inner, some '\x7b' => do
    Scan.char '\x7b'
    return .table .environment (Assoc.ofList (← bracketed (entry inner) '\x7d'))
  | _, some '"' => return .text .environment (← quotedText)
  | _, some '\'' => do
    Scan.char '\''
    let c ← Scan.any
    Scan.char '\''
    return .text .environment (String.singleton c)
  | _, _ => return ofBare (← Scan.many isBare)

/-- A boolean. -/
def boolean : Scan Content := do
  Scan.word "true".toList <|> Scan.word "false".toList
  pure (.other .environment)

/-- A value with blanks around it. -/
def spaced (inner : Option (Scan Content)) : Scan Content := do
  blanks
  let content ← boolean <|> plainValue inner
  blanks
  pure content

/-- A value in which arrays and tables nest to a depth at most. -/
def value : Nat → Scan Content
  | 0 => spaced none
  | depth + 1 => spaced (some (value depth))

/-- The content of a variable. -/
def content (text : String) : Content := (Scan.whole? (value text.length) text).getD (.text .environment text)

/-- The parts of a name, between pairs of underscores or at dots; `reversed` is the part so far. -/
def parts (reversed : List Char) : List Char → List String
  | [] => [String.ofList reversed.reverse]
  | '_' :: '_' :: rest => String.ofList reversed.reverse :: parts [] rest
  | '.' :: rest => String.ofList reversed.reverse :: parts [] rest
  | c :: rest => parts (c :: reversed) rest

/-- The place that a variable names, where it is a setting. One with an empty part is none. -/
def place? (name : String) : Option (List String) :=
  let cs := Text.trimmed name.toList
  let size := namePrefix.length
  if (cs.take size).map Char.toLower = namePrefix.toList.map Char.toLower then
    let place := parts [] ((Text.trimmed (cs.drop size)).map Char.toLower)
    if place.contains "" then none else some place
  else none

/-- A content at a place below. -/
def nested (content : Content) : List String → Content
  | [] => content
  | name :: rest => .table .environment [(name, nested content rest)]

/-- The settings in an environment. -/
def read (environment : List (String × String)) : Content :=
  (Assoc.ofList environment).foldl
    (fun below (name, text) =>
      match place? name with
      | some place => (nested (content text) place).laidOver below
      | none => below)
    (.table .environment [])

end Environment
end PropertyGraph
