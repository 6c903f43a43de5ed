import PropertyGraph.Toml.Numeral
import PropertyGraph.Toml.Quoted
import PropertyGraph.Toml.Table

/-!
# Reading a TOML document

A document is lines: a header of a table, a header of one more table in a list, a value under a name, or nothing; a
comment may end any of them. The lines are read first and the tables are built from them after, in their order. Arrays
and tables within a line nest at most 79 deep, and a name has at most 79 parts.
-/

namespace PropertyGraph
namespace Toml

open Text (Scan)

/-- How deep values nest within a line, and how many parts a name has, at most. -/
def deepest : Nat := 79

/-- What a line of a document says. -/
inductive Line where
  | entry (path : List String) (name : String) (value : Toml)
  | header (path : List String) (name : String)
  | added (path : List String) (name : String)
  | nothing

/-- Blanks within a line. -/
def blanks : Scan Unit := do
  let _ ← Scan.many isBlank

/-- A comment up to the end of its line. -/
def comment : Scan Unit := do
  Scan.char '#'
  let _ ← Scan.many isPlain

/-- What may stand between the values of an array: blanks, line breaks, and comments that a break ends. -/
def gaps : Scan Unit := do
  let _ ← Scan.all ((do let _ ← Scan.some1 isBlank) <|> Scan.newline <|> (do comment; Scan.newline))

/-- The rest of a line after what it says. -/
def lineEnd : Scan Unit := do
  blanks
  comment <|> pure ()
  Scan.newline <|> Scan.finish

/-- Whether a character may stand in a name without quotes. -/
def isNameChar (c : Char) : Bool := c.isAlphanum || c = '_' || c = '-'

/-- One part of a name. -/
def namePart : Scan String := quotedLine <|> String.ofList <$> Scan.some1 isNameChar

/-- A name: the path that its dots make, and its last part. Blanks may stand around each part. -/
def name : Scan (List String × String) := do
  let parts ← Scan.separated (do blanks; let part ← namePart; blanks; pure part) (Scan.char '.')
  match parts.reverse with
  | [] => failure
  | last :: before => if parts.length ≤ deepest then pure (before.reverse, last) else failure

/-- A name, its sign of equality and its value. -/
def entry (value : Scan Toml) : Scan ((List String × String) × Toml) := do
  let place ← name
  Scan.char '='
  blanks
  let value ← value
  blanks
  pure (place, value)

/-- The table of the entries between its braces. -/
def inline? (entries : List ((List String × String) × Toml)) : Option Toml :=
  let written := entries.foldlM (fun (slots : Slots) entry => slots.write? entry.1.1 entry.1.2 entry.2 .headed) []
  written.map fun slots => .table (slotsToToml slots)

/-- An array after its opening bracket. -/
def arrayBody (value : Scan Toml) : Scan Toml := do
  let items ← Scan.separated (do gaps; let item ← value; gaps; pure item) (Scan.char ',') <|> pure []
  unless items.isEmpty do
    Scan.char ',' <|> pure ()
  gaps
  Scan.char ']'
  pure (.array items)

/-- A table between braces, after the opening one. -/
def inlineBody (value : Scan Toml) : Scan Toml := do
  let entries ← Scan.separated (entry value) (Scan.char ',') <|> pure []
  blanks
  Scan.char '\x7d'
  StateT.lift (inline? entries)

/-- A value in which arrays and tables nest to a depth at most. -/
def value : Nat → Scan Toml
  | 0 => do
    match ← Scan.next? with
    | some '"' => .text <$> quoted
    | some '\'' => .text <$> quoted
    | _ => StateT.lift (ofWord? (← Scan.some1 isWordChar))
  | depth + 1 => do
    match ← Scan.next? with
    | some '[' => do Scan.char '['; arrayBody (value depth)
    | some '\x7b' => do Scan.char '\x7b'; inlineBody (value depth)
    | _ => value 0

/-- A header after its first bracket. -/
def header : Scan Line :=
  (do
    Scan.char '['
    let place ← name
    Scan.word [']', ']']
    pure (.added place.1 place.2)) <|>
  (do
    let place ← name
    Scan.char ']'
    pure (.header place.1 place.2))

/-- One line, up to and with its end. -/
def line : Scan Line := do
  blanks
  let said ←
    (match ← Scan.next? with
      | some '[' => do Scan.char '['; header
      | some '#' => pure .nothing
      | some '\n' => pure .nothing
      | some '\r' => pure .nothing
      | some _ => do
        let read ← entry (value deepest)
        pure (.entry read.1.1 read.1.2 read.2)
      | none => pure .nothing : Scan Line)
  lineEnd
  pure said

/-- The lines of a document, which a byte order mark may precede. -/
def lines? (text : String) : Option (List Line) :=
  Scan.whole? (do (Scan.char '\ufeff' <|> pure ()); Scan.all line) text

/-- The document so far, and the path to the table that entries go to. -/
structure Draft where
  slots : Slots := []
  current : List String := []

/-- What a line adds to a document. -/
def Draft.read? (draft : Draft) : Line → Option Draft
  | .nothing => some draft
  | .header path name => (draft.slots.head? path name).map fun slots => ⟨slots, path ++ [name]⟩
  | .added path name => (draft.slots.add? path name).map fun slots => ⟨slots, path ++ [name]⟩
  | .entry path name value =>
    (Slots.within? .passed (fun own slots => slots.write? path name value own) draft.current .headed draft.slots).map
      fun slots => ⟨slots, draft.current⟩

/-- The entries of a document, or nothing where the text is none. -/
def parse? (text : String) : Option (List (String × Toml)) := do
  let draft ← (← lines? text).foldlM Draft.read? ({} : Draft)
  pure (slotsToToml draft.slots)

end Toml
end PropertyGraph
