/-!
# Scanning a text from its front

A scan takes a value off the front of a text and leaves the rest, or finds nothing of its form. Scans follow one
another with `do`, and `p <|> q` tries `q` on the same text where `p` finds nothing. A repetition ends where its part
finds nothing or takes nothing, so that it always ends.
-/

namespace PropertyGraph
namespace Text

/-- Takes a value off the front of a text. -/
abbrev Scan (α : Type) := StateT (List Char) Option α

namespace Scan

variable {α β : Type}

/-- The next character, which is left where it is; nothing at the end. -/
def next? : Scan (Option Char) := fun cs => some (cs.head?, cs)

/-- The characters at the front that satisfy a predicate. -/
def many (p : Char → Bool) : Scan (List Char) := fun cs => some (cs.takeWhile p, cs.dropWhile p)

/-- The characters at the front that satisfy a predicate, of which there must be one. -/
def some1 (p : Char → Bool) : Scan (List Char) := do
  let taken ← many p
  if taken.isEmpty then failure else pure taken

/-- Takes one character. -/
def char (c : Char) : Scan Unit
  | [] => none
  | d :: rest => if c = d then some ((), rest) else none

/-- Takes any one character. -/
def any : Scan Char
  | [] => none
  | c :: rest => some (c, rest)

/-- Takes a word, character by character. -/
def word : List Char → Scan Unit
  | [] => pure ()
  | c :: rest => do
    char c
    word rest

/-- Takes a line feed, alone or after a carriage return. -/
def newline : Scan Unit := char '\n' <|> word ['\r', '\n']

/-- Finds the end of the text. -/
def finish : Scan Unit
  | [] => some ((), [])
  | _ => none

/-- The values that follow one another at the front, and what is left. -/
def repeated (part : Scan α) (cs : List Char) : List α × List Char :=
  match part cs with
  | none => ([], cs)
  | some (a, rest) =>
    if rest.length < cs.length then
      let after := repeated part rest
      (a :: after.1, after.2)
    else ([], cs)
termination_by cs.length

/-- As many values as follow one another. -/
def all (part : Scan α) : Scan (List α) := fun cs => some (repeated part cs)

/-- Values with separators between them, at least one. -/
def separated (part : Scan α) (separator : Scan β) : Scan (List α) := do
  let first ← part
  let rest ← all do
    let _ ← separator
    part
  pure (first :: rest)

/-- The value of a whole text. -/
def whole? (part : Scan α) (text : String) : Option α :=
  match part text.toList with
  | some (a, []) => some a
  | _ => none

end Scan
end Text
end PropertyGraph
