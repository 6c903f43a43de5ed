import PropertyGraph.Text.Hex
import PropertyGraph.Text.Scan

/-!
# Quoted texts in a TOML document

A text stands between double quotes, where a backslash escapes, or between single quotes, where it does not. Three
quotes open a text of several lines: the line break right after them is not part of it, every other break is a line
feed, and a backslash before a break takes away the break and all blanks and breaks after it. One or two quotes may
stand inside such a text, also right before its end. No control character but the tab stands in a text as itself.
-/

namespace PropertyGraph
namespace Toml

open Text (Scan)

/-- Whether a character may stand for itself in a text or a comment. -/
def isPlain (c : Char) : Bool := c = '\t' || (' ' ≤ c && c ≠ '\x7f')

/-- Whether a character is a blank within a line. -/
def isBlank (c : Char) : Bool := c = ' ' || c = '\t'

/-- The character that a backslash and a letter stand for. -/
def escaped? (c : Char) : Option Char :=
  if c = '"' ∨ c = '\\' then some c
  else if c = 'b' then some '\x08'
  else if c = 'f' then some '\x0c'
  else if c = 'n' then some '\n'
  else if c = 'r' then some '\r'
  else if c = 't' then some '\t'
  else none

/-- The character of a code point, unless it is a surrogate or beyond the last one. -/
def ofCodePoint? (n : Nat) : Option Char := if n.isValidChar then some (Char.ofNat n) else none

/-- A character in front of what is read after it. -/
def before (c : Char) (after : Option (List Char × List Char)) : Option (List Char × List Char) :=
  after.map fun read => (c :: read.1, read.2)

/-- A text with escapes up to its closing quote, and what follows the quote. -/
def lineBody : List Char → Option (List Char × List Char)
  | [] => none
  | '"' :: rest => some ([], rest)
  | '\\' :: 'u' :: a :: b :: c :: d :: rest =>
    match (Text.hexUnit? a b c d).bind ofCodePoint? with
    | some ch => before ch (lineBody rest)
    | none => none
  | '\\' :: 'U' :: a :: b :: c :: d :: e :: f :: g :: h :: rest =>
    match Text.hexUnit? a b c d, Text.hexUnit? e f g h with
    | some high, some low =>
      match ofCodePoint? (high * 0x10000 + low) with
      | some ch => before ch (lineBody rest)
      | none => none
    | _, _ => none
  | '\\' :: c :: rest =>
    match escaped? c with
    | some c => before c (lineBody rest)
    | none => none
  | c :: rest => if isPlain c then before c (lineBody rest) else none

/-- Whether blanks and then a line break are in front. -/
def breaksLine (cs : List Char) : Bool :=
  match cs.dropWhile isBlank with
  | '\n' :: _ => true
  | '\r' :: '\n' :: _ => true
  | _ => false

/-- A text of several lines with escapes, up to its closing quotes; `folding` while blanks and breaks are taken away. -/
def linesBody (folding : Bool) : List Char → Option (List Char × List Char)
  | [] => none
  | '"' :: '"' :: '"' :: '"' :: '"' :: rest => some (['"', '"'], rest)
  | '"' :: '"' :: '"' :: '"' :: rest => some (['"'], rest)
  | '"' :: '"' :: '"' :: rest => some ([], rest)
  | '\r' :: '\n' :: rest => if folding then linesBody true rest else before '\n' (linesBody false rest)
  | '\n' :: rest => if folding then linesBody true rest else before '\n' (linesBody false rest)
  | '\\' :: 'u' :: a :: b :: c :: d :: rest =>
    match (Text.hexUnit? a b c d).bind ofCodePoint? with
    | some ch => before ch (linesBody false rest)
    | none => none
  | '\\' :: 'U' :: a :: b :: c :: d :: e :: f :: g :: h :: rest =>
    match Text.hexUnit? a b c d, Text.hexUnit? e f g h with
    | some high, some low =>
      match ofCodePoint? (high * 0x10000 + low) with
      | some ch => before ch (linesBody false rest)
      | none => none
    | _, _ => none
  | '\\' :: c :: rest =>
    match escaped? c with
    | some c => before c (linesBody false rest)
    | none => if breaksLine (c :: rest) then linesBody true (c :: rest) else none
  | c :: rest =>
    if folding && isBlank c then linesBody true rest
    else if isPlain c then before c (linesBody false rest)
    else none

/-- A text without escapes up to its closing quote, and what follows the quote. -/
def literalBody : List Char → Option (List Char × List Char)
  | [] => none
  | '\'' :: rest => some ([], rest)
  | c :: rest => if isPlain c then before c (literalBody rest) else none

/-- A text of several lines without escapes, up to its closing quotes. -/
def literalLinesBody : List Char → Option (List Char × List Char)
  | [] => none
  | '\'' :: '\'' :: '\'' :: '\'' :: '\'' :: rest => some (['\'', '\''], rest)
  | '\'' :: '\'' :: '\'' :: '\'' :: rest => some (['\''], rest)
  | '\'' :: '\'' :: '\'' :: rest => some ([], rest)
  | '\r' :: '\n' :: rest => before '\n' (literalLinesBody rest)
  | c :: rest => if c = '\n' || isPlain c then before c (literalLinesBody rest) else none

/-- The rest of a text of several lines, less the line break right after its opening quotes. -/
def afterBreak : List Char → List Char
  | '\n' :: rest => rest
  | '\r' :: '\n' :: rest => rest
  | cs => cs

/-- A quoted text within a line, as names of entries may be too. -/
def quotedLine : Scan String
  | '"' :: rest => (lineBody rest).map fun read => (String.ofList read.1, read.2)
  | '\'' :: rest => (literalBody rest).map fun read => (String.ofList read.1, read.2)
  | _ => none

/-- A quoted text of any form. -/
def quoted : Scan String
  | '"' :: '"' :: '"' :: rest => (linesBody false (afterBreak rest)).map fun read => (String.ofList read.1, read.2)
  | '\'' :: '\'' :: '\'' :: rest => (literalLinesBody (afterBreak rest)).map fun read => (String.ofList read.1, read.2)
  | cs => quotedLine cs

end Toml
end PropertyGraph
