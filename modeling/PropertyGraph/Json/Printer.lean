import PropertyGraph.Decimal.Shortest
import PropertyGraph.Json.Basic

/-!
# Writing a JSON text

The text has no blanks. A string escapes the quote, the backslash and the control characters, the usual ones by their
letters and the others by four hexadecimal digits; every other character stands as it is. A floating point number has
the fewest digits that read back as it and always a point or an exponent, so that it is never taken for an integer.
-/

namespace PropertyGraph
namespace Json

/-- A number in a JSON text is positional from a hundred-thousandth up to below ten to the sixteenth. -/
def numberStyle : Decimal.Style := ⟨-5, 15⟩

/-- The hexadecimal digit of a number below sixteen. -/
def hexDigit (n : Nat) : Char := "0123456789abcdef".toList.getD n '0'

/-- A character as it stands in a string. -/
def escape (c : Char) : List Char :=
  if c = '"' then ['\\', '"']
  else if c = '\\' then ['\\', '\\']
  else if c = '\x08' then ['\\', 'b']
  else if c = '\x0c' then ['\\', 'f']
  else if c = '\n' then ['\\', 'n']
  else if c = '\r' then ['\\', 'r']
  else if c = '\t' then ['\\', 't']
  else if c < ' ' then ['\\', 'u', '0', '0', hexDigit (c.toNat / 16), hexDigit (c.toNat % 16)]
  else [c]

/-- A string with its quotes. -/
def quote (s : String) : List Char := '"' :: s.toList.flatMap escape ++ ['"']

/-- A number. -/
def Number.text : Number → String
  | .int n => toString n.toInt
  | .large n _ => toString n.toNat
  | .real x _ => numberStyle.text x

mutual

/-- The text of a value. -/
def chars : Json → List Char
  | .null => "null".toList
  | .bool true => "true".toList
  | .bool false => "false".toList
  | .number n => n.text.toList
  | .string s => quote s
  | .array items => '[' :: itemChars items
  | .object members => '\x7b' :: memberChars members

/-- The items of an array with what separates and ends them. -/
def itemChars : List Json → List Char
  | [] => [']']
  | [j] => chars j ++ [']']
  | j :: rest => chars j ++ ',' :: itemChars rest

/-- The members of an object with what separates and ends them. -/
def memberChars : List (String × Json) → List Char
  | [] => ['\x7d']
  | [(name, j)] => quote name ++ ':' :: chars j ++ ['\x7d']
  | (name, j) :: rest => quote name ++ ':' :: chars j ++ ',' :: memberChars rest

end

/-- The text of a value. -/
def render (j : Json) : String := String.ofList (chars j)

end Json
end PropertyGraph
