import PropertyGraph.Text.Visible

/-!
# Quoted texts in messages

A message that shows a text puts it between double quotes, so that its ends are seen. Inside, a quote and a backslash
have a backslash before them, the usual control characters have their letters, and every other character that is not
shown as itself is written by its code point between braces.
-/

namespace PropertyGraph
namespace Text

/-- A character by its code point: a backslash, `u`, and hexadecimal digits between braces. -/
def codePoint (c : Char) : List Char := '\\' :: 'u' :: '\x7b' :: Nat.toDigits 16 c.toNat ++ ['\x7d']

/-- A character as it stands in a quoted text. -/
def quotedChar (c : Char) : List Char :=
  if c = '"' then ['\\', '"']
  else if c = '\\' then ['\\', '\\']
  else if c = '\n' then ['\\', 'n']
  else if c = '\r' then ['\\', 'r']
  else if c = '\t' then ['\\', 't']
  else if c = '\x00' then ['\\', '0']
  else if isVisible c then [c]
  else codePoint c

/-- A text between quotes. -/
def quoted (s : String) : String := String.ofList ('"' :: s.toList.flatMap quotedChar ++ ['"'])

end Text
end PropertyGraph
