import PropertyGraph.Text.CharSet

/-!
# Blank characters

The characters of the Unicode property White_Space, and the text between blanks at its ends.
-/

namespace PropertyGraph
namespace Text

/-- The characters of White_Space. -/
def whiteSpace : CharSet :=
  ⟨#[(0x09, 0x0D), (0x20, 0x20), (0x85, 0x85), (0xA0, 0xA0), (0x1680, 0x1680), (0x2000, 0x200A),
    (0x2028, 0x2029), (0x202F, 0x202F), (0x205F, 0x205F), (0x3000, 0x3000)]⟩

/-- Whether a character is blank. -/
def isBlank (c : Char) : Bool := whiteSpace.contains c

/-- The text without the blanks at its ends. -/
def trimmed (cs : List Char) : List Char := ((cs.dropWhile isBlank).reverse.dropWhile isBlank).reverse

end Text
end PropertyGraph
