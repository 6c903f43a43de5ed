import PropertyGraph.Decimal.Nearest
import PropertyGraph.Text.Hex
import PropertyGraph.Toml.Basic

/-!
# Words of a TOML document

A value that is neither quoted nor bracketed is one word: a boolean or a numeral. Underscores may stand between two
digits. An integer is decimal, with an optional sign and no leading zero, or has a prefix that names its base and no
sign; it fits the signed 64-bit range. A numeral with a fraction or an exponent, and the words for infinity and for no
number, are real; a real must not be too large.
-/

namespace PropertyGraph
namespace Toml

/-- Whether a character belongs to a word. -/
def isWordChar (c : Char) : Bool := c.isAlphanum || c = '_' || c = '+' || c = '-' || c = '.'

/-- The value of a digit of a base. -/
def digit? (base : Nat) (c : Char) : Option Nat := (Text.hexDigit? c).filter (· < base)

/-- The values of digits, of which there is one at least, with an underscore between two of them at most. -/
def digits? (base : Nat) : List Char → Option (List Nat)
  | [] => none
  | [c] => (digit? base c).map fun d => [d]
  | c :: '_' :: rest => (digit? base c).bind fun d => (digits? base rest).map (d :: ·)
  | c :: next :: rest => (digit? base c).bind fun d => (digits? base (next :: rest)).map (d :: ·)

/-- The number that digits of a base write. -/
def ofDigits (base : Nat) (digits : List Nat) : Nat := digits.foldl (fun n d => n * base + d) 0

/-- The integer, where it fits the signed range. -/
def integer? (n : Int) : Option Toml :=
  if Int64.minValue.toInt ≤ n ∧ n ≤ Int64.maxValue.toInt then some (.integer (Int64.ofInt n)) else none

/-- The real number with its sign, unless it is beyond the largest finite one. -/
def real? (negative : Bool) (x : Float) : Option Toml :=
  if negative then some (.real (-x)) else if x == 1.0 / 0.0 then none else some (.real x)

/-- Whether a word begins with a sign that makes it negative, and the word without its sign. -/
def unsigned : List Char → Bool × List Char
  | '-' :: rest => (true, rest)
  | '+' :: rest => (false, rest)
  | cs => (false, cs)

/-- The power of ten of an exponent; the empty text has none. -/
def exponent? : List Char → Option Int
  | [] => some 0
  | mark :: rest =>
    if mark = 'e' ∨ mark = 'E' then
      (digits? 10 (unsigned rest).2).map fun digits =>
        if (unsigned rest).1 then -(ofDigits 10 digits : Int) else (ofDigits 10 digits : Int)
    else none

/-- The digits of a fraction with its point, and the exponent after it; a text without a point has no digits of a
fraction. -/
def fraction? : List Char → Option (List Nat × Int)
  | '.' :: rest =>
    let isMark := fun c => c = 'e' || c = 'E'
    match digits? 10 (rest.takeWhile (!isMark ·)), exponent? (rest.dropWhile (!isMark ·)) with
    | some digits, some power => some (digits, power)
    | _, _ => none
  | cs => (exponent? cs).map fun power => ([], power)

/-- A decimal numeral, after its sign. -/
def decimal? (negative : Bool) (cs : List Char) : Option Toml :=
  let isWhole := fun c => c.isDigit || c = '_'
  match digits? 10 (cs.takeWhile isWhole), cs.dropWhile isWhole with
  | none, _ => none
  | some whole, rest =>
    if whole.head? = some 0 ∧ whole.length > 1 then none
    else if rest.isEmpty then
      integer? (if negative then -(ofDigits 10 whole : Int) else ofDigits 10 whole)
    else
      (fraction? rest).bind fun (digits, power) =>
        real? negative (Decimal.nearest (ofDigits 10 (whole ++ digits)) (power - digits.length))

/-- An integer of a named base, after its prefix. -/
def based? (base : Nat) (cs : List Char) : Option Toml :=
  (digits? base cs).bind fun digits => integer? (ofDigits base digits)

/-- A word after its sign. -/
def unsignedWord? (negative : Bool) (cs : List Char) : Option Toml :=
  if cs = "inf".toList then some (.real (if negative then -(1.0 / 0.0) else 1.0 / 0.0))
  else if cs = "nan".toList then some (.real (0.0 / 0.0))
  else decimal? negative cs

/-- The value of a word. -/
def ofWord? (cs : List Char) : Option Toml :=
  match cs with
  | '0' :: 'x' :: rest => based? 16 rest
  | '0' :: 'o' :: rest => based? 8 rest
  | '0' :: 'b' :: rest => based? 2 rest
  | cs =>
    if cs = "true".toList then some (.boolean true)
    else if cs = "false".toList then some (.boolean false)
    else unsignedWord? (unsigned cs).1 (unsigned cs).2

end Toml
end PropertyGraph
