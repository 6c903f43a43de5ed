/-!
# The shortest decimal that reads back as a given binary64 number

A positive finite number is `m * 2 ^ q`. The reals that round to it form an interval, whose ends belong to it exactly
when `m` is even. For one, two, … digits the two decimals next to the number on the grid of that many digits are tried;
the first grid with a decimal inside the interval wins, and of two such decimals the nearer one, upwards on a tie. All
arithmetic is on natural numbers. How the digits are laid out (from which magnitudes on an exponent is written) is a
`Style`, given by the format that prints them.
-/

namespace PropertyGraph
namespace Decimal

/-- A positive number as a fraction, with the reals that round to it: everything over one denominator. -/
structure Rounding where
  value : Nat
  low : Nat
  high : Nat
  denominator : Nat
  /-- Whether the ends of the interval round to the number, too. -/
  closed : Bool

/-- The fraction and interval of the positive number whose bits are given, the sign bit aside. -/
def Rounding.ofBits (bits : Nat) : Rounding :=
  let fraction := bits % 0x10000000000000
  let exponent := bits / 0x10000000000000
  let m := if exponent = 0 then fraction else fraction + 0x10000000000000
  let q : Int := (max exponent 1 : Nat) - 1075
  -- Below a power of two the numbers lie twice as dense, so the interval is half as wide on that side.
  let below := if fraction = 0 ∧ exponent > 1 then 1 else 2
  let unit := Nat.pow 2 (q - 2).toNat
  ⟨4 * m * unit, (4 * m - below) * unit, (4 * m + 2) * unit, Nat.pow 2 (2 - q).toNat, m % 2 = 0⟩

/-- How many decimal digits a positive number has. -/
def digitCount (n : Nat) : Nat := (Nat.toDigits 10 n).length

/-- The place of the first digit: the number is at least ten to the power `place - 1` and below ten to the power
`place`. -/
def Rounding.place (r : Rounding) : Int :=
  if r.value ≥ r.denominator then digitCount (r.value / r.denominator)
  else 1 - (digitCount ((r.denominator - 1) / r.value) : Int)

/-- Digits, and the power of ten that the last of them stands for. -/
structure Numeral where
  digits : Nat
  power : Int
  deriving DecidableEq, Repr

/-- Whether `digits` times ten to the power rounds to the number. -/
def Rounding.holds (r : Rounding) (n : Numeral) : Bool :=
  let x := n.digits * Nat.pow 10 n.power.toNat * r.denominator
  let one := Nat.pow 10 (-n.power).toNat
  if r.closed then r.low * one ≤ x ∧ x ≤ r.high * one else r.low * one < x ∧ x < r.high * one

/-- The decimal of so many digits that rounds to the number, the nearer one where there are two. -/
def Rounding.onGrid (r : Rounding) (count : Nat) : Option Numeral :=
  let power := r.place - count
  let step := Nat.pow 10 power.toNat * r.denominator
  let scaled := r.value * Nat.pow 10 (-power).toNat
  let below : Numeral := ⟨scaled / step, power⟩
  let above : Numeral := ⟨scaled / step + 1, power⟩
  match r.holds below, r.holds above with
  | true, true => if 2 * (scaled % step) < step then some below else some above
  | true, false => some below
  | false, true => some above
  | false, false => none

/-- The most digits that a binary64 number can need. -/
def mostDigits : Nat := 17

/-- The shortest decimal that rounds to the number. -/
def Rounding.shortest (r : Rounding) : Numeral :=
  ((List.range mostDigits).findSome? fun n => r.onGrid (n + 1)).getD ⟨0, 0⟩

/-- From which powers of ten of the first digit on a number is written with an exponent. -/
structure Style where
  /-- The least power that is written positionally. -/
  least : Int
  /-- The greatest power that is written positionally. -/
  greatest : Int

/-- The digits without trailing zeros, with the power of ten of the first. -/
def Numeral.normal (n : Numeral) : List Char × Int :=
  let digits := Nat.toDigits 10 n.digits
  let kept := (digits.reverse.dropWhile (· == '0')).reverse
  (kept, n.power + digits.length - 1)

/-- The layout of digits whose first stands for ten to the power `first`: positional with at least one decimal place,
or with an exponent. -/
def Style.layout (style : Style) (digits : List Char) (first : Int) : List Char :=
  if style.least ≤ first ∧ first ≤ style.greatest then
    if first < 0 then '0' :: '.' :: List.replicate (-first - 1).toNat '0' ++ digits
    else
      let whole := first.toNat + 1
      let padded := digits ++ List.replicate (whole + 1 - digits.length) '0'
      padded.take whole ++ '.' :: padded.drop whole
  else
    let mantissa := match digits with
      | [] => ['0']
      | [d] => [d]
      | d :: rest => d :: '.' :: rest
    mantissa ++ 'e' :: (toString first).toList

/-- A finite number in the fewest digits that read back as it. -/
def Style.text (style : Style) (x : Float) : String :=
  let bits := x.toBits.toNat
  let magnitude := bits % 0x8000000000000000
  let sign := if bits ≥ 0x8000000000000000 then ['-'] else []
  let body :=
    if magnitude = 0 then style.layout ['0'] 0
    else
      let (digits, first) := (Rounding.ofBits magnitude).shortest.normal
      style.layout digits first
  String.ofList (sign ++ body)

end Decimal
end PropertyGraph
