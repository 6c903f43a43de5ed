/-!
# Decimal numerals as binary64 numbers

A numeral is digits, a fraction and a power of ten. Its leading digits are collected as long as they fit in 64 bits;
what follows only moves the decimal point. The number is the collected digits, rounded to binary64, times or over one
power of ten, with one more rounding; a power beyond the table is applied in steps. So a numeral of up to fifteen
digits and a small power reads exactly, and a longer one may be a unit in the last place off the nearest number.
-/

namespace PropertyGraph
namespace Decimal

/-- The digits of a numeral that are collected: their value, and how many of the given digits went into it. -/
structure Collected where
  value : Nat
  count : Nat
  deriving DecidableEq, Repr

/-- The value of a decimal digit. -/
def digit (c : Char) : Nat := c.toNat - '0'.toNat

/-- Collects digits onto `value` as long as the result fits 64 bits. -/
def collect (value : Nat) : List Char → Collected
  | [] => ⟨value, 0⟩
  | c :: rest =>
    if value * 10 + digit c < 0x10000000000000000 then
      let collected := collect (value * 10 + digit c) rest
      ⟨collected.value, collected.count + 1⟩
    else ⟨value, 0⟩

/-- The largest power of ten that is a binary64 number. -/
def topPower : Nat := 308

/-- The binary64 number nearest to a power of ten. -/
def tenTo (power : Nat) : Float := Float.ofScientific 1 false power

/-- The number times ten to the power, or nothing where that is beyond the largest finite number. -/
def shift (x : Float) (power : Int) : Option Float :=
  if power > (topPower : Int) then
    if x == 0.0 then some x else none
  else if power ≥ 0 then
    let y := x * tenTo power.toNat
    if y.isInf then none else some y
  else if power ≥ -(topPower : Int) then some (x / tenTo power.natAbs)
  else if x == 0.0 then some x
  else shift (x / tenTo topPower) (power + topPower)
termination_by power.natAbs
decreasing_by simp only [topPower] at *; omega

/-- The number that collected digits and a power of ten stand for, with its sign; nothing where it is too large. -/
def scale (negative : Bool) (value : Nat) (power : Int) : Option Float :=
  (shift (Float.ofNat value) power).map fun x => if negative then -x else x

end Decimal
end PropertyGraph
