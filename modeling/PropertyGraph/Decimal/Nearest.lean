/-!
# The binary64 number nearest to a decimal numeral

The digits of a numeral and its power of ten name a rational number, and the nearest binary64 number stands for it: an
infinity where it is beyond the largest finite one. A numeral far outside the range is decided by its size, without
forming its power of ten.
-/

namespace PropertyGraph
namespace Decimal

/-- A numeral of a larger size than this is beyond the largest finite number. -/
def largestSize : Int := 310

/-- A numeral of a smaller size than this is nearest to zero. -/
def smallestSize : Int := -330

/-- The number nearest to `value` times ten to the power. -/
def nearest (value : Nat) (power : Int) : Float :=
  let size : Int := (Nat.toDigits 10 value).length + power
  if value = 0 then 0.0
  else if size > largestSize then 1.0 / 0.0
  else if size < smallestSize then 0.0
  else Float.ofScientific value (power < 0) power.natAbs

end Decimal
end PropertyGraph
