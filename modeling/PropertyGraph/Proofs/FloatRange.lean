import Mathlib.Algebra.Group.Nat.Defs
import PropertyGraph.Json.Basic

/-!
# Large integers as floating point numbers

An integer of 64 bits is far below the greatest floating point number, so that the nearest floating point number is
finite (`FloatRange.isFinite_ofNat`). The proof follows the bits of the number: rounding adds one to a mantissa at
most, so that the exponent stays below the one that is kept for what is not finite.
-/

namespace PropertyGraph
namespace FloatRange

open Float.Model (Format)
open Float.Model.UnpackedFloat

/-- A number is finite whose bits do not have the greatest exponent. -/
theorem isFinite_unpack {spec : Format} {bits : BitVec spec.numBits}
    (h : unpackExponent bits ≠ -BitVec.ofNat spec.exponentBits 1) : (unpack spec bits).isFinite = true := by
  delta Float.Model.UnpackedFloat.unpack
  dsimp only
  rw [if_neg h]
  by_cases hexponent : unpackExponent bits = BitVec.ofNat spec.exponentBits 0
  · rw [if_pos hexponent]
    by_cases hmantissa : unpackMantissa bits = BitVec.ofNat spec.mantissaBitsWithoutImplicit 0
    · rw [dif_pos hmantissa]
      rfl
    · rw [dif_neg hmantissa]
      rfl
  · rw [if_neg hexponent]
    rfl

/-- The bits of a number whose exponent is in range do not have the greatest exponent. -/
theorem unpackExponent_pack_ne {s : Sign} {m : Nat} {e : Int} (hm : 0 < m) (he : e < 972) :
    unpackExponent (pack .binary64 (.finite s m e hm)) ≠ -BitVec.ofNat Format.binary64.exponentBits 1 := by
  have hbound : ¬ 2 ^ Format.binary64.exponentBits ≤
      (e + Format.binary64.exponentBias + Format.binary64.mantissaBitsWithoutImplicit).toNat + 1 := by
    show ¬ 2 ^ 11 ≤ (e + (1023 : Nat) + (52 : Nat)).toNat + 1
    omega
  rw [Float.Model.UnpackedFloat.pack.eq_def]
  dsimp only
  rw [if_neg hbound]
  split
  · rw [unpackExponent_packComponents]
    intro h
    have hbits := congrArg BitVec.toNat h
    rw [BitVec.toNat_ofNat] at hbits
    replace hbits : (e + (1023 : Nat) + (52 : Nat)).toNat % 2 ^ 11 = 2047 := hbits
    omega
  · rw [unpackExponent_packComponents]
    decide

/-- Shifting a mantissa down does not make it greater. -/
theorem mantissa_shiftRight_le (em : ExtendedMantissa) (n : Nat) : (em >>> n).mantissa ≤ em.mantissa := by
  show (Nat.repeat ExtendedMantissa.shiftRightOne n em).mantissa ≤ em.mantissa
  induction n with
  | zero => exact Nat.le_refl _
  | succ n ih => exact Nat.le_trans (Nat.div_le_self ..) ih

/-- Rounding makes a mantissa greater by one at most. -/
theorem roundedMantissa_le (em : ExtendedMantissa) : em.roundedMantissa ≤ em.mantissa + 1 := by
  rw [ExtendedMantissa.roundedMantissa]
  cases em.accuracy with
  | exact => exact Nat.le_succ _
  | inexact o =>
    cases o with
    | lt => exact Nat.le_succ _
    | eq => exact Nat.add_le_add_left (Nat.le_of_lt_succ (Nat.mod_lt _ Nat.two_pos)) _
    | gt => exact Nat.le_refl _

/-- What a mantissa and an exponent come to when they are brought to the precision of a format. -/
theorem shiftToTargetExponent_bounds (spec : Format) (m : Nat) (e : Int) (a : Accuracy) :
    (shiftToTargetExponent spec m e a).1.mantissa ≤ m ∧
      (shiftToTargetExponent spec m e a).2 = max e (max (m.log2 + 1 + e - spec.mantissaBits) spec.minExponent) := by
  have hmantissa : (ExtendedMantissa.ofMantissaAndAccuracy m a).mantissa = m := by
    cases a with
    | exact => rfl
    | inexact o => cases o <;> rfl
  rw [shiftToTargetExponent, shiftToExponent]
  dsimp only
  refine ⟨Nat.le_trans (mantissa_shiftRight_le _ _) (Nat.le_of_eq hmantissa), ?_⟩
  rw [Format.targetExponent, Float.Model.totalExponent]
  omega

theorem log2_lt {n : Nat} (h : n < 2 ^ 128) : n.log2 < 128 := by
  by_cases hn : n = 0
  · subst hn
    decide
  · exact (Nat.log2_lt hn).mpr h

/-- A number of less than 128 digits stays finite in rounding, in which the mantissa is brought to the precision,
rounded, and brought to the precision again. -/
theorem isFinite_roundWithAccuracy {s : Sign} {m : Nat} {e : Int} (a : Accuracy) (hm : m + 1 < 2 ^ 128) (he : e ≤ 0) :
    (Float.Model.pack (roundWithAccuracy .binary64 s m e a)).isFinite = true := by
  rw [roundWithAccuracy]
  obtain ⟨hm₁, he₁⟩ := shiftToTargetExponent_bounds .binary64 m e a
  generalize shiftToTargetExponent .binary64 m e a = first at hm₁ he₁ ⊢
  obtain ⟨em₁, e₁⟩ := first
  dsimp only at hm₁ he₁ ⊢
  have hrounded := roundedMantissa_le em₁
  generalize em₁.roundedMantissa = r at hrounded ⊢
  obtain ⟨hm₂, he₂⟩ := shiftToTargetExponent_bounds .binary64 r e₁ .exact
  generalize shiftToTargetExponent .binary64 r e₁ .exact = second at hm₂ he₂ ⊢
  obtain ⟨em₂, e₂⟩ := second
  dsimp only at hm₂ he₂ ⊢
  by_cases hzero : em₂.mantissa = 0
  · rw [dif_pos hzero]
    refine isFinite_unpack ?_
    show unpackExponent (packComponents .binary64 s 0 0) ≠ _
    rw [unpackExponent_packComponents]
    decide
  · rw [dif_neg hzero]
    refine isFinite_unpack (unpackExponent_pack_ne (Nat.pos_of_ne_zero hzero) ?_)
    have hlog₁ : m.log2 < 128 := log2_lt (by omega)
    have hlog₂ : r.log2 < 128 := log2_lt (by omega)
    replace he₁ : e₁ = max e (max (m.log2 + 1 + e - (53 : Nat)) (-1074)) := he₁
    replace he₂ : e₂ = max e₁ (max (r.log2 + 1 + e₁ - (53 : Nat)) (-1074)) := he₂
    omega

/-- The nearest floating point number of an integer of 64 bits, too large to be one exactly, is finite. -/
theorem isFinite_ofNat {n : Nat} (hlow : 2 ^ 53 ≤ n) (hhigh : n < 2 ^ 64) : (Float.ofNat n).isFinite = true := by
  have hmodel : Float.ofNat n = ⟨Float.Model.ofScientific n 0⟩ := by
    simp only [Float.ofNat, OfScientific.ofScientific]
    rw [Float.ofScientific, dif_neg (by omega)]
    rfl
  have hlimit : ¬ (0 : Int) < -(2 ^ Format.binary64.exponentBits + (n.log2 : Int)) := by
    show ¬ (0 : Int) < -(2 ^ 11 + (n.log2 : Int))
    omega
  have hrounded : ofScientific .binary64 n 0 =
      roundWithAccuracy .binary64 (.positive * .positive) ((n <<< 53) * 1) (-53 + 0) .exact := by
    rw [ofScientific, dif_neg (by omega), if_neg (by decide), if_neg hlimit, if_pos (by decide)]
    rfl
  rw [hmodel]
  show (Float.Model.pack (ofScientific .binary64 n 0)).isFinite = true
  rw [hrounded]
  refine isFinite_roundWithAccuracy _ ?_ (by decide)
  rw [Nat.shiftLeft_eq]
  omega

end FloatRange
end PropertyGraph
