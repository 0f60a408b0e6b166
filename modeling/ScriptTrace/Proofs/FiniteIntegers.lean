import Mathlib
import ScriptTrace.Json.Basic

/-!
# Integers of 64 bits as numbers

The nearest number of an integer of 64 bits is finite. Rounding first brings a mantissa to 53 bits
and then makes up for a carry, and each of the two raises the exponent by no more than the mantissa
is long. An infinity begins far above that.
-/

namespace ScriptTrace

namespace Number

open Float.Model (UnpackedFloat Format totalExponent)
open Float.Model.UnpackedFloat

/-! ## Exponents that can be packed -/

/-- Whether an unpacked number is a zero, or finite with an exponent that can be packed. -/
def IsPackable : UnpackedFloat → Prop
  | .zero _ => True
  | .finite _ _ exponent _ => exponent ≤ 971
  | .infinity _ | .notANumber => False

theorem isFinite_unpack {bits : BitVec 64} (h : @unpackExponent .binary64 bits ≠ -1#11) :
    (unpack .binary64 bits).isFinite = true := by
  rw [unpack, if_neg h]
  split
  · split <;> rfl
  · rfl

theorem isFinite_pack {x : UnpackedFloat} (h : IsPackable x) :
    Float.isFinite (.ofModel (.pack x)) = true := by
  refine @isFinite_unpack (pack .binary64 x) ?_
  cases x with
  | zero s => simp [pack, packedZero]
  | infinity | notANumber => cases h
  | finite s m e hpos =>
    have he : e ≤ 971 := h
    have hbiased : (e + Format.binary64.exponentBias + (52 : Nat)).toNat = (e + 1075).toNat := by
      simp [Format.exponentBias]
      omega
    have hexponent : BitVec.ofNat 11 (e + 1075).toNat ≠ -1#11 := by
      rw [ne_eq, ← BitVec.toNat_inj, BitVec.toNat_ofNat]
      simp
      omega
    simp only [pack, hbiased]
    rw [if_neg (by omega)]
    split
    · rw [unpackExponent_packComponents]
      exact hexponent
    · rw [unpackExponent_packComponents]
      decide

/-! ## Rounding -/

/-- Bits that are dropped make a mantissa no larger. -/
theorem mantissa_shiftRight_le (em : ExtendedMantissa) (k : Nat) :
    (em >>> k).mantissa ≤ em.mantissa := by
  induction k with
  | zero => exact Nat.le_refl _
  | succ k ih => exact Nat.le_trans (Nat.div_le_self _ 2) ih

theorem roundedMantissa_le (em : ExtendedMantissa) : em.roundedMantissa ≤ em.mantissa + 1 := by
  obtain ⟨m, roundBit, stickyBit⟩ := em
  have hmod : m % 2 < 2 := Nat.mod_lt _ Nat.two_pos
  cases roundBit <;> cases stickyBit <;>
    simp only [ExtendedMantissa.roundedMantissa, ExtendedMantissa.accuracy,
      Accuracy.roundToNearestEven] <;> omega

/-- Shifting a mantissa to 53 bits raises the exponent by no more than the mantissa is long. -/
theorem shiftToTargetExponent_le {m : Nat} {e bound : Int} (hbound : -1074 ≤ bound)
    (he : e ≤ bound) (hm : m.log2 + e ≤ bound + 52) :
    (shiftToTargetExponent .binary64 m e .exact).1.mantissa ≤ m ∧
      (shiftToTargetExponent .binary64 m e .exact).2 ≤ bound := by
  refine ⟨mantissa_shiftRight_le _ _, ?_⟩
  simp only [shiftToTargetExponent, shiftToExponent, Format.targetExponent, totalExponent,
    Format.mantissaBits, Format.minExponent]
  omega

theorem log2_le_of_lt {m k : Nat} (hm : m < 2 ^ (k + 1)) : m.log2 ≤ k := by
  by_cases hzero : m = 0
  · rw [hzero, Nat.log2_zero]
    exact Nat.zero_le k
  · exact Nat.lt_succ_iff.mp ((Nat.log2_lt hzero).mpr hm)

theorem isPackable_roundWithAccuracy {sign : Sign} {m : Nat} {e : Int} (he : e ≤ 0)
    (hm : m < 2 ^ 116) : IsPackable (roundWithAccuracy .binary64 sign m e .exact) := by
  have hlog : m.log2 ≤ 115 := log2_le_of_lt hm
  obtain ⟨hmantissa, hexponent⟩ :=
    @shiftToTargetExponent_le m e 63 (by decide) (by omega) (by omega)
  rw [roundWithAccuracy]
  generalize shiftToTargetExponent .binary64 m e .exact = first at hmantissa hexponent
  obtain ⟨em, e'⟩ := first
  -- rounding may carry, so the mantissa can be one bit longer
  have hcarry : em.roundedMantissa ≤ m + 1 :=
    (roundedMantissa_le em).trans (Nat.succ_le_succ hmantissa)
  have hrounded : em.roundedMantissa.log2 ≤ 116 := log2_le_of_lt (by omega)
  obtain ⟨-, hexponent'⟩ :=
    @shiftToTargetExponent_le em.roundedMantissa e' 971 (by decide) (by omega) (by omega)
  let second := shiftToTargetExponent .binary64 em.roundedMantissa e' .exact
  show IsPackable (if h : second.1.mantissa = 0 then .zero sign
    else .finite sign second.1.mantissa second.2 (Nat.pos_of_ne_zero h))
  split
  · trivial
  · exact hexponent'

/-- What an integer of 64 bits is rounded to can be packed. -/
theorem isPackable_round {sign : Sign} {m : Nat} (hm : m < 2 ^ 64) :
    IsPackable (UnpackedFloat.round .binary64 sign m 0) := by
  have htarget : -52 ≤ Format.binary64.targetExponent (totalExponent m 0) := by
    simp only [Format.targetExponent, totalExponent, Format.mantissaBits, Format.minExponent]
    omega
  rw [UnpackedFloat.round, decreaseExponent]
  generalize Format.binary64.targetExponent (totalExponent m 0) = target at htarget
  refine isPackable_roundWithAccuracy (by omega) ?_
  rw [Nat.shiftLeft_eq]
  calc m * 2 ^ (0 - target).toNat
      ≤ m * 2 ^ 52 := Nat.mul_le_mul_left m (Nat.pow_le_pow_right Nat.two_pos (by omega))
    _ < 2 ^ 64 * 2 ^ 52 := Nat.mul_lt_mul_of_pos_right hm (Nat.two_pow_pos 52)

theorem isPackable_ofInt {n : Int} (hn : n.natAbs < 2 ^ 64) :
    IsPackable (UnpackedFloat.ofInt .binary64 n) := by
  rw [UnpackedFloat.ofInt, UnpackedFloat.normalize]
  split
  · exact isPackable_round (by omega)
  · trivial
  · exact isPackable_round (by omega)

end Number

/-- The nearest number of a JSON number is finite. -/
theorem JsonNumber.isFinite_toNumber (n : JsonNumber) : n.toNumber.isFinite = true := by
  cases n with
  | natural n =>
    have hn : (n.toNat : Int).natAbs < 2 ^ 64 := n.toNat_lt
    exact Number.isFinite_pack (Number.isPackable_ofInt hn)
  | negative n =>
    have hlow := n.le_toInt
    have hhigh := n.toInt_lt
    exact Number.isFinite_pack (Number.isPackable_ofInt (by omega))
  | real n finite => exact finite

end ScriptTrace
