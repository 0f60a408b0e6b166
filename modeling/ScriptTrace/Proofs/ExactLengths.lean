import Mathlib
import ScriptTrace.Value.Convert

/-!
# Lengths as numbers

An index addresses a slot if it denotes a natural number and is below the length of its array. The
second is asked twice, of the naturals and of the numbers. Below `2 ^ 53` every length is exact as a
number, and the order of numbers is that of the naturals which they denote. So it is enough to ask
it of the numbers.

A positive length is the number whose mantissa has its digits, shifted to 53 bits. Numbers are
compared by their exponents first, and then by their mantissas.
-/

namespace ScriptTrace

namespace Number

open Float.Model (UnpackedFloat Format totalExponent)
open Float.Model.UnpackedFloat

/-! ## Mantissas of 53 bits -/

theorem log2_mul_two_pow {n : Nat} (hn : n ≠ 0) (k : Nat) : (n * 2 ^ k).log2 = n.log2 + k := by
  obtain ⟨hlow, hhigh⟩ := (Nat.log2_eq_iff hn).mp rfl
  refine (Nat.log2_eq_iff (by positivity)).mpr ⟨?_, ?_⟩
  · rw [pow_add]
    exact Nat.mul_le_mul_right _ hlow
  · rw [Nat.add_right_comm, pow_add]
    exact Nat.mul_lt_mul_of_pos_right hhigh (by positivity)

theorem exists_scale {length : Nat} (hpos : length ≠ 0) (hlength : length < 2 ^ 53) :
    ∃ k, k ≤ 52 ∧ (length * 2 ^ k).log2 = 52 := by
  have hlog : length.log2 < 53 := (Nat.log2_lt hpos).mpr hlength
  refine ⟨52 - length.log2, Nat.sub_le .., ?_⟩
  rw [log2_mul_two_pow hpos]
  omega

/-- A mantissa of 53 bits is not shifted. -/
theorem shiftToTargetExponent_normal {m : Nat} {e : Int} (hlog : m.log2 = 52) (he : -1074 ≤ e) :
    shiftToTargetExponent .binary64 m e .exact = (⟨m, false, false⟩, e) := by
  have htarget : Format.binary64.targetExponent (totalExponent m e) = e := by
    simp only [Format.targetExponent, totalExponent, hlog, Format.mantissaBits,
      Format.minExponent]
    omega
  rw [shiftToTargetExponent, htarget, shiftToExponent, Int.sub_self]
  simp only [Int.toNat_zero, Int.natCast_zero, Int.add_zero]
  rfl

/-- Bits that are zero are dropped without a trace. -/
theorem shiftRight_mul_two_pow (m d : Nat) :
    (⟨m * 2 ^ d, false, false⟩ : ExtendedMantissa) >>> d = ⟨m, false, false⟩ := by
  induction d generalizing m with
  | zero =>
    rw [pow_zero, mul_one]
    rfl
  | succ d ih =>
    have hsplit : m * 2 ^ (d + 1) = m * 2 * 2 ^ d := by rw [pow_succ']; ring
    have hone : (⟨m * 2, false, false⟩ : ExtendedMantissa).shiftRightOne = ⟨m, false, false⟩ := by
      simp [ExtendedMantissa.shiftRightOne]
    rw [hsplit]
    change ((⟨m * 2 * 2 ^ d, false, false⟩ : ExtendedMantissa) >>> d).shiftRightOne = _
    rw [ih, hone]

theorem targetExponent_scaled {n k : Nat} (hk : k ≤ 52) (hlog : (n * 2 ^ k).log2 = 52)
    (hn : n ≠ 0) (j : Nat) :
    Format.binary64.targetExponent (totalExponent (n * 2 ^ j) (-j)) = -k := by
  rw [log2_mul_two_pow hn] at hlog
  simp only [Format.targetExponent, totalExponent, Format.mantissaBits, Format.minExponent,
    log2_mul_two_pow hn]
  omega

/-- A whole number is rounded by bringing its mantissa to 53 bits, however it is scaled. -/
theorem round_scaled {sign : Sign} {n k : Nat} (hk : k ≤ 52) (hlog : (n * 2 ^ k).log2 = 52)
    (hpos : 0 < n * 2 ^ k) (j : Nat) :
    UnpackedFloat.round .binary64 sign (n * 2 ^ j) (-j) =
      .finite sign (n * 2 ^ k) (-k) hpos := by
  have hn : n ≠ 0 := (Nat.pos_of_mul_pos_right hpos).ne'
  have htarget := targetExponent_scaled hk hlog hn
  have hdecrease : decreaseExponent (n * 2 ^ j) (-j) (-k) =
      (n * 2 ^ max j k, -((max j k : Nat) : Int)) := by
    have hamount : (-(j : Int) - -(k : Int)).toNat = k - j := by omega
    have hmax : max j k = j + (k - j) := by omega
    simp only [decreaseExponent, hamount, Nat.shiftLeft_eq, hmax, pow_add, mul_assoc]
    congr 1
    omega
  have hshift : shiftToTargetExponent .binary64 (n * 2 ^ max j k) (-((max j k : Nat) : Int))
      .exact = (⟨n * 2 ^ k, false, false⟩, -(k : Int)) := by
    have hamount : (-(k : Int) - -((max j k : Nat) : Int)).toNat = max j k - k := by omega
    have hscaled : n * 2 ^ max j k = n * 2 ^ k * 2 ^ (max j k - k) := by
      rw [mul_assoc, ← pow_add, Nat.add_sub_cancel' (Nat.le_max_right j k)]
    rw [shiftToTargetExponent, htarget, shiftToExponent, hamount,
      ExtendedMantissa.ofMantissaAndAccuracy, hscaled]
    simp only [shiftRight_mul_two_pow]
    congr 1
    omega
  have hround : ExtendedMantissa.roundedMantissa ⟨n * 2 ^ k, false, false⟩ = n * 2 ^ k := rfl
  have hagain := @shiftToTargetExponent_normal (n * 2 ^ k) (-k) hlog (by omega)
  simp only [UnpackedFloat.round, htarget, hdecrease, roundWithAccuracy, hshift, hround, hagain]
  rw [dif_neg hpos.ne']

theorem toNat_one_append (m : BitVec 52) : (1#1 ++ m).toNat = 2 ^ 52 + m.toNat := by
  rw [BitVec.toNat_append, ← Nat.shiftLeft_add_eq_or_of_lt m.isLt]
  rfl

/-- A mantissa of 53 bits is packed without its first bit, and unpacked with it. -/
theorem unpack_pack_normal {sign : Sign} {m : Nat} {e : Int} (hlog : m.log2 = 52) (hpos : 0 < m)
    (hlow : -1074 ≤ e) (hhigh : e ≤ 971) :
    unpack .binary64 (pack .binary64 (.finite sign m e hpos)) = .finite sign m e hpos := by
  obtain ⟨hle, hlt⟩ := (Nat.log2_eq_iff hpos.ne').mp hlog
  have hbiased : (e + Format.binary64.exponentBias + (52 : Nat)).toNat = (e + 1075).toNat := by
    simp [Format.exponentBias]
    omega
  have hexponent : (BitVec.ofNat 11 (e + 1075).toNat).toNat = (e + 1075).toNat := by
    rw [BitVec.toNat_ofNat]
    omega
  have hmantissa : (1#1 ++ BitVec.ofNat 52 m).toNat = m := by
    rw [toNat_one_append, BitVec.toNat_ofNat]
    omega
  have hpack : pack .binary64 (.finite sign m e hpos) =
      packComponents .binary64 sign (.ofNat 11 (e + 1075).toNat) (.ofNat 52 m) := by
    simp only [pack, hbiased]
    rw [if_neg (by omega), if_pos (by rw [hlog]; rfl)]
  rw [hpack, unpack]
  simp only [unpackExponent_packComponents, unpackMantissa_packComponents,
    unpackSign_packComponents, hexponent, hmantissa, Sign.ofBitVec_toBitVec]
  -- the exponents that stand for infinities and for short mantissas are not used
  rw [if_neg, if_neg]
  · congr
    simp [Format.exponentBias]
    omega
  · rw [← BitVec.toNat_inj, hexponent]
    simp
    omega
  · rw [← BitVec.toNat_inj, hexponent]
    simp
    omega

theorem mantissa_lt {bits : BitVec 64} {sign : Sign} {m : Nat} {e : Int} {hpos : 0 < m}
    (h : unpack .binary64 bits = .finite sign m e hpos) : m < 2 ^ 53 := by
  rw [unpack] at h
  split at h
  · split at h <;> cases h
  · split at h
    · split at h
      · cases h
      · obtain ⟨-, rfl, -⟩ := UnpackedFloat.finite.inj h
        exact Nat.lt_of_lt_of_le (BitVec.isLt _) (by decide)
    · obtain ⟨-, rfl, -⟩ := UnpackedFloat.finite.inj h
      exact BitVec.isLt _

/-! ## Lengths and the numbers below them -/

theorem unpack_ofLength_zero : (ofLength 0).toModel.unpack = .zero .positive := by rfl

/-- A length below `2 ^ 53` is exact as a number. -/
theorem unpack_ofLength {length k : Nat} (hlength : length < 2 ^ 53) (hk : k ≤ 52)
    (hlog : (length * 2 ^ k).log2 = 52) (hpos : 0 < length * 2 ^ k) :
    (ofLength length).toModel.unpack = .finite .positive (length * 2 ^ k) (-k) hpos := by
  have hbits : length.toUInt64.toNat = length := by
    rw [UInt64.toNat_ofNat', Nat.mod_eq_of_lt (by omega)]
  have hround : UnpackedFloat.ofUInt64 .binary64 length.toUInt64 =
      .finite .positive (length * 2 ^ k) (-k) hpos := by
    have hcompare : compare (length : Int) 0 = .gt :=
      Int.compare_eq_gt.mpr (Int.natCast_pos.mpr (Nat.pos_of_mul_pos_right hpos))
    simp only [ofUInt64, hbits, UnpackedFloat.ofNat, ofInt, UnpackedFloat.normalize, hcompare,
      Int.toNat_natCast]
    have hround : UnpackedFloat.round .binary64 .positive (length * 2 ^ 0) (-(0 : Nat)) =
        .finite .positive (length * 2 ^ k) (-k) hpos := round_scaled hk hlog hpos 0
    simpa using hround
  change unpack .binary64 (pack .binary64 (UnpackedFloat.ofUInt64 .binary64 _)) = _
  rw [hround]
  exact unpack_pack_normal hlog hpos (by omega) (by omega)

theorem wholeScaled_pos {m slot : Nat} {e : Int} (hm : 0 < m)
    (hslot : wholeScaled m e = some slot) : 0 < slot := by
  rw [wholeScaled] at hslot
  split at hslot
  · obtain rfl := Option.some.inj hslot
    exact Nat.mul_pos hm (Nat.two_pow_pos _)
  · split at hslot
    · rename_i hmod
      obtain rfl := Option.some.inj hslot
      exact Nat.div_pos (Nat.le_of_dvd hm (Nat.dvd_of_mod_eq_zero hmod)) (Nat.two_pow_pos _)
    · cases hslot

/-- Being below in the order of exponents and mantissas means being below as a natural, if the upper
mantissa has 53 bits and the lower one no more. -/
theorem wholeScaled_lt {m slot length k : Nat} {e : Int} (hm : m < 2 ^ 53)
    (hlow : 2 ^ 52 ≤ length * 2 ^ k) (hslot : wholeScaled m e = some slot)
    (horder : e < -k ∨ e = -k ∧ m < length * 2 ^ k) : slot < length := by
  rw [wholeScaled] at hslot
  split at hslot
  · obtain rfl := Option.some.inj hslot
    obtain ⟨rfl, rfl, hm⟩ : k = 0 ∧ e = 0 ∧ m < length * 2 ^ k := by omega
    simpa [power] using hm
  · split at hslot
    · obtain rfl := Option.some.inj hslot
      refine (Nat.div_lt_iff_lt_mul (Nat.two_pow_pos _)).mpr ?_
      change m < length * 2 ^ (-e).toNat
      rcases horder with he | ⟨rfl, hm⟩
      · calc m < 2 ^ 52 * 2 := hm
          _ ≤ length * 2 ^ k * 2 := Nat.mul_le_mul_right 2 hlow
          _ = length * 2 ^ (k + 1) := by rw [Nat.mul_assoc, ← pow_succ]
          _ ≤ length * 2 ^ (-e).toNat :=
            Nat.mul_le_mul_left _ (Nat.pow_le_pow_right Nat.two_pos (by omega))
      · simpa using hm
    · cases hslot

/-- A number that denotes a natural is a zero, or positive. -/
theorem unpack_of_toNat? {n : Number} {slot : Nat} (h : n.toNat? = some slot) :
    (∃ sign, n.toModel.unpack = .zero sign ∧ slot = 0) ∨
      ∃ m e hpos, n.toModel.unpack = .finite .positive m e hpos ∧
        wholeScaled m e = some slot := by
  rw [toNat?, toInt?] at h
  rcases hn : n.toModel.unpack with sign | _ | sign | ⟨sign, m, e, hpos⟩
  · simp [hn] at h
  · simp [hn] at h
  · simp only [hn] at h
    exact .inl ⟨sign, rfl, (Option.some.inj h).symm⟩
  · simp only [hn] at h
    rcases hwhole : wholeScaled m e with _ | k
    · simp [hwhole] at h
    · obtain ⟨k, rfl⟩ := Nat.exists_eq_succ_of_ne_zero (wholeScaled_pos hpos hwhole).ne'
      rcases sign with _ | _
      · simp only [hwhole, Sign.apply] at h
        cases h
      · simp only [hwhole, Sign.apply] at h
        cases h
        exact .inr ⟨m, e, hpos, rfl, hwhole⟩

/-- **The order of numbers is exact** where a natural is compared with a length below `2 ^ 53`. -/
theorem lt_of_lt_ofLength {n : Number} {slot length : Nat} (hlength : length < 2 ^ 53)
    (hslot : n.toNat? = some slot) (hlt : n < ofLength length) : slot < length := by
  have hcompare : n.toModel.unpack.compare (ofLength length).toModel.unpack = some .lt := by
    have hlt : n.toModel < (ofLength length).toModel := of_decide_eq_true hlt
    exact beq_iff_eq.mp hlt
  by_cases hzero : length = 0
  · -- only negative numbers are below 0
    rw [hzero, unpack_ofLength_zero] at hcompare
    rcases unpack_of_toNat? hslot with ⟨sign, hn, -⟩ | ⟨m, e, hpos, hn, -⟩
    · rw [hn] at hcompare
      cases hcompare
    · rw [hn] at hcompare
      cases hcompare
  · rcases unpack_of_toNat? hslot with ⟨sign, -, rfl⟩ | ⟨m, e, hpos, hn, hwhole⟩
    · exact Nat.pos_of_ne_zero hzero
    · obtain ⟨k, hk, hlog⟩ := exists_scale hzero hlength
      have hscaled : 0 < length * 2 ^ k := by positivity
      have hlow : 2 ^ 52 ≤ length * 2 ^ k := ((Nat.log2_eq_iff hscaled.ne').mp hlog).1
      rw [hn, unpack_ofLength hlength hk hlog hscaled] at hcompare
      have horder : (compare e (-k)).then (compare m (length * 2 ^ k)) = .lt :=
        Option.some.inj hcompare
      rw [Ordering.then_eq_lt, compare_lt_iff_lt, compare_eq_iff_eq, compare_lt_iff_lt] at horder
      exact wholeScaled_lt (mantissa_lt hn) hlow hwhole horder

end Number

/-- The slot that an index addresses in an array of a length below `2 ^ 53`: it is enough to compare
the index as a number. -/
theorem Heap.slot?_eq_filter (h : Heap) (index : Value) {length : Nat} (hlength : length < 2 ^ 53) :
    h.slot? index length =
      (h.toNumber index).toNat?.filter fun _ ↦ h.toNumber index < .ofLength length := by
  rw [slot?]
  rcases hslot : (h.toNumber index).toNat? with _ | slot
  · rfl
  · rw [Option.filter_some]
    by_cases hlt : h.toNumber index < .ofLength length
    · rw [if_pos (decide_eq_true hlt)]
      exact if_pos ⟨Number.lt_of_lt_ofLength hlength hslot hlt, hlt⟩
    · rw [decide_eq_false hlt]
      exact if_neg fun hand ↦ hlt hand.2

end ScriptTrace
