import Mathlib
import ScriptTrace.Proofs.ExactLengths
import ScriptTrace.Proofs.ZeroSign

/-!
# Exact integers

Sums, differences and comparisons of numbers are those of integers, as long as operands and results
are below `2 ^ 53` in magnitude. An integer is brought to a mantissa of 53 bits by a power of two
(`IsInteger`). A sum brings both mantissas to the smaller exponent and rounds, and rounding a whole
number drops nothing. A comparison looks at the exponents first, and of two mantissas of 53 bits the
one with the larger exponent belongs to the larger integer.
-/

namespace ScriptTrace

namespace Number

open Float.Model (UnpackedFloat)
open Float.Model.UnpackedFloat

/-- The number nearest to an integer. -/
def ofInt (n : Int) : Number := .ofModel (.pack (UnpackedFloat.ofInt .binary64 n))

/-- The unpacked form of an integer below `2 ^ 53` in magnitude. -/
inductive IsInteger : Int → UnpackedFloat → Prop where
  | zero : IsInteger 0 (.zero .positive)
  | scaled (sign : Sign) {n k : Nat} (hk : k ≤ 52) (hlog : (n * 2 ^ k).log2 = 52)
      (hpos : 0 < n * 2 ^ k) : IsInteger (sign.apply n) (.finite sign (n * 2 ^ k) (-k) hpos)

/-! ## Rounding integers -/

theorem normalize_of_pos {n : Nat} (hn : 0 < n) (e : Int) :
    UnpackedFloat.normalize .binary64 n e .positive =
      UnpackedFloat.round .binary64 .positive n e := by
  have hcompare : compare (n : Int) 0 = .gt := Int.compare_eq_gt.mpr (Int.natCast_pos.mpr hn)
  rw [UnpackedFloat.normalize, hcompare, Int.toNat_natCast]

theorem normalize_of_neg {n : Nat} (hn : 0 < n) (e : Int) :
    UnpackedFloat.normalize .binary64 (-n) e .positive =
      UnpackedFloat.round .binary64 .negative n e := by
  have hcompare : compare (-n : Int) 0 = .lt := Int.compare_eq_lt.mpr (by omega)
  rw [UnpackedFloat.normalize, hcompare, Int.neg_neg, Int.toNat_natCast]

theorem normalize_sign {n : Nat} (hn : 0 < n) (sign : Sign) (e : Int) :
    UnpackedFloat.normalize .binary64 (sign.apply n) e .positive =
      UnpackedFloat.round .binary64 sign n e := by
  cases sign with
  | positive => exact normalize_of_pos hn e
  | negative => exact normalize_of_neg hn e

theorem apply_mul (sign : Sign) (n m : Nat) :
    sign.apply ((n * m : Nat) : Int) = sign.apply n * m := by
  cases sign with
  | positive => exact Int.natCast_mul n m
  | negative => rw [Sign.apply, Sign.apply, Int.natCast_mul, Int.neg_mul]

theorem exists_sign (n : Int) : ∃ sign : Sign, n = sign.apply n.natAbs := by
  rcases Int.natAbs_eq n with h | h
  · exact ⟨.positive, h⟩
  · exact ⟨.negative, h⟩

/-- An integer is rounded to its unpacked form, however it is scaled. -/
theorem isInteger_normalize {n : Int} (hn : n.natAbs < 2 ^ 53) (j : Nat) :
    IsInteger n (UnpackedFloat.normalize .binary64 (n * 2 ^ j) (-j) .positive) := by
  by_cases hzero : n.natAbs = 0
  · obtain rfl := Int.natAbs_eq_zero.mp hzero
    rw [Int.zero_mul]
    exact .zero
  · obtain ⟨sign, hsign⟩ := exists_sign n
    obtain ⟨k, hk, hlog⟩ := exists_scale hzero hn
    have hpos : 0 < n.natAbs * 2 ^ k := by positivity
    have hscaled : n * 2 ^ j = sign.apply ((n.natAbs * 2 ^ j : Nat) : Int) := by
      rw [apply_mul, ← hsign]
      push_cast
      rfl
    rw [hscaled, normalize_sign (by positivity), round_scaled hk hlog hpos]
    nth_rewrite 1 [hsign]
    exact .scaled sign hk hlog hpos

/-- An integer has one unpacked form. -/
theorem IsInteger.eq {n : Int} {x : UnpackedFloat} (h : IsInteger n x) :
    x = UnpackedFloat.ofInt .binary64 n := by
  cases h with
  | zero => rfl
  | @scaled sign m k hk hlog hpos =>
    have hround : UnpackedFloat.round .binary64 sign (m * 2 ^ 0) (-(0 : Nat)) =
        .finite sign (m * 2 ^ k) (-k) hpos := round_scaled hk hlog hpos 0
    rw [UnpackedFloat.ofInt, normalize_sign (Nat.pos_of_mul_pos_right hpos), ← hround]
    simp

/-- Packing loses nothing of an integer. -/
theorem IsInteger.unpack_pack {n : Int} {x : UnpackedFloat} (h : IsInteger n x) :
    unpack .binary64 (pack .binary64 x) = x := by
  cases h with
  | zero => rfl
  | scaled sign hk hlog hpos => exact unpack_pack_normal hlog hpos (by omega) (by omega)

theorem isInteger_unpack {n : Int} (hn : n.natAbs < 2 ^ 53) :
    IsInteger n (ofInt n).toModel.unpack := by
  have hinteger : IsInteger n (UnpackedFloat.ofInt .binary64 n) := by
    have hnormal := isInteger_normalize hn 0
    simpa [UnpackedFloat.ofInt] using hnormal
  have hunpack : (ofInt n).toModel.unpack = UnpackedFloat.ofInt .binary64 n := hinteger.unpack_pack
  rw [hunpack]
  exact hinteger

/-! ## Arithmetic -/

namespace IsInteger

variable {a b : Int} {x y : UnpackedFloat}

theorem neg_finite {sign : Sign} {m : Nat} {e : Int} {hpos : 0 < m}
    (h : IsInteger a (.finite sign m e hpos)) : IsInteger (-a) (.finite (-sign) m e hpos) := by
  cases h with
  | @scaled _ n k hk hlog _ =>
    have hneg : -sign.apply (n : Int) = (-sign).apply n := by
      cases sign with
      | positive => rfl
      | negative => exact Int.neg_neg _
    rw [hneg]
    exact .scaled _ hk hlog hpos

/-- Bringing the mantissa to a smaller exponent scales it. -/
theorem decreaseExponent_scaled {n k l : Nat} (hkl : k ≤ l) :
    (decreaseExponent (n * 2 ^ k) (-k) (-l)).1 = n * 2 ^ l := by
  have hamount : (-(k : Int) - -(l : Int)).toNat = l - k := by omega
  rw [decreaseExponent, hamount, Nat.shiftLeft_eq, mul_assoc, ← pow_add, Nat.add_sub_cancel' hkl]

theorem add (hx : IsInteger a x) (hy : IsInteger b y) (hsum : (a + b).natAbs < 2 ^ 53) :
    IsInteger (a + b) (.add .binary64 x y) := by
  cases hx with
  | zero =>
    rw [Int.zero_add]
    cases hy with
    | zero => exact .zero
    | scaled sign hk hlog hpos => exact .scaled sign hk hlog hpos
  | @scaled s n k hk hlog hpos =>
    cases hy with
    | zero =>
      rw [Int.add_zero]
      exact .scaled s hk hlog hpos
    | @scaled t m l hl hlog' hpos' =>
      -- the smaller exponent is that of the mantissa that has been shifted further
      have hmin : min (-k : Int) (-l) = -(max k l : Nat) := by omega
      have hadd : UnpackedFloat.add .binary64 (.finite s (n * 2 ^ k) (-k) hpos)
          (.finite t (m * 2 ^ l) (-l) hpos') =
          .normalize .binary64 ((s.apply n + t.apply m) * 2 ^ max k l) (-(max k l : Nat))
            .positive := by
        show UnpackedFloat.normalize .binary64
          (s.apply (decreaseExponent _ _ (min (-k : Int) (-l))).1 +
            t.apply (decreaseExponent _ _ (min (-k : Int) (-l))).1) (min (-k) (-l)) .positive = _
        rw [hmin, decreaseExponent_scaled (Nat.le_max_left k l),
          decreaseExponent_scaled (Nat.le_max_right k l), apply_mul, apply_mul, ← Int.add_mul]
        push_cast
        rfl
      rw [hadd]
      exact isInteger_normalize hsum _

theorem sub (hx : IsInteger a x) (hy : IsInteger b y) (hdiff : (a - b).natAbs < 2 ^ 53) :
    IsInteger (a - b) (.sub .binary64 x y) := by
  cases hy with
  | zero =>
    rw [Int.sub_zero]
    cases hx with
    | zero => exact .zero
    | scaled sign hk hlog hpos => exact .scaled sign hk hlog hpos
  | scaled sign hk hlog hpos =>
    rw [SameButZeros.sub_eq_add]
    exact hx.add (IsInteger.scaled sign hk hlog hpos).neg_finite hdiff

end IsInteger

/-! ## Comparisons -/

/-- Of two mantissas of 53 bits the one with the larger exponent is that of the larger natural. -/
theorem lt_of_scaled {n m k l : Nat} (hlog : (n * 2 ^ k).log2 = 52) (hlog' : (m * 2 ^ l).log2 = 52)
    (hpos : 0 < n * 2 ^ k) (hpos' : 0 < m * 2 ^ l) (hkl : k < l) : m < n := by
  have hlow : 2 ^ 52 ≤ n * 2 ^ k := ((Nat.log2_eq_iff hpos.ne').mp hlog).1
  have hhigh : m * 2 ^ l < 2 ^ 53 := ((Nat.log2_eq_iff hpos'.ne').mp hlog').2
  refine Nat.lt_of_mul_lt_mul_right (a := 2 ^ l) ?_
  calc m * 2 ^ l < 2 ^ 52 * 2 := hhigh
    _ ≤ n * 2 ^ k * 2 := Nat.mul_le_mul_right 2 hlow
    _ = n * 2 ^ (k + 1) := by rw [Nat.mul_assoc, ← pow_succ]
    _ ≤ n * 2 ^ l := Nat.mul_le_mul_left n (Nat.pow_le_pow_right Nat.two_pos hkl)

theorem compare_scaled {n m k l : Nat} (hlog : (n * 2 ^ k).log2 = 52)
    (hlog' : (m * 2 ^ l).log2 = 52) (hpos : 0 < n * 2 ^ k) (hpos' : 0 < m * 2 ^ l) :
    (compare (-k : Int) (-l)).then (compare (n * 2 ^ k) (m * 2 ^ l)) = compare n m := by
  rcases Nat.lt_trichotomy k l with hkl | rfl | hkl
  · have hexponent : compare (-k : Int) (-l) = .gt := Int.compare_eq_gt.mpr (by omega)
    rw [hexponent, Nat.compare_eq_gt.mpr (lt_of_scaled hlog hlog' hpos hpos' hkl)]
    rfl
  · have hexponent : compare (-k : Int) (-k) = .eq := Int.compare_eq_eq.mpr rfl
    rw [hexponent]
    have hscale : 0 < 2 ^ k := Nat.two_pow_pos k
    rcases Nat.lt_trichotomy n m with h | rfl | h
    · have hmantissa := Nat.mul_lt_mul_of_pos_right h hscale
      rw [Nat.compare_eq_lt.mpr h, Nat.compare_eq_lt.mpr hmantissa]
      rfl
    · rw [Nat.compare_eq_eq.mpr rfl, Nat.compare_eq_eq.mpr rfl]
      rfl
    · have hmantissa := Nat.mul_lt_mul_of_pos_right h hscale
      rw [Nat.compare_eq_gt.mpr h, Nat.compare_eq_gt.mpr hmantissa]
      rfl
  · have hexponent : compare (-k : Int) (-l) = .lt := Int.compare_eq_lt.mpr (by omega)
    rw [hexponent, Nat.compare_eq_lt.mpr (lt_of_scaled hlog' hlog hpos' hpos hkl)]
    rfl

theorem compare_natCast (n m : Nat) : compare (n : Int) m = compare n m := by
  simp only [compare, compareOfLessAndEq, Int.ofNat_lt, Int.natCast_inj]

theorem compare_neg (a b : Int) : compare (-a) (-b) = compare b a := by
  simp only [compare, compareOfLessAndEq, Int.neg_lt_neg_iff, neg_inj, eq_comm]

theorem IsInteger.compare {a b : Int} {x y : UnpackedFloat} (hx : IsInteger a x)
    (hy : IsInteger b y) : x.compare y = some (Ord.compare a b) := by
  cases hx with
  | zero =>
    cases hy with
    | zero => rfl
    | @scaled t m l _ _ hpos =>
      have hm : (0 : Int) < m := Int.natCast_pos.mpr (Nat.pos_of_mul_pos_right hpos)
      cases t with
      | positive => exact congrArg some (Int.compare_eq_lt.mpr hm).symm
      | negative => exact congrArg some (Int.compare_eq_gt.mpr (Int.neg_neg_of_pos hm)).symm
  | @scaled s n k _ hlog hpos =>
    have hn : (0 : Int) < n := Int.natCast_pos.mpr (Nat.pos_of_mul_pos_right hpos)
    cases hy with
    | zero =>
      cases s with
      | positive => exact congrArg some (Int.compare_eq_gt.mpr hn).symm
      | negative => exact congrArg some (Int.compare_eq_lt.mpr (Int.neg_neg_of_pos hn)).symm
    | @scaled t m l _ hlog' hpos' =>
      have hm : (0 : Int) < m := Int.natCast_pos.mpr (Nat.pos_of_mul_pos_right hpos')
      have horder := compare_scaled hlog hlog' hpos hpos'
      cases s with
      | positive =>
        cases t with
        | positive => exact congrArg some (horder.trans (compare_natCast n m).symm)
        | negative =>
          exact congrArg some (Int.compare_eq_gt.mpr ((Int.neg_neg_of_pos hm).trans hn)).symm
      | negative =>
        cases t with
        | positive =>
          exact congrArg some (Int.compare_eq_lt.mpr ((Int.neg_neg_of_pos hn).trans hm)).symm
        | negative =>
          have hswap : (Ord.compare n m).swap = Ord.compare (-n : Int) (-m) := by
            rw [compare_neg, compare_natCast, ← Std.OrientedOrd.eq_swap]
          exact congrArg some ((congrArg Ordering.swap horder).trans hswap)

/-! ## Numbers of integers -/

variable {a b : Int}

theorem ofInt_add (ha : a.natAbs < 2 ^ 53) (hb : b.natAbs < 2 ^ 53)
    (hsum : (a + b).natAbs < 2 ^ 53) : ofInt a + ofInt b = ofInt (a + b) := by
  have hinteger := (isInteger_unpack ha).add (isInteger_unpack hb) hsum
  exact congrArg (fun x ↦ Float.ofModel (.pack x)) hinteger.eq

theorem ofInt_sub (ha : a.natAbs < 2 ^ 53) (hb : b.natAbs < 2 ^ 53)
    (hdiff : (a - b).natAbs < 2 ^ 53) : ofInt a - ofInt b = ofInt (a - b) := by
  have hinteger := (isInteger_unpack ha).sub (isInteger_unpack hb) hdiff
  exact congrArg (fun x ↦ Float.ofModel (.pack x)) hinteger.eq

theorem ofInt_lt_iff (ha : a.natAbs < 2 ^ 53) (hb : b.natAbs < 2 ^ 53) :
    ofInt a < ofInt b ↔ a < b := by
  have hcompare := (isInteger_unpack ha).compare (isInteger_unpack hb)
  have hlt : ofInt a < ofInt b ↔
      ((ofInt a).toModel.unpack.compare (ofInt b).toModel.unpack == some .lt) = true :=
    decide_eq_true_iff
  rw [hlt, hcompare, beq_iff_eq, Option.some_inj, Int.compare_eq_lt]

theorem ofLength_eq_ofInt {length : Nat} (hlength : length < 2 ^ 53) :
    ofLength length = ofInt length := by
  have hbits : length.toUInt64.toNat = length := by
    rw [UInt64.toNat_ofNat', Nat.mod_eq_of_lt (by omega)]
  change ofInt length.toUInt64.toNat = _
  rw [hbits]

theorem wholeScaled_mul_two_pow (n k : Nat) : wholeScaled (n * 2 ^ k) (-k) = some n := by
  rw [wholeScaled]
  split
  · obtain rfl : k = 0 := by omega
    simp [power]
  · have hpower : power 2 (- -(k : Int)) = 2 ^ k := by
      rw [Int.neg_neg]
      rfl
    rw [hpower, if_pos (Nat.mul_mod_left n _), Nat.mul_div_cancel n (Nat.two_pow_pos k)]

/-- The number of an integer denotes it. -/
theorem toInt?_ofInt {n : Int} (hn : n.natAbs < 2 ^ 53) : (ofInt n).toInt? = some n := by
  have hinteger := isInteger_unpack hn
  rw [toInt?]
  generalize (ofInt n).toModel.unpack = x at hinteger
  cases hinteger with
  | zero => rfl
  | scaled =>
    simp only [wholeScaled_mul_two_pow]
    rfl

theorem toNat?_ofInt {n : Nat} (hn : n < 2 ^ 53) : (ofInt n).toNat? = some n := by
  have habs : (n : Int).natAbs < 2 ^ 53 := hn
  rw [toNat?, toInt?_ofInt habs]

end Number

end ScriptTrace
