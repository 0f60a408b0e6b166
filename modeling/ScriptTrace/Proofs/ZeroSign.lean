import ScriptTrace.Value.Operator

/-!
# The sign of a zero

There are two zeros, and they compare equal. Sums, differences, products, remainders, comparisons,
truth and indices do not tell them apart: from operands that differ in the sign of a zero they give
results that differ in the sign of a zero at most. Division does tell them apart, as `1 / 0` and
`1 / -0` are the two infinities.

The unpacked form of a number is followed through the operations, one case for each kind of operand.
-/

namespace ScriptTrace

open Float.Model (UnpackedFloat)

/-- Whether two unpacked numbers are the same but for the sign of a zero. -/
def SameButZeros (x y : UnpackedFloat) : Prop :=
  x = y ∨ (∃ s, x = .zero s) ∧ ∃ s, y = .zero s

namespace SameButZeros

variable {x x' y y' : UnpackedFloat}

theorem zeros {s s' : UnpackedFloat.Sign} : SameButZeros (.zero s) (.zero s') :=
  .inr ⟨⟨_, rfl⟩, _, rfl⟩

theorem neg (hx : SameButZeros x x') : SameButZeros x.neg x'.neg := by
  rcases hx with rfl | ⟨⟨s, rfl⟩, s', rfl⟩
  · exact .inl rfl
  · exact zeros

theorem add (hx : SameButZeros x x') (hy : SameButZeros y y') :
    SameButZeros (.add .binary64 x y) (.add .binary64 x' y') := by
  -- only a sum of two zeros shows their signs, and it is a zero whatever they are
  rcases hx with rfl | ⟨⟨s, rfl⟩, t, rfl⟩ <;> rcases hy with rfl | ⟨⟨s', rfl⟩, t', rfl⟩
  · exact .inl rfl
  · cases x with
    | notANumber | infinity | finite => exact .inl rfl
    | zero s => cases s <;> cases s' <;> cases t' <;> exact zeros
  · cases y with
    | notANumber | infinity | finite => exact .inl rfl
    | zero s' => cases s <;> cases s' <;> cases t <;> exact zeros
  · cases s <;> cases s' <;> cases t <;> cases t' <;> exact zeros

/-- A difference is the sum with the other sign. -/
theorem sub_eq_add (x y : UnpackedFloat) :
    UnpackedFloat.sub .binary64 x y = .add .binary64 x y.neg := by
  cases x with
  | notANumber | infinity | zero => cases y <;> rfl
  | finite s m e hm =>
    cases y with
    | notANumber | infinity | zero => rfl
    | finite t n e' hn =>
      have hneg : ∀ n : Nat, (-t).apply (n : Int) = -t.apply n := by
        intro n
        cases t with
        | positive => rfl
        | negative => exact (Int.neg_neg _).symm
      -- both mantissas are brought to the smaller exponent first
      show UnpackedFloat.normalize .binary64 (s.apply _ - t.apply _) (min e e') .positive =
        UnpackedFloat.normalize .binary64 (s.apply _ + (-t).apply _) (min e e') .positive
      rw [hneg, Int.sub_eq_add_neg]

theorem sub (hx : SameButZeros x x') (hy : SameButZeros y y') :
    SameButZeros (.sub .binary64 x y) (.sub .binary64 x' y') := by
  rw [sub_eq_add, sub_eq_add]
  exact hx.add hy.neg

theorem mul (hx : SameButZeros x x') (hy : SameButZeros y y') :
    SameButZeros (.mul .binary64 x y) (.mul .binary64 x' y') := by
  rcases hx with rfl | ⟨⟨s, rfl⟩, t, rfl⟩ <;> rcases hy with rfl | ⟨⟨s', rfl⟩, t', rfl⟩
  · exact .inl rfl
  · cases x with
    | notANumber | infinity => exact .inl rfl
    | zero | finite => exact zeros
  · cases y with
    | notANumber | infinity => exact .inl rfl
    | zero | finite => exact zeros
  · exact zeros

theorem compare (hx : SameButZeros x x') (hy : SameButZeros y y') :
    x.compare y = x'.compare y' := by
  rcases hx with rfl | ⟨⟨s, rfl⟩, t, rfl⟩ <;> rcases hy with rfl | ⟨⟨s', rfl⟩, t', rfl⟩
  · rfl
  · cases x with
    | notANumber | zero => rfl
    | infinity s | finite s => cases s <;> rfl
  · cases y with
    | notANumber | zero => rfl
    | infinity s | finite s => cases s <;> rfl
  · rfl

end SameButZeros

namespace Number

/-- Whether a number is one of the zeros. -/
def IsZero (n : Number) : Prop := n = 0 ∨ n = -0

/-- Whether two numbers are the same or, unless the match has to be exact, two zeros. -/
def Matches (exact : Bool) (n m : Number) : Prop :=
  n = m ∨ exact = false ∧ n.IsZero ∧ m.IsZero

theorem IsZero.unpack {n : Number} (h : n.IsZero) : ∃ s, n.toModel.unpack = .zero s := by
  rcases h with rfl | rfl
  · exact ⟨.positive, rfl⟩
  · exact ⟨.negative, rfl⟩

theorem isZero_pack (s : UnpackedFloat.Sign) : IsZero (.ofModel (.pack (.zero s))) := by
  cases s with
  | positive => exact .inl rfl
  | negative => exact .inr rfl

namespace Matches

variable {exact : Bool} {n n' m m' : Number}

theorem refl (n : Number) : Matches exact n n := .inl rfl

theorem unpack (h : Matches exact n m) : SameButZeros n.toModel.unpack m.toModel.unpack := by
  rcases h with rfl | ⟨-, hn, hm⟩
  · exact .inl rfl
  · exact .inr ⟨hn.unpack, hm.unpack⟩

/-- Numbers that match exactly are the same. -/
theorem eq (h : Matches true n m) : n = m := by
  rcases h with h | ⟨hexact, -⟩
  · exact h
  · cases hexact

theorem of_unpacked {x y : UnpackedFloat} (h : SameButZeros x y) :
    Matches false (.ofModel (.pack x)) (.ofModel (.pack y)) := by
  rcases h with rfl | ⟨⟨s, rfl⟩, s', rfl⟩
  · exact refl _
  · exact .inr ⟨rfl, isZero_pack s, isZero_pack s'⟩

/-- An operation that takes matching numbers to numbers that match up to the sign of a zero takes
them to the same number if they are the same. -/
theorem lift₂ (op : Number → Number → Number)
    (hop : Matches false n n' → Matches false m m' → Matches false (op n m) (op n' m'))
    (hn : Matches exact n n') (hm : Matches exact m m') : Matches exact (op n m) (op n' m') := by
  cases exact with
  | true =>
    rw [hn.eq, hm.eq]
    exact refl _
  | false => exact hop hn hm

theorem neg (hn : Matches exact n n') : Matches exact (-n) (-n') :=
  lift₂ (fun n _ ↦ -n) (fun hn _ ↦ of_unpacked hn.unpack.neg) hn (refl n)

theorem add (hn : Matches exact n n') (hm : Matches exact m m') :
    Matches exact (n + m) (n' + m') :=
  lift₂ (· + ·) (fun hn hm ↦ of_unpacked (hn.unpack.add hm.unpack)) hn hm

theorem sub (hn : Matches exact n n') (hm : Matches exact m m') :
    Matches exact (n - m) (n' - m') :=
  lift₂ (· - ·) (fun hn hm ↦ of_unpacked (hn.unpack.sub hm.unpack)) hn hm

theorem mul (hn : Matches exact n n') (hm : Matches exact m m') :
    Matches exact (n * m) (n' * m') :=
  lift₂ (· * ·) (fun hn hm ↦ of_unpacked (hn.unpack.mul hm.unpack)) hn hm

theorem compare (hn : Matches exact n n') (hm : Matches exact m m') :
    n.toModel.compare m.toModel = n'.toModel.compare m'.toModel :=
  hn.unpack.compare hm.unpack

theorem beq (hn : Matches exact n n') (hm : Matches exact m m') : (n == m) = (n' == m') :=
  congrArg (· == some Ordering.eq) (hn.compare hm)

theorem lt (hn : Matches exact n n') (hm : Matches exact m m') : n < m ↔ n' < m' := by
  have hlt : ∀ a b : Number, a < b ↔ (a.toModel.compare b.toModel == some .lt) = true :=
    fun a b ↦ decide_eq_true_iff
  rw [hlt, hlt, hn.compare hm]

theorem le (hn : Matches exact n n') (hm : Matches exact m m') : n ≤ m ↔ n' ≤ m' := by
  have hle : ∀ a b : Number, a ≤ b ↔ (a.toModel.compare b.toModel).any (·.isLE) = true :=
    fun a b ↦ decide_eq_true_iff
  rw [hle, hle, hn.compare hm]

theorem remainder (hn : Matches exact n n') (hm : Matches exact m m') :
    Matches exact (Number.remainder n m) (Number.remainder n' m') := by
  refine lift₂ Number.remainder (fun hn hm ↦ ?_) hn hm
  rcases hn with rfl | ⟨-, hn, hn'⟩ <;> rcases hm with rfl | ⟨-, hm, hm'⟩
  · exact refl _
  · -- nothing has a remainder by zero
    obtain ⟨s, hm⟩ := hm.unpack
    obtain ⟨s', hm'⟩ := hm'.unpack
    rw [Number.remainder, Number.remainder, hm, hm']
    cases n.toModel.unpack <;> exact refl _
  · -- the remainder of a zero is the zero itself
    obtain ⟨s, hs⟩ := hn.unpack
    obtain ⟨s', hs'⟩ := hn'.unpack
    rw [Number.remainder, Number.remainder, hs, hs']
    cases m.toModel.unpack with
    | infinity | finite => exact .inr ⟨rfl, hn, hn'⟩
    | zero | notANumber => exact refl _
  · obtain ⟨s, hn⟩ := hn.unpack
    obtain ⟨s', hn'⟩ := hn'.unpack
    obtain ⟨t, hm⟩ := hm.unpack
    obtain ⟨t', hm'⟩ := hm'.unpack
    rw [Number.remainder, Number.remainder, hn, hn', hm, hm']
    exact refl _

theorem toNat? (h : Matches exact n m) : n.toNat? = m.toNat? := by
  rcases h with rfl | ⟨-, hn, hm⟩
  · rfl
  · obtain ⟨s, hn⟩ := hn.unpack
    obtain ⟨s', hm⟩ := hm.unpack
    rw [Number.toNat?, Number.toNat?, toInt?, toInt?, hn, hm]

theorem isNaN (h : Matches exact n m) : n.isNaN = m.isNaN := by
  rcases h with rfl | ⟨-, rfl | rfl, rfl | rfl⟩ <;> rfl

end Matches

end Number

end ScriptTrace
