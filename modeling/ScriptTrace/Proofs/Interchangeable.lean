import Mathlib
import ScriptTrace.Proofs.ShortValue
import ScriptTrace.Proofs.ZeroSign
import ScriptTrace.Syntax.Build

/-!
# Indices that the swap idiom takes for the same

The swap idiom is recognised by comparing index expressions, `Expr.same`. Expressions that are the
same by this comparison lead to the same slot of every array, or fail alike, except for one thing:
the comparison takes the two zeros for equal, and a division tells them apart. Without a division,
or with the same signs of all zeros, one of the expressions may stand for the other.
-/

namespace ScriptTrace

/-- Whether two expressions can stand for each other as an index: in every state both give values
that address the same slot of an array of any length, if they address one, or both fail for the
same cause. Neither changes the state. -/
def Expr.Interchangeable (e e' : Expr) : Prop :=
  ∀ s : State,
    match e.eval s, e'.eval s with
    | .ok v t, .ok v' t' => t = s ∧ t' = s ∧ ∀ array length,
      (s.heap.resolveIndex v array length).toOption = (s.heap.resolveIndex v' array length).toOption
    | .error failure t, .error failure' t' => t = s ∧ t' = s ∧ failure.cause = failure'.cause
    | _, _ => False

/-! ## Values up to the sign of a zero -/

namespace Value

/-- Whether two values are the same or, unless the match has to be exact, two zeros. -/
inductive Matches (exact : Bool) : Value → Value → Prop
  | refl (v : Value) : Matches exact v v
  | number {n m : Number} (h : n.Matches exact m) : Matches exact (.number n) (.number m)

namespace Matches

variable {exact : Bool} {v v' w w' : Value}

theorem toNumber (heap : Heap) (h : Matches exact v v') :
    (heap.toNumber v).Matches exact (heap.toNumber v') := by
  cases h with
  | refl => exact .refl _
  | number h =>
    rw [Heap.toNumber, Heap.toNumber, Heap.toNumberIn, Heap.toNumberIn]
    exact h

theorem isTruthy (h : Matches exact v v') : v.isTruthy = v'.isTruthy := by
  cases h with
  | refl => rfl
  | number h => rw [Value.isTruthy, Value.isTruthy, h.beq (.refl 0.0), h.isNaN]

theorem isSame (h : Matches exact v v') (h' : Matches exact w w') :
    Heap.isSame v w = Heap.isSame v' w' := by
  cases h with
  | refl v =>
    cases h' with
    | refl => rfl
    | number h' =>
      cases v with
      | number n => exact (Number.Matches.refl n).beq h'
      | boolean | array | undefined => rfl
  | number h =>
    cases h' with
    | refl w =>
      cases w with
      | number m => exact h.beq (.refl m)
      | boolean | array | undefined => rfl
    | number h' => exact h.beq h'

theorem isEqual (heap : Heap) (h : Matches exact v v') (h' : Matches exact w w') :
    heap.isEqual v w = heap.isEqual v' w' := by
  have hnumbers := (h.toNumber heap).beq (h'.toNumber heap)
  cases h with
  | refl v =>
    cases h' with
    | refl => rfl
    | number h' =>
      cases v with
      | number | boolean | array => exact hnumbers
      | undefined => rfl
  | number h =>
    cases h' with
    | refl w =>
      cases w with
      | number | boolean | array => exact hnumbers
      | undefined => rfl
    | number h' => exact hnumbers

/-- Values that match address the same slots. -/
theorem resolveIndex (heap : Heap) (h : Matches exact v v') (array : String) (length : Nat) :
    (heap.resolveIndex v array length).toOption =
      (heap.resolveIndex v' array length).toOption := by
  have hslot : heap.slot? v length = heap.slot? v' length := by
    have hnumbers := h.toNumber heap
    rw [Heap.slot?, Heap.slot?, hnumbers.toNat?]
    simp only [hnumbers.lt (.refl _)]
  rw [Heap.resolveIndex, Heap.resolveIndex, hslot]
  cases heap.slot? v' length <;> rfl

end Matches

/-- Whether two results are values that match, or the same failure. -/
inductive ResultsMatch (exact : Bool) : Except Cause Value → Except Cause Value → Prop
  | ok {v v' : Value} (h : Matches exact v v') : ResultsMatch exact (.ok v) (.ok v')
  | error (cause : Cause) : ResultsMatch exact (.error cause) (.error cause)

namespace ResultsMatch

variable {exact : Bool} {r r' : Except Cause Value}

theorem refl (r : Except Cause Value) : ResultsMatch exact r r := by
  cases r with
  | ok v => exact .ok (.refl v)
  | error cause => exact .error cause

theorem boolean {b b' : Bool} (h : b = b') :
    ResultsMatch exact (.ok (.boolean b)) (.ok (.boolean b')) := h ▸ .refl _

theorem bind {k k' : Value → Except Cause Value} (h : ResultsMatch exact r r')
    (hk : ∀ v v', Matches exact v v' → ResultsMatch exact (k v) (k' v')) :
    ResultsMatch exact (r >>= k) (r' >>= k') := by
  cases h with
  | ok hv => exact hk _ _ hv
  | error cause => exact .error cause

/-- The same choice between values that match. -/
theorem ite {b b' : Bool} {v v' w w' : Value} (hb : b = b') (hv : Matches exact v v')
    (hw : Matches exact w w') :
    ResultsMatch exact (.ok (if b then v else w)) (.ok (if b' then v' else w')) := by
  subst hb
  cases b with
  | true => exact .ok hv
  | false => exact .ok hw

end ResultsMatch

end Value

open Value (Matches ResultsMatch)

namespace Heap

variable {exact : Bool} {v v' w w' : Value}

/-- An operator takes values that match to results that match. Division needs exact matches. -/
theorem binary_matches (heap : Heap) {op : BinaryOp} (hop : op = .divide → exact = true)
    (hv : Matches exact v v') (hw : Matches exact w w') :
    ResultsMatch exact (heap.binary op v w) (heap.binary op v' w') := by
  have hn := hv.toNumber heap
  have hm := hw.toNumber heap
  cases op with
  | add => exact .ok (.number (hn.add hm))
  | subtract => exact .ok (.number (hn.sub hm))
  | multiply => exact .ok (.number (hn.mul hm))
  | remainder => exact .ok (.number (hn.remainder hm))
  | divide =>
    -- the match is exact, so the operands are the same
    obtain rfl := hop rfl
    rw [binary, binary, hn.eq, hm.eq]
    exact .refl _
  | less => exact .boolean (decide_eq_decide.mpr (hn.lt hm))
  | lessEqual => exact .boolean (decide_eq_decide.mpr (hn.le hm))
  | greater => exact .boolean (decide_eq_decide.mpr (hm.lt hn))
  | greaterEqual => exact .boolean (decide_eq_decide.mpr (hm.le hn))
  | same => exact .boolean (hv.isSame hw)
  | notSame => exact .boolean (congrArg (!·) (hv.isSame hw))
  | equal => exact .boolean (hv.isEqual heap hw)
  | notEqual => exact .boolean (congrArg (!·) (hv.isEqual heap hw))
  | both => exact .ite hv.isTruthy hw hv
  | either => exact .ite hv.isTruthy hv hw
  | power | bitAnd | bitOr | bitXor | shiftLeft | shiftRight | shiftRightZero | member
  | instanceOf => exact .refl _

theorem unary_matches (heap : Heap) (op : UnaryOp) (hv : Matches exact v v') :
    ResultsMatch exact (heap.unary op v) (heap.unary op v') := by
  have hn := hv.toNumber heap
  cases op with
  | negate => exact .ok (.number hn.neg)
  | plus => exact .ok (.number hn)
  | not => exact .boolean (congrArg (!·) hv.isTruthy)
  | bitNot | typeOf | void | delete => exact .refl _

end Heap

/-! ## Expressions that are the same -/

/-- Numbers that compare equal match, but not always exactly. -/
theorem Number.Matches.of_beq {n m : Number} (h : (n == m) = true) : n.Matches false m := by
  obtain ⟨-, -, h | ⟨hn, hm⟩ | ⟨hn, hm⟩⟩ := Float.beq_iff_ne_nan_and_eq.mp h
  · exact .inl h
  · exact .inr ⟨rfl, .inl hn, .inr hm⟩
  · exact .inr ⟨rfl, .inr hn, .inl hm⟩

namespace Expr

/-- Whether there is a division in an expression. -/
def divides : Expr → Bool
  | binary op left right _ => op == .divide || left.divides || right.divides
  | logical _ left right _ => left.divides || right.divides
  | unary _ operand _ => operand.divides
  | conditional test consequent alternate _ =>
    test.divides || consequent.divides || alternate.divides
  | _ => false

/-- Whether the numbers at the same places of two expressions are the same, the signs of zeros
included. -/
def sameNumbers : Expr → Expr → Bool
  | literal (.number n) _ _, literal (.number m) _ _ => n = m
  | binary _ left right _, binary _ left' right' _
  | logical _ left right _, logical _ left' right' _ =>
    left.sameNumbers left' && right.sameNumbers right'
  | unary _ operand _, unary _ operand' _ => operand.sameNumbers operand'
  | conditional test consequent alternate _, conditional test' consequent' alternate' _ =>
    test.sameNumbers test' && consequent.sameNumbers consequent' &&
      alternate.sameNumbers alternate'
  | _, _ => true

variable {exact : Bool} {environment : Environment} {heap : Heap} {e e' : Expr}

theorem literalValue_matches {value value' : LiteralValue} {loc loc' : Option Location}
    (regex : Option Regex) (h : value.same value' = true)
    (hnumbers : exact = true →
      (literal value regex loc).sameNumbers (literal value' regex loc') = true) :
    ResultsMatch exact (literalValue value regex) (literalValue value' regex) := by
  rw [literalValue.eq_def, literalValue.eq_def]
  split
  · exact .refl _
  · cases value <;> cases value' <;>
      simp only [LiteralValue.same, Bool.false_eq_true, beq_iff_eq] at h
    case number.number n m =>
      cases exact with
      | true =>
        obtain rfl : n = m := of_decide_eq_true (hnumbers rfl)
        exact .refl _
      | false => exact .ok (.number (.of_beq h))
    case bool.bool b c => exact .boolean h
    -- the other literals are no values, whatever they say
    case null.null | string.string | other.other => exact .refl _

/-- Expressions that are the same have values that match. Where there is a division, the match has
to be exact, and for that the numbers in them have to be the same. -/
theorem shortValue_matches (h : e.same e' = true) (hdivides : e.divides = true → exact = true)
    (hnumbers : exact = true → e.sameNumbers e' = true) :
    ResultsMatch exact (e.shortValue environment heap) (e'.shortValue environment heap) := by
  induction e generalizing e' with
  | literal value regex loc =>
    cases e' <;> simp only [same, Bool.false_eq_true, Bool.and_eq_true, beq_iff_eq] at h
    obtain ⟨hvalue, rfl⟩ := h
    exact literalValue_matches regex hvalue hnumbers
  | identifier name loc =>
    cases e' <;> simp only [same, Bool.false_eq_true, beq_iff_eq] at h
    rw [shortValue, shortValue, h]
    exact .refl _
  | binary op left right loc hleft hright =>
    cases e' <;> simp only [same, Bool.false_eq_true, Bool.and_eq_true, beq_iff_eq] at h
    obtain ⟨⟨rfl, hl⟩, hr⟩ := h
    simp only [divides, sameNumbers, Bool.or_eq_true, Bool.and_eq_true, beq_iff_eq]
      at hdivides hnumbers
    refine (hleft hl (fun h ↦ hdivides (.inl (.inr h))) fun h ↦ (hnumbers h).1).bind
      fun v v' hv ↦ ?_
    refine (hright hr (fun h ↦ hdivides (.inr h)) fun h ↦ (hnumbers h).2).bind fun w w' hw ↦ ?_
    exact heap.binary_matches (fun h ↦ hdivides (.inl (.inl h))) hv hw
  | logical op left right loc hleft hright =>
    cases e' <;> simp only [same, Bool.false_eq_true, Bool.and_eq_true, beq_iff_eq] at h
    obtain ⟨⟨rfl, hl⟩, hr⟩ := h
    simp only [divides, sameNumbers, Bool.or_eq_true, Bool.and_eq_true] at hdivides hnumbers
    rw [shortValue, shortValue]
    split
    · refine (hleft hl (fun h ↦ hdivides (.inl h)) fun h ↦ (hnumbers h).1).bind fun v v' hv ↦ ?_
      rw [hv.isTruthy]
      split
      · exact hright hr (fun h ↦ hdivides (.inr h)) fun h ↦ (hnumbers h).2
      · exact .ok hv
    · exact .refl _
  | unary op operand loc hoperand =>
    cases e' <;> simp only [same, Bool.false_eq_true, Bool.and_eq_true, beq_iff_eq] at h
    obtain ⟨rfl, ho⟩ := h
    exact (hoperand ho hdivides hnumbers).bind fun v v' hv ↦ heap.unary_matches op hv
  | conditional test consequent alternate loc htest hconsequent halternate =>
    cases e' <;> simp only [same, Bool.false_eq_true, Bool.and_eq_true] at h
    obtain ⟨⟨ht, hc⟩, ha⟩ := h
    simp only [divides, sameNumbers, Bool.or_eq_true, Bool.and_eq_true] at hdivides hnumbers
    refine (htest ht (fun h ↦ hdivides (.inl (.inl h))) fun h ↦ (hnumbers h).1.1).bind
      fun v v' hv ↦ ?_
    rw [hv.isTruthy]
    split
    · exact hconsequent hc (fun h ↦ hdivides (.inl (.inr h))) fun h ↦ (hnumbers h).1.2
    · exact halternate ha (fun h ↦ hdivides (.inr h)) fun h ↦ (hnumbers h).2
  | update | assign | array | index | property | call | unsupported =>
    simp only [same, Bool.false_eq_true] at h

/-- What is the same as anything is a short expression. -/
theorem isStable_nil_of_same (h : e.same e' = true) : e.isStable [] = true := by
  induction e generalizing e' with
  | literal => rfl
  | identifier => rfl
  | binary op left right loc hleft hright =>
    cases e' <;> simp only [same, Bool.false_eq_true, Bool.and_eq_true] at h
    rw [isStable, hleft h.1.2, hright h.2, Bool.and_self]
  | logical op left right loc hleft hright =>
    cases e' <;> simp only [same, Bool.false_eq_true, Bool.and_eq_true] at h
    rw [isStable, hleft h.1.2, hright h.2, Bool.and_self]
  | unary op operand loc hoperand =>
    cases e' <;> simp only [same, Bool.false_eq_true, Bool.and_eq_true] at h
    rw [isStable, hoperand h.2]
  | conditional test consequent alternate loc htest hconsequent halternate =>
    cases e' <;> simp only [same, Bool.false_eq_true, Bool.and_eq_true] at h
    rw [isStable, htest h.1.1, hconsequent h.1.2, halternate h.2, Bool.and_self, Bool.and_self]
  | update | assign | array | index | property | call | unsupported =>
    simp only [same, Bool.false_eq_true] at h

/-- Expressions that are the same can stand for each other as an index, if there is no division in
them or the numbers in them are the same, the signs of zeros included. -/
theorem interchangeable_of_same (h : e.same e' = true)
    (hnumbers : e.divides = true → e.sameNumbers e' = true) : e.Interchangeable e' := by
  intro s
  have hstable := isStable_nil_of_same h
  have hmatch : ResultsMatch e.divides (e.shortValue s.environment s.heap)
    (e'.shortValue s.environment s.heap) := shortValue_matches h id hnumbers
  have hrun := eval_computes hstable s.environment s.heap
  have hrun' := eval_computes (isStable_of_same h ▸ hstable) s.environment s.heap
  generalize e.shortValue s.environment s.heap = r at hmatch hrun
  generalize e'.shortValue s.environment s.heap = r' at hmatch hrun'
  cases hmatch with
  | ok hv =>
    rw [hrun s.history, hrun' s.history]
    exact ⟨rfl, rfl, hv.resolveIndex s.heap⟩
  | error cause =>
    -- the failures differ in where they are, as the expressions may
    obtain ⟨failure, hcause, hrun⟩ := hrun
    obtain ⟨failure', hcause', hrun'⟩ := hrun'
    rw [hrun s.history, hrun' s.history]
    exact ⟨rfl, rfl, hcause.trans hcause'.symm⟩

/-- Zeros of either sign can be added to an index. -/
theorem interchangeable_addZero :
    (ofBinary .add (ofName "i") (ofNumber 0)).same
      (ofBinary .add (ofName "i") (ofNumber (-0))) = true ∧
    (ofBinary .add (ofName "i") (ofNumber 0)).Interchangeable
      (ofBinary .add (ofName "i") (ofNumber (-0))) := by
  have hsame : (ofBinary .add (ofName "i") (ofNumber 0)).same
      (ofBinary .add (ofName "i") (ofNumber (-0))) = true := rfl
  exact ⟨hsame, interchangeable_of_same hsame fun h ↦ absurd h Bool.false_ne_true⟩

/-- An index that is 1 if the quotient of 1 and a number is positive, and 0 otherwise. -/
def signIndex (n : Number) : Expr :=
  conditional (ofBinary .greater (ofBinary .divide (ofNumber 1) (ofNumber n)) (ofNumber 0))
    (ofNumber 1) (ofNumber 0) none

theorem shortValue_signIndex (environment : Environment) (heap : Heap) (n : Number) :
    (signIndex n).shortValue environment heap = .ok (.number (if 0 < 1 / n then 1 else 0)) := by
  have hquotient : heap.binary .divide (.number 1) (.number n) = .ok (.number (1 / n)) := by
    rw [Heap.binary, Heap.toNumber, Heap.toNumber, Heap.toNumberIn, Heap.toNumberIn]
  have hgreater : heap.binary .greater (.number (1 / n)) (.number 0) =
      .ok (.boolean (0 < 1 / n)) := by
    rw [Heap.binary, Heap.toNumber, Heap.toNumber, Heap.toNumberIn, Heap.toNumberIn]
  have htest : (ofBinary .greater (ofBinary .divide (ofNumber 1) (ofNumber n))
      (ofNumber 0)).shortValue environment heap = .ok (.boolean (0 < 1 / n)) := by
    rw [← hgreater]
    show (heap.binary .divide (.number 1) (.number n) >>= fun a ↦ _) = _
    rw [hquotient]
    rfl
  rw [signIndex, shortValue, htest]
  by_cases h : 0 < 1 / n
  · rw [if_pos h, decide_eq_true h]
    rfl
  · rw [if_neg h, decide_eq_false h]
    rfl

theorem eval_signIndex (n : Number) (s : State) :
    (signIndex n).eval s = .ok (.number (if 0 < 1 / n then 1 else 0)) s := by
  have hrun := @eval_computes [] (signIndex n) rfl s.environment s.heap
  rw [shortValue_signIndex] at hrun
  exact hrun s.history

/-- Not all expressions that are the same can stand for each other. -/
theorem not_interchangeable_of_same :
    ¬∀ e e' : Expr, e.same e' = true → e.Interchangeable e' := by
  intro h
  have hboth := h (signIndex 0) (signIndex (-0)) rfl ⟨.empty, .empty, .empty .keepAll⟩
  have hpositive : (0 : Number) < 1 / 0 := by decide
  have hnegative : ¬(0 : Number) < 1 / -0 := by decide
  rw [eval_signIndex, eval_signIndex, if_pos hpositive, if_neg hnegative] at hboth
  obtain ⟨-, -, hslots⟩ := hboth
  -- in an array of length 2 the one addresses the second slot, the other the first
  have hslots := hslots "a" 2
  rw [Heap.resolveIndex, Heap.resolveIndex, Heap.slot?, Heap.slot?, Heap.toNumber, Heap.toNumber,
    Heap.toNumberIn, Heap.toNumberIn] at hslots
  exact absurd hslots (by decide)

end Expr

end ScriptTrace
