import Mathlib
import ScriptTrace.Proofs.HeapNumbers
import ScriptTrace.Proofs.Oblivious
import ScriptTrace.Proofs.Visits

/-!
# The values of short expressions

An index of the swap idiom is built from literals, names and operators. Running such an expression
changes nothing and emits nothing, so its value is a function of the variables and the arrays,
`Expr.shortValue`. It depends on less than that: on the names that the expression mentions, and on
the arrays only through the numbers of values. Expressions that are the same but for locations have
the same value, as long as no literal is the negative zero, which compares equal to zero.
-/

namespace ScriptTrace

namespace Eval

/-- A computation that changes nothing and emits nothing, and what it gives. -/
def Computes {α : Type} (m : Eval α) (environment : Environment) (heap : Heap)
    (r : Except Cause α) : Prop :=
  match r with
  | .ok a => m.Emits environment heap (.ok a (environment, heap)) []
  | .error cause => ∃ failure : Failure, failure.cause = cause ∧
      m.Emits environment heap (.error failure (environment, heap)) []

namespace Computes

variable {α β : Type} {environment : Environment} {h : Heap}

theorem pure (a : α) : (Pure.pure a : Eval α).Computes environment h (.ok a) := fun _ ↦ rfl

theorem fail (cause : Cause) : (Eval.fail cause : Eval α).Computes environment h (.error cause) :=
  ⟨.ofCause cause, rfl, fun _ ↦ rfl⟩

theorem ofExcept (r : Except Cause α) : (Eval.ofExcept r).Computes environment h r := by
  cases r with
  | ok a => exact pure a
  | error cause => exact fail cause

theorem heap : Eval.heap.Computes environment h (.ok h) := fun _ ↦ rfl

theorem lookup? (environment : Environment) (h : Heap) (name : String) :
    (Eval.lookup? name).Computes environment h (.ok (environment.get? name)) := fun _ ↦ rfl

theorem bind {m : Eval α} {k : α → Eval β} {r : Except Cause α} {r' : α → Except Cause β}
    (hm : m.Computes environment h r)
    (hk : ∀ a, r = .ok a → (k a).Computes environment h (r' a)) :
    (m >>= k).Computes environment h (r >>= r') := by
  cases r with
  | error cause =>
    obtain ⟨failure, hcause, hm⟩ := hm
    exact ⟨failure, hcause, hm.bind_error⟩
  | ok a =>
    have hka := hk a rfl
    show (m >>= k).Computes environment h (r' a)
    cases hr : r' a with
    | ok b =>
      rw [hr] at hka
      exact Emits.bind hm hka
    | error cause =>
      rw [hr] at hka
      obtain ⟨failure, hcause, hka⟩ := hka
      exact ⟨failure, hcause, Emits.bind hm hka⟩

/-- What a computation gives is passed on. -/
theorem bind_ok {m : Eval α} {k : α → Eval β} {a : α} {r : Except Cause β}
    (hm : m.Computes environment h (.ok a)) (hk : (k a).Computes environment h r) :
    (m >>= k).Computes environment h r := by
  refine @bind α β environment h m k (.ok a) (fun _ ↦ r) hm fun b hb ↦ ?_
  obtain rfl := Except.ok.inj hb
  exact hk

theorem bind_error {m : Eval α} {cause : Cause} (hm : m.Computes environment h (.error cause))
    (k : α → Eval β) : (m >>= k).Computes environment h (.error cause) := by
  obtain ⟨failure, hcause, hm⟩ := hm
  exact ⟨failure, hcause, hm.bind_error⟩

theorem atNode (nodeType : String) (line : Option UInt32) {m : Eval α} {r : Except Cause α}
    (hm : m.Computes environment h r) :
    (Eval.atNode nodeType line m).Computes environment h r := by
  cases r with
  | ok a => exact Emits.atNode nodeType line hm
  | error cause =>
    obtain ⟨failure, hcause, hm⟩ := hm
    exact ⟨failure.atNode nodeType line, hcause, hm.atNode_error nodeType line⟩

end Computes

end Eval

namespace Expr

/-- The value of a name. -/
def nameValue (environment : Environment) (name : String) : Except Cause Value :=
  match environment.get? name with
  | some v => .ok v
  | none => unboundValue name

/-- The value of an expression that is built from literals, names and operators. -/
def shortValue (environment : Environment) (heap : Heap) : Expr → Except Cause Value
  | literal value regex _ => literalValue value regex
  | identifier name _ => nameValue environment name
  | binary op left right _ => do
    let a ← left.shortValue environment heap
    let b ← right.shortValue environment heap
    heap.binary op a b
  | logical op left right _ => do
    if op.isSupported then
      let a ← left.shortValue environment heap
      if a.isTruthy == (op == .and) then right.shortValue environment heap else return a
    else
      .error (.unsupportedOperator op.symbol)
  | unary op operand _ => do
    let a ← operand.shortValue environment heap
    heap.unary op a
  | conditional test consequent alternate _ => do
    let a ← test.shortValue environment heap
    if a.isTruthy then consequent.shortValue environment heap
    else alternate.shortValue environment heap
  | e => .error (.unsupportedNode e.nodeType)

theorem identifierValue_computes (environment : Environment) (heap : Heap) (name : String) :
    (identifierValue name).Computes environment heap (nameValue environment name) := by
  refine (Eval.Computes.lookup? environment heap name).bind_ok ?_
  rw [nameValue]
  cases environment.get? name with
  | none => exact Eval.Computes.ofExcept _
  | some v => exact Eval.Computes.pure v

/-- Running a short expression gives its value. -/
theorem eval_computes {changed : List String} {e : Expr} (hstable : e.isStable changed = true)
    (environment : Environment) (heap : Heap) :
    e.eval.Computes environment heap (e.shortValue environment heap) := by
  induction e with
  | literal value regex loc => exact (Eval.Computes.ofExcept _).atNode _ _
  | identifier name loc => exact (identifierValue_computes environment heap name).atNode _ _
  | binary op left right loc hleft hright =>
    obtain ⟨hl, hr⟩ := Bool.and_eq_true_iff.mp hstable
    refine ((hleft hl).bind fun a _ ↦ (hright hr).bind fun b _ ↦ ?_).atNode _ _
    exact Eval.Computes.heap.bind_ok (Eval.Computes.ofExcept _)
  | logical op left right loc hleft hright =>
    obtain ⟨hl, hr⟩ := Bool.and_eq_true_iff.mp hstable
    refine Eval.Computes.atNode _ _ ?_
    rw [shortValue]
    by_cases hop : op.isSupported = true
    · rw [if_pos hop, if_pos hop]
      refine (hleft hl).bind fun a _ ↦ ?_
      by_cases ha : (a.isTruthy == (op == .and)) = true
      · rw [if_pos ha, if_pos ha]
        exact hright hr
      · rw [if_neg ha, if_neg ha]
        exact Eval.Computes.pure a
    · rw [if_neg hop, if_neg hop]
      exact Eval.Computes.fail _
  | unary op operand loc hoperand =>
    refine ((hoperand hstable).bind fun a _ ↦ ?_).atNode _ _
    exact Eval.Computes.heap.bind_ok (Eval.Computes.ofExcept _)
  | conditional test consequent alternate loc htest hconsequent halternate =>
    obtain ⟨h, ha⟩ := Bool.and_eq_true_iff.mp hstable
    obtain ⟨ht, hc⟩ := Bool.and_eq_true_iff.mp h
    refine ((htest ht).bind fun a _ ↦ ?_).atNode _ _
    by_cases hv : a.isTruthy = true
    · rw [if_pos hv, if_pos hv]
      exact hconsequent hc
    · rw [if_neg hv, if_neg hv]
      exact halternate ha
  | update | assign | array | index | property | call | unsupported => cases hstable

/-! ## What the value depends on -/

/-- The value depends on the names that an expression mentions, and on the numbers of values. -/
theorem shortValue_congr {changed : List String} {environment environment' : Environment}
    {heap heap' : Heap}
    (hnames : ∀ name ∉ changed, environment.get? name = environment'.get? name)
    (hnumbers : ∀ v, heap.toNumber v = heap'.toNumber v) {e : Expr}
    (hstable : e.isStable changed = true) :
    e.shortValue environment heap = e.shortValue environment' heap' := by
  induction e with
  | literal value regex loc => rfl
  | identifier name loc =>
    have hname : name ∉ changed := by simpa [isStable] using hstable
    rw [shortValue, shortValue, nameValue, nameValue, hnames name hname]
  | binary op left right loc hleft hright =>
    obtain ⟨hl, hr⟩ := Bool.and_eq_true_iff.mp hstable
    rw [shortValue, shortValue, hleft hl, hright hr]
    simp only [Heap.binary_congr hnumbers]
  | logical op left right loc hleft hright =>
    obtain ⟨hl, hr⟩ := Bool.and_eq_true_iff.mp hstable
    rw [shortValue, shortValue, hleft hl, hright hr]
  | unary op operand loc hoperand =>
    rw [shortValue, shortValue, hoperand hstable]
    simp only [Heap.unary_congr hnumbers]
  | conditional test consequent alternate loc htest hconsequent halternate =>
    obtain ⟨h, ha⟩ := Bool.and_eq_true_iff.mp hstable
    obtain ⟨ht, hc⟩ := Bool.and_eq_true_iff.mp h
    rw [shortValue, shortValue, htest ht, hconsequent hc, halternate ha]
  | update | assign | array | index | property | call | unsupported => cases hstable

end Expr

/-- Whether a node is the literal of the negative zero. -/
def Node.IsNegativeZero : Node → Prop
  | .expr (.literal (.number n) _ _) => n = -0
  | _ => False

instance : DecidablePred Node.IsNegativeZero
  | .expr (.literal (.number n) _ _) => inferInstanceAs (Decidable (n = -0))
  | .expr (.literal .null _ _) | .expr (.literal (.bool _) _ _) | .expr (.literal (.string _) _ _)
  | .expr (.literal (.other _) _ _) | .expr (.identifier ..) | .expr (.binary ..)
  | .expr (.logical ..) | .expr (.unary ..) | .expr (.update ..) | .expr (.assign ..)
  | .expr (.array ..) | .expr (.index ..) | .expr (.property ..) | .expr (.call ..)
  | .expr (.conditional ..) | .expr (.unsupported ..) | .stmt _ => isFalse id

/-- Away from the negative zero, numbers that compare equal are the same. -/
theorem Number.eq_of_beq {n m : Number} (hn : n ≠ -0) (hm : m ≠ -0) (h : (n == m) = true) :
    n = m := by
  rw [Float.beq_iff_ne_nan_and_eq] at h
  obtain ⟨-, -, h | ⟨-, h⟩ | ⟨h, -⟩⟩ := h
  · exact h
  · exact absurd h hm
  · exact absurd h hn

namespace Expr

/-- Expressions that are the same mention the same names. -/
theorem isStable_of_same {changed : List String} {e e' : Expr} (h : e.same e' = true) :
    e.isStable changed = e'.isStable changed := by
  induction e generalizing e' with
  | literal value regex loc => cases e' <;> simp_all [same, isStable]
  | identifier name loc => cases e' <;> simp_all [same, isStable]
  | binary op left right loc hleft hright =>
    cases e' <;> simp only [same, Bool.false_eq_true, Bool.and_eq_true] at h
    rw [isStable, isStable, hleft h.1.2, hright h.2]
  | logical op left right loc hleft hright =>
    cases e' <;> simp only [same, Bool.false_eq_true, Bool.and_eq_true] at h
    rw [isStable, isStable, hleft h.1.2, hright h.2]
  | unary op operand loc hoperand =>
    cases e' <;> simp only [same, Bool.false_eq_true, Bool.and_eq_true] at h
    rw [isStable, isStable, hoperand h.2]
  | conditional test consequent alternate loc htest hconsequent halternate =>
    cases e' <;> simp only [same, Bool.false_eq_true, Bool.and_eq_true] at h
    rw [isStable, isStable, htest h.1.1, hconsequent h.1.2, halternate h.2]
  | update | assign | array | index | property | call | unsupported =>
    simp only [same, Bool.false_eq_true] at h

/-- Literals that are the same have the same value, if neither is the negative zero. -/
theorem literalValue_of_same {value value' : LiteralValue} {regex : Option Regex}
    {loc loc' : Option Location}
    (hzero : ¬(Node.expr (.literal value regex loc)).IsNegativeZero)
    (hzero' : ¬(Node.expr (.literal value' regex loc')).IsNegativeZero)
    (h : value.same value' = true) : literalValue value regex = literalValue value' regex := by
  rw [literalValue.eq_def, literalValue.eq_def]
  cases value <;> cases value' <;>
    simp only [LiteralValue.same, Bool.false_eq_true, beq_iff_eq] at h
  case number.number n m =>
    have hnm : n = m := Number.eq_of_beq hzero hzero' h
    rw [hnm]
  case bool.bool b c => rw [h]
  case null.null => rfl
  case string.string => rfl
  case other.other => rfl

/-- Expressions that are the same have the same value, if no literal is the negative zero. -/
theorem shortValue_of_same {environment : Environment} {heap : Heap} {e e' : Expr}
    (hzero : (Node.expr e).Everywhere (¬·.IsNegativeZero))
    (hzero' : (Node.expr e').Everywhere (¬·.IsNegativeZero)) (h : e.same e' = true) :
    e.shortValue environment heap = e'.shortValue environment heap := by
  have hchildren : ∀ {e : Expr}, (Node.expr e).Everywhere (¬·.IsNegativeZero) →
      ∀ c ∈ e.children, (Node.expr c).Everywhere (¬·.IsNegativeZero) :=
    fun hzero c hc ↦ hzero.child (List.mem_map_of_mem hc)
  induction e generalizing e' with
  | literal value regex loc =>
    cases e' <;> simp only [same, Bool.false_eq_true, Bool.and_eq_true, beq_iff_eq] at h
    obtain ⟨hvalue, rfl⟩ := h
    exact literalValue_of_same (hzero.self fun _ ↦ id) (hzero'.self fun _ ↦ id) hvalue
  | identifier name loc =>
    cases e' <;> simp only [same, Bool.false_eq_true, beq_iff_eq] at h
    rw [shortValue, shortValue, h]
  | binary op left right loc hleft hright =>
    cases e' <;> simp only [same, Bool.false_eq_true, Bool.and_eq_true, beq_iff_eq] at h
    obtain ⟨⟨rfl, hl⟩, hr⟩ := h
    have hparts := hchildren hzero
    have hparts' := hchildren hzero'
    simp only [children, List.forall_mem_cons] at hparts hparts'
    rw [shortValue, shortValue, hleft hparts.1 hparts'.1 hl, hright hparts.2.1 hparts'.2.1 hr]
  | logical op left right loc hleft hright =>
    cases e' <;> simp only [same, Bool.false_eq_true, Bool.and_eq_true, beq_iff_eq] at h
    obtain ⟨⟨rfl, hl⟩, hr⟩ := h
    have hparts := hchildren hzero
    have hparts' := hchildren hzero'
    simp only [children, List.forall_mem_cons] at hparts hparts'
    rw [shortValue, shortValue, hleft hparts.1 hparts'.1 hl, hright hparts.2.1 hparts'.2.1 hr]
  | unary op operand loc hoperand =>
    cases e' <;> simp only [same, Bool.false_eq_true, Bool.and_eq_true, beq_iff_eq] at h
    obtain ⟨rfl, ho⟩ := h
    have hpart := hchildren hzero operand List.mem_cons_self
    have hpart' := hchildren hzero' _ List.mem_cons_self
    rw [shortValue, shortValue, hoperand hpart hpart' ho]
  | conditional test consequent alternate loc htest hconsequent halternate =>
    cases e' <;> simp only [same, Bool.false_eq_true, Bool.and_eq_true] at h
    obtain ⟨⟨ht, hc⟩, ha⟩ := h
    have hparts := hchildren hzero
    have hparts' := hchildren hzero'
    simp only [children, List.forall_mem_cons] at hparts hparts'
    rw [shortValue, shortValue, htest hparts.1 hparts'.1 ht,
      hconsequent hparts.2.1 hparts'.2.1 hc, halternate hparts.2.2.1 hparts'.2.2.1 ha]
  | update | assign | array | index | property | call | unsupported =>
    simp only [same, Bool.false_eq_true] at h

/-! ## Elements of a named array -/

/-- The array that a name is bound to. -/
def namedArray (environment : Environment) (array : String) : Except Cause ArrayId :=
  match environment.get? array with
  | some (.array id) => .ok id
  | _ => .error (.undefinedArray array)

/-- The array that a name is bound to, and its slot at an index. -/
def shortSlot (environment : Environment) (heap : Heap) (array : String) (i : Expr) :
    Except Cause (ArrayId × Nat) := do
  let id ← namedArray environment array
  let index ← i.shortValue environment heap
  let slot ← heap.resolveIndex index array (heap.length id)
  return (id, slot)

theorem namedArray_eq_ok {environment : Environment} {array : String} {id : ArrayId}
    (h : namedArray environment array = .ok id) : environment.get? array = some (.array id) := by
  rw [namedArray] at h
  split at h
  · rename_i hid
    cases h
    exact hid
  · cases h

private theorem of_bind_eq_ok {α β : Type} {r : Except Cause α} {k : α → Except Cause β} {b : β}
    (h : (r >>= k) = .ok b) : ∃ a, r = .ok a ∧ k a = .ok b := by
  cases r with
  | error cause => cases h
  | ok a => exact ⟨a, rfl, h⟩

theorem shortSlot_eq_ok {environment : Environment} {heap : Heap} {array : String} {i : Expr}
    {id : ArrayId} {slot : Nat} (h : i.shortSlot environment heap array = .ok (id, slot)) :
    namedArray environment array = .ok id ∧ ∃ index, i.shortValue environment heap = .ok index ∧
      heap.resolveIndex index array (heap.length id) = .ok slot := by
  obtain ⟨id', hid, h⟩ := of_bind_eq_ok h
  obtain ⟨index, hindex, h⟩ := of_bind_eq_ok h
  obtain ⟨slot', hslot, h⟩ := of_bind_eq_ok h
  cases h
  exact ⟨hid, index, hindex, hslot⟩

theorem shortSlot_congr {changed : List String} {environment environment' : Environment}
    {heap heap' : Heap} {array : String}
    (hnames : ∀ name ∉ changed, environment.get? name = environment'.get? name)
    (harray : environment.get? array = environment'.get? array)
    (hnumbers : ∀ v, heap.toNumber v = heap'.toNumber v)
    (hlength : ∀ id, heap.length id = heap'.length id) {i : Expr}
    (hstable : i.isStable changed = true) :
    i.shortSlot environment heap array = i.shortSlot environment' heap' array := by
  rw [shortSlot, shortSlot, namedArray, namedArray, harray,
    shortValue_congr hnames hnumbers hstable]
  simp only [Heap.resolveIndex_congr hnumbers, hlength]

theorem shortSlot_of_same {environment : Environment} {heap : Heap} {array : String} {i i' : Expr}
    (hzero : (Node.expr i).Everywhere (¬·.IsNegativeZero))
    (hzero' : (Node.expr i').Everywhere (¬·.IsNegativeZero)) (h : i.same i' = true) :
    i.shortSlot environment heap array = i'.shortSlot environment heap array := by
  rw [shortSlot, shortSlot, shortValue_of_same hzero hzero' h]

theorem arrayOf_computes (environment : Environment) (heap : Heap) (array : String)
    (loc : Option Location) (value : Eval Value) :
    (Eval.arrayOf (identifier array loc) value).Computes environment heap
      (namedArray environment array) := by
  have hlookup := Eval.Computes.lookup? environment heap array
  rw [Eval.arrayOf, namedArray]
  dsimp only [name?]
  cases hname : environment.get? array with
  | none =>
    rw [hname] at hlookup
    exact hlookup.bind_ok ((Eval.Computes.fail _).bind_error _)
  | some v =>
    rw [hname] at hlookup
    refine hlookup.bind_ok ((Eval.Computes.pure v).bind_ok ?_)
    cases v with
    | array id => exact Eval.Computes.pure id
    | number | boolean | undefined => exact Eval.Computes.fail _

/-- Finding the place of an element with a short index. -/
theorem element_computes {changed : List String} {i : Expr} (hstable : i.isStable changed = true)
    (environment : Environment) (heap : Heap) (array : String) (loc : Option Location)
    (value : Eval Value) :
    (Eval.element (identifier array loc) value i.eval).Computes environment heap (do
      let (id, slot) ← i.shortSlot environment heap array
      return .slot array id slot) := by
  rw [shortSlot, bind_assoc]
  refine (arrayOf_computes environment heap array loc value).bind fun id _ ↦ ?_
  rw [bind_assoc]
  refine (eval_computes hstable environment heap).bind fun index _ ↦ ?_
  rw [bind_assoc]
  refine Eval.Computes.heap.bind_ok ?_
  exact (Eval.Computes.ofExcept _).bind fun slot _ ↦ Eval.Computes.pure _

/-- The place of an element whose index leads to a slot. -/
theorem place_computes {changed : List String} {i : Expr} (hstable : i.isStable changed = true)
    {environment : Environment} {heap : Heap} {array : String} {id : ArrayId} {slot : Nat}
    (hslot : i.shortSlot environment heap array = .ok (id, slot)) (loc loc' : Option Location) :
    (index (identifier array loc) i loc').place.Computes environment heap
      (.ok (.slot array id slot)) := by
  have h := element_computes hstable environment heap array loc (identifier array loc).eval
  rw [hslot] at h
  exact h

/-- The value of an element with a short index. -/
theorem index_computes {changed : List String} {i : Expr} (hstable : i.isStable changed = true)
    (environment : Environment) (heap : Heap) (array : String) (loc loc' : Option Location) :
    (index (identifier array loc) i loc').eval.Computes environment heap (do
      let (id, slot) ← i.shortSlot environment heap array
      return heap.read id slot) := by
  have helement := element_computes hstable environment heap array loc (identifier array loc).eval
  refine Eval.Computes.atNode _ _ ?_
  cases hslot : i.shortSlot environment heap array with
  | error cause =>
    rw [hslot] at helement
    exact helement.bind_error _
  | ok x =>
    rw [hslot] at helement
    exact helement.bind_ok (Eval.Computes.heap.bind_ok (Eval.Computes.pure _))

end Expr

end ScriptTrace
