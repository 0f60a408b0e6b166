import ScriptTrace.Eval.Run
import ScriptTrace.Proofs.Induction

/-!
# The steps that runs are made of

`Eval.Stepwise` collects the properties of computations that the single steps of a run have and that
joining computations keeps. Such a property holds of everything that does not look into the tree:
exchanges, places, writes, loops. Where a computation runs a part of the tree, the property of that
part is a hypothesis.

The steps include only the failures that have a plain cause. Whether a node can fail because it is
not supported depends on the node.
-/

namespace ScriptTrace

/-- Whether a cause is not about what the traced language supports. -/
def Cause.isPlain : Cause → Bool
  | unsupportedOperator _ | unsupportedNode _ => false
  | _ => true

/-! ## Causes of pure computations -/

theorem Heap.isPlain_of_resolveIndex {h : Heap} {index : Value} {array : String} {length : Nat}
    {cause : Cause} (hcause : h.resolveIndex index array length = .error cause) :
    cause.isPlain = true := by
  rw [resolveIndex] at hcause
  split at hcause <;> cases hcause
  rfl

theorem Heap.binary_eq_error {h : Heap} {op : BinaryOp} {a b : Value} {cause : Cause}
    (hcause : h.binary op a b = .error cause) :
    op.isSupported = false ∧ cause = .unsupportedOperator op.symbol := by
  cases op <;> cases hcause <;> exact ⟨rfl, rfl⟩

theorem Heap.unary_eq_error {h : Heap} {op : UnaryOp} {a : Value} {cause : Cause}
    (hcause : h.unary op a = .error cause) :
    op.isSupported = false ∧ cause = .unsupportedOperator op.symbol := by
  cases op <;> cases hcause <;> exact ⟨rfl, rfl⟩

/-- The operator of a compound assignment that can be run can be run itself. -/
theorem AssignOp.isSupported_binary? {op : AssignOp} {binary : BinaryOp}
    (hop : op.isSupported = true) (hbinary : op.binary? = some binary) :
    binary.isSupported = true := by
  cases op <;> cases hop <;> cases hbinary <;> rfl

theorem Expr.isPlain_of_unboundValue {name : String} {cause : Cause}
    (hcause : unboundValue name = .error cause) : cause.isPlain = true := by
  rw [unboundValue] at hcause
  split at hcause
  · cases hcause
  · split at hcause
    · cases hcause
    · split at hcause <;> cases hcause
      rfl

theorem Eval.isPlain_of_swapArray {array : Option Expr} {cause : Cause}
    (hcause : swapArray array = .error cause) : cause.isPlain = true := by
  rw [swapArray.eq_def] at hcause
  split at hcause <;> cases hcause <;> rfl

namespace Eval

/-- A property that the steps of a run have and that joining computations keeps. -/
structure Stepwise (P : {α : Type} → Eval α → Prop) : Prop where
  pure {α : Type} (a : α) : P (Pure.pure a : Eval α)
  plain {α : Type} {cause : Cause} (hcause : cause.isPlain = true) : P (Eval.fail cause : Eval α)
  bind {α β : Type} {m : Eval α} {k : α → Eval β} (hm : P m) (hk : ∀ a, P (k a)) : P (m >>= k)
  heap : P Eval.heap
  lookup? (name : String) : P (Eval.lookup? name)
  define (name : String) (v : Value) : P (Eval.define name v)
  write (array : ArrayId) (slot : Nat) (v : Value) : P (Eval.write array slot v)
  allocate (elements : Array Value) : P (Eval.allocate elements)
  record (line : Option UInt32) (details : Details) : P (Eval.record line details)

namespace Stepwise

variable {P : {α : Type} → Eval α → Prop} (hP : Stepwise P)

include hP

theorem ofExcept {α : Type} {e : Except Cause α}
    (h : ∀ cause, e = .error cause → P (Eval.fail cause : Eval α)) : P (Eval.ofExcept e) := by
  cases e with
  | ok a => exact hP.pure a
  | error cause => exact h cause rfl

/-! ## Exchanges -/

theorem resolve (name : String) (index1 index2 : Value) :
    P (Exchange.resolve name index1 index2) := by
  refine hP.bind (hP.lookup? name) fun v ↦ ?_
  split
  · refine hP.bind hP.heap fun h ↦ ?_
    have hindex : ∀ index length, P (Eval.ofExcept (h.resolveIndex index name length)) :=
      fun _ _ ↦ hP.ofExcept fun _ hcause ↦ hP.plain (Heap.isPlain_of_resolveIndex hcause)
    exact hP.bind (hindex _ _) fun first ↦ hP.bind (hindex _ _) fun second ↦ hP.pure _
  · exact hP.plain rfl

theorem recordHalf (x : Exchange) (line : Option UInt32) : P (x.recordHalf line) :=
  hP.bind hP.heap fun _ ↦ hP.record line _

theorem perform (x : Exchange) (line1 line2 : Option UInt32) : P (x.perform line1 line2) := by
  refine hP.bind hP.heap fun h ↦ ?_
  refine hP.bind (hP.write _ _ _) fun _ ↦ ?_
  refine hP.bind (hP.recordHalf x line1) fun _ ↦ ?_
  refine hP.bind (hP.write _ _ _) fun _ ↦ ?_
  split
  · exact hP.recordHalf x line2
  · exact hP.pure ()

theorem plannedSwap {plan : SwapPlan} (hfirst : P plan.first.eval) (hsecond : P plan.second.eval) :
    P (Eval.plannedSwap plan) := by
  refine hP.bind hfirst fun index1 ↦ ?_
  refine hP.bind hsecond fun index2 ↦ ?_
  exact hP.bind (hP.resolve plan.array index1 index2) fun x ↦ hP.perform x _ _

theorem swap (array : Option Expr) {arguments : Eval (List Value)} (harguments : P arguments)
    (line : Option UInt32) : P (Eval.swap array arguments line) := by
  have hname : P (Eval.ofExcept (swapArray array)) :=
    hP.ofExcept fun _ hcause ↦ hP.plain (isPlain_of_swapArray hcause)
  refine hP.bind hname fun name ↦ ?_
  refine hP.bind harguments fun values ↦ ?_
  refine hP.bind (hP.resolve name _ _) fun x ↦ ?_
  refine hP.bind hP.heap fun h ↦ ?_
  exact hP.bind (hP.perform x _ _) fun _ ↦ hP.pure _

/-! ## Values, places and writes -/

theorem identifierValue (name : String) : P (Expr.identifierValue name) := by
  refine hP.bind (hP.lookup? name) fun v ↦ ?_
  cases v with
  | none => exact hP.ofExcept fun _ hcause ↦ hP.plain (Expr.isPlain_of_unboundValue hcause)
  | some v => exact hP.pure v

theorem binary {op : BinaryOp} (a b : Value)
    (hop : op.isSupported = false → P (Eval.fail (.unsupportedOperator op.symbol) : Eval Value)) :
    P (do let h ← Eval.heap; Eval.ofExcept (h.binary op a b)) := by
  refine hP.bind hP.heap fun h ↦ hP.ofExcept fun cause hcause ↦ ?_
  obtain ⟨hsupported, rfl⟩ := Heap.binary_eq_error hcause
  exact hop hsupported

theorem unary {op : UnaryOp} (a : Value)
    (hop : op.isSupported = false → P (Eval.fail (.unsupportedOperator op.symbol) : Eval Value)) :
    P (do let h ← Eval.heap; Eval.ofExcept (h.unary op a)) := by
  refine hP.bind hP.heap fun h ↦ hP.ofExcept fun cause hcause ↦ ?_
  obtain ⟨hsupported, rfl⟩ := Heap.unary_eq_error hcause
  exact hop hsupported

private theorem arrayIn (object : Expr) (v : Value) : P (match v with
    | .array id => Pure.pure id
    | _ => Eval.fail (.undefinedArray object.describe) : Eval ArrayId) := by
  cases v with
  | array id => exact hP.pure id
  | number _ | boolean _ | undefined => exact hP.plain rfl

theorem arrayOf (object : Expr) {value : Eval Value} (hvalue : P value) :
    P (Eval.arrayOf object value) := by
  rw [Eval.arrayOf]
  cases object.name? with
  | none => exact hP.bind hvalue (hP.arrayIn object)
  | some name =>
    refine hP.bind (hP.lookup? name) fun v ↦ ?_
    cases v with
    | none => exact hP.bind (hP.plain rfl) (hP.arrayIn object)
    | some v => exact hP.bind (hP.pure v) (hP.arrayIn object)

theorem element (object : Expr) {value index : Eval Value} (hvalue : P value) (hindex : P index) :
    P (Eval.element object value index) := by
  refine hP.bind (hP.arrayOf object hvalue) fun id ↦ ?_
  refine hP.bind hindex fun i ↦ ?_
  refine hP.bind hP.heap fun h ↦ ?_
  have hslot : P (Eval.ofExcept (h.resolveIndex i object.describe (h.length id))) :=
    hP.ofExcept fun _ hcause ↦ hP.plain (Heap.isPlain_of_resolveIndex hcause)
  exact hP.bind hslot fun slot ↦ hP.pure _

theorem read (p : Place) : P p.read := by
  cases p with
  | named name =>
    refine hP.bind (hP.lookup? name) fun v ↦ ?_
    cases v with
    | none => exact hP.plain rfl
    | some v => exact hP.pure v
  | slot label id i => exact hP.bind hP.heap fun _ ↦ hP.pure _

theorem writePlace (p : Place) (v : Value) : P (p.write v) := by
  cases p with
  | named name => exact hP.bind (hP.define name v) fun _ ↦ hP.pure _
  | slot label id i => exact hP.bind (hP.write id i v) fun _ ↦ hP.pure _

theorem assign {op : AssignOp} {value : Eval Value} {place : Eval Place}
    (hop : op.isSupported = false → P (Eval.fail (.unsupportedOperator op.symbol) : Eval Written))
    (hvalue : P value) (hplace : P place) : P (Eval.assign op value place) := by
  rw [Eval.assign]
  by_cases hsupported : op.isSupported = true
  · rw [if_pos hsupported]
    refine hP.bind hvalue fun v ↦ ?_
    refine hP.bind hplace fun p ↦ ?_
    cases hbinary : op.binary? with
    | none => exact hP.writePlace p v
    | some binary =>
      refine hP.bind (hP.read p) fun old ↦ ?_
      refine hP.bind hP.heap fun h ↦ ?_
      have hnew : P (Eval.ofExcept (h.binary binary old v)) := by
        refine hP.ofExcept fun cause hcause ↦ ?_
        have hunsupported := (Heap.binary_eq_error hcause).1
        rw [AssignOp.isSupported_binary? hsupported hbinary] at hunsupported
        cases hunsupported
      exact hP.bind hnew fun new ↦ hP.writePlace p new
  · rw [if_neg hsupported]
    exact hop (Bool.eq_false_iff.mpr hsupported)

theorem step (op : UpdateOp) (isBefore : Bool) {place : Eval Place} (hplace : P place) :
    P (Eval.step op isBefore place) := by
  refine hP.bind hplace fun p ↦ ?_
  refine hP.bind (hP.read p) fun old ↦ ?_
  refine hP.bind hP.heap fun h ↦ ?_
  exact hP.bind (hP.writePlace p _) fun written ↦ hP.pure _

/-! ## Lists of expressions -/

theorem evalElements {elements : List (Option Expr)} (h : ∀ e, some e ∈ elements → P e.eval) :
    P (Expr.evalElements elements) := by
  induction elements with
  | nil => exact hP.pure []
  | cons element rest ih =>
    have hrest := ih fun e he ↦ h e (List.mem_cons_of_mem _ he)
    cases element with
    | none => exact hP.bind hrest fun _ ↦ hP.pure _
    | some e =>
      refine hP.bind (h e List.mem_cons_self) fun v ↦ ?_
      exact hP.bind hrest fun values ↦ hP.pure _

theorem evalAll {arguments : List Expr} (h : ∀ e ∈ arguments, P e.eval) :
    P (Expr.evalAll arguments) := by
  induction arguments with
  | nil => exact hP.pure []
  | cons e rest ih =>
    refine hP.bind (h e List.mem_cons_self) fun v ↦ ?_
    exact hP.bind (ih fun e he ↦ h e (List.mem_cons_of_mem _ he)) fun values ↦ hP.pure _

theorem evalAfterFirst {arguments : List Expr} (h : ∀ e ∈ arguments.tail, P e.eval) :
    P (Expr.evalAfterFirst arguments) := by
  cases arguments with
  | nil => exact hP.pure []
  | cons e rest => exact hP.evalAll h

theorem holds {test : Option Expr} (h : ∀ e, test = some e → P e.eval) : P (Expr.holds test) := by
  cases test with
  | none => exact hP.pure true
  | some e => exact hP.bind (h e rfl) fun v ↦ hP.pure _

/-! ## Parts of statements -/

theorem declaration {d : Declaration}
    (hpattern : ∀ declarator ∈ d.declarators, declarator.target.name? = none →
      P (Eval.atNode declarator.target.nodeType d.line
        (Eval.fail (.unsupportedNode declarator.target.nodeType)) : Eval Unit))
    (hvalues : ∀ declarator ∈ d.declarators, ∀ e, declarator.init = some e → P e.eval) :
    P d.exec := by
  rw [Declaration.exec]
  revert hpattern hvalues
  generalize d.declarators = declarators
  intro hpattern hvalues
  induction declarators with
  | nil => exact hP.pure ()
  | cons declarator rest ih =>
    have hbind : P (Declaration.bind d.line declarator) := by
      have hdefine : ∀ (name : String) (v : Value), P (do
          Eval.define name v
          Eval.record d.line (.declare name ((← Eval.heap).snapshot v)) : Eval Unit) := by
        intro name v
        refine hP.bind (hP.define name v) fun _ ↦ ?_
        exact hP.bind hP.heap fun h ↦ hP.record _ _
      rw [Declaration.bind]
      split
      · rename_i hname
        exact hpattern declarator List.mem_cons_self hname
      · cases hinit : declarator.init with
        | none => exact hP.bind (hP.pure Value.undefined) (hdefine _)
        | some e => exact hP.bind (hvalues declarator List.mem_cons_self e hinit) (hdefine _)
    refine hP.bind hbind fun _ ↦ ih ?_ ?_
    · exact fun declarator h ↦ hpattern declarator (List.mem_cons_of_mem _ h)
    · exact fun declarator h ↦ hvalues declarator (List.mem_cons_of_mem _ h)

theorem iterate {test : Eval Bool} {body : Eval Unit} (htest : P test) (hbody : P body)
    (left ran : Nat) : P (Eval.iterate test body left ran) := by
  induction left generalizing ran with
  | zero =>
    refine hP.bind htest fun proceed ↦ ?_
    split
    · exact hP.pure _
    · exact hP.pure _
  | succ left ih =>
    refine hP.bind htest fun proceed ↦ ?_
    split
    · exact hP.bind hbody fun _ ↦ ih (ran + 1)
    · exact hP.pure _

theorem loopUpdate (line : Option UInt32) {update : Option Expr}
    (h : ∀ e, update = some e → P e.evalWrite) : P (Eval.loopUpdate line update) := by
  cases update with
  | none => exact hP.pure ()
  | some e =>
    refine hP.bind (h e rfl) fun written ↦ ?_
    split
    · exact hP.bind hP.heap fun h ↦ hP.record _ _
    · exact hP.pure ()

/-- Running statements in order, with a plan for them or without. -/
theorem effects {config : Config} {plan : Option SwapPlan} {position : Nat} {body : List Stmt}
    (h : ∀ s ∈ body, P (s.exec config))
    (hplan : ∀ p, plan = some p → ∀ k s, body[k]? = some s → position + k = p.position →
      P (Eval.atNode s.nodeType s.line (Eval.plannedSwap p))) :
    P (Stmt.effects config plan position body) := by
  induction body generalizing position with
  | nil =>
    rw [Stmt.effects_nil]
    exact hP.pure ()
  | cons s rest ih =>
    have hs : P (Eval.atNode s.nodeType s.line (s.effect config none)) := h s List.mem_cons_self
    have hrest : P (Stmt.effects config plan (position + 1) rest) := by
      refine ih (fun s hs ↦ h s (List.mem_cons_of_mem _ hs)) fun p hp k s hs hk ↦ ?_
      exact hplan p hp (k + 1) s (by rw [List.getElem?_cons_succ, hs]) (by omega)
    rw [Stmt.effects_cons]
    cases plan with
    | none => exact hP.bind hs fun _ ↦ hrest
    | some p =>
      dsimp only
      split
      · rename_i hposition
        exact hP.bind (hplan p rfl 0 s rfl hposition) fun _ ↦ hrest
      · split
        · exact hP.bind hs fun _ ↦ hrest
        · exact hP.bind (hP.pure ()) fun _ ↦ hrest

theorem statements {config : Config} {position : Nat} {body : List Stmt}
    (h : ∀ s ∈ body, P (s.exec config)) : P (Stmt.effects config none position body) := by
  refine hP.effects h fun p hp ↦ ?_
  cases hp

end Stepwise

end Eval

end ScriptTrace
