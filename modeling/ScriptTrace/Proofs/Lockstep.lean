import ScriptTrace.Proofs.Oblivious
import ScriptTrace.Proofs.Relocation

/-!
# Two runs in lockstep

Many properties compare two runs of a program: with other settings, from other variables, or of the
same tree at other locations. `Eval.Lockstep` collects what a relation between computations needs so
that it holds of all such pairs: that every single step is related to itself, and that joining
related computations keeps the relation. The recursion through the tree and through the rounds of a
loop is then done once, here.

What the two sides may differ in is said by two parameters. Steps on variables have to be related
only for the names in `names`, which are those that the tree mentions. Lines are the same on both
sides if `exact` holds; otherwise nothing is asked of them.

Settings only matter for the loops, because of the cap, so loops are left to the relation
(`Eval.Loops`); with one cap they take part in the recursion like everything else.
-/

namespace ScriptTrace

/-- The property that is read does not depend on where its name stands. -/
theorem Expr.propertyValue_relocate (f : Relocation) (h : Heap) (object : Value) (name : Expr) :
    propertyValue h object (name.relocate f) = propertyValue h object name := by
  rw [propertyValue.eq_def, propertyValue.eq_def, name?_relocate, nodeType_relocate]

namespace Eval

/-- The array that a call names does not depend on where the name stands. -/
theorem swapArray_relocate (f : Relocation) (array : Option Expr) :
    swapArray (array.map (Expr.relocate f)) = swapArray array := by
  cases array with
  | none => rfl
  | some e =>
    cases e with
    | literal value regex loc => cases value <;> rfl
    | identifier name loc => rfl
    | binary | logical | unary | update | assign | array | index | property | call | conditional
    | unsupported =>
      exact congrArg (Except.error ∘ Cause.undefinedArray) (Expr.describe_relocate f _)

/-- A value that a computation can end with. -/
def Gives {α : Type} (m : Eval α) (a : α) : Prop := ∃ s s', m s = .ok a s'

theorem Gives.of_bind {α β : Type} {m : Eval α} {k : α → Eval β} {b : β} (h : (m >>= k).Gives b) :
    ∃ a, m.Gives a ∧ (k a).Gives b := by
  obtain ⟨s, s', h⟩ := h
  change EStateM.bind m k s = _ at h
  rw [EStateM.bind] at h
  split at h
  · rename_i a s'' hm
    exact ⟨a, ⟨s, s'', hm⟩, s'', s', h⟩
  · cases h

theorem Gives.of_ofExcept {α : Type} {e : Except Cause α} {a : α} (h : (ofExcept e).Gives a) :
    e = .ok a := by
  obtain ⟨s, s', h⟩ := h
  cases e with
  | ok b =>
    cases h
    rfl
  | error cause => cases h

theorem Emits.gives {α : Type} {m : Eval α} {environment : Environment} {heap : Heap} {a : α}
    {s : Environment × Heap} {events : List Event}
    (h : m.Emits environment heap (.ok a s) events) : m.Gives a :=
  ⟨⟨environment, heap, .empty .keepAll⟩, _, h _⟩

/-- The place of a target is a variable only if the target is one. -/
theorem Gives.of_place {e : Expr} {name : String} (h : e.place.Gives (.named name)) :
    e.name? = some name := by
  cases e with
  | identifier other loc =>
    obtain ⟨s, s', h⟩ := h
    cases h
    rfl
  | index object i loc =>
    obtain ⟨id, -, h⟩ := Gives.of_bind h
    obtain ⟨index, -, h⟩ := Gives.of_bind h
    obtain ⟨heap, -, h⟩ := Gives.of_bind h
    obtain ⟨slot, -, s, s', h⟩ := Gives.of_bind h
    cases h
  | literal | binary | logical | unary | update | assign | array | property | call | conditional
  | unsupported =>
    obtain ⟨s, s', h⟩ := h
    cases h

/-! ## The relation -/

/-- A relation between computations that related steps keep. -/
structure Lockstep (names : String → Prop) (exact : Prop)
    (R : {α : Type} → Eval α → Eval α → Prop) : Prop where
  pure {α : Type} (a : α) : R (Pure.pure a : Eval α) (Pure.pure a)
  fail {α : Type} (cause : Cause) : R (Eval.fail cause : Eval α) (Eval.fail cause)
  bind {α β : Type} {m m' : Eval α} {k k' : α → Eval β} (hm : R m m')
    (hk : ∀ a, m.Gives a → R (k a) (k' a)) : R (m >>= k) (m' >>= k')
  atNode {α : Type} (nodeType : String) {line line' : Option UInt32} {m m' : Eval α}
    (hline : exact → line = line') (hm : R m m') :
    R (Eval.atNode nodeType line m) (Eval.atNode nodeType line' m')
  heap : R Eval.heap Eval.heap
  lookup? {name : String} (hname : names name) : R (Eval.lookup? name) (Eval.lookup? name)
  define {name : String} (hname : names name) (v : Value) :
    R (Eval.define name v) (Eval.define name v)
  write (array : ArrayId) (slot : Nat) (v : Value) :
    R (Eval.write array slot v) (Eval.write array slot v)
  allocate (elements : Array Value) : R (Eval.allocate elements) (Eval.allocate elements)
  record {line line' : Option UInt32} (hline : exact → line = line') (details : Details) :
    R (Eval.record line details) (Eval.record line' details)

/-- Whether whole loops are related under two caps as soon as their tests and bodies are. -/
def Loops (exact : Prop) (cap cap' : Nat) (R : {α : Type} → Eval α → Eval α → Prop) : Prop :=
  ∀ {test test' : Eval Bool} {body body' : Eval Unit} {line line' : Option UInt32},
    R test test' → R body body' → (exact → line = line') →
    R (do
        let (reason, iterations) ← Eval.iterate test body cap 0
        Eval.record line (.loopEnd reason iterations))
      (do
        let (reason, iterations) ← Eval.iterate test' body' cap' 0
        Eval.record line' (.loopEnd reason iterations))

/-- Whether the exchanges of two plans for the same place in a body are related. -/
def SwapsAlike (R : {α : Type} → Eval α → Eval α → Prop) (plan plan' : SwapPlan) : Prop :=
  plan'.position = plan.position ∧ R (Eval.plannedSwap plan) (Eval.plannedSwap plan')

namespace Lockstep

variable {names : String → Prop} {exact : Prop} {R : {α : Type} → Eval α → Eval α → Prop}
  (hR : Lockstep names exact R)

include hR

theorem ofExcept {α : Type} (e : Except Cause α) : R (Eval.ofExcept e) (Eval.ofExcept e) := by
  cases e with
  | ok a => exact hR.pure a
  | error cause => exact hR.fail cause

/-! ## Exchanges -/

theorem resolve {name : String} (hname : names name) (index1 index2 : Value) :
    R (Exchange.resolve name index1 index2) (Exchange.resolve name index1 index2) := by
  refine hR.bind (hR.lookup? hname) fun v _ ↦ ?_
  split
  · refine hR.bind hR.heap fun h _ ↦ ?_
    refine hR.bind (hR.ofExcept _) fun first _ ↦ ?_
    exact hR.bind (hR.ofExcept _) fun second _ ↦ hR.pure _
  · exact hR.fail _

theorem recordHalf (x : Exchange) {line line' : Option UInt32} (hline : exact → line = line') :
    R (x.recordHalf line) (x.recordHalf line') :=
  hR.bind hR.heap fun _ _ ↦ hR.record hline _

/-- The second half is recorded on both sides or on none. -/
theorem perform (x : Exchange) {line1 line1' line2 line2' : Option UInt32}
    (hline1 : exact → line1 = line1') (hline2 : exact → line2 = line2')
    (hsome : line2'.isSome = line2.isSome) :
    R (x.perform line1 line2) (x.perform line1' line2') := by
  refine hR.bind hR.heap fun h _ ↦ ?_
  refine hR.bind (hR.write _ _ _) fun _ _ ↦ ?_
  refine hR.bind (hR.recordHalf x hline1) fun _ _ ↦ ?_
  refine hR.bind (hR.write _ _ _) fun _ _ ↦ ?_
  rw [hsome]
  split
  · exact hR.recordHalf x hline2
  · exact hR.pure ()

theorem swap {array array' : Option Expr} (harray : swapArray array' = swapArray array)
    (hname : ∀ name, swapArray array = .ok name → names name)
    {arguments arguments' : Eval (List Value)} (harguments : R arguments arguments')
    {line line' : Option UInt32} (hline : exact → line = line') :
    R (Eval.swap array arguments line) (Eval.swap array' arguments' line') := by
  rw [Eval.swap, Eval.swap, harray]
  refine hR.bind (hR.ofExcept _) fun name hgives ↦ ?_
  refine hR.bind harguments fun values _ ↦ ?_
  refine hR.bind (hR.resolve (hname name hgives.of_ofExcept) _ _) fun x _ ↦ ?_
  refine hR.bind hR.heap fun h _ ↦ ?_
  refine hR.bind (hR.perform x (fun hexact ↦ ?_) (fun _ ↦ rfl) rfl) fun _ _ ↦ hR.pure _
  rw [hline hexact]

/-! ## Values, places and writes -/

theorem identifierValue {name : String} (hname : names name) :
    R (Expr.identifierValue name) (Expr.identifierValue name) := by
  refine hR.bind (hR.lookup? hname) fun v _ ↦ ?_
  cases v with
  | none => exact hR.ofExcept _
  | some v => exact hR.pure v

private theorem arrayIn (object : Expr) (v : Value) :
    R (match v with
      | .array id => Pure.pure id
      | _ => Eval.fail (.undefinedArray object.describe) : Eval ArrayId)
      (match v with
      | .array id => Pure.pure id
      | _ => Eval.fail (.undefinedArray object.describe)) := by
  cases v with
  | array id => exact hR.pure id
  | number _ | boolean _ | undefined => exact hR.fail _

theorem arrayOf (f : Relocation) {object : Expr}
    (hname : ∀ name, object.name? = some name → names name) {value value' : Eval Value}
    (hvalue : R value value') :
    R (Eval.arrayOf object value) (Eval.arrayOf (object.relocate f) value') := by
  rw [Eval.arrayOf, Eval.arrayOf, Expr.name?_relocate, Expr.describe_relocate]
  cases hobject : object.name? with
  | none => exact hR.bind hvalue fun v _ ↦ hR.arrayIn object v
  | some name =>
    refine hR.bind (hR.lookup? (hname name hobject)) fun v _ ↦ ?_
    cases v with
    | none => exact hR.bind (hR.fail _) fun v _ ↦ hR.arrayIn object v
    | some v => exact hR.bind (hR.pure v) fun v _ ↦ hR.arrayIn object v

theorem element (f : Relocation) {object : Expr}
    (hname : ∀ name, object.name? = some name → names name) {value value' index index' : Eval Value}
    (hvalue : R value value') (hindex : R index index') :
    R (Eval.element object value index) (Eval.element (object.relocate f) value' index') := by
  rw [Eval.element, Eval.element, Expr.describe_relocate]
  refine hR.bind (hR.arrayOf f hname hvalue) fun id _ ↦ ?_
  refine hR.bind hindex fun i _ ↦ ?_
  refine hR.bind hR.heap fun h _ ↦ ?_
  exact hR.bind (hR.ofExcept _) fun slot _ ↦ hR.pure _

theorem read {p : Place} (hp : ∀ name, p = .named name → names name) : R p.read p.read := by
  cases p with
  | named name =>
    refine hR.bind (hR.lookup? (hp name rfl)) fun v _ ↦ ?_
    cases v with
    | none => exact hR.fail _
    | some v => exact hR.pure v
  | slot label id i => exact hR.bind hR.heap fun _ _ ↦ hR.pure _

theorem writePlace {p : Place} (hp : ∀ name, p = .named name → names name) (v : Value) :
    R (p.write v) (p.write v) := by
  cases p with
  | named name => exact hR.bind (hR.define (hp name rfl) v) fun _ _ ↦ hR.pure _
  | slot label id i => exact hR.bind (hR.write id i v) fun _ _ ↦ hR.pure _

theorem assign (op : AssignOp) {value value' : Eval Value} {place place' : Eval Place}
    (hvalue : R value value') (hplace : R place place')
    (hnamed : ∀ name, place.Gives (.named name) → names name) :
    R (Eval.assign op value place) (Eval.assign op value' place') := by
  rw [Eval.assign, Eval.assign]
  by_cases hsupported : op.isSupported = true
  · rw [if_pos hsupported, if_pos hsupported]
    refine hR.bind hvalue fun v _ ↦ ?_
    refine hR.bind hplace fun p hgives ↦ ?_
    have hp : ∀ name, p = .named name → names name := by
      rintro name rfl
      exact hnamed name hgives
    cases op.binary? with
    | none => exact hR.writePlace hp v
    | some binary =>
      refine hR.bind (hR.read hp) fun old _ ↦ ?_
      refine hR.bind hR.heap fun h _ ↦ ?_
      exact hR.bind (hR.ofExcept _) fun new _ ↦ hR.writePlace hp new
  · rw [if_neg hsupported, if_neg hsupported]
    exact hR.fail _

theorem step (op : UpdateOp) (isBefore : Bool) {place place' : Eval Place}
    (hplace : R place place') (hnamed : ∀ name, place.Gives (.named name) → names name) :
    R (Eval.step op isBefore place) (Eval.step op isBefore place') := by
  refine hR.bind hplace fun p hgives ↦ ?_
  have hp : ∀ name, p = .named name → names name := by
    rintro name rfl
    exact hnamed name hgives
  refine hR.bind (hR.read hp) fun old _ ↦ ?_
  refine hR.bind hR.heap fun h _ ↦ ?_
  exact hR.bind (hR.writePlace hp _) fun written _ ↦ hR.pure _

/-! ## Lists of expressions -/

variable {f : Relocation}

theorem evalElements {elements : List (Option Expr)}
    (h : ∀ e, some e ∈ elements → R e.eval (e.relocate f).eval) :
    R (Expr.evalElements elements) (Expr.evalElements (Expr.relocateElements f elements)) := by
  induction elements with
  | nil => exact hR.pure []
  | cons element rest ih =>
    have hrest := ih fun e he ↦ h e (List.mem_cons_of_mem _ he)
    cases element with
    | none => exact hR.bind hrest fun _ _ ↦ hR.pure _
    | some e =>
      refine hR.bind (h e List.mem_cons_self) fun v _ ↦ ?_
      exact hR.bind hrest fun values _ ↦ hR.pure _

theorem evalAll {arguments : List Expr} (h : ∀ e ∈ arguments, R e.eval (e.relocate f).eval) :
    R (Expr.evalAll arguments) (Expr.evalAll (Expr.relocateAll f arguments)) := by
  induction arguments with
  | nil => exact hR.pure []
  | cons e rest ih =>
    refine hR.bind (h e List.mem_cons_self) fun v _ ↦ ?_
    exact hR.bind (ih fun e he ↦ h e (List.mem_cons_of_mem _ he)) fun values _ ↦ hR.pure _

theorem evalAfterFirst {arguments : List Expr}
    (h : ∀ e ∈ arguments, R e.eval (e.relocate f).eval) :
    R (Expr.evalAfterFirst arguments) (Expr.evalAfterFirst (Expr.relocateAll f arguments)) := by
  cases arguments with
  | nil => exact hR.pure []
  | cons e rest => exact hR.evalAll fun e he ↦ h e (List.mem_cons_of_mem _ he)

theorem holds {test : Option Expr} (h : ∀ e, test = some e → R e.eval (e.relocate f).eval) :
    R (Expr.holds test) (Expr.holds (test.map (Expr.relocate f))) := by
  cases test with
  | none => exact hR.pure true
  | some e => exact hR.bind (h e rfl) fun v _ ↦ hR.pure _

/-! ## Parts of statements -/

theorem bindDeclarator {line line' : Option UInt32} (hline : exact → line = line')
    {d : Declarator} (hname : ∀ name, d.target.name? = some name → names name)
    (hvalue : ∀ e, d.init = some e → R e.eval (e.relocate f).eval) :
    R (Declaration.bind line d) (Declaration.bind line' (d.relocate f)) := by
  have hdefine : ∀ name, names name → ∀ v : Value,
      R (do
          Eval.define name v
          Eval.record line (.declare name ((← Eval.heap).snapshot v)) : Eval Unit)
        (do
          Eval.define name v
          Eval.record line' (.declare name ((← Eval.heap).snapshot v))) := by
    intro name hnames v
    refine hR.bind (hR.define hnames v) fun _ _ ↦ ?_
    exact hR.bind hR.heap fun h _ ↦ hR.record hline _
  rw [Declaration.bind, Declaration.bind, Declarator.relocate, Expr.name?_relocate,
    Expr.nodeType_relocate]
  cases htarget : d.target.name? with
  | none => exact hR.atNode _ hline (hR.fail _)
  | some name =>
    cases hinit : d.init with
    | none => exact hR.bind (hR.pure _) fun v _ ↦ hdefine name (hname name htarget) v
    | some e => exact hR.bind (hvalue e hinit) fun v _ ↦ hdefine name (hname name htarget) v

theorem bindDeclarators {line line' : Option UInt32} (hline : exact → line = line')
    {declarators : List Declarator}
    (h : ∀ d ∈ declarators, (∀ name, d.target.name? = some name → names name) ∧
      ∀ e, d.init = some e → R e.eval (e.relocate f).eval) :
    R (declarators.forM (Declaration.bind line))
      ((declarators.map (Declarator.relocate f)).forM (Declaration.bind line')) := by
  induction declarators with
  | nil => exact hR.pure ()
  | cons d rest ih =>
    obtain ⟨hname, hvalue⟩ := h d List.mem_cons_self
    refine hR.bind (hR.bindDeclarator hline hname hvalue) fun _ _ ↦ ?_
    exact ih fun d hd ↦ h d (List.mem_cons_of_mem _ hd)

theorem loopUpdate {line line' : Option UInt32} (hline : exact → line = line')
    {update : Option Expr} (hupdate : ∀ e, update = some e →
      (exact → e.line = (e.relocate f).line) ∧ R e.evalWrite (e.relocate f).evalWrite) :
    R (Eval.loopUpdate line update)
      (Eval.loopUpdate line' (update.map (Expr.relocate f))) := by
  cases update with
  | none => exact hR.pure ()
  | some e =>
    obtain ⟨hlines, hwrite⟩ := hupdate e rfl
    refine hR.bind hwrite fun written _ ↦ ?_
    split
    · refine hR.bind hR.heap fun h _ ↦ hR.record (fun hexact ↦ ?_) _
      rw [hlines hexact, hline hexact]
    · exact hR.pure ()

theorem iterate {test test' : Eval Bool} {body body' : Eval Unit} (htest : R test test')
    (hbody : R body body') (left ran : Nat) :
    R (Eval.iterate test body left ran) (Eval.iterate test' body' left ran) := by
  induction left generalizing ran with
  | zero =>
    refine hR.bind htest fun proceed _ ↦ ?_
    split
    · exact hR.pure _
    · exact hR.pure _
  | succ left ih =>
    refine hR.bind htest fun proceed _ ↦ ?_
    split
    · exact hR.bind hbody fun _ _ ↦ ih (ran + 1)
    · exact hR.pure _

/-- With one cap, whole loops are related as soon as their tests and bodies are. -/
theorem loops (cap : Nat) : Loops exact cap cap R := fun htest hbody hline ↦
  hR.bind (hR.iterate htest hbody cap 0) fun _ _ ↦ hR.record hline _

theorem asBodyOf (s : Stmt) {m m' : Eval Unit} (hline : exact → s.line = (s.relocate f).line)
    (hm : R m m') : R (s.asBodyOf m) ((s.relocate f).asBodyOf m') := by
  have hblock : (s.relocate f).isBlock = s.isBlock := by
    cases s with
    | ifThen test consequent alternate loc => cases alternate <;> rfl
    | declaration | forLoop | block | expression | empty | unsupported => rfl
  rw [Stmt.asBodyOf, Stmt.asBodyOf, hblock, Stmt.nodeType_relocate]
  split
  · exact hm
  · exact hR.atNode _ hline hm

theorem plannedSwap {plan plan' : SwapPlan} (hname : names plan.array)
    (hfirst : R plan.first.eval plan'.first.eval) (hsecond : R plan.second.eval plan'.second.eval)
    (harray : plan'.array = plan.array) (hline1 : exact → plan.firstLine = plan'.firstLine)
    (hline2 : exact → plan.secondLine = plan'.secondLine)
    (hsome : plan'.secondLine.isSome = plan.secondLine.isSome) :
    R (Eval.plannedSwap plan) (Eval.plannedSwap plan') := by
  refine hR.bind hfirst fun index1 _ ↦ ?_
  refine hR.bind hsecond fun index2 _ ↦ ?_
  rw [harray]
  exact hR.bind (hR.resolve hname index1 index2) fun x _ ↦ hR.perform x hline1 hline2 hsome

end Lockstep

end Eval

end ScriptTrace
