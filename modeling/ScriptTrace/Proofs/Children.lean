import ScriptTrace.Check
import ScriptTrace.Proofs.Steps

/-!
# The tree around a failure

What a node has directly below it, and which of that a run takes as the place of failures. The
children of a node are of two kinds: a run *enters* most of them, and reports what fails in them at
them. It *bypasses* the others and goes on with their own children, so that it never reports their
lines:

* the target of an assignment or of a step, of which only the parts are evaluated;
* a block that is the body of a loop or of an `if`;
* the declaration in the head of a loop.

The name after a point is not evaluated, and so is no child here.
-/

namespace ScriptTrace

namespace Expr

/-- Whether an assignment or a step can have an expression as its target. -/
def isTarget : Expr → Bool
  | identifier .. | index .. => true
  | _ => false

/-- The expressions directly in an expression. -/
def children : Expr → List Expr
  | literal .. | identifier .. | unsupported .. => []
  | binary _ left right _ | logical _ left right _ => [left, right]
  | unary _ operand _ => [operand]
  | update _ target _ _ => [target]
  | assign _ target value _ => [target, value]
  | array elements _ => elements.filterMap id
  | index object i _ => [object, i]
  | property object _ _ => [object]
  | call callee arguments _ => callee :: arguments
  | conditional test consequent alternate _ => [test, consequent, alternate]

/-- Induction on an expression, with the hypothesis for its children. -/
theorem induction_of_children {motive : Expr → Prop}
    (h : ∀ e, (∀ c ∈ e.children, motive c) → motive e) (e : Expr) : motive e := by
  induction e with
  | literal value regex loc => exact h _ fun c hc ↦ nomatch hc
  | identifier name loc => exact h _ fun c hc ↦ nomatch hc
  | unsupported nodeType loc => exact h _ fun c hc ↦ nomatch hc
  | binary op left right loc hleft hright => exact h _ (by simp [children, hleft, hright])
  | logical op left right loc hleft hright => exact h _ (by simp [children, hleft, hright])
  | unary op operand loc hoperand => exact h _ (by simp [children, hoperand])
  | update op target isBefore loc htarget => exact h _ (by simp [children, htarget])
  | assign op target value loc htarget hvalue => exact h _ (by simp [children, htarget, hvalue])
  | array elements loc helements => exact h _ (by simpa [children] using helements)
  | index object i loc hobject hi => exact h _ (by simp [children, hobject, hi])
  | property object name loc hobject hname => exact h _ (by simp [children, hobject])
  | call callee arguments loc hcallee harguments =>
    exact h _ (by simpa [children, hcallee] using harguments)
  | conditional test consequent alternate loc htest hconsequent halternate =>
    exact h _ (by simp [children, htest, hconsequent, halternate])

/-- The children of an expression that a run enters. -/
def entered : Expr → List Expr
  | update .. => []
  | assign _ _ value _ => [value]
  | call _ arguments _ => arguments.tail
  | e => e.children

/-- The children of an expression that a run bypasses. -/
def bypassed : Expr → List Expr
  | update _ target _ _ | assign _ target _ _ => [target]
  | _ => []

theorem mem_children_of_mem_entered {e c : Expr} (h : c ∈ e.entered) : c ∈ e.children := by
  cases e with
  | update => cases h
  | assign op target value loc => exact List.mem_cons_of_mem _ h
  | call callee arguments loc => exact List.mem_cons_of_mem _ (List.mem_of_mem_tail h)
  | literal | identifier | binary | logical | unary | array | index | property | conditional
  | unsupported => exact h

theorem mem_children_of_mem_bypassed {e c : Expr} (h : c ∈ e.bypassed) : c ∈ e.children := by
  cases e with
  | update op target isBefore loc => exact h
  | assign op target value loc =>
    rw [List.mem_singleton.mp h]
    exact List.mem_cons_self
  | literal | identifier | binary | logical | unary | array | index | property | call | conditional
  | unsupported => cases h

end Expr

/-- The node in the head of a loop. -/
def ForInit.node : ForInit → Node
  | declaration d => .stmt (.declaration d)
  | expression e => .expr e

/-- Whether a run takes what is in the head of a loop as a place of failures. -/
def ForInit.isExpression : ForInit → Bool
  | declaration _ => false
  | expression _ => true

/-- The expressions that the names of a declaration are bound to. -/
def Declaration.values (d : Declaration) : List Expr := d.declarators.filterMap (·.init)

namespace Node

/-- The line on which a node starts. -/
def line : Node → Option UInt32
  | stmt s => s.line
  | expr e => e.line

/-- The nodes directly in a node. -/
def children : Node → List Node
  | stmt (.declaration d) => d.declarators.map (expr ·.target) ++ d.values.map expr
  | stmt (.forLoop init test update body _) =>
    init.toList.map ForInit.node ++ (test.toList ++ update.toList).map expr ++ [stmt body]
  | stmt (.ifThen test consequent alternate _) =>
    expr test :: (consequent :: alternate.toList).map stmt
  | stmt (.block body _) => body.map stmt
  | stmt (.expression e _) => [expr e]
  | stmt (.empty _) | stmt (.unsupported ..) => []
  | expr e => e.children.map expr

/-- The children of a node that a run enters. -/
def entered : Node → List Node
  | stmt (.declaration d) => d.values.map expr
  | stmt (.forLoop init test update body _) =>
    (init.toList.filter (·.isExpression)).map ForInit.node ++
      (test.toList ++ update.toList).map expr ++ ([body].filter (!·.isBlock)).map stmt
  | stmt (.ifThen test consequent alternate _) =>
    expr test :: ((consequent :: alternate.toList).filter (!·.isBlock)).map stmt
  | stmt (.block body _) => body.map stmt
  | stmt (.expression e _) => [expr e]
  | stmt (.empty _) | stmt (.unsupported ..) => []
  | expr e => e.entered.map expr

/-- The children of a node that a run bypasses. -/
def bypassed : Node → List Node
  | stmt (.forLoop init _ _ body _) =>
    (init.toList.filter (!·.isExpression)).map ForInit.node ++ ([body].filter (·.isBlock)).map stmt
  | stmt (.ifThen _ consequent alternate _) =>
    ((consequent :: alternate.toList).filter (·.isBlock)).map stmt
  | stmt _ => []
  | expr e => e.bypassed.map expr

theorem mem_children_of_mem_entered {n c : Node} (h : c ∈ n.entered) : c ∈ n.children := by
  cases n with
  | stmt s =>
    cases s <;> simp only [entered, children, List.mem_append, List.mem_map, List.mem_filter,
      List.mem_cons] at h ⊢ <;> grind
  | expr e =>
    obtain ⟨c, hc, rfl⟩ := List.mem_map.mp h
    exact List.mem_map_of_mem (Expr.mem_children_of_mem_entered hc)

theorem mem_children_of_mem_bypassed {n c : Node} (h : c ∈ n.bypassed) : c ∈ n.children := by
  cases n with
  | stmt s =>
    cases s <;> simp only [bypassed, children, List.mem_append, List.mem_map, List.mem_filter,
      List.mem_cons, List.not_mem_nil] at h ⊢ <;> grind
  | expr e =>
    obtain ⟨c, hc, rfl⟩ := List.mem_map.mp h
    exact List.mem_map_of_mem (Expr.mem_children_of_mem_bypassed hc)

/-- The ways down the tree from a node: the nodes met, the last one first. -/
inductive Path : Node → List Node → Prop
  | here (n : Node) : Path n [n]
  | down {n c : Node} {path : List Node} (hc : c ∈ n.children) (hpath : Path c path) :
    Path n (path ++ [n])

/-! ## What a node can fail with -/

/-- A construct that a check lets pass although a run cannot handle it, with the tag that the
failure names and the type of the node at which it is reported. -/
inductive Misfit : Node → (tag nodeType : String) → Prop
  | text (s : String) (loc : Option Location) :
    Misfit (expr (.literal (.string s) none loc)) "Literal(string)" "Literal"
  | regex (value : LiteralValue) (regex : Regex) (loc : Option Location) :
    Misfit (expr (.literal value (some regex) loc)) "Literal(regex)" "Literal"
  | other (value : Json) (loc : Option Location) :
    Misfit (expr (.literal (.other value) none loc)) "Literal" "Literal"
  | assignTarget (op : AssignOp) {target : Expr} (value : Expr) (loc : Option Location)
    (htarget : target.isTarget = false) :
    Misfit (expr (.assign op target value loc)) target.nodeType "AssignmentExpression"
  | updateTarget (op : UpdateOp) {target : Expr} (isBefore : Bool) (loc : Option Location)
    (htarget : target.isTarget = false) :
    Misfit (expr (.update op target isBefore loc)) target.nodeType "UpdateExpression"
  | callee {callee : Expr} (arguments : List Expr) (loc : Option Location)
    (hcallee : callee.name? = none) :
    Misfit (expr (.call callee arguments loc)) callee.nodeType "CallExpression"
  | propertyName (object : Expr) {name : Expr} (loc : Option Location) (hname : name.name? = none) :
    Misfit (expr (.property object name loc)) name.nodeType "MemberExpression"
  | pattern {d : Declaration} {declarator : Declarator} (hd : declarator ∈ d.declarators)
    (hname : declarator.target.name? = none) :
    Misfit (stmt (.declaration d)) declarator.target.nodeType declarator.target.nodeType

/-- What a node itself can fail with. Nothing is said of causes other than lacking support. -/
def Raises (n : Node) : Cause → Prop
  | .unsupportedOperator symbol => n.unsupported? = some (.operator symbol)
  | .unsupportedNode tag =>
    n.unsupported? = some (.statement tag) ∨ n.unsupported? = some (.expression tag) ∨
      n.Misfit tag n.nodeType
  | _ => True

theorem raises_of_isPlain (n : Node) {cause : Cause} (h : cause.isPlain = true) :
    n.Raises cause := by
  cases cause with
  | unsupportedOperator symbol => cases h
  | unsupportedNode tag => cases h
  | undefinedVariable | undefinedArray | undefinedFunction | indexOutOfBounds
  | undefinedProperty => trivial

theorem raises_literal {value : LiteralValue} {regex : Option Regex} {cause : Cause}
    (loc : Option Location) (h : Expr.literalValue value regex = .error cause) :
    (expr (.literal value regex loc)).Raises cause := by
  cases regex with
  | some regex =>
    cases h
    exact .inr (.inr (.regex value regex loc))
  | none =>
    cases value with
    | string s =>
      cases h
      exact .inr (.inr (.text s loc))
    | other value =>
      cases h
      exact .inr (.inr (.other value loc))
    | null | bool | number => cases h

theorem raises_property {h : Heap} {v : Value} {name : Expr} {cause : Cause} (object : Expr)
    (loc : Option Location) (herror : Expr.propertyValue h v name = .error cause) :
    (expr (.property object name loc)).Raises cause := by
  rw [Expr.propertyValue.eq_def] at herror
  split at herror <;> cases herror
  · rename_i hname
    exact .inr (.inr (.propertyName object loc hname))
  · trivial

end Node

end ScriptTrace
