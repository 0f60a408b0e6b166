import ScriptTrace.Syntax.Tree

/-!
# The nodes of a tree

Every statement and expression of a tree in source order, a node before its parts. The name after
a point is no expression of its own: nothing evaluates it, so it is not among the nodes.

A node is listed with the line at which it is reported: its own, or else that of the nearest
statement around it that has one. A predicate marks nodes below which the listing does not go.
-/

namespace ScriptTrace

/-- A node of a tree. -/
inductive Node where
  | stmt (s : Stmt)
  | expr (e : Expr)

/-- A node with the line at which it is reported. -/
structure Visit where
  node : Node
  line : Option UInt32

namespace Node

/-- The type tag of a node. -/
def nodeType : Node → String
  | stmt s => s.nodeType
  | expr e => e.nodeType

end Node

namespace Expr

mutual

/-- An expression and the expressions in it. -/
def nodes (isLeaf : Node → Bool) (e : Expr) : List Expr :=
  e :: if isLeaf (.expr e) then [] else
    match e with
    | literal .. | identifier .. | unsupported .. => []
    | binary _ left right _ => left.nodes isLeaf ++ right.nodes isLeaf
    | logical _ left right _ => left.nodes isLeaf ++ right.nodes isLeaf
    | unary _ operand _ => operand.nodes isLeaf
    | update _ target _ _ => target.nodes isLeaf
    | assign _ target value _ => target.nodes isLeaf ++ value.nodes isLeaf
    | array elements _ => elementNodes isLeaf elements
    | index object i _ => object.nodes isLeaf ++ i.nodes isLeaf
    | property object _ _ => object.nodes isLeaf
    | call callee arguments _ => callee.nodes isLeaf ++ argumentNodes isLeaf arguments
    | conditional test consequent alternate _ =>
      test.nodes isLeaf ++ consequent.nodes isLeaf ++ alternate.nodes isLeaf

def elementNodes (isLeaf : Node → Bool) : List (Option Expr) → List Expr
  | [] => []
  | none :: rest => elementNodes isLeaf rest
  | some e :: rest => e.nodes isLeaf ++ elementNodes isLeaf rest

def argumentNodes (isLeaf : Node → Bool) : List Expr → List Expr
  | [] => []
  | e :: rest => e.nodes isLeaf ++ argumentNodes isLeaf rest

end

/-- The visits of an expression in a statement that is reported at `line`. -/
def visits (isLeaf : Node → Bool) (line : Option UInt32) (e : Expr) : List Visit :=
  (e.nodes isLeaf).map fun n ↦ ⟨.expr n, n.line <|> line⟩

/-- The visits of an expression that may be absent. -/
def optionalVisits (isLeaf : Node → Bool) (line : Option UInt32) : Option Expr → List Visit
  | none => []
  | some e => e.visits isLeaf line

end Expr

namespace Declaration

/-- The visits of a declaration: the target and the value of each declarator. -/
def visits (isLeaf : Node → Bool) (line : Option UInt32) (d : Declaration) : List Visit :=
  d.declarators.flatMap fun declarator ↦
    declarator.target.visits isLeaf line ++ Expr.optionalVisits isLeaf line declarator.init

end Declaration

namespace ForInit

/-- The visits of the first part of the head of a loop. -/
def visits (isLeaf : Node → Bool) (line : Option UInt32) : Option ForInit → List Visit
  | none => []
  | some (declaration d) => d.visits isLeaf line
  | some (expression e) => e.visits isLeaf line

end ForInit

namespace Stmt

mutual

/-- The visits of a statement inside one that is reported at `outer`. -/
def visits (isLeaf : Node → Bool) (outer : Option UInt32) (s : Stmt) : List Visit :=
  ⟨.stmt s, s.line <|> outer⟩ :: if isLeaf (.stmt s) then [] else
    match s with
    | declaration d => d.visits isLeaf (s.line <|> outer)
    | forLoop init test update body _ =>
      ForInit.visits isLeaf (s.line <|> outer) init ++
        Expr.optionalVisits isLeaf (s.line <|> outer) test ++
        Expr.optionalVisits isLeaf (s.line <|> outer) update ++
        body.visits isLeaf (s.line <|> outer)
    | ifThen test consequent none _ =>
      test.visits isLeaf (s.line <|> outer) ++ consequent.visits isLeaf (s.line <|> outer)
    | ifThen test consequent (some alternate) _ =>
      test.visits isLeaf (s.line <|> outer) ++ consequent.visits isLeaf (s.line <|> outer) ++
        alternate.visits isLeaf (s.line <|> outer)
    | block body _ => allVisits isLeaf (s.line <|> outer) body
    | expression e _ => e.visits isLeaf (s.line <|> outer)
    | empty _ | unsupported .. => []

/-- The visits of statements inside one that is reported at `outer`. -/
def allVisits (isLeaf : Node → Bool) (outer : Option UInt32) : List Stmt → List Visit
  | [] => []
  | s :: rest => s.visits isLeaf outer ++ allVisits isLeaf outer rest

end

end Stmt

namespace Program

/-- The visits of a program, without those below nodes that `isLeaf` holds of. -/
def visitsAbove (isLeaf : Node → Bool) (p : Program) : List Visit :=
  Stmt.allVisits isLeaf none p.body

/-- The visits of a program. -/
def visits (p : Program) : List Visit := p.visitsAbove fun _ ↦ false

/-- The names that the identifiers of a program have, in source order. -/
def names (p : Program) : List String :=
  p.visits.filterMap fun visit ↦
    match visit.node with
    | .expr e => e.name?
    | .stmt _ => none

end Program

end ScriptTrace
