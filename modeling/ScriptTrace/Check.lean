import ScriptTrace.Syntax.Nodes

/-!
# Checking a program without running it

Which constructs of a program cannot be run, in source order, each with the line at which it is
reported. One search goes through the tree, a node before its parts. It carries what it has found
and one line, which statements set and put back.
-/

namespace ScriptTrace

/-- Something that cannot be run. -/
inductive Construct where
  | statement (nodeType : String)
  | expression (nodeType : String)
  | operator (symbol : String)
deriving DecidableEq

namespace Construct

/-- The word for the kind of a construct. -/
def kind : Construct → String
  | statement _ => "statement"
  | expression _ => "expression"
  | operator _ => "operator"

/-- The name of the construct in the source or in the tree. -/
def name : Construct → String
  | statement nodeType => nodeType
  | expression nodeType => nodeType
  | operator symbol => symbol

/-- The wording of a finding. -/
def message (c : Construct) : String := "unsupported " ++ c.kind ++ " " ++ c.name

end Construct

/-- A construct that cannot be run, and the line at which it is reported. -/
structure Finding where
  line : Option UInt32
  construct : Construct
deriving DecidableEq

/-- What a check finds. -/
structure CheckReport where
  /-- The number of statements, nested ones included. -/
  statements : Nat
  findings : List Finding
deriving DecidableEq

namespace Node

/-- Whether a node is a statement. -/
def isStmt : Node → Bool
  | stmt _ => true
  | expr _ => false

/-- What a node itself has that cannot be run. -/
def unsupported? : Node → Option Construct
  | stmt (.unsupported nodeType _) => some (.statement nodeType)
  | expr (.unsupported nodeType _) => some (.expression nodeType)
  | expr (.binary op ..) => if op.isSupported then none else some (.operator op.symbol)
  | expr (.logical op ..) => if op.isSupported then none else some (.operator op.symbol)
  | expr (.unary op ..) => if op.isSupported then none else some (.operator op.symbol)
  | expr (.assign op ..) => if op.isSupported then none else some (.operator op.symbol)
  | _ => none

end Node

/-- What a search has found so far, and the line of the innermost statement that it is in. -/
structure Search where
  statements : Nat
  findings : Array Finding
  line : Option UInt32

namespace Search

/-- A search before it looks at anything. -/
def start : Search := ⟨0, #[], none⟩

/-- Look at a node itself: what cannot be run is reported at a line. -/
def look (n : Node) (line : Option UInt32) : StateM Search Unit := do
  if let some construct := n.unsupported? then
    modify fun search ↦ { search with findings := search.findings.push ⟨line, construct⟩ }

/-- Look at an expression and then at its parts. -/
def expr (e : Expr) (parts : StateM Search Unit) : StateM Search Unit := do
  look (.expr e) (e.line <|> (← get).line)
  parts

/-- Look at a statement and then at its parts. Meanwhile the line is that of the statement, if it
has one; then the line is again what it was. -/
def stmt (s : Stmt) (parts : StateM Search Unit) : StateM Search Unit := do
  let outer := (← get).line
  modify fun search ↦
    { search with line := s.line <|> outer, statements := search.statements + 1 }
  look (.stmt s) (← get).line
  parts
  modify fun search ↦ { search with line := outer }

end Search

namespace Expr

mutual

/-- Search an expression. The name after a point is no expression that could be run. -/
def search (e : Expr) : StateM Search Unit :=
  Search.expr e <| match e with
  | literal .. | identifier .. | unsupported .. => return
  | binary _ left right _ => do left.search; right.search
  | logical _ left right _ => do left.search; right.search
  | unary _ operand _ => operand.search
  | update _ target _ _ => target.search
  | assign _ target value _ => do target.search; value.search
  | array elements _ => searchElements elements
  | index object i _ => do object.search; i.search
  | property object _ _ => object.search
  | call callee arguments _ => do callee.search; searchArguments arguments
  | conditional test consequent alternate _ => do
    test.search
    consequent.search
    alternate.search

def searchElements : List (Option Expr) → StateM Search Unit
  | [] => return
  | none :: rest => searchElements rest
  | some e :: rest => do e.search; searchElements rest

def searchArguments : List Expr → StateM Search Unit
  | [] => return
  | e :: rest => do e.search; searchArguments rest

end

end Expr

namespace Declaration

/-- Search the target and the value of each declarator. -/
def search (d : Declaration) : StateM Search Unit :=
  d.declarators.forM fun declarator ↦ do
    declarator.target.search
    declarator.init.forM Expr.search

end Declaration

namespace ForInit

/-- Search the first part of the head of a loop. -/
def search : ForInit → StateM Search Unit
  | declaration d => d.search
  | expression e => e.search

end ForInit

namespace Stmt

mutual

/-- Search a statement. -/
def search (s : Stmt) : StateM Search Unit :=
  Search.stmt s <| match s with
  | declaration d => d.search
  | forLoop init test update body _ => do
    init.forM ForInit.search
    test.forM Expr.search
    update.forM Expr.search
    body.search
  | ifThen test consequent none _ => do test.search; consequent.search
  | ifThen test consequent (some alternate) _ => do
    test.search
    consequent.search
    alternate.search
  | block body _ => searchAll body
  | expression e _ => e.search
  | empty _ | unsupported .. => return

/-- Search statements in turn. -/
def searchAll : List Stmt → StateM Search Unit
  | [] => return
  | s :: rest => do s.search; searchAll rest

end

end Stmt

namespace Program

/-- Check a program. -/
def check (p : Program) : CheckReport :=
  let (_, search) := (Stmt.searchAll p.body).run .start
  ⟨search.statements, search.findings.toList⟩

end Program

end ScriptTrace
