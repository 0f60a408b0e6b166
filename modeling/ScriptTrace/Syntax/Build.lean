import ScriptTrace.Syntax.Tree

/-!
# Building trees by hand

Statements take the line on which they stand. Expressions have no location, except that the test
of an `if` and the update of a loop get the line of their statement if they have none.
-/

namespace ScriptTrace

namespace Expr

/-- A number literal. -/
def ofNumber (n : Number) : Expr := literal (.number n) none none

/-- A literal `true` or `false`. -/
def ofBool (b : Bool) : Expr := literal (.bool b) none none

/-- A literal `null`. -/
def ofNull : Expr := literal .null none none

/-- A string literal. -/
def ofString (s : String) : Expr := literal (.string s) none none

/-- An identifier. -/
def ofName (name : String) : Expr := identifier name none

/-- `left op right`. -/
def ofBinary (op : BinaryOp) (left right : Expr) : Expr := binary op left right none

/-- `left op right` with a right operand that may be left alone. -/
def ofLogical (op : LogicalOp) (left right : Expr) : Expr := logical op left right none

/-- `op operand`. -/
def ofUnary (op : UnaryOp) (operand : Expr) : Expr := unary op operand none

/-- `target op`. -/
def stepAfter (op : UpdateOp) (target : Expr) : Expr := update op target false none

/-- `op target`. -/
def stepBefore (op : UpdateOp) (target : Expr) : Expr := update op target true none

/-- `target op value`. -/
def ofAssign (op : AssignOp) (target value : Expr) : Expr := assign op target value none

/-- An array literal without holes. -/
def ofElements (elements : List Expr) : Expr := array (elements.map some) none

/-- `object[i]`. -/
def ofIndex (object i : Expr) : Expr := index object i none

/-- `object.name`. -/
def ofProperty (object : Expr) (name : String) : Expr := property object (ofName name) none

/-- `name(arguments)`. -/
def ofCall (name : String) (arguments : List Expr) : Expr := call (ofName name) arguments none

/-- `test ? consequent : alternate`. -/
def ofConditional (test consequent alternate : Expr) : Expr :=
  conditional test consequent alternate none

/-- The same node on one line. -/
def atLine (line : UInt32) (e : Expr) : Expr := e.withLoc (some (.line line))

/-- The same node on one line, unless it has a location. -/
def orAtLine (line : UInt32) (e : Expr) : Expr := if e.loc.isSome then e else e.atLine line

end Expr

namespace Declaration

/-- `let name = init, …` on one line. -/
def ofBindings (line : UInt32) (bindings : List (String × Option Expr)) : Declaration where
  kind := .lexical
  declarators := bindings.map fun (name, init) ↦ ⟨.ofName name, init, some (.line line)⟩
  loc := some (.line line)

end Declaration

namespace Stmt

/-- `let name = init;`. -/
def letVar (line : UInt32) (name : String) (init : Expr) : Stmt :=
  declaration (.ofBindings line [(name, some init)])

/-- An expression statement. -/
def ofExpr (line : UInt32) (e : Expr) : Stmt := expression e (some (.line line))

/-- A block, which has no location. -/
def ofBlock (body : List Stmt) : Stmt := block body none

/-- An empty statement. -/
def ofEmpty (line : UInt32) : Stmt := empty (some (.line line))

/-- A statement of a type that cannot be run. -/
def ofUnsupported (line : UInt32) (nodeType : String) : Stmt :=
  unsupported nodeType (some (.line line))

/-- `if (test) consequent else alternate`. -/
def ofIf (line : UInt32) (test : Expr) (consequent : Stmt) (alternate : Option Stmt) : Stmt :=
  ifThen (test.orAtLine line) consequent alternate (some (.line line))

/-- A loop from its first line to its last. -/
def ofFor (first last : UInt32) (init : Option ForInit) (test update : Option Expr)
    (body : Stmt) : Stmt :=
  forLoop init test (update.map (·.orAtLine first)) body (some (.lines first last))

end Stmt

/-- A program without a location. -/
def Program.ofBody (body : List Stmt) : Program := ⟨body, none⟩

end ScriptTrace
