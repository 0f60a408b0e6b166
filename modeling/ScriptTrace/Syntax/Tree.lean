import ScriptTrace.Json.Basic
import ScriptTrace.Syntax.Location
import ScriptTrace.Syntax.Operator

/-!
# Syntax trees

The part of the ESTree format that can be traced. Every node may carry a location. A node of any
other type is kept as `unsupported` with its type tag, so that a tree can be read as a whole and
fails only where such a node is reached.
-/

namespace ScriptTrace

/-- The value of a literal. -/
inductive LiteralValue where
  | null
  | bool (b : Bool)
  | number (n : Number)
  | string (s : String)
  /-- Anything else, such as the object that stands for a regular expression. -/
  | other (value : Json)
deriving Inhabited

/-- The source of a regular expression literal. -/
structure Regex where
  pattern : String
  flags : String
deriving DecidableEq

/-- An expression. -/
inductive Expr where
  | literal (value : LiteralValue) (regex : Option Regex) (loc : Option Location)
  | identifier (name : String) (loc : Option Location)
  | binary (op : BinaryOp) (left right : Expr) (loc : Option Location)
  | logical (op : LogicalOp) (left right : Expr) (loc : Option Location)
  | unary (op : UnaryOp) (operand : Expr) (loc : Option Location)
  /-- `++x` or `x++`. -/
  | update (op : UpdateOp) (target : Expr) (isBefore : Bool) (loc : Option Location)
  | assign (op : AssignOp) (target value : Expr) (loc : Option Location)
  /-- An array literal; `none` is a hole. -/
  | array (elements : List (Option Expr)) (loc : Option Location)
  /-- `object[i]`. -/
  | index (object i : Expr) (loc : Option Location)
  /-- `object.name`. -/
  | property (object name : Expr) (loc : Option Location)
  | call (callee : Expr) (arguments : List Expr) (loc : Option Location)
  | conditional (test consequent alternate : Expr) (loc : Option Location)
  | unsupported (nodeType : String) (loc : Option Location)
deriving Inhabited

/-- One `name = value` of a declaration. A target that is no identifier is a pattern. -/
structure Declarator where
  target : Expr
  init : Option Expr
  loc : Option Location

/-- A declaration of variables. -/
structure Declaration where
  kind : DeclarationKind
  declarators : List Declarator
  loc : Option Location

/-- The first part of the head of a loop. -/
inductive ForInit where
  | declaration (declaration : Declaration)
  | expression (expr : Expr)

/-- A statement. -/
inductive Stmt where
  | declaration (declaration : Declaration)
  | forLoop (init : Option ForInit) (test update : Option Expr) (body : Stmt)
      (loc : Option Location)
  | ifThen (test : Expr) (consequent : Stmt) (alternate : Option Stmt) (loc : Option Location)
  | block (body : List Stmt) (loc : Option Location)
  | expression (expr : Expr) (loc : Option Location)
  | empty (loc : Option Location)
  | unsupported (nodeType : String) (loc : Option Location)
deriving Inhabited

/-- A whole program. -/
structure Program where
  body : List Stmt
  loc : Option Location

namespace Expr

/-- The type tag of a node. -/
def nodeType : Expr → String
  | literal .. => "Literal"
  | identifier .. => "Identifier"
  | binary .. => "BinaryExpression"
  | logical .. => "LogicalExpression"
  | unary .. => "UnaryExpression"
  | update .. => "UpdateExpression"
  | assign .. => "AssignmentExpression"
  | array .. => "ArrayExpression"
  | index .. | property .. => "MemberExpression"
  | call .. => "CallExpression"
  | conditional .. => "ConditionalExpression"
  | unsupported nodeType _ => nodeType

/-- Where a node stands. -/
def loc : Expr → Option Location
  | literal _ _ loc | identifier _ loc | binary _ _ _ loc | logical _ _ _ loc | unary _ _ loc
  | update _ _ _ loc | assign _ _ _ loc | array _ loc | index _ _ loc | property _ _ loc
  | call _ _ loc | conditional _ _ _ loc | unsupported _ loc => loc

/-- The line on which a node starts. -/
def line (e : Expr) : Option UInt32 := e.loc.map (·.start.line)

/-- The same node at another location. -/
def withLoc (loc : Option Location) : Expr → Expr
  | literal value regex _ => literal value regex loc
  | identifier name _ => identifier name loc
  | binary op left right _ => binary op left right loc
  | logical op left right _ => logical op left right loc
  | unary op operand _ => unary op operand loc
  | update op target isBefore _ => update op target isBefore loc
  | assign op target value _ => assign op target value loc
  | array elements _ => array elements loc
  | index object i _ => index object i loc
  | property object name _ => property object name loc
  | call callee arguments _ => call callee arguments loc
  | conditional test consequent alternate _ => conditional test consequent alternate loc
  | unsupported nodeType _ => unsupported nodeType loc

/-- The name, if the node is an identifier. -/
def name? : Expr → Option String
  | identifier name _ => some name
  | _ => none

/-- The name and the index, if the node is an element of a named array, `a[i]`. -/
def element? : Expr → Option (String × Expr)
  | index (identifier name _) i _ => some (name, i)
  | _ => none

end Expr

namespace Declaration

/-- The line on which a declaration starts. -/
def line (d : Declaration) : Option UInt32 := d.loc.map (·.start.line)

end Declaration

namespace Stmt

/-- The type tag of a node. -/
def nodeType : Stmt → String
  | declaration _ => "VariableDeclaration"
  | forLoop .. => "ForStatement"
  | ifThen .. => "IfStatement"
  | block .. => "BlockStatement"
  | expression .. => "ExpressionStatement"
  | empty _ => "EmptyStatement"
  | unsupported nodeType _ => nodeType

/-- Where a node stands. -/
def loc : Stmt → Option Location
  | declaration d => d.loc
  | forLoop _ _ _ _ loc | ifThen _ _ _ loc | block _ loc | expression _ loc | empty loc
  | unsupported _ loc => loc

/-- The line on which a node starts. -/
def line (s : Stmt) : Option UInt32 := s.loc.map (·.start.line)

/-- The line on which a node ends. -/
def endLine (s : Stmt) : Option UInt32 := s.loc.map (·.stop.line)

/-- The statements that run where a statement is a body: those of a block, or the statement. -/
def asBody : Stmt → List Stmt
  | block body _ => body
  | s => [s]

end Stmt

end ScriptTrace
