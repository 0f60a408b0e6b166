import ScriptTrace.Syntax.Nodes

/-!
# The plain spelling of trees

A tree as a JSON value: a node is an object with its type tag, its location and one member for each
of its parts. Operators and kinds of declaration are spelled by their symbols, and what is absent,
a hole in an array literal among it, is `null`.

Not every tree can be read back from its spelling. JSON has no spelling for numbers that are not
finite. A literal value without a constructor of its own is an array or an object, as other values
would be read as something else. And a node that is kept only by its type tag must have a tag that
no node of the place where it stands is known by.
-/

namespace ScriptTrace

/-! ## Spelling -/

namespace Position

/-- The spelling of a position. -/
def toJson (p : Position) : Json :=
  .object [("line", .number (.natural p.line.toUInt64)),
    ("column", .number (.natural p.column.toUInt64))]

end Position

namespace Location

/-- The spelling of a location. -/
def toJson (l : Location) : Json := .object [("start", l.start.toJson), ("end", l.stop.toJson)]

end Location

namespace Regex

/-- The spelling of a regular expression. -/
def toJson (r : Regex) : Json :=
  .object [("pattern", .string r.pattern), ("flags", .string r.flags)]

end Regex

/-- The spelling of a node of a type at a location, with the members of that type. -/
def Json.node (nodeType : String) (loc : Option Location) (members : List (String × Json)) : Json :=
  .object (("type", .string nodeType) :: ("loc", ofOption Location.toJson loc) :: members)

namespace LiteralValue

/-- The spelling of the value of a literal. -/
def toJson : LiteralValue → Json
  | null => .null
  | bool b => .bool b
  | number n => if h : n.isFinite = true then .number (.real n h) else .null
  | string s => .string s
  | other value => value

end LiteralValue

namespace Expr

mutual

/-- The spelling of an expression. -/
def toJson : Expr → Json
  | literal value regex loc => .node "Literal" loc
    [("value", value.toJson), ("regex", .ofOption Regex.toJson regex)]
  | identifier name loc => .node "Identifier" loc [("name", .string name)]
  | binary op left right loc => .node "BinaryExpression" loc
    [("operator", .string op.symbol), ("left", left.toJson), ("right", right.toJson)]
  | logical op left right loc => .node "LogicalExpression" loc
    [("operator", .string op.symbol), ("left", left.toJson), ("right", right.toJson)]
  | unary op operand loc => .node "UnaryExpression" loc
    [("operator", .string op.symbol), ("argument", operand.toJson)]
  | update op target isBefore loc => .node "UpdateExpression" loc
    [("operator", .string op.symbol), ("argument", target.toJson), ("prefix", .bool isBefore)]
  | assign op target value loc => .node "AssignmentExpression" loc
    [("operator", .string op.symbol), ("left", target.toJson), ("right", value.toJson)]
  | array elements loc => .node "ArrayExpression" loc
    [("elements", .array (elementsToJson elements))]
  | index object i loc => .node "MemberExpression" loc
    [("object", object.toJson), ("property", i.toJson), ("computed", .bool true)]
  | property object name loc => .node "MemberExpression" loc
    [("object", object.toJson), ("property", name.toJson), ("computed", .bool false)]
  | call callee arguments loc => .node "CallExpression" loc
    [("callee", callee.toJson), ("arguments", .array (argumentsToJson arguments))]
  | conditional test consequent alternate loc => .node "ConditionalExpression" loc
    [("test", test.toJson), ("consequent", consequent.toJson), ("alternate", alternate.toJson)]
  | unsupported nodeType loc => .node nodeType loc []

def elementsToJson : List (Option Expr) → List Json
  | [] => []
  | none :: rest => .null :: elementsToJson rest
  | some e :: rest => e.toJson :: elementsToJson rest

def argumentsToJson : List Expr → List Json
  | [] => []
  | e :: rest => e.toJson :: argumentsToJson rest

end

end Expr

namespace Declarator

/-- The spelling of one part of a declaration. -/
def toJson (d : Declarator) : Json := .node "VariableDeclarator" d.loc
  [("id", d.target.toJson), ("init", .ofOption Expr.toJson d.init)]

end Declarator

namespace Declaration

/-- The spelling of a declaration. -/
def toJson (d : Declaration) : Json := .node "VariableDeclaration" d.loc
  [("kind", .string d.kind.symbol), ("declarations", .array (d.declarators.map Declarator.toJson))]

end Declaration

namespace ForInit

/-- The spelling of the first part of the head of a loop. -/
def toJson : ForInit → Json
  | declaration d => d.toJson
  | expression e => e.toJson

end ForInit

namespace Stmt

mutual

/-- The spelling of a statement. -/
def toJson : Stmt → Json
  | declaration d => d.toJson
  | forLoop init test update body loc => .node "ForStatement" loc
    [("init", .ofOption ForInit.toJson init), ("test", .ofOption Expr.toJson test),
      ("update", .ofOption Expr.toJson update), ("body", body.toJson)]
  | ifThen test consequent none loc => .node "IfStatement" loc
    [("test", test.toJson), ("consequent", consequent.toJson), ("alternate", .null)]
  | ifThen test consequent (some alternate) loc => .node "IfStatement" loc
    [("test", test.toJson), ("consequent", consequent.toJson), ("alternate", alternate.toJson)]
  | block body loc => .node "BlockStatement" loc [("body", .array (allToJson body))]
  | expression e loc => .node "ExpressionStatement" loc [("expression", e.toJson)]
  | empty loc => .node "EmptyStatement" loc []
  | unsupported nodeType loc => .node nodeType loc []

def allToJson : List Stmt → List Json
  | [] => []
  | s :: rest => s.toJson :: allToJson rest

end

end Stmt

/-! ## Trees that can be read back -/

namespace LiteralValue

/-- Whether the value of a literal has a spelling: a number has to be finite, and what is neither
null, a truth value, a number nor a text has to be an array or an object. -/
def isWritable : LiteralValue → Bool
  | number n => n.isFinite
  | other (.array _) | other (.object _) => true
  | other _ => false
  | null | bool _ | string _ => true

end LiteralValue

namespace Expr

/-- The type tags of the expressions that have constructors of their own. -/
def types : List String :=
  ["Literal", "Identifier", "BinaryExpression", "LogicalExpression", "UnaryExpression",
    "UpdateExpression", "AssignmentExpression", "ArrayExpression", "MemberExpression",
    "CallExpression", "ConditionalExpression"]

mutual

/-- Whether an expression can be read back from its spelling. -/
def isWritable : Expr → Bool
  | literal value _ _ => value.isWritable
  | identifier .. => true
  | binary _ left right _ | logical _ left right _ => left.isWritable && right.isWritable
  | unary _ operand _ => operand.isWritable
  | update _ target _ _ => target.isWritable
  | assign _ target value _ => target.isWritable && value.isWritable
  | array elements _ => elementsAreWritable elements
  | index object i _ => object.isWritable && i.isWritable
  | property object name _ => object.isWritable && name.isWritable
  | call callee arguments _ => callee.isWritable && argumentsAreWritable arguments
  | conditional test consequent alternate _ =>
    test.isWritable && consequent.isWritable && alternate.isWritable
  | unsupported nodeType _ => !types.contains nodeType

def elementsAreWritable : List (Option Expr) → Bool
  | [] => true
  | none :: rest => elementsAreWritable rest
  | some e :: rest => e.isWritable && elementsAreWritable rest

def argumentsAreWritable : List Expr → Bool
  | [] => true
  | e :: rest => e.isWritable && argumentsAreWritable rest

end

theorem elementsAreWritable_iff {elements : List (Option Expr)} :
    elementsAreWritable elements = true ↔ ∀ e, some e ∈ elements → e.isWritable = true := by
  induction elements with
  | nil => simp [elementsAreWritable]
  | cons element rest ih =>
    rcases element with _ | e <;> simp [elementsAreWritable, ih]

theorem argumentsAreWritable_iff {arguments : List Expr} :
    argumentsAreWritable arguments = true ↔ ∀ e ∈ arguments, e.isWritable = true := by
  induction arguments with
  | nil => simp [argumentsAreWritable]
  | cons e rest ih => simp [argumentsAreWritable, ih]

end Expr

namespace Declarator

/-- Whether one part of a declaration can be read back from its spelling. -/
def isWritable (d : Declarator) : Bool := d.target.isWritable && d.init.all (·.isWritable)

end Declarator

namespace Declaration

/-- Whether a declaration can be read back from its spelling. -/
def isWritable (d : Declaration) : Bool := d.declarators.all (·.isWritable)

end Declaration

namespace ForInit

/-- Whether the first part of the head of a loop can be read back from its spelling. An expression
there must not have the type tag of a declaration. -/
def isWritable : ForInit → Bool
  | declaration d => d.isWritable
  | expression e => e.isWritable && e.nodeType != "VariableDeclaration"

end ForInit

namespace Stmt

/-- The type tags of the statements that have constructors of their own. -/
def types : List String :=
  ["VariableDeclaration", "ForStatement", "IfStatement", "BlockStatement", "ExpressionStatement",
    "EmptyStatement"]

mutual

/-- Whether a statement can be read back from its spelling. -/
def isWritable : Stmt → Bool
  | declaration d => d.isWritable
  | forLoop init test update body _ =>
    init.all (·.isWritable) && test.all (·.isWritable) && update.all (·.isWritable) &&
      body.isWritable
  | ifThen test consequent none _ => test.isWritable && consequent.isWritable
  | ifThen test consequent (some alternate) _ =>
    test.isWritable && consequent.isWritable && alternate.isWritable
  | block body _ => allAreWritable body
  | expression e _ => e.isWritable
  | empty _ => true
  | unsupported nodeType _ => !types.contains nodeType

def allAreWritable : List Stmt → Bool
  | [] => true
  | s :: rest => s.isWritable && allAreWritable rest

end

theorem allAreWritable_iff {body : List Stmt} :
    allAreWritable body = true ↔ ∀ s ∈ body, s.isWritable = true := by
  induction body with
  | nil => simp [allAreWritable]
  | cons s rest ih => simp [allAreWritable, ih]

end Stmt

namespace Node

/-- The spelling of a node. -/
def toJson : Node → Json
  | stmt s => s.toJson
  | expr e => e.toJson

/-- Whether a node can be read back from its spelling. -/
def isWritable : Node → Bool
  | stmt s => s.isWritable
  | expr e => e.isWritable

end Node

end ScriptTrace
