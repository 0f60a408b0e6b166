import ScriptTrace.Json.Decode
import ScriptTrace.Syntax.Tree

/-!
# Trees from JSON values

A node is an object whose `type` says what it is. Of a node of a known type the members that the
tree has are decoded in the order of their names, and the first that cannot be decoded is the
fault; what is missing is reported after that, in the order in which the node is written down.
All other members are ignored. A node of an unknown type keeps its tag, and its location if it has
a proper one.

Positions, locations, regular expressions and declarators are plain records: they may also be
given as a list of their parts.
-/

namespace ScriptTrace

open Json (Decoded required requiredPart)

namespace Position

/-- A position. The column may be left out and is 0 then. -/
def ofJson (j : Json) : Decoded Position := do
  match j with
  | .array _ =>
    let line ← requiredPart "Position" 2 0 (← j.part 0 fun v _ ↦ v.toUInt32)
    let column ← j.part 1 fun v _ ↦ v.toUInt32
    j.noSurplus 2
    return ⟨line, column.getD 0⟩
  | .object _ =>
    let column ← j.field "column" fun v _ ↦ v.toUInt32
    let line ← j.field "line" fun v _ ↦ v.toUInt32
    return ⟨← required "line" line, column.getD 0⟩
  | other => throw (.invalidType other.shape (Json.structName "Position"))

end Position

namespace Location

/-- A location. -/
def ofJson (j : Json) : Decoded Location := do
  match j with
  | .array _ =>
    let start ← requiredPart "SourceLocation" 2 0 (← j.part 0 fun v _ ↦ Position.ofJson v)
    let stop ← requiredPart "SourceLocation" 2 1 (← j.part 1 fun v _ ↦ Position.ofJson v)
    j.noSurplus 2
    return ⟨start, stop⟩
  | .object _ =>
    let stop ← j.field "end" fun v _ ↦ Position.ofJson v
    let start ← j.field "start" fun v _ ↦ Position.ofJson v
    return ⟨← required "start" start, ← required "end" stop⟩
  | other => throw (.invalidType other.shape (Json.structName "SourceLocation"))

end Location

namespace Regex

/-- A regular expression. The flags may be left out. -/
def ofJson (j : Json) : Decoded Regex := do
  match j with
  | .array _ =>
    let pattern ← requiredPart "RegexLiteral" 2 0 (← j.part 0 fun v _ ↦ v.toText)
    let flags ← j.part 1 fun v _ ↦ v.toText
    j.noSurplus 2
    return ⟨pattern, flags.getD ""⟩
  | .object _ =>
    let flags ← j.field "flags" fun v _ ↦ v.toText
    let pattern ← j.field "pattern" fun v _ ↦ v.toText
    return ⟨← required "pattern" pattern, flags.getD ""⟩
  | other => throw (.invalidType other.shape (Json.structName "RegexLiteral"))

end Regex

namespace LiteralValue

/-- The value of a literal. Every JSON value is one. -/
def ofJson : Json → LiteralValue
  | .null => null
  | .bool b => bool b
  | .number n => number n.toNumber
  | .string s => string s
  | j => other j

end LiteralValue

namespace Json

/-- The type tag of a node. -/
def nodeType (j : Json) : Decoded String :=
  match j.get? "type" with
  | none => throw (.missingField "type")
  | some (string tag) => return tag
  | some found => throw (.nodeType found)

/-- The location of a node of a known type. -/
def nodeLoc (j : Json) : Decoded (Option Location) :=
  j.optionalField "loc" fun v _ ↦ Location.ofJson v

/-- The location of a node of an unknown type: what is no location is no fault there. -/
def lenientLoc (j : Json) : Option Location :=
  (j.get? "loc").bind fun v ↦ (Location.ofJson v).toOption

end Json

namespace Expr

/-- An expression. -/
def ofJson (j : Json) : Decoded Expr := do
  match ← j.nodeType with
  | "Literal" =>
    let loc ← j.nodeLoc
    let regex ← j.optionalField "regex" fun v _ ↦ Regex.ofJson v
    let value := (j.get? "value").elim .null LiteralValue.ofJson
    return literal value regex loc
  | "Identifier" =>
    let loc ← j.nodeLoc
    let name ← j.field "name" fun v _ ↦ v.toText
    return identifier (← required "name" name) loc
  | "BinaryExpression" =>
    let left ← j.field "left" fun v _ ↦ ofJson v
    let loc ← j.nodeLoc
    let op ← j.field "operator" fun v _ ↦ v.toVariant BinaryOp.all BinaryOp.symbol
    let right ← j.field "right" fun v _ ↦ ofJson v
    return binary (← required "operator" op) (← required "left" left)
      (← required "right" right) loc
  | "LogicalExpression" =>
    let left ← j.field "left" fun v _ ↦ ofJson v
    let loc ← j.nodeLoc
    let op ← j.field "operator" fun v _ ↦ v.toVariant LogicalOp.all LogicalOp.symbol
    let right ← j.field "right" fun v _ ↦ ofJson v
    return logical (← required "operator" op) (← required "left" left)
      (← required "right" right) loc
  | "UnaryExpression" =>
    let operand ← j.field "argument" fun v _ ↦ ofJson v
    let loc ← j.nodeLoc
    let op ← j.field "operator" fun v _ ↦ v.toVariant UnaryOp.all UnaryOp.symbol
    return unary (← required "operator" op) (← required "argument" operand) loc
  | "UpdateExpression" =>
    let target ← j.field "argument" fun v _ ↦ ofJson v
    let loc ← j.nodeLoc
    let op ← j.field "operator" fun v _ ↦ v.toVariant UpdateOp.all UpdateOp.symbol
    let isBefore ← j.field "prefix" fun v _ ↦ v.toBool
    return update (← required "operator" op) (← required "argument" target)
      (← required "prefix" isBefore) loc
  | "AssignmentExpression" =>
    let target ← j.field "left" fun v _ ↦ ofJson v
    let loc ← j.nodeLoc
    let op ← j.field "operator" fun v _ ↦ v.toVariant AssignOp.all AssignOp.symbol
    let value ← j.field "right" fun v _ ↦ ofJson v
    return assign (← required "operator" op) (← required "left" target)
      (← required "right" value) loc
  | "ArrayExpression" =>
    let elements ← j.field "elements" fun v _ ↦
      v.elements fun element _ ↦ element.nullable fun e _ ↦ ofJson e
    let loc ← j.nodeLoc
    return array (← required "elements" elements) loc
  | "MemberExpression" =>
    let computed ← j.field "computed" fun v _ ↦ v.toBool
    let loc ← j.nodeLoc
    let object ← j.field "object" fun v _ ↦ ofJson v
    let name ← j.field "property" fun v _ ↦ ofJson v
    let object ← required "object" object
    let name ← required "property" name
    if ← required "computed" computed then return index object name loc
    else return property object name loc
  | "CallExpression" =>
    let arguments ← j.field "arguments" fun v _ ↦ v.elements fun argument _ ↦ ofJson argument
    let callee ← j.field "callee" fun v _ ↦ ofJson v
    let loc ← j.nodeLoc
    return call (← required "callee" callee) (← required "arguments" arguments) loc
  | "ConditionalExpression" =>
    let alternate ← j.field "alternate" fun v _ ↦ ofJson v
    let consequent ← j.field "consequent" fun v _ ↦ ofJson v
    let loc ← j.nodeLoc
    let test ← j.field "test" fun v _ ↦ ofJson v
    return conditional (← required "test" test) (← required "consequent" consequent)
      (← required "alternate" alternate) loc
  | tag => return unsupported tag j.lenientLoc
termination_by sizeOf j

end Expr

namespace Declarator

/-- One part of a declaration. -/
def ofJson (j : Json) : Decoded Declarator := do
  match j with
  | .array _ =>
    let target ← requiredPart "VariableDeclarator" 3 0 (← j.part 0 fun v _ ↦ Expr.ofJson v)
    let init ← j.part 1 fun v _ ↦ v.nullable fun e _ ↦ Expr.ofJson e
    let loc ← j.part 2 fun v _ ↦ v.nullable fun l _ ↦ Location.ofJson l
    j.noSurplus 3
    return ⟨target, init.join, loc.join⟩
  | .object _ =>
    let target ← j.field "id" fun v _ ↦ Expr.ofJson v
    let init ← j.optionalField "init" fun v _ ↦ Expr.ofJson v
    let loc ← j.nodeLoc
    return ⟨← required "id" target, init, loc⟩
  | other => throw (.invalidType other.shape (Json.structName "VariableDeclarator"))

end Declarator

namespace Declaration

/-- A declaration of variables. Without a kind it is a `let`. -/
def ofJson (j : Json) : Decoded Declaration := do
  let declarators ← j.field "declarations" fun v _ ↦ v.elements fun d _ ↦ Declarator.ofJson d
  let kind ← j.field "kind" fun v _ ↦ v.toVariant DeclarationKind.all DeclarationKind.symbol
  let loc ← j.nodeLoc
  return ⟨kind.getD .lexical, ← required "declarations" declarators, loc⟩

end Declaration

namespace ForInit

/-- The first part of the head of a loop: a declaration or an expression. -/
def ofJson (j : Json) : Decoded ForInit := do
  match ← j.nodeType with
  | "VariableDeclaration" => return declaration (← Declaration.ofJson j)
  | _ => return expression (← Expr.ofJson j)

end ForInit

namespace Stmt

/-- A statement. -/
def ofJson (j : Json) : Decoded Stmt := do
  match ← j.nodeType with
  | "VariableDeclaration" => return declaration (← Declaration.ofJson j)
  | "ForStatement" =>
    let body ← j.field "body" fun v _ ↦ ofJson v
    let init ← j.optionalField "init" fun v _ ↦ ForInit.ofJson v
    let loc ← j.nodeLoc
    let test ← j.optionalField "test" fun v _ ↦ Expr.ofJson v
    let update ← j.optionalField "update" fun v _ ↦ Expr.ofJson v
    return forLoop init test update (← required "body" body) loc
  | "IfStatement" =>
    let alternate ← j.optionalField "alternate" fun v _ ↦ ofJson v
    let consequent ← j.field "consequent" fun v _ ↦ ofJson v
    let loc ← j.nodeLoc
    let test ← j.field "test" fun v _ ↦ Expr.ofJson v
    return ifThen (← required "test" test) (← required "consequent" consequent) alternate loc
  | "BlockStatement" =>
    let body ← j.field "body" fun v _ ↦ v.elements fun s _ ↦ ofJson s
    let loc ← j.nodeLoc
    return block (← required "body" body) loc
  | "ExpressionStatement" =>
    let expr ← j.field "expression" fun v _ ↦ Expr.ofJson v
    let loc ← j.nodeLoc
    return expression (← required "expression" expr) loc
  | "EmptyStatement" => return empty (← j.nodeLoc)
  | tag => return unsupported tag j.lenientLoc
termination_by sizeOf j

end Stmt

end ScriptTrace
