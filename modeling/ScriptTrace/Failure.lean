import ScriptTrace.Number.Decimal

/-!
# Failures of a run

A failure has a cause and a place. The place is filled in on the way out of the tree: the type of
the innermost node around the cause, and the line of the innermost node that has one.
-/

namespace ScriptTrace

/-- Why a run fails. -/
inductive Cause where
  /-- A name that nothing is bound to is read. -/
  | undefinedVariable (name : String)
  /-- What should be an array is none. -/
  | undefinedArray (name : String)
  /-- A function that does not exist is called. -/
  | undefinedFunction (name : String)
  /-- An index addresses no slot of an array. -/
  | indexOutOfBounds (array : String) (index : Number) (length : Nat)
  /-- An operator cannot be run. -/
  | unsupportedOperator (symbol : String)
  /-- A node cannot be run. -/
  | unsupportedNode (nodeType : String)
  /-- A property other than the length of an array is read. -/
  | undefinedProperty (property typeName : String)
deriving DecidableEq

/-- The wording of a cause. -/
def Cause.message : Cause → String
  | undefinedVariable name => "undefined variable: " ++ name
  | undefinedArray name => "'" ++ name ++ "' is not an array"
  | undefinedFunction name => "undefined function: " ++ name
  | indexOutOfBounds array index length =>
    "index " ++ index.display ++ " out of bounds for '" ++ array ++
      "' (length " ++ length.repr ++ ")"
  | unsupportedOperator symbol => "unsupported operator: " ++ symbol
  | unsupportedNode nodeType => "unsupported node type: " ++ nodeType
  | undefinedProperty property typeName => "no property '" ++ property ++ "' on " ++ typeName

/-- A failure: its cause and what is known of its place. -/
structure Failure where
  cause : Cause
  nodeType : Option String
  line : Option UInt32
deriving DecidableEq

namespace Failure

/-- A failure at an unknown place. -/
def ofCause (cause : Cause) : Failure := ⟨cause, none, none⟩

/-- Add a line, unless one is known. -/
def orLine (line : Option UInt32) (f : Failure) : Failure := { f with line := f.line <|> line }

/-- Add a node around the place that is known. -/
def atNode (nodeType : String) (line : Option UInt32) (f : Failure) : Failure :=
  { f with nodeType := f.nodeType <|> some nodeType, line := f.line <|> line }

/-- The wording of a failure. -/
def message (f : Failure) : String := f.cause.message

@[simp] theorem cause_atNode (nodeType : String) (line : Option UInt32) (f : Failure) :
    (f.atNode nodeType line).cause = f.cause := rfl

end Failure

end ScriptTrace
