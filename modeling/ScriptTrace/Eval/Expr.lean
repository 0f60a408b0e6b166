import ScriptTrace.Eval.Place

/-!
# Evaluating expressions

Operands are evaluated from left to right, the right side of an assignment before its target.
Failures get the innermost node as their place.
-/

namespace ScriptTrace

namespace Expr

/-- The value of a literal. Text and regular expressions have none. -/
def literalValue (value : LiteralValue) (regex : Option Regex) : Except Cause Value :=
  if regex.isSome then
    .error (.unsupportedNode "Literal(regex)")
  else
    match value with
    | .number n => .ok (.number n)
    | .bool b => .ok (.boolean b)
    | .null => .ok .undefined
    | .string _ => .error (.unsupportedNode "Literal(string)")
    | .other _ => .error (.unsupportedNode "Literal")

/-- The value of a name that nothing is bound to. -/
def unboundValue (name : String) : Except Cause Value :=
  if name = "undefined" then .ok .undefined
  else if name = "NaN" then .ok (.number .nan)
  else if name = "Infinity" then .ok (.number .infinity)
  else .error (.undefinedVariable name)

/-- The value of a name: what it is bound to, or what it stands for otherwise. -/
def identifierValue (name : String) : Eval Value := do
  match ← Eval.lookup? name with
  | some v => return v
  | none => Eval.ofExcept (unboundValue name)

/-- The value of `object.name`: arrays have a length, and nothing else has a property. -/
def propertyValue (h : Heap) (object : Value) (name : Expr) : Except Cause Value :=
  match name.name?, object with
  | none, _ => .error (.unsupportedNode name.nodeType)
  | some "length", .array id => .ok (.number (.ofLength (h.length id)))
  | some other, _ => .error (.undefinedProperty other object.typeName)

mutual

/-- The value of an expression. -/
def eval (e : Expr) : Eval Value :=
  .atNode e.nodeType e.line <|
    match e with
    | literal value regex _ => Eval.ofExcept (literalValue value regex)
    | identifier name _ => identifierValue name
    | binary op left right _ => do
      let a ← left.eval
      let b ← right.eval
      let h ← Eval.heap
      Eval.ofExcept (h.binary op a b)
    | logical op left right _ => do
      if op.isSupported then
        let a ← left.eval
        if a.isTruthy == (op == .and) then right.eval else return a
      else
        Eval.fail (.unsupportedOperator op.symbol)
    | unary op operand _ => do
      let a ← operand.eval
      let h ← Eval.heap
      Eval.ofExcept (h.unary op a)
    | update op target isBefore _ => do
      let (v, _) ← Eval.step op isBefore target.place
      return v
    | assign op target value _ => do
      let written ← Eval.assign op value.eval target.place
      return written.value
    | array elements _ => do
      let values ← evalElements elements
      return .array (← Eval.allocate values.toArray)
    | index object i _ => do
      let place ← Eval.element object object.eval i.eval
      place.read
    | property object name _ => do
      let v ← object.eval
      let h ← Eval.heap
      Eval.ofExcept (propertyValue h v name)
    | call callee arguments loc => do
      match callee.name? with
      | none => Eval.fail (.unsupportedNode callee.nodeType)
      | some name =>
        match Builtin.ofName? name with
        | none => Eval.fail (.undefinedFunction name)
        | some .swap =>
          Eval.swap arguments.head? (evalAfterFirst arguments) (loc.map (·.start.line))
    | conditional test consequent alternate _ => do
      let a ← test.eval
      if a.isTruthy then consequent.eval else alternate.eval
    | unsupported nodeType _ => Eval.fail (.unsupportedNode nodeType)

/-- The place that an expression stands for as a target. -/
def place (e : Expr) : Eval Place :=
  match e with
  | identifier name _ => return .named name
  | index object i _ => Eval.element object object.eval i.eval
  | e => Eval.fail (.unsupportedNode e.nodeType)

/-- The elements of an array literal. A hole is undefined. -/
def evalElements : List (Option Expr) → Eval (List Value)
  | [] => return []
  | none :: rest => do
    let values ← evalElements rest
    return .undefined :: values
  | some e :: rest => do
    let v ← e.eval
    let values ← evalElements rest
    return v :: values

/-- The values of the arguments of a call. -/
def evalAll : List Expr → Eval (List Value)
  | [] => return []
  | e :: rest => do
    let v ← e.eval
    let values ← evalAll rest
    return v :: values

/-- The values of all arguments of a call but the first. -/
def evalAfterFirst : List Expr → Eval (List Value)
  | [] => return []
  | _ :: rest => evalAll rest

end

end Expr

end ScriptTrace
