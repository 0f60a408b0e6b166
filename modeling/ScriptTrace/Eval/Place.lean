import ScriptTrace.Eval.Exchange
import ScriptTrace.Syntax.Describe

/-!
# Places and writes

A place is what an assignment or a step writes to: a variable, or a slot of an array, already
checked. The combinators here take the evaluation of operands as arguments, so that what an
assignment does with its operands can be told apart from how the operands are evaluated.
-/

namespace ScriptTrace

/-- Where a value is written. -/
inductive Place where
  | named (name : String)
  /-- A slot of an array, with the source form of the array. -/
  | slot (label : String) (array : ArrayId) (i : Nat)

/-- A write that was done. -/
structure Written where
  place : Place
  value : Value

namespace Eval

/-- The array that an expression gives. A variable is looked up by its name; otherwise `value`
evaluates the expression. -/
def arrayOf (object : Expr) (value : Eval Value) : Eval ArrayId := do
  let v ←
    match object.name? with
    | some name =>
      match ← lookup? name with
      | some v => pure v
      | none => fail (.undefinedArray name)
    | none => value
  match v with
  | .array id => return id
  | _ => fail (.undefinedArray object.describe)

/-- The slot `object[i]`, from the evaluations of the object and of the index. -/
def element (object : Expr) (value index : Eval Value) : Eval Place := do
  let id ← arrayOf object value
  let i ← index
  let h ← heap
  let slot ← ofExcept (h.resolveIndex i object.describe (h.length id))
  return .slot object.describe id slot

end Eval

namespace Place

/-- The value at a place. -/
def read : Place → Eval Value
  | named name => do
    match ← Eval.lookup? name with
    | some v => return v
    | none => Eval.fail (.undefinedVariable name)
  | slot _ id i => return (← Eval.heap).read id i

/-- Write a value to a place. -/
def write (p : Place) (v : Value) : Eval Written := do
  match p with
  | named name => Eval.define name v
  | slot _ id i => Eval.write id i v
  return ⟨p, v⟩

end Place

namespace Written

/-- The details of the event that records a write. -/
def details (w : Written) (h : Heap) : Details :=
  match w.place with
  | .named name => .assign name (h.snapshot w.value)
  | .slot label id i => .assignElement label i (h.snapshot w.value) (h.snapshotElements id)

end Written

namespace Eval

/-- An assignment, from the evaluation of its right side and of its place, in that order. A
compound assignment reads the place and applies its operator before it writes. -/
def assign (op : AssignOp) (value : Eval Value) (place : Eval Place) : Eval Written := do
  if op.isSupported then
    let v ← value
    let p ← place
    match op.binary? with
    | none => p.write v
    | some binary =>
      let old ← p.read
      let h ← heap
      p.write (← ofExcept (h.binary binary old v))
  else
    fail (.unsupportedOperator op.symbol)

/-- A step, from the evaluation of its place: the value of the expression, and the write. -/
def step (op : UpdateOp) (isBefore : Bool) (place : Eval Place) : Eval (Value × Written) := do
  let p ← place
  let old ← p.read
  let h ← heap
  let new := h.step op old
  let written ← p.write new
  return (if isBefore then new else .number (h.toNumber old), written)

/-- The name of the array that a call of `swap` names. It is not evaluated. -/
def swapArray : Option Expr → Except Cause String
  | none => .error (.undefinedArray "undefined")
  | some (.identifier name _) => .ok name
  | some (.literal (.string name) _ _) => .ok name
  | some e => .error (.undefinedArray e.describe)

/-- A call `swap(array, i, j, line1, line2)`, from the evaluation of all arguments but the first.
Without a first line the line of the call stands for it. -/
def swap (array : Option Expr) (arguments : Eval (List Value)) (line : Option UInt32) :
    Eval Value := do
  let name ← ofExcept (swapArray array)
  let values ← arguments
  let x ← Exchange.resolve name (values.getD 0 .undefined) (values.getD 1 .undefined)
  let h ← heap
  let line1 := (values[2]?.bind h.lineNumber?) <|> line
  let line2 := values[3]?.bind h.lineNumber?
  x.perform line1 line2
  return .undefined

end Eval

end ScriptTrace
