import ScriptTrace.Failure
import ScriptTrace.Syntax.Operator
import ScriptTrace.Value.Convert

/-!
# Operators on values

Arithmetic and order convert both operands to numbers and follow IEEE 754. `===` asks for the same
type and the same value, `==` compares numbers unless one side is undefined; arrays are equal only
if they are one array. `&&` and `||` give back the operand that decides.
-/

namespace ScriptTrace

namespace Heap

/-- `===`: the same type and value. -/
def isSame : Value → Value → Bool
  | .number n, .number m => n == m
  | .boolean b, .boolean c => b == c
  | .array id, .array id' => id == id'
  | .undefined, .undefined => true
  | _, _ => false

/-- `==`: undefined equals only itself, arrays are compared by identity, all else as numbers. -/
def isEqual (h : Heap) : Value → Value → Bool
  | .undefined, .undefined => true
  | .undefined, _ | _, .undefined => false
  | .array id, .array id' => id == id'
  | left, right => h.toNumber left == h.toNumber right

/-- The value of a binary operator on two values. -/
def binary (h : Heap) (op : BinaryOp) (left right : Value) : Except Cause Value :=
  match op with
  | .add => .ok (.number (h.toNumber left + h.toNumber right))
  | .subtract => .ok (.number (h.toNumber left - h.toNumber right))
  | .multiply => .ok (.number (h.toNumber left * h.toNumber right))
  | .divide => .ok (.number (h.toNumber left / h.toNumber right))
  | .remainder => .ok (.number (Number.remainder (h.toNumber left) (h.toNumber right)))
  | .less => .ok (.boolean (h.toNumber left < h.toNumber right))
  | .lessEqual => .ok (.boolean (h.toNumber left ≤ h.toNumber right))
  | .greater => .ok (.boolean (h.toNumber right < h.toNumber left))
  | .greaterEqual => .ok (.boolean (h.toNumber right ≤ h.toNumber left))
  | .same => .ok (.boolean (isSame left right))
  | .notSame => .ok (.boolean (!isSame left right))
  | .equal => .ok (.boolean (h.isEqual left right))
  | .notEqual => .ok (.boolean (!h.isEqual left right))
  | .both => .ok (if left.isTruthy then right else left)
  | .either => .ok (if left.isTruthy then left else right)
  | .power | .bitAnd | .bitOr | .bitXor | .shiftLeft | .shiftRight | .shiftRightZero | .member
  | .instanceOf => .error (.unsupportedOperator op.symbol)

/-- The value of a unary operator on a value. -/
def unary (h : Heap) (op : UnaryOp) (operand : Value) : Except Cause Value :=
  match op with
  | .negate => .ok (.number (-h.toNumber operand))
  | .plus => .ok (.number (h.toNumber operand))
  | .not => .ok (.boolean !operand.isTruthy)
  | .bitNot | .typeOf | .void | .delete => .error (.unsupportedOperator op.symbol)

/-- The value that a step writes. -/
def step (h : Heap) (op : UpdateOp) (old : Value) : Value :=
  match op with
  | .increment => .number (h.toNumber old + 1.0)
  | .decrement => .number (h.toNumber old - 1.0)

/-- The slot of an array that an index value addresses. -/
def resolveIndex (h : Heap) (index : Value) (array : String) (length : Nat) : Except Cause Nat :=
  match h.slot? index length with
  | some slot => .ok slot
  | none => .error (.indexOutOfBounds array (h.toNumber index) length)

end Heap

end ScriptTrace
