import ScriptTrace.Syntax.Tree

/-!
# The swap idiom

Three statements that exchange two elements of an array through a temporary, as the body of an
`if` that compares the two elements:

    if (a[i] > a[j]) { t = a[i]; a[i] = a[j]; a[j] = t; }

`SwapPlan.ofIf?` finds them from the tree alone. The two writes have to be the first plain
assignments to elements of the array in the body, one right after the other and right after the
capture; the indices are the compared ones, in either order, and neither may depend on anything
that the three statements change.
-/

namespace ScriptTrace

/-- Where a body exchanges two elements. -/
structure SwapPlan where
  array : String
  /-- The index of the element that is written first. -/
  first : Expr
  /-- The index of the element that gets the temporary. -/
  second : Expr
  /-- The position of the first write in the body; the second is the next. -/
  position : Nat
  firstLine : Option UInt32
  secondLine : Option UInt32

namespace LiteralValue

/-- Whether two literals have the same value, numbers compared as numbers. -/
def same : LiteralValue → LiteralValue → Bool
  | null, null => true
  | bool b, bool c => b == c
  | number n, number m => n == m
  | string s, string t => s == t
  | other j, other k => j.same k
  | _, _ => false

end LiteralValue

namespace Expr

/-- Whether two index expressions are equal but for their locations. Expressions that could change
something, or are no short forms of an index, are equal to none. -/
def same : Expr → Expr → Bool
  | literal value regex _, literal value' regex' _ => value.same value' && regex == regex'
  | identifier name _, identifier name' _ => name == name'
  | binary op left right _, binary op' left' right' _ =>
    op == op' && left.same left' && right.same right'
  | logical op left right _, logical op' left' right' _ =>
    op == op' && left.same left' && right.same right'
  | unary op operand _, unary op' operand' _ => op == op' && operand.same operand'
  | conditional test consequent alternate _, conditional test' consequent' alternate' _ =>
    test.same test' && consequent.same consequent' && alternate.same alternate'
  | _, _ => false

/-- Whether an expression is built from literals, names and operators alone, and mentions none of
the names in `changed`. -/
def isStable (changed : List String) : Expr → Bool
  | literal .. => true
  | identifier name _ => !changed.contains name
  | binary _ left right _ | logical _ left right _ =>
    left.isStable changed && right.isStable changed
  | unary _ operand _ => operand.isStable changed
  | conditional test consequent alternate _ =>
    test.isStable changed && consequent.isStable changed && alternate.isStable changed
  | _ => false

/-- The array and the two indices, if an expression compares two elements of one named array. -/
def comparedElements? : Expr → Option (String × Expr × Expr)
  | binary op left right _ =>
    if op.isComparison then
      match left.element?, right.element? with
      | some (name, i), some (name', j) => if name = name' then some (name, i, j) else none
      | _, _ => none
    else
      none
  | _ => none

end Expr

namespace Stmt

/-- The index and the value, if a statement is `array[index] = value;`. -/
def elementWrite? (array : String) : Stmt → Option (Expr × Expr)
  | expression (.assign .assign target value _) _ =>
    match target.element? with
    | some (name, i) => if name = array then some (i, value) else none
    | none => none
  | _ => none

/-- The array and the index, if a statement stores `array[index]`, and nothing else, in `temp`. -/
def capture? (temp : String) : Stmt → Option (String × Expr)
  | declaration ⟨_, [⟨target, some value, _⟩], _⟩ =>
    if target.name? = some temp then value.element? else none
  | expression (.assign .assign target value _) _ =>
    if target.name? = some temp then value.element? else none
  | _ => none

end Stmt

namespace SwapPlan

/-- The plan of three statements at `position - 1`, if they exchange the elements at the two
compared indices. -/
def ofStatements? (array : String) (i j : Expr) (position : Nat) (before write next : Stmt) :
    Option SwapPlan := do
  let (first, copied) ← write.elementWrite? array
  let (second, stored) ← next.elementWrite? array
  let (source, other) ← copied.element?
  let temp ← stored.name?
  let (captured, origin) ← before.capture? temp
  guard (source = array ∧ captured = array ∧ temp ≠ array)
  guard (first.same i && other.same j || first.same j && other.same i)
  guard (second.same other && origin.same first)
  guard (first.isStable [array, temp] && second.isStable [array, temp])
  return ⟨array, first, second, position, write.line, next.line⟩

/-- The plan of a body for an array and two compared indices. Its position is that of the first
plain assignment to an element of the array. -/
def ofBody? (array : String) (i j : Expr) (body : List Stmt) : Option SwapPlan :=
  let position := body.findIdx fun s ↦ (s.elementWrite? array).isSome
  match position with
  | 0 => none
  | before + 1 =>
    match body.drop before with
    | capture :: write :: next :: _ => ofStatements? array i j position capture write next
    | _ => none

/-- The plan of an `if` with a test and a consequent, if that is the idiom. -/
def ofIf? (test : Expr) (consequent : Stmt) : Option SwapPlan := do
  let (array, i, j) ← test.comparedElements?
  ofBody? array i j consequent.asBody

end SwapPlan

end ScriptTrace
