import ScriptTrace.Syntax.Tree
import ScriptTrace.Text.Quoted

/-!
# Expressions as text

How events and failures name an array that is not just a variable: by the source form of the
expression that gives it, as far as it has a short one.
-/

namespace ScriptTrace

namespace LiteralValue

/-- The text of a literal. -/
def describe : LiteralValue → String
  | null => "null"
  | bool b => if b then "true" else "false"
  | number n => n.display
  | string s => Text.quoted s
  | other _ => "Literal"

end LiteralValue

namespace Expr

/-- The source form of an expression, or its type where it has no short form. -/
def describe : Expr → String
  | identifier name _ => name
  | literal value _ _ => value.describe
  | index object i _ => object.describe ++ "[" ++ i.describe ++ "]"
  | property object name _ => object.describe ++ "." ++ name.describe
  | binary op left right _ => left.describe ++ " " ++ op.symbol ++ " " ++ right.describe
  | unary op operand _ => op.symbol ++ operand.describe
  | e => e.nodeType

end Expr

end ScriptTrace
