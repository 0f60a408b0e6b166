/-!
# Operators

Every operator of the tree format has a constructor, whether it can be run or not, so that every
tree can be read. `isSupported` tells which of them can be run. `all` lists the operators of a
family in the order in which messages name them, and `ofSymbol?` looks one up by its symbol.
-/

namespace ScriptTrace

/-- Which of `var`, `let` and `const` a declaration is. They behave alike. -/
inductive DeclarationKind where
  | var
  | lexical
  | const
deriving DecidableEq

/-- Operators of two evaluated operands. `&&` and `||` normally stand in a `LogicalOp`; some trees
have them as plain binary operators. -/
inductive BinaryOp where
  | add
  | subtract
  | multiply
  | divide
  | remainder
  | power
  | equal
  | notEqual
  | same
  | notSame
  | less
  | lessEqual
  | greater
  | greaterEqual
  | both
  | either
  | bitAnd
  | bitOr
  | bitXor
  | shiftLeft
  | shiftRight
  | shiftRightZero
  | member
  | instanceOf
deriving DecidableEq

/-- Operators that may leave their right operand alone. -/
inductive LogicalOp where
  | and
  | or
  | coalesce
deriving DecidableEq

/-- Operators of one operand. -/
inductive UnaryOp where
  | negate
  | plus
  | not
  | bitNot
  | typeOf
  | void
  | delete
deriving DecidableEq

/-- Operators that step a variable or an array slot. -/
inductive UpdateOp where
  | increment
  | decrement
deriving DecidableEq

/-- Operators that write to a variable or an array slot. -/
inductive AssignOp where
  | assign
  | add
  | subtract
  | multiply
  | divide
  | remainder
  | power
  | shiftLeft
  | shiftRight
  | shiftRightZero
  | bitAnd
  | bitOr
  | bitXor
  | and
  | or
  | coalesce
deriving DecidableEq

namespace BinaryOp

/-- The operators of the family. -/
def all : List BinaryOp :=
  [.add, .subtract, .multiply, .divide, .remainder, .power, .equal, .notEqual, .same, .notSame,
    .less, .lessEqual, .greater, .greaterEqual, .both, .either, .bitAnd, .bitOr, .bitXor,
    .shiftLeft, .shiftRight, .shiftRightZero, .member, .instanceOf]

/-- The symbol in the source text. -/
def symbol : BinaryOp → String
  | .add => "+"
  | .subtract => "-"
  | .multiply => "*"
  | .divide => "/"
  | .remainder => "%"
  | .power => "**"
  | .equal => "=="
  | .notEqual => "!="
  | .same => "==="
  | .notSame => "!=="
  | .less => "<"
  | .lessEqual => "<="
  | .greater => ">"
  | .greaterEqual => ">="
  | .both => "&&"
  | .either => "||"
  | .bitAnd => "&"
  | .bitOr => "|"
  | .bitXor => "^"
  | .shiftLeft => "<<"
  | .shiftRight => ">>"
  | .shiftRightZero => ">>>"
  | .member => "in"
  | .instanceOf => "instanceof"

/-- The operator with a symbol. -/
def ofSymbol? (symbol : String) : Option BinaryOp := all.find? (·.symbol = symbol)

/-- Whether an operator compares its operands. -/
def isComparison : BinaryOp → Bool
  | .equal | .notEqual | .same | .notSame | .less | .lessEqual | .greater | .greaterEqual => true
  | _ => false

/-- Whether an operator can be run. -/
def isSupported : BinaryOp → Bool
  | .power | .bitAnd | .bitOr | .bitXor | .shiftLeft | .shiftRight | .shiftRightZero | .member
  | .instanceOf => false
  | _ => true

end BinaryOp

namespace LogicalOp

/-- The operators of the family. -/
def all : List LogicalOp :=
  [.and, .or, .coalesce]

/-- The symbol in the source text. -/
def symbol : LogicalOp → String
  | .and => "&&"
  | .or => "||"
  | .coalesce => "??"

/-- The operator with a symbol. -/
def ofSymbol? (symbol : String) : Option LogicalOp := all.find? (·.symbol = symbol)

/-- Whether an operator can be run. -/
def isSupported : LogicalOp → Bool
  | .and | .or => true
  | .coalesce => false

end LogicalOp

namespace UnaryOp

/-- The operators of the family. -/
def all : List UnaryOp :=
  [.negate, .plus, .not, .bitNot, .typeOf, .void, .delete]

/-- The symbol in the source text. -/
def symbol : UnaryOp → String
  | .negate => "-"
  | .plus => "+"
  | .not => "!"
  | .bitNot => "~"
  | .typeOf => "typeof"
  | .void => "void"
  | .delete => "delete"

/-- The operator with a symbol. -/
def ofSymbol? (symbol : String) : Option UnaryOp := all.find? (·.symbol = symbol)

/-- Whether an operator can be run. -/
def isSupported : UnaryOp → Bool
  | .negate | .plus | .not => true
  | _ => false

end UnaryOp

namespace UpdateOp

/-- The operators of the family. -/
def all : List UpdateOp :=
  [.increment, .decrement]

/-- The symbol in the source text. -/
def symbol : UpdateOp → String
  | .increment => "++"
  | .decrement => "--"

/-- The operator with a symbol. -/
def ofSymbol? (symbol : String) : Option UpdateOp := all.find? (·.symbol = symbol)

end UpdateOp

namespace AssignOp

/-- The operators of the family. -/
def all : List AssignOp :=
  [.assign, .add, .subtract, .multiply, .divide, .remainder, .power, .shiftLeft, .shiftRight,
    .shiftRightZero, .bitAnd, .bitOr, .bitXor, .and, .or, .coalesce]

/-- The symbol in the source text. -/
def symbol : AssignOp → String
  | .assign => "="
  | .add => "+="
  | .subtract => "-="
  | .multiply => "*="
  | .divide => "/="
  | .remainder => "%="
  | .power => "**="
  | .shiftLeft => "<<="
  | .shiftRight => ">>="
  | .shiftRightZero => ">>>="
  | .bitAnd => "&="
  | .bitOr => "|="
  | .bitXor => "^="
  | .and => "&&="
  | .or => "||="
  | .coalesce => "??="

/-- The operator with a symbol. -/
def ofSymbol? (symbol : String) : Option AssignOp := all.find? (·.symbol = symbol)

/-- Whether an operator can be run. -/
def isSupported : AssignOp → Bool
  | .assign | .add | .subtract | .multiply | .divide | .remainder => true
  | _ => false

/-- The operator that a compound assignment applies to the old value. Plain assignment and the
assignments that may leave their right side alone have none. -/
def binary? : AssignOp → Option BinaryOp
  | .assign | .and | .or | .coalesce => none
  | .add => some .add
  | .subtract => some .subtract
  | .multiply => some .multiply
  | .divide => some .divide
  | .remainder => some .remainder
  | .power => some .power
  | .shiftLeft => some .shiftLeft
  | .shiftRight => some .shiftRight
  | .shiftRightZero => some .shiftRightZero
  | .bitAnd => some .bitAnd
  | .bitOr => some .bitOr
  | .bitXor => some .bitXor

end AssignOp

namespace DeclarationKind

/-- The kinds of declaration. -/
def all : List DeclarationKind := [.var, .lexical, .const]

/-- The word in the source text. -/
def symbol : DeclarationKind → String
  | .var => "var"
  | .lexical => "let"
  | .const => "const"

/-- The kind with a word. -/
def ofSymbol? (symbol : String) : Option DeclarationKind := all.find? (·.symbol = symbol)

end DeclarationKind

end ScriptTrace
