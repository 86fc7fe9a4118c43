/-!
# Operators
-/

namespace WithScope

/-- The operators before an operand. -/
inductive UnaryOp
  | minus | plus | not | bitNot | typeof | void | delete
deriving DecidableEq, Repr

/-- The operators that change what they are applied to. -/
inductive UpdateOp
  | increment | decrement
deriving DecidableEq, Repr

/-- The operators between two operands that are both evaluated. -/
inductive BinaryOp
  | eq | notEq | strictEq | strictNotEq
  | lt | ltEq | gt | gtEq
  | shl | shr | uShr
  | add | sub | mul | div | rem | exp
  | bitOr | bitXor | bitAnd
  | in | instanceof
deriving DecidableEq, Repr

/-- The operators between two operands of which the second may not be evaluated. -/
inductive LogicalOp
  | and | or | nullishCoalesce
deriving DecidableEq, Repr

/-- The operators of assignments. -/
inductive AssignOp
  | assign
  | addAssign | subAssign | mulAssign | divAssign | remAssign | expAssign
  | shlAssign | shrAssign | uShrAssign
  | bitOrAssign | bitXorAssign | bitAndAssign
  | logicalAndAssign | logicalOrAssign | nullishAssign
deriving DecidableEq, Repr

/-- An operator between two operands, of either sort. -/
inductive InfixOp
  | binary (op : BinaryOp)
  | logical (op : LogicalOp)
deriving DecidableEq, Repr

/-- How tightly a binary operator binds its operands. -/
def BinaryOp.precedence : BinaryOp → Nat
  | .bitOr => 4
  | .bitXor => 5
  | .bitAnd => 6
  | .eq | .notEq | .strictEq | .strictNotEq => 7
  | .lt | .ltEq | .gt | .gtEq | .in | .instanceof => 8
  | .shl | .shr | .uShr => 9
  | .add | .sub => 10
  | .mul | .div | .rem => 11
  | .exp => 12

/-- How tightly a logical operator binds its operands. -/
def LogicalOp.precedence : LogicalOp → Nat
  | .nullishCoalesce => 1
  | .or => 2
  | .and => 3

/-- How tightly an operator binds its operands. -/
def InfixOp.precedence : InfixOp → Nat
  | .binary op => op.precedence
  | .logical op => op.precedence

end WithScope
