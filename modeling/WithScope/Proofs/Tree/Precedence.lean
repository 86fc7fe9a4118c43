import WithScope.Grammar.Operation
import WithScope.Proofs.Tree.Operation

/-!
# Operators and their operands

How tightly an operator binds decides which operators may stand in its operands without parentheses.
To the right of an operator stand tighter ones, and to its left ones that are as tight at least;
`**` is the other way round, with itself to its right and no operator to its left. An operand that
ends with an arrow function is left out of this: the function reaches as far as it can, and what
follows it is no part of it.

* `InfixOp.Joins` — what two operands an operator may have;
* `Node.Joined` — that, and where an arrow function is no operand;
* `Node.joined_ofOperations` — only operations have operands.
-/

namespace WithScope

namespace Expr

/-- An operand to the right of an operator: all operators in it bind more tightly than `floor`. -/
structure TighterThan (floor : Nat) (e : Expr) : Prop where
  isLoose : e.isLoose = false
  operator? : ∀ q right, e.operator? = some (q, right) → floor < q

end Expr

/-- The operands that an operator may have. -/
structure InfixOp.Joins (op : InfixOp) (left right : Expr) : Prop where
  /-- to the right the operators bind more tightly, or are `**` as well -/
  right_tighter : ∀ q last, right.operator? = some (q, last) →
    if op = .binary .exp then BinaryOp.exp.precedence ≤ q else op.precedence < q
  /-- to the left they bind as tightly at least, unless an arrow function has ended them -/
  left_as_tight : ∀ q last, left.operator? = some (q, last) → last.isArrow = false →
    op.precedence ≤ q ∧ op ≠ .binary .exp
  /-- the operand to the left of `**` has no operator before it -/
  left_isUnary : op = .binary .exp → left.isUnary = false
  left_isLoose : left.isLoose = false
  right_isLoose : right.isLoose = false
  /-- an arrow function has no operator after it -/
  left_isArrow : left.isArrow = false

/-- What stands right of an operator that is read with its `rightFloor`. -/
theorem InfixOp.right_tighter {op : InfixOp} {right : Expr} (h : right.TighterThan op.rightFloor)
    (q : Nat) (last : Expr) (hq : right.operator? = some (q, last)) :
    if op = .binary .exp then BinaryOp.exp.precedence ≤ q else op.precedence < q := by
  have hfloor := h.operator? q last hq
  unfold InfixOp.rightFloor at hfloor
  split at hfloor
  case isTrue hop =>
    rw [if_pos hop]
    subst hop
    exact hfloor
  case isFalse hop =>
    rw [if_neg hop]
    exact hfloor

/-- Operators that come after an operand read with the `rightFloor` of an operator. -/
theorem InfixOp.next_looser {op next : InfixOp} (h : next.precedence ≤ op.rightFloor) :
    next.precedence ≤ op.precedence ∧ next ≠ .binary .exp := by
  have hle : op.rightFloor ≤ op.precedence := by
    unfold InfixOp.rightFloor
    split <;> omega
  refine ⟨Nat.le_trans h hle, fun hnext => ?_⟩
  subst hnext
  revert h
  cases op with
  | binary op => cases op <;> decide
  | logical op => cases op <;> decide

namespace Node

/-- What a node asks of its operands. An arrow function is not what comes before an operator, what is
chosen by, updated or called, nor what an optional access belongs to. It can be what comes after an
operator, what `new` calls, a tag, and what a plain member access belongs to. -/
def Joined : Node → Prop
  | .expr (.binary _ op left right) => (InfixOp.binary op).Joins left right
  | .expr (.logical _ op left right) => (InfixOp.logical op).Joins left right
  | .expr (.privateIn _ _ right) => right.TighterThan BinaryOp.in.precedence
  | .expr (.conditional _ test _ _) => test.isArrow = false
  | .expr (.update _ _ _ argument) => argument.unparenthesized.isSimpleTarget
  | .expr (.call _ callee _ _) => callee.isArrow = false
  | .expr (.member _ object _ isOptional) => isOptional = true → object.isArrow = false
  | _ => True

theorem joined_ofOperations : OfOperations Joined where
  call _ _ _ _ := rfl
  other n hn := by
    cases n
    case expr e => cases e <;> trivial
    all_goals trivial

end Node

end WithScope
