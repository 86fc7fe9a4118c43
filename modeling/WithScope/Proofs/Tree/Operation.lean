import WithScope.Proofs.Tree.OffPatterns

/-!
# Properties of operations

An operation is an operator with its operands, an access, a call or a choice. Much of what can be
said of a tree is said of its operations: which operands they have, and in which order they were
put together. Such a property says nothing of other nodes (`Node.OfOperations`), so it holds of all
nodes of a tree as soon as it holds where an operation is made.

Reading an expression again as a pattern makes no operations and keeps the ones that there are, so
these properties are among those of `Node.OffPatterns`.
-/

namespace WithScope

namespace Node

/-- Whether a node is an operator with its operands, an access, a call or a choice. -/
def isOperation : Node → Bool
  | .expr (.unary ..) | .expr (.update ..) | .expr (.await ..) | .expr (.binary ..)
  | .expr (.logical ..) | .expr (.privateIn ..) | .expr (.conditional ..) | .expr (.member ..)
  | .expr (.call ..) | .expr (.new ..) | .expr (.taggedTemplate ..) => true
  | _ => false

/-- A property that says nothing of nodes other than operations, nor of the call of a bare name. -/
structure OfOperations (P : Node → Prop) : Prop where
  /-- it holds of all other nodes -/
  other : ∀ n, n.isOperation = false → P n
  /-- it holds of calls such as `async(a)` -/
  call : ∀ loc id arguments isOptional, P (.expr (.call loc (.ident id) arguments isOptional))

namespace OfOperations

variable {P : Node → Prop} (hP : OfOperations P) {n : Node}
include hP

/-- A node that is no operation has what its children have. -/
theorem intro (hn : n.isOperation = false) (h : ∀ c ∈ n.children, c.All P) : n.All P :=
  .intro (hP.other n hn) h

/-- A node that holds nothing. -/
theorem leaf (hn : n.isOperation = false) (hc : n.children = []) : n.All P :=
  hP.intro hn (by rw [hc]; exact List.forall_mem_nil _)

/-- It says nothing of patterns, which are no operations. -/
theorem offPatterns : OffPatterns P := ⟨fun _ _ => hP.other _ rfl, fun _ _ => hP.other _ rfl⟩

end OfOperations

end Node

/-! ## Operands -/

namespace Expr

/-- How tightly the operator of an operation with two operands binds, and the operand to its right. A
test for a private name counts as one with the operator `in`. -/
def operator? : Expr → Option (Nat × Expr)
  | .binary _ op _ right => some (op.precedence, right)
  | .logical _ op _ right => some (op.precedence, right)
  | .privateIn _ _ right => some (BinaryOp.in.precedence, right)
  | _ => none

/-- Whether an expression binds its parts more loosely than any operator with two operands. An arrow
function does not count. -/
def isLoose : Expr → Bool
  | .assign .. | .conditional .. | .sequence .. | .yield .. | .spread .. => true
  | _ => false

/-- An operand all of whose nodes have a property, and that no operator beside it takes apart. -/
structure Whole (P : Node → Prop) (e : Expr) : Prop where
  all : (Node.expr e).All P
  isLoose : e.isLoose = false
  operator? : e.operator? = none

end Expr

end WithScope
