import WithScope.Syntax.Location
import WithScope.Text.Edit

/-!
# Returns that leave a fragment

A fragment of code may hold `return` statements that leave the function around it. Moved into a
function of its own, such a fragment has to hand on what it would have returned. `Program.unwrapped`
makes each of them return an object: `{value: (A)}` for an argument `A`, and `{}` for none. Returns
inside of nested functions and classes are left alone.
-/

namespace WithScope

/-- A `return` statement. -/
structure Return where
  /-- where it stands -/
  loc : Span
  /-- what it returns -/
  argument : Option Expr

mutual

/-- The returns in a statement that leave the fragment it belongs to. -/
def Stmt.returns : Stmt → List Return
  | .return loc argument => [⟨loc, argument⟩]
  | .block b => b.returns
  | .if _ _ consequent alternate => consequent.returns ++ elseReturns alternate
  | .for _ _ _ _ body | .forIn _ _ _ body | .forOf _ _ _ _ body | .while _ _ body
  | .doWhile _ body _ | .labeled _ _ body | .with _ _ body => body.returns
  | .switch _ _ cases => casesReturns cases
  | .try _ block handler finalizer =>
    block.returns ++ catchReturns handler ++ finallyReturns finalizer
  | .varDecl _ | .function _ | .class _ | .expr .. | .throw .. | .break .. | .continue ..
  | .debugger _ | .empty _ | .module _ => []

/-- The returns in statements. -/
def statementsReturns : List Stmt → List Return
  | [] => []
  | s :: body => s.returns ++ statementsReturns body

/-- The returns in a block. -/
def Block.returns : Block → List Return
  | .mk _ body => statementsReturns body

/-- The returns in what follows `else`. -/
def elseReturns : Option Stmt → List Return
  | none => []
  | some s => s.returns

/-- The returns in the clauses of a `switch`. -/
def casesReturns : List SwitchCase → List Return
  | [] => []
  | .mk _ _ consequent :: cases => statementsReturns consequent ++ casesReturns cases

/-- The returns in a `catch` clause. -/
def catchReturns : Option CatchClause → List Return
  | none => []
  | some (.mk _ _ body) => body.returns

/-- The returns in what follows `finally`. -/
def finallyReturns : Option Block → List Return
  | none => []
  | some b => b.returns

end

/-- How a return is written that hands its value on. -/
def Return.rewritten (source : List Char) (r : Return) : List Char :=
  match r.argument with
  | some e => "return \x7bvalue: (".toList ++ slice source e.loc ++ ")\x7d;".toList
  | none => "return \x7b\x7d;".toList

/-- A fragment whose returns hand their values on. -/
structure Unwrapped where
  /-- its text -/
  body : List Char
  /-- whether there is any return -/
  hasReturn : Bool
deriving DecidableEq, Repr

/-- What makes the returns of a fragment hand their values on. -/
def Program.edits (p : Program) (source : List Char) : List Edit :=
  (statementsReturns p.body).map fun r => ⟨r.loc, r.rewritten source⟩

/-- A fragment, given with its text, with returns that hand their values on. -/
def Program.unwrapped (p : Program) (source : List Char) : Unwrapped :=
  ⟨edited source (p.edits source), !(p.edits source).isEmpty⟩

end WithScope
