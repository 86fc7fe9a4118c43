import WithScope.Syntax.Tree

/-!
# Where the nodes of a tree stand
-/

namespace WithScope

/-- Where a template stands. -/
def Template.loc : Template → Span
  | .mk loc _ _ => loc

/-- Where a function stands. -/
def Func.loc : Func → Span
  | .mk loc _ _ _ _ _ => loc

/-- Where a class stands. -/
def Class.loc : Class → Span
  | .mk loc _ _ _ _ => loc

/-- Where a block stands. -/
def Block.loc : Block → Span
  | .mk loc _ => loc

/-- The statements of a block. -/
def Block.body : Block → List Stmt
  | .mk _ body => body

/-- Where a declaration stands. -/
def VarDecl.loc : VarDecl → Span
  | .mk loc _ _ => loc

/-- Where an expression stands. -/
def Expr.loc : Expr → Span
  | .number lit => lit.loc
  | .string lit => lit.loc
  | .template t => t.loc
  | .ident id => id.loc
  | .function f => f.loc
  | .class c => c.loc
  | .null loc | .bool loc _ | .bigInt loc _ | .regExp loc _ _ | .this loc | .super loc
  | .array loc _ | .object loc _ | .paren loc _ | .arrow loc _ _ _ | .unary loc _ _
  | .update loc _ _ _ | .binary loc _ _ _ | .logical loc _ _ _ | .conditional loc _ _ _
  | .assign loc _ _ _ | .sequence loc _ | .member loc _ _ _ | .call loc _ _ _ | .new loc _ _
  | .taggedTemplate loc _ _ | .spread loc _ | .yield loc _ _ | .await loc _ | .importCall loc _ _
  | .metaProperty loc _ _ | .privateIn loc _ _ => loc

/-- Where a pattern stands. -/
def Pat.loc : Pat → Span
  | .ident id => id.loc
  | .array loc _ | .object loc _ | .rest loc _ | .assign loc _ _ => loc
  | .expr target => target.loc

/-- Where a key stands; a computed one, where the expression inside the brackets stands. -/
def Key.loc : Key → Span
  | .ident id => id.loc
  | .privateName name => name.loc
  | .string lit => lit.loc
  | .number lit => lit.loc
  | .computed expr => expr.loc

/-- Where a module declaration stands. -/
def ModuleDecl.loc : ModuleDecl → Span
  | .importFrom loc _ _ _ | .exportNamed loc _ _ _ _ | .exportDefault loc _
  | .exportAll loc _ _ _ => loc

/-- Where a statement stands. -/
def Stmt.loc : Stmt → Span
  | .block b => b.loc
  | .varDecl d => d.loc
  | .function f => f.loc
  | .class c => c.loc
  | .module d => d.loc
  | .expr loc _ | .if loc _ _ _ | .for loc _ _ _ _ | .forIn loc _ _ _ | .forOf loc _ _ _ _
  | .while loc _ _ | .doWhile loc _ _ | .switch loc _ _ | .try loc _ _ _ | .return loc _
  | .throw loc _ | .break loc _ | .continue loc _ | .labeled loc _ _ | .debugger loc
  | .with loc _ _ | .empty loc => loc

/-- Whether an expression is an arrow function that no parentheses enclose. -/
def Expr.isArrow : Expr → Bool
  | .arrow .. => true
  | _ => false

/-- The expression inside of any number of parentheses. -/
def Expr.unparenthesized : Expr → Expr
  | .paren _ e => e.unparenthesized
  | e => e

/-- Whether an expression is a name or a member access, which can be assigned to as they are. -/
def Expr.isSimpleTarget : Expr → Bool
  | .ident _ | .member .. => true
  | _ => false

end WithScope
