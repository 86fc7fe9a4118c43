import WithScope.Syntax.Leaf
import WithScope.Syntax.Operator

/-!
# The tree of a program

Expressions, patterns and statements, each with the span of text it was read from.

A pattern is what a declaration binds or an assignment writes to. `Pat.expr` is a target that binds
no name, such as `a.b`: an assignment may hold one, a declaration must not, and the type does not
keep them apart because both are read from the same text.
-/

namespace WithScope

mutual

/-- An expression. -/
inductive Expr
  | null (loc : Span)
  | bool (loc : Span) (value : Bool)
  | number (lit : NumberLit)
  | string (lit : StringLit)
  | bigInt (loc : Span) (digits : String)
  | regExp (loc : Span) (body flags : String)
  | template (t : Template)
  | ident (id : Ident)
  | this (loc : Span)
  | super (loc : Span)
  /-- an array literal; `none` is an element left out -/
  | array (loc : Span) (elements : List (Option Expr))
  | object (loc : Span) (properties : List Property)
  | paren (loc : Span) (expr : Expr)
  | function (f : Func)
  | arrow (loc : Span) (isAsync : Bool) (params : List Pat) (body : ArrowBody)
  | class (c : Class)
  | unary (loc : Span) (op : UnaryOp) (argument : Expr)
  /-- either `++` or `--`, before its operand or after it -/
  | update (loc : Span) (op : UpdateOp) (isBefore : Bool) (argument : Expr)
  | binary (loc : Span) (op : BinaryOp) (left right : Expr)
  | logical (loc : Span) (op : LogicalOp) (left right : Expr)
  | conditional (loc : Span) (test consequent alternate : Expr)
  | assign (loc : Span) (op : AssignOp) (left : Pat) (right : Expr)
  /-- expressions separated by commas -/
  | sequence (loc : Span) (expressions : List Expr)
  | member (loc : Span) (object : Expr) (property : MemberName) (isOptional : Bool)
  | call (loc : Span) (callee : Expr) (arguments : List Expr) (isOptional : Bool)
  | new (loc : Span) (callee : Expr) (arguments : List Expr)
  | taggedTemplate (loc : Span) (tag : Expr) (quasi : Template)
  /-- an `...argument` in an array literal or an argument list -/
  | spread (loc : Span) (argument : Expr)
  | yield (loc : Span) (delegate : Bool) (argument : Option Expr)
  | await (loc : Span) (argument : Expr)
  /-- the call `import(source, options)` -/
  | importCall (loc : Span) (source : Expr) (options : Option Expr)
  /-- either `new.target` or `import.meta` -/
  | metaProperty (loc : Span) (object property : Ident)
  /-- the test `#name in right` -/
  | privateIn (loc : Span) (name : PrivateName) (right : Expr)

/-- A template literal: its stretches of text with an expression between each two of them. -/
inductive Template
  | mk (loc : Span) (quasis : List Quasi) (expressions : List Expr)

/-- What stands after the point, or in the brackets, of a member access. -/
inductive MemberName
  | ident (id : Ident)
  | privateName (name : PrivateName)
  | computed (expr : Expr)

/-- The key of a property or of a class element. -/
inductive Key
  | ident (id : Ident)
  | privateName (name : PrivateName)
  | string (lit : StringLit)
  | number (lit : NumberLit)
  | computed (expr : Expr)

/-- A property of an object literal. -/
inductive Property
  | value (loc : Span) (key : Key) (value : Expr)
  /-- a key that is the value as well -/
  | shorthand (loc : Span) (key : Key)
  | method (loc : Span) (kind : MethodKind) (key : Key) (value : Func)
  | spread (loc : Span) (argument : Expr)

/-- A function with a body in braces, whether declared, an expression or a method. -/
inductive Func
  | mk (loc : Span) (id : Option Ident) (isAsync isGenerator : Bool) (params : List Pat)
      (body : Block)

/-- The body of an arrow function. -/
inductive ArrowBody
  | block (body : Block)
  | expr (value : Expr)

/-- A class, whether declared or an expression. -/
inductive Class
  | mk (loc : Span) (id : Option Ident) (superClass : Option Expr) (bodyLoc : Span)
      (members : List Member)

/-- An element of a class. -/
inductive Member
  | method (loc : Span) (isStatic : Bool) (kind : MethodKind) (key : Key) (value : Func)
  | field (loc : Span) (isStatic : Bool) (key : Key) (value : Option Expr)
  | staticBlock (loc : Span) (body : List Stmt)

/-- A pattern. -/
inductive Pat
  | ident (id : Ident)
  /-- an array pattern; `none` is an element left out -/
  | array (loc : Span) (elements : List (Option Pat))
  | object (loc : Span) (properties : List PatProperty)
  | rest (loc : Span) (argument : Pat)
  /-- a pattern with a default value -/
  | assign (loc : Span) (left : Pat) (right : Expr)
  /-- a target that binds no name -/
  | expr (target : Expr)

/-- A property of an object pattern. -/
inductive PatProperty
  | keyValue (loc : Span) (key : Key) (value : Pat)
  /-- a name that is both key and target, with an optional default value -/
  | shorthand (loc : Span) (id : Ident) (value : Option Expr)
  | rest (loc : Span) (argument : Pat)

/-- Statements in braces. -/
inductive Block
  | mk (loc : Span) (body : List Stmt)

/-- A variable declaration. -/
inductive VarDecl
  | mk (loc : Span) (kind : VarKind) (declarators : List Declarator)

/-- One pattern of a variable declaration and its initial value. -/
inductive Declarator
  | mk (loc : Span) (id : Pat) (value : Option Expr)

/-- What a `for` loop with semicolons begins with. -/
inductive ForInit
  | decl (d : VarDecl)
  | expr (e : Expr)

/-- What a `for` loop over values assigns to. -/
inductive ForTarget
  | decl (d : VarDecl)
  | pat (p : Pat)

/-- A clause of a `switch`; the one without test is `default`. -/
inductive SwitchCase
  | mk (loc : Span) (test : Option Expr) (consequent : List Stmt)

/-- The `catch` clause of a `try`. -/
inductive CatchClause
  | mk (loc : Span) (param : Option Pat) (body : Block)

/-- What `export default` exports. -/
inductive DefaultExport
  | function (f : Func)
  | class (c : Class)
  | expr (e : Expr)

/-- An import or export. -/
inductive ModuleDecl
  | importFrom (loc : Span) (specifiers : List ImportSpecifier) (source : StringLit)
      (attributes : List ImportAttribute)
  /-- an export list, with the module that is exported from, or a declaration that is exported -/
  | exportNamed (loc : Span) (specifiers : List ExportSpecifier) (source : Option StringLit)
      (declaration : Option Stmt) (attributes : List ImportAttribute)
  | exportDefault (loc : Span) (value : DefaultExport)
  | exportAll (loc : Span) (exported : Option ModuleName) (source : StringLit)
      (attributes : List ImportAttribute)

/-- A statement. -/
inductive Stmt
  | block (b : Block)
  | varDecl (d : VarDecl)
  | function (f : Func)
  | class (c : Class)
  | expr (loc : Span) (e : Expr)
  | if (loc : Span) (test : Expr) (consequent : Stmt) (alternate : Option Stmt)
  | for (loc : Span) (init : Option ForInit) (test update : Option Expr) (body : Stmt)
  | forIn (loc : Span) (left : ForTarget) (right : Expr) (body : Stmt)
  | forOf (loc : Span) (isAwait : Bool) (left : ForTarget) (right : Expr) (body : Stmt)
  | while (loc : Span) (test : Expr) (body : Stmt)
  | doWhile (loc : Span) (body : Stmt) (test : Expr)
  | switch (loc : Span) (discriminant : Expr) (cases : List SwitchCase)
  | try (loc : Span) (block : Block) (handler : Option CatchClause) (finalizer : Option Block)
  | return (loc : Span) (argument : Option Expr)
  | throw (loc : Span) (argument : Expr)
  | break (loc : Span) (label : Option Ident)
  | continue (loc : Span) (label : Option Ident)
  | labeled (loc : Span) (label : Ident) (body : Stmt)
  | debugger (loc : Span)
  | with (loc : Span) (object : Expr) (body : Stmt)
  | empty (loc : Span)
  | module (d : ModuleDecl)

end

/-- A whole text, read as a script or as a module. -/
structure Program where
  /-- from the first token to the end of the text -/
  loc : Span
  /-- what it was read as -/
  sourceType : SourceType
  /-- its statements -/
  body : List Stmt

end WithScope
