import WithScope.Proofs.Text.Alignment
import WithScope.Syntax.Cover
import WithScope.Token.Basic

/-!
# Trees at other places

The same text at another place is read as the same tree at another place. `relocated f` moves every
place in a tree, a token or an error to where `f` says. What reads trees does not look at places,
with one exception: a default value in an object literal is told from a property by the places of
two names (`coverDefault?`), so a move must not bring different places together.
-/

namespace WithScope

/-- What holds places that can be moved. -/
class Relocatable (α : Type) where
  /-- moves all places in something -/
  relocated (f : Position → Position) : α → α

open Relocatable (relocated)

section

variable (f : Position → Position)

instance : Relocatable Position := ⟨id⟩
instance : Relocatable Span := ⟨fun f s => ⟨f s.start, f s.stop⟩⟩
instance : Relocatable Unit := ⟨fun _ => id⟩
instance : Relocatable Bool := ⟨fun _ => id⟩
instance : Relocatable TokenKind := ⟨fun _ => id⟩
instance : Relocatable VarKind := ⟨fun _ => id⟩

instance {α : Type} [Relocatable α] : Relocatable (Option α) := ⟨fun f => Option.map (relocated f)⟩
instance {α : Type} [Relocatable α] : Relocatable (List α) := ⟨fun f => List.map (relocated f)⟩

instance {α β : Type} [Relocatable α] [Relocatable β] : Relocatable (α × β) :=
  ⟨fun f => Prod.map (relocated f) (relocated f)⟩

instance {α β : Type} [Relocatable α] [Relocatable β] : Relocatable (α ⊕ β) :=
  ⟨fun f => Sum.map (relocated f) (relocated f)⟩

instance : Relocatable SyntaxError := ⟨fun f e => ⟨e.cause, f e.position⟩⟩

instance {α : Type} [Relocatable α] : Relocatable (Except SyntaxError α) :=
  ⟨fun f => fun
    | .ok a => .ok (relocated f a)
    | .error e => .error (relocated f e)⟩

instance : Relocatable Token := ⟨fun f t => { t with span := relocated f t.span }⟩
instance : Relocatable Ident := ⟨fun f id => { id with loc := relocated f id.loc }⟩
instance : Relocatable PrivateName := ⟨fun f name => { name with loc := relocated f name.loc }⟩
instance : Relocatable StringLit := ⟨fun f lit => { lit with loc := relocated f lit.loc }⟩
instance : Relocatable NumberLit := ⟨fun f lit => { lit with loc := relocated f lit.loc }⟩
instance : Relocatable Quasi := ⟨fun f quasi => { quasi with loc := relocated f quasi.loc }⟩

instance : Relocatable ModuleName :=
  ⟨fun f => fun
    | .ident id => .ident (relocated f id)
    | .string lit => .string (relocated f lit)⟩

instance : Relocatable ImportSpecifier :=
  ⟨fun f => fun
    | .named loc imported localName =>
      .named (relocated f loc) (relocated f imported) (relocated f localName)
    | .default loc localName => .default (relocated f loc) (relocated f localName)
    | .namespace loc localName => .namespace (relocated f loc) (relocated f localName)⟩

instance : Relocatable ExportSpecifier :=
  ⟨fun f s => ⟨relocated f s.loc, relocated f s.localName, relocated f s.exported⟩⟩

instance : Relocatable ImportAttribute :=
  ⟨fun f a => ⟨relocated f a.loc, relocated f a.key, relocated f a.value⟩⟩

end

/-! ## Trees -/

mutual

/-- An expression with its places moved. -/
def Expr.relocated (f : Position → Position) : Expr → Expr
  | .null loc => .null (Relocatable.relocated f loc)
  | .bool loc value => .bool (Relocatable.relocated f loc) value
  | .number lit => .number (Relocatable.relocated f lit)
  | .string lit => .string (Relocatable.relocated f lit)
  | .bigInt loc digits => .bigInt (Relocatable.relocated f loc) digits
  | .regExp loc body flags => .regExp (Relocatable.relocated f loc) body flags
  | .template t => .template (t.relocated f)
  | .ident id => .ident (Relocatable.relocated f id)
  | .this loc => .this (Relocatable.relocated f loc)
  | .super loc => .super (Relocatable.relocated f loc)
  | .array loc elements => .array (Relocatable.relocated f loc) (relocatedElements f elements)
  | .object loc properties =>
    .object (Relocatable.relocated f loc) (relocatedProperties f properties)
  | .paren loc e => .paren (Relocatable.relocated f loc) (e.relocated f)
  | .function func => .function (func.relocated f)
  | .arrow loc isAsync params body =>
    .arrow (Relocatable.relocated f loc) isAsync (relocatedPats f params) (body.relocated f)
  | .class c => .class (c.relocated f)
  | .unary loc op argument => .unary (Relocatable.relocated f loc) op (argument.relocated f)
  | .update loc op isBefore argument =>
    .update (Relocatable.relocated f loc) op isBefore (argument.relocated f)
  | .binary loc op left right =>
    .binary (Relocatable.relocated f loc) op (left.relocated f) (right.relocated f)
  | .logical loc op left right =>
    .logical (Relocatable.relocated f loc) op (left.relocated f) (right.relocated f)
  | .conditional loc test consequent alternate =>
    .conditional (Relocatable.relocated f loc) (test.relocated f) (consequent.relocated f)
      (alternate.relocated f)
  | .assign loc op left right =>
    .assign (Relocatable.relocated f loc) op (left.relocated f) (right.relocated f)
  | .sequence loc items => .sequence (Relocatable.relocated f loc) (relocatedExprs f items)
  | .member loc object property isOptional =>
    .member (Relocatable.relocated f loc) (object.relocated f) (property.relocated f) isOptional
  | .call loc callee arguments isOptional =>
    .call (Relocatable.relocated f loc) (callee.relocated f) (relocatedExprs f arguments) isOptional
  | .new loc callee arguments =>
    .new (Relocatable.relocated f loc) (callee.relocated f) (relocatedExprs f arguments)
  | .taggedTemplate loc tag quasi =>
    .taggedTemplate (Relocatable.relocated f loc) (tag.relocated f) (quasi.relocated f)
  | .spread loc argument => .spread (Relocatable.relocated f loc) (argument.relocated f)
  | .yield loc delegate argument =>
    .yield (Relocatable.relocated f loc) delegate (relocatedOption f argument)
  | .await loc argument => .await (Relocatable.relocated f loc) (argument.relocated f)
  | .importCall loc source options =>
    .importCall (Relocatable.relocated f loc) (source.relocated f) (relocatedOption f options)
  | .metaProperty loc object property =>
    .metaProperty (Relocatable.relocated f loc) (Relocatable.relocated f object)
      (Relocatable.relocated f property)
  | .privateIn loc name right =>
    .privateIn (Relocatable.relocated f loc) (Relocatable.relocated f name) (right.relocated f)

/-- An expression that may be left out, with its places moved. -/
def relocatedOption (f : Position → Position) : Option Expr → Option Expr
  | none => none
  | some e => some (e.relocated f)

/-- Expressions with their places moved. -/
def relocatedExprs (f : Position → Position) : List Expr → List Expr
  | [] => []
  | e :: items => e.relocated f :: relocatedExprs f items

/-- The elements of an array literal with their places moved. -/
def relocatedElements (f : Position → Position) : List (Option Expr) → List (Option Expr)
  | [] => []
  | e :: elements => relocatedOption f e :: relocatedElements f elements

/-- A template with its places moved. -/
def Template.relocated (f : Position → Position) : Template → Template
  | .mk loc quasis items =>
    .mk (Relocatable.relocated f loc) (Relocatable.relocated f quasis) (relocatedExprs f items)

/-- What stands after a member access, with its places moved. -/
def MemberName.relocated (f : Position → Position) : MemberName → MemberName
  | .ident id => .ident (Relocatable.relocated f id)
  | .privateName name => .privateName (Relocatable.relocated f name)
  | .computed e => .computed (e.relocated f)

/-- A key with its places moved. -/
def Key.relocated (f : Position → Position) : Key → Key
  | .ident id => .ident (Relocatable.relocated f id)
  | .privateName name => .privateName (Relocatable.relocated f name)
  | .string lit => .string (Relocatable.relocated f lit)
  | .number lit => .number (Relocatable.relocated f lit)
  | .computed e => .computed (e.relocated f)

/-- Properties of an object literal with their places moved. -/
def relocatedProperties (f : Position → Position) : List Property → List Property
  | [] => []
  | p :: properties => p.relocated f :: relocatedProperties f properties

/-- A property of an object literal with its places moved. -/
def Property.relocated (f : Position → Position) : Property → Property
  | .value loc key value =>
    .value (Relocatable.relocated f loc) (key.relocated f) (value.relocated f)
  | .shorthand loc key => .shorthand (Relocatable.relocated f loc) (key.relocated f)
  | .method loc kind key value =>
    .method (Relocatable.relocated f loc) kind (key.relocated f) (value.relocated f)
  | .spread loc argument => .spread (Relocatable.relocated f loc) (argument.relocated f)

/-- A function with its places moved. -/
def Func.relocated (f : Position → Position) : Func → Func
  | .mk loc id isAsync isGenerator params body =>
    .mk (Relocatable.relocated f loc) (Relocatable.relocated f id) isAsync isGenerator
      (relocatedPats f params) (body.relocated f)

/-- The body of an arrow function with its places moved. -/
def ArrowBody.relocated (f : Position → Position) : ArrowBody → ArrowBody
  | .block body => .block (body.relocated f)
  | .expr value => .expr (value.relocated f)

/-- A class with its places moved. -/
def Class.relocated (f : Position → Position) : Class → Class
  | .mk loc id superClass bodyLoc members =>
    .mk (Relocatable.relocated f loc) (Relocatable.relocated f id) (relocatedOption f superClass)
      (Relocatable.relocated f bodyLoc) (relocatedMembers f members)

/-- The elements of a class with their places moved. -/
def relocatedMembers (f : Position → Position) : List Member → List Member
  | [] => []
  | m :: members => m.relocated f :: relocatedMembers f members

/-- An element of a class with its places moved. -/
def Member.relocated (f : Position → Position) : Member → Member
  | .method loc isStatic kind key value =>
    .method (Relocatable.relocated f loc) isStatic kind (key.relocated f) (value.relocated f)
  | .field loc isStatic key value =>
    .field (Relocatable.relocated f loc) isStatic (key.relocated f) (relocatedOption f value)
  | .staticBlock loc body => .staticBlock (Relocatable.relocated f loc) (relocatedStmts f body)

/-- A pattern with its places moved. -/
def Pat.relocated (f : Position → Position) : Pat → Pat
  | .ident id => .ident (Relocatable.relocated f id)
  | .array loc elements => .array (Relocatable.relocated f loc) (relocatedPatElements f elements)
  | .object loc properties =>
    .object (Relocatable.relocated f loc) (relocatedPatProperties f properties)
  | .rest loc argument => .rest (Relocatable.relocated f loc) (argument.relocated f)
  | .assign loc left right =>
    .assign (Relocatable.relocated f loc) (left.relocated f) (right.relocated f)
  | .expr target => .expr (target.relocated f)

/-- Patterns with their places moved. -/
def relocatedPats (f : Position → Position) : List Pat → List Pat
  | [] => []
  | p :: params => p.relocated f :: relocatedPats f params

/-- The elements of an array pattern with their places moved. -/
def relocatedPatElements (f : Position → Position) : List (Option Pat) → List (Option Pat)
  | [] => []
  | none :: elements => none :: relocatedPatElements f elements
  | some p :: elements => some (p.relocated f) :: relocatedPatElements f elements

/-- The properties of an object pattern with their places moved. -/
def relocatedPatProperties (f : Position → Position) : List PatProperty → List PatProperty
  | [] => []
  | p :: properties => p.relocated f :: relocatedPatProperties f properties

/-- A property of an object pattern with its places moved. -/
def PatProperty.relocated (f : Position → Position) : PatProperty → PatProperty
  | .keyValue loc key value =>
    .keyValue (Relocatable.relocated f loc) (key.relocated f) (value.relocated f)
  | .shorthand loc id value =>
    .shorthand (Relocatable.relocated f loc) (Relocatable.relocated f id) (relocatedOption f value)
  | .rest loc argument => .rest (Relocatable.relocated f loc) (argument.relocated f)

/-- Statements in braces with their places moved. -/
def Block.relocated (f : Position → Position) : Block → Block
  | .mk loc body => .mk (Relocatable.relocated f loc) (relocatedStmts f body)

/-- A variable declaration with its places moved. -/
def VarDecl.relocated (f : Position → Position) : VarDecl → VarDecl
  | .mk loc kind declarators =>
    .mk (Relocatable.relocated f loc) kind (relocatedDeclarators f declarators)

/-- Declared patterns with their places moved. -/
def relocatedDeclarators (f : Position → Position) : List Declarator → List Declarator
  | [] => []
  | d :: declarators => d.relocated f :: relocatedDeclarators f declarators

/-- A declared pattern and its initial value with their places moved. -/
def Declarator.relocated (f : Position → Position) : Declarator → Declarator
  | .mk loc id value =>
    .mk (Relocatable.relocated f loc) (id.relocated f) (relocatedOption f value)

/-- What a `for` loop begins with, with its places moved. -/
def ForInit.relocated (f : Position → Position) : ForInit → ForInit
  | .decl d => .decl (d.relocated f)
  | .expr e => .expr (e.relocated f)

/-- What a loop over values assigns to, with its places moved. -/
def ForTarget.relocated (f : Position → Position) : ForTarget → ForTarget
  | .decl d => .decl (d.relocated f)
  | .pat p => .pat (p.relocated f)

/-- A clause of a `switch` with its places moved. -/
def SwitchCase.relocated (f : Position → Position) : SwitchCase → SwitchCase
  | .mk loc test consequent =>
    .mk (Relocatable.relocated f loc) (relocatedOption f test) (relocatedStmts f consequent)

/-- The clauses of a `switch` with their places moved. -/
def relocatedCases (f : Position → Position) : List SwitchCase → List SwitchCase
  | [] => []
  | c :: cases => c.relocated f :: relocatedCases f cases

/-- A `catch` clause with its places moved. -/
def CatchClause.relocated (f : Position → Position) : CatchClause → CatchClause
  | .mk loc none body => .mk (Relocatable.relocated f loc) none (body.relocated f)
  | .mk loc (some param) body =>
    .mk (Relocatable.relocated f loc) (some (param.relocated f)) (body.relocated f)

/-- What is exported by default, with its places moved. -/
def DefaultExport.relocated (f : Position → Position) : DefaultExport → DefaultExport
  | .function func => .function (func.relocated f)
  | .class c => .class (c.relocated f)
  | .expr e => .expr (e.relocated f)

/-- An import or export with its places moved. -/
def ModuleDecl.relocated (f : Position → Position) : ModuleDecl → ModuleDecl
  | .importFrom loc specifiers source attributes =>
    .importFrom (Relocatable.relocated f loc) (Relocatable.relocated f specifiers)
      (Relocatable.relocated f source) (Relocatable.relocated f attributes)
  | .exportNamed loc specifiers source declaration attributes =>
    .exportNamed (Relocatable.relocated f loc) (Relocatable.relocated f specifiers)
      (Relocatable.relocated f source) (relocatedElse f declaration)
      (Relocatable.relocated f attributes)
  | .exportDefault loc value => .exportDefault (Relocatable.relocated f loc) (value.relocated f)
  | .exportAll loc exported source attributes =>
    .exportAll (Relocatable.relocated f loc) (Relocatable.relocated f exported)
      (Relocatable.relocated f source) (Relocatable.relocated f attributes)

/-- Statements with their places moved. -/
def relocatedStmts (f : Position → Position) : List Stmt → List Stmt
  | [] => []
  | s :: body => s.relocated f :: relocatedStmts f body

/-- A statement that may be left out, with its places moved. -/
def relocatedElse (f : Position → Position) : Option Stmt → Option Stmt
  | none => none
  | some s => some (s.relocated f)

/-- What a `for` loop may begin with, with its places moved. -/
def relocatedInit (f : Position → Position) : Option ForInit → Option ForInit
  | none => none
  | some init => some (init.relocated f)

/-- A `catch` clause that may be left out, with its places moved. -/
def relocatedCatch (f : Position → Position) : Option CatchClause → Option CatchClause
  | none => none
  | some c => some (c.relocated f)

/-- A block that may be left out, with its places moved. -/
def relocatedFinally (f : Position → Position) : Option Block → Option Block
  | none => none
  | some b => some (b.relocated f)

/-- A statement with its places moved. -/
def Stmt.relocated (f : Position → Position) : Stmt → Stmt
  | .block b => .block (b.relocated f)
  | .varDecl d => .varDecl (d.relocated f)
  | .function func => .function (func.relocated f)
  | .class c => .class (c.relocated f)
  | .expr loc e => .expr (Relocatable.relocated f loc) (e.relocated f)
  | .if loc test consequent alternate =>
    .if (Relocatable.relocated f loc) (test.relocated f) (consequent.relocated f)
      (relocatedElse f alternate)
  | .for loc init test update body =>
    .for (Relocatable.relocated f loc) (relocatedInit f init) (relocatedOption f test)
      (relocatedOption f update) (body.relocated f)
  | .forIn loc left right body =>
    .forIn (Relocatable.relocated f loc) (left.relocated f) (right.relocated f) (body.relocated f)
  | .forOf loc isAwait left right body =>
    .forOf (Relocatable.relocated f loc) isAwait (left.relocated f) (right.relocated f)
      (body.relocated f)
  | .while loc test body =>
    .while (Relocatable.relocated f loc) (test.relocated f) (body.relocated f)
  | .doWhile loc body test =>
    .doWhile (Relocatable.relocated f loc) (body.relocated f) (test.relocated f)
  | .switch loc discriminant cases =>
    .switch (Relocatable.relocated f loc) (discriminant.relocated f) (relocatedCases f cases)
  | .try loc block handler finalizer =>
    .try (Relocatable.relocated f loc) (block.relocated f) (relocatedCatch f handler)
      (relocatedFinally f finalizer)
  | .return loc argument => .return (Relocatable.relocated f loc) (relocatedOption f argument)
  | .throw loc argument => .throw (Relocatable.relocated f loc) (argument.relocated f)
  | .break loc label => .break (Relocatable.relocated f loc) (Relocatable.relocated f label)
  | .continue loc label => .continue (Relocatable.relocated f loc) (Relocatable.relocated f label)
  | .labeled loc label body =>
    .labeled (Relocatable.relocated f loc) (Relocatable.relocated f label) (body.relocated f)
  | .debugger loc => .debugger (Relocatable.relocated f loc)
  | .with loc object body =>
    .with (Relocatable.relocated f loc) (object.relocated f) (body.relocated f)
  | .empty loc => .empty (Relocatable.relocated f loc)
  | .module d => .module (d.relocated f)

end

instance : Relocatable Expr := ⟨Expr.relocated⟩
instance : Relocatable Template := ⟨Template.relocated⟩
instance : Relocatable MemberName := ⟨MemberName.relocated⟩
instance : Relocatable Key := ⟨Key.relocated⟩
instance : Relocatable Property := ⟨Property.relocated⟩
instance : Relocatable Func := ⟨Func.relocated⟩
instance : Relocatable ArrowBody := ⟨ArrowBody.relocated⟩
instance : Relocatable Class := ⟨Class.relocated⟩
instance : Relocatable Member := ⟨Member.relocated⟩
instance : Relocatable Pat := ⟨Pat.relocated⟩
instance : Relocatable PatProperty := ⟨PatProperty.relocated⟩
instance : Relocatable Block := ⟨Block.relocated⟩
instance : Relocatable VarDecl := ⟨VarDecl.relocated⟩
instance : Relocatable Declarator := ⟨Declarator.relocated⟩
instance : Relocatable ForInit := ⟨ForInit.relocated⟩
instance : Relocatable ForTarget := ⟨ForTarget.relocated⟩
instance : Relocatable SwitchCase := ⟨SwitchCase.relocated⟩
instance : Relocatable CatchClause := ⟨CatchClause.relocated⟩
instance : Relocatable DefaultExport := ⟨DefaultExport.relocated⟩
instance : Relocatable ModuleDecl := ⟨ModuleDecl.relocated⟩
instance : Relocatable Stmt := ⟨Stmt.relocated⟩

instance : Relocatable Program :=
  ⟨fun f p => { p with loc := Relocatable.relocated f p.loc, body := relocatedStmts f p.body }⟩

/-! ## Rules for the simplifier -/

attribute [simp] Relocatable.relocated Expr.relocated Template.relocated MemberName.relocated
  Key.relocated Property.relocated Func.relocated ArrowBody.relocated Class.relocated
  Member.relocated Pat.relocated PatProperty.relocated Block.relocated VarDecl.relocated
  Declarator.relocated ForInit.relocated ForTarget.relocated SwitchCase.relocated
  CatchClause.relocated DefaultExport.relocated ModuleDecl.relocated Stmt.relocated

section

variable (f : Position → Position)

@[simp] theorem relocatedOption_eq_map (o : Option Expr) :
    relocatedOption f o = o.map (Expr.relocated f) := by
  cases o <;> rfl

@[simp] theorem relocatedElse_eq_map (o : Option Stmt) :
    relocatedElse f o = o.map (Stmt.relocated f) := by
  cases o <;> rfl

@[simp] theorem relocatedInit_eq_map (o : Option ForInit) :
    relocatedInit f o = o.map (ForInit.relocated f) := by
  cases o <;> rfl

@[simp] theorem relocatedCatch_eq_map (o : Option CatchClause) :
    relocatedCatch f o = o.map (CatchClause.relocated f) := by
  cases o <;> rfl

@[simp] theorem relocatedFinally_eq_map (o : Option Block) :
    relocatedFinally f o = o.map (Block.relocated f) := by
  cases o <;> rfl

@[simp] theorem relocatedExprs_eq_map (items : List Expr) :
    relocatedExprs f items = items.map (Expr.relocated f) := by
  induction items with
  | nil => rfl
  | cons a items ih => rw [relocatedExprs, ih, List.map_cons]

@[simp] theorem relocatedProperties_eq_map (items : List Property) :
    relocatedProperties f items = items.map (Property.relocated f) := by
  induction items with
  | nil => rfl
  | cons a items ih => rw [relocatedProperties, ih, List.map_cons]

@[simp] theorem relocatedMembers_eq_map (items : List Member) :
    relocatedMembers f items = items.map (Member.relocated f) := by
  induction items with
  | nil => rfl
  | cons a items ih => rw [relocatedMembers, ih, List.map_cons]

@[simp] theorem relocatedPats_eq_map (items : List Pat) :
    relocatedPats f items = items.map (Pat.relocated f) := by
  induction items with
  | nil => rfl
  | cons a items ih => rw [relocatedPats, ih, List.map_cons]

@[simp] theorem relocatedPatProperties_eq_map (items : List PatProperty) :
    relocatedPatProperties f items = items.map (PatProperty.relocated f) := by
  induction items with
  | nil => rfl
  | cons a items ih => rw [relocatedPatProperties, ih, List.map_cons]

@[simp] theorem relocatedDeclarators_eq_map (items : List Declarator) :
    relocatedDeclarators f items = items.map (Declarator.relocated f) := by
  induction items with
  | nil => rfl
  | cons a items ih => rw [relocatedDeclarators, ih, List.map_cons]

@[simp] theorem relocatedCases_eq_map (items : List SwitchCase) :
    relocatedCases f items = items.map (SwitchCase.relocated f) := by
  induction items with
  | nil => rfl
  | cons a items ih => rw [relocatedCases, ih, List.map_cons]

@[simp] theorem relocatedStmts_eq_map (items : List Stmt) :
    relocatedStmts f items = items.map (Stmt.relocated f) := by
  induction items with
  | nil => rfl
  | cons a items ih => rw [relocatedStmts, ih, List.map_cons]

@[simp] theorem relocatedElements_eq_map (elements : List (Option Expr)) :
    relocatedElements f elements = elements.map (Option.map (Expr.relocated f)) := by
  induction elements with
  | nil => rfl
  | cons e elements ih => rw [relocatedElements, ih, relocatedOption_eq_map, List.map_cons]

@[simp] theorem relocatedPatElements_eq_map (elements : List (Option Pat)) :
    relocatedPatElements f elements = elements.map (Option.map (Pat.relocated f)) := by
  induction elements with
  | nil => rfl
  | cons p elements ih => cases p <;> rw [relocatedPatElements, ih] <;> rfl

end

/-- What stands in the first copy of a text, where it stands in the second. -/
@[simp] abbrev Alignment.moved (Φ : Alignment) {α : Type} [Relocatable α] : α → α :=
  relocated Φ.shift

end WithScope
