import WithScope.Proofs.Tree.Relocated

/-!
# Trees without their places

Moving the places in a tree twice is moving them once (`Relocatable.Lawful`). So a tree in which all
places are the same, `placeless a`, is the same tree wherever it has been read: two trees that differ
in nothing but their places have the same one.
-/

namespace WithScope

open Relocatable (relocated)

/-- Moving places twice is moving them once. -/
class Relocatable.Lawful (α : Type) [Relocatable α] : Prop where
  /-- one move after another -/
  relocated_relocated : ∀ (f g : Position → Position) (a : α),
    relocated g (relocated f a) = relocated (g ∘ f) a

open Relocatable.Lawful (relocated_relocated)

/-! ## Leaves -/

section

variable {α β : Type} [Relocatable α] [Relocatable β] [Relocatable.Lawful α] [Relocatable.Lawful β]

instance : Relocatable.Lawful (Option α) := ⟨fun f g a => by
  cases a with
  | none => rfl
  | some a => exact congrArg some (relocated_relocated f g a)⟩

instance : Relocatable.Lawful (List α) := ⟨fun f g as =>
  (List.map_map ..).trans (congrArg (List.map · as) (funext (relocated_relocated f g)))⟩

end

instance : Relocatable.Lawful Span := ⟨fun _ _ _ => rfl⟩
instance : Relocatable.Lawful Ident := ⟨fun _ _ _ => rfl⟩
instance : Relocatable.Lawful StringLit := ⟨fun _ _ _ => rfl⟩
instance : Relocatable.Lawful Quasi := ⟨fun _ _ _ => rfl⟩

instance : Relocatable.Lawful ModuleName := ⟨fun _ _ name => by cases name <;> rfl⟩

instance : Relocatable.Lawful ImportSpecifier := ⟨fun f g s => by
  cases s with
  | named loc imported localName =>
    exact congrArg (ImportSpecifier.named _ · _) (relocated_relocated f g imported)
  | _ => rfl⟩

instance : Relocatable.Lawful ExportSpecifier := ⟨fun f g s => by
  simp only [relocated, ExportSpecifier.mk.injEq]
  exact ⟨rfl, relocated_relocated f g s.localName, relocated_relocated f g s.exported⟩⟩

instance : Relocatable.Lawful ImportAttribute := ⟨fun f g a => by
  simp only [relocated, ImportAttribute.mk.injEq]
  exact ⟨rfl, relocated_relocated f g a.key, rfl⟩⟩

/-! ## Trees -/

section

variable (f g : Position → Position)

mutual

/-- Moving the places in an expression twice is moving them once. The cases follow the tree. -/
theorem Expr.relocated_relocated : ∀ e : Expr, (e.relocated f).relocated g = e.relocated (g ∘ f)
  | .null _ | .bool .. | .number _ | .string _ | .bigInt .. | .regExp .. | .ident _ | .this _
  | .super _ | .metaProperty .. => rfl
  | .template t => congrArg Expr.template t.relocated_relocated
  | .array _ elements => congrArg (Expr.array _) (relocatedElements_relocated elements)
  | .object _ properties => congrArg (Expr.object _) (relocatedProperties_relocated properties)
  | .paren _ e => congrArg (Expr.paren _) e.relocated_relocated
  | .function func => congrArg Expr.function func.relocated_relocated
  | .arrow _ isAsync params body => congrArg₂ (Expr.arrow _ isAsync) (relocatedPats_relocated params)
      body.relocated_relocated
  | .class c => congrArg Expr.class c.relocated_relocated
  | .unary _ op argument => congrArg (Expr.unary _ op) argument.relocated_relocated
  | .update _ op isBefore argument => congrArg (Expr.update _ op isBefore) argument.relocated_relocated
  | .binary _ op left right => congrArg₂ (Expr.binary _ op) left.relocated_relocated
      right.relocated_relocated
  | .logical _ op left right => congrArg₂ (Expr.logical _ op) left.relocated_relocated
      right.relocated_relocated
  | .conditional _ test consequent alternate => by
    simp only [Expr.relocated, test.relocated_relocated, consequent.relocated_relocated,
      alternate.relocated_relocated]
    rfl
  | .assign _ op left right => congrArg₂ (Expr.assign _ op) left.relocated_relocated
      right.relocated_relocated
  | .sequence _ items => congrArg (Expr.sequence _) (relocatedExprs_relocated items)
  | .member _ object property isOptional => congrArg₂ (Expr.member _ · · isOptional)
      object.relocated_relocated property.relocated_relocated
  | .call _ callee arguments isOptional => congrArg₂ (Expr.call _ · · isOptional)
      callee.relocated_relocated (relocatedExprs_relocated arguments)
  | .new _ callee arguments => congrArg₂ (Expr.new _) callee.relocated_relocated
      (relocatedExprs_relocated arguments)
  | .taggedTemplate _ tag quasi => congrArg₂ (Expr.taggedTemplate _) tag.relocated_relocated
      quasi.relocated_relocated
  | .spread _ argument => congrArg (Expr.spread _) argument.relocated_relocated
  | .yield _ delegate argument => congrArg (Expr.yield _ delegate) (relocatedOption_relocated argument)
  | .await _ argument => congrArg (Expr.await _) argument.relocated_relocated
  | .importCall _ source options => congrArg₂ (Expr.importCall _) source.relocated_relocated
      (relocatedOption_relocated options)
  | .privateIn _ _ right => congrArg (Expr.privateIn _ _) right.relocated_relocated

/-- What is left out has no places. -/
theorem relocatedOption_relocated : ∀ o : Option Expr,
    relocatedOption g (relocatedOption f o) = relocatedOption (g ∘ f) o
  | none => rfl
  | some e => congrArg some e.relocated_relocated

/-- Expressions in a list are moved one by one. -/
theorem relocatedExprs_relocated : ∀ items : List Expr,
    relocatedExprs g (relocatedExprs f items) = relocatedExprs (g ∘ f) items
  | [] => rfl
  | e :: items => congrArg₂ List.cons e.relocated_relocated (relocatedExprs_relocated items)

/-- Elements are moved one by one, and those left out have no places. -/
theorem relocatedElements_relocated : ∀ elements : List (Option Expr),
    relocatedElements g (relocatedElements f elements) = relocatedElements (g ∘ f) elements
  | [] => rfl
  | e :: elements => congrArg₂ List.cons (relocatedOption_relocated e)
      (relocatedElements_relocated elements)

/-- A template has places in its stretches of text and in its expressions. -/
theorem Template.relocated_relocated : ∀ t : Template,
    (t.relocated f).relocated g = t.relocated (g ∘ f)
  | .mk _ quasis items => congrArg₂ (Template.mk _)
      (Relocatable.Lawful.relocated_relocated f g quasis) (relocatedExprs_relocated items)

/-- A computed name has the places of its expression. -/
theorem MemberName.relocated_relocated : ∀ m : MemberName,
    (m.relocated f).relocated g = m.relocated (g ∘ f)
  | .ident _ | .privateName _ => rfl
  | .computed e => congrArg MemberName.computed e.relocated_relocated

/-- A computed key has the places of its expression. -/
theorem Key.relocated_relocated : ∀ k : Key, (k.relocated f).relocated g = k.relocated (g ∘ f)
  | .ident _ | .privateName _ | .string _ | .number _ => rfl
  | .computed e => congrArg Key.computed e.relocated_relocated

/-- Properties in a list are moved one by one. -/
theorem relocatedProperties_relocated : ∀ properties : List Property,
    relocatedProperties g (relocatedProperties f properties) = relocatedProperties (g ∘ f) properties
  | [] => rfl
  | p :: properties => congrArg₂ List.cons p.relocated_relocated
      (relocatedProperties_relocated properties)

/-- A property has places of its own, of its key and of its value. -/
theorem Property.relocated_relocated : ∀ p : Property,
    (p.relocated f).relocated g = p.relocated (g ∘ f)
  | .value _ key value => congrArg₂ (Property.value _) key.relocated_relocated
      value.relocated_relocated
  | .shorthand _ key => congrArg (Property.shorthand _) key.relocated_relocated
  | .method _ kind key value => congrArg₂ (Property.method _ kind) key.relocated_relocated
      value.relocated_relocated
  | .spread _ argument => congrArg (Property.spread _) argument.relocated_relocated

/-- A function has places in its name, its parameters and its body. -/
theorem Func.relocated_relocated : ∀ func : Func,
    (func.relocated f).relocated g = func.relocated (g ∘ f)
  | .mk _ id isAsync isGenerator params body => by
    simp only [Func.relocated, relocatedPats_relocated params, body.relocated_relocated,
      Relocatable.Lawful.relocated_relocated f g id]
    rfl

/-- The body of an arrow function is a block or an expression. -/
theorem ArrowBody.relocated_relocated : ∀ body : ArrowBody,
    (body.relocated f).relocated g = body.relocated (g ∘ f)
  | .block body => congrArg ArrowBody.block body.relocated_relocated
  | .expr value => congrArg ArrowBody.expr value.relocated_relocated

/-- A class has two spans of its own, that of its body being the second. -/
theorem Class.relocated_relocated : ∀ c : Class, (c.relocated f).relocated g = c.relocated (g ∘ f)
  | .mk _ id superClass _ members => by
    simp only [Class.relocated, relocatedOption_relocated superClass,
      relocatedMembers_relocated members, Relocatable.Lawful.relocated_relocated f g id]
    rfl

/-- The elements of a class are moved one by one. -/
theorem relocatedMembers_relocated : ∀ members : List Member,
    relocatedMembers g (relocatedMembers f members) = relocatedMembers (g ∘ f) members
  | [] => rfl
  | m :: members => congrArg₂ List.cons m.relocated_relocated (relocatedMembers_relocated members)

/-- Methods, fields and static blocks. -/
theorem Member.relocated_relocated : ∀ m : Member,
    (m.relocated f).relocated g = m.relocated (g ∘ f)
  | .method _ isStatic kind key value => congrArg₂ (Member.method _ isStatic kind)
      key.relocated_relocated value.relocated_relocated
  | .field _ isStatic key value => congrArg₂ (Member.field _ isStatic) key.relocated_relocated
      (relocatedOption_relocated value)
  | .staticBlock _ body => congrArg (Member.staticBlock _) (relocatedStmts_relocated body)

theorem Pat.relocated_relocated : ∀ p : Pat, (p.relocated f).relocated g = p.relocated (g ∘ f)
  | .ident _ => rfl
  | .array _ elements => congrArg (Pat.array _) (relocatedPatElements_relocated elements)
  | .object _ properties => congrArg (Pat.object _) (relocatedPatProperties_relocated properties)
  | .rest _ argument => congrArg (Pat.rest _) argument.relocated_relocated
  | .assign _ left right => congrArg₂ (Pat.assign _) left.relocated_relocated
      right.relocated_relocated
  | .expr target => congrArg Pat.expr target.relocated_relocated

/-- Parameters are moved one by one. -/
theorem relocatedPats_relocated : ∀ params : List Pat,
    relocatedPats g (relocatedPats f params) = relocatedPats (g ∘ f) params
  | [] => rfl
  | p :: params => congrArg₂ List.cons p.relocated_relocated (relocatedPats_relocated params)

/-- The elements of an array pattern are moved one by one. -/
theorem relocatedPatElements_relocated : ∀ elements : List (Option Pat),
    relocatedPatElements g (relocatedPatElements f elements) = relocatedPatElements (g ∘ f) elements
  | [] => rfl
  | none :: elements => congrArg (none :: ·) (relocatedPatElements_relocated elements)
  | some p :: elements => congrArg₂ (some · :: ·) p.relocated_relocated
      (relocatedPatElements_relocated elements)

/-- The properties of an object pattern are moved one by one. -/
theorem relocatedPatProperties_relocated : ∀ properties : List PatProperty,
    relocatedPatProperties g (relocatedPatProperties f properties) =
      relocatedPatProperties (g ∘ f) properties
  | [] => rfl
  | p :: properties => congrArg₂ List.cons p.relocated_relocated
      (relocatedPatProperties_relocated properties)

/-- A property of a pattern with its key, its value or its default value. -/
theorem PatProperty.relocated_relocated : ∀ p : PatProperty,
    (p.relocated f).relocated g = p.relocated (g ∘ f)
  | .keyValue _ key value => congrArg₂ (PatProperty.keyValue _) key.relocated_relocated
      value.relocated_relocated
  | .shorthand _ _ value => congrArg (PatProperty.shorthand _ _) (relocatedOption_relocated value)
  | .rest _ argument => congrArg (PatProperty.rest _) argument.relocated_relocated

/-- A block has the places of its statements. -/
theorem Block.relocated_relocated : ∀ b : Block, (b.relocated f).relocated g = b.relocated (g ∘ f)
  | .mk _ body => congrArg (Block.mk _) (relocatedStmts_relocated body)

/-- A declaration has the places of its declarators. -/
theorem VarDecl.relocated_relocated : ∀ d : VarDecl,
    (d.relocated f).relocated g = d.relocated (g ∘ f) := by
  intro d
  cases d with
  | mk loc kind declarators =>
    exact congrArg (VarDecl.mk _ kind) (relocatedDeclarators_relocated declarators)

theorem relocatedDeclarators_relocated : ∀ declarators : List Declarator,
    relocatedDeclarators g (relocatedDeclarators f declarators) =
      relocatedDeclarators (g ∘ f) declarators
  | [] => rfl
  | d :: declarators => congrArg₂ List.cons d.relocated_relocated
      (relocatedDeclarators_relocated declarators)

/-- A declarator has the places of its pattern and of its value. -/
theorem Declarator.relocated_relocated : ∀ d : Declarator,
    (d.relocated f).relocated g = d.relocated (g ∘ f)
  | .mk _ id value => congrArg₂ (Declarator.mk _) id.relocated_relocated
      (relocatedOption_relocated value)

/-- A loop begins with a declaration or an expression. -/
theorem ForInit.relocated_relocated : ∀ init : ForInit,
    (init.relocated f).relocated g = init.relocated (g ∘ f)
  | .decl d => congrArg ForInit.decl d.relocated_relocated
  | .expr e => congrArg ForInit.expr e.relocated_relocated

/-- The target of a loop is a declaration or a pattern. -/
theorem ForTarget.relocated_relocated : ∀ target : ForTarget,
    (target.relocated f).relocated g = target.relocated (g ∘ f)
  | .decl d => congrArg ForTarget.decl d.relocated_relocated
  | .pat p => congrArg ForTarget.pat p.relocated_relocated

/-- A clause of a `switch` has the places of its test and of its statements. -/
theorem SwitchCase.relocated_relocated : ∀ c : SwitchCase,
    (c.relocated f).relocated g = c.relocated (g ∘ f)
  | .mk _ test consequent => congrArg₂ (SwitchCase.mk _) (relocatedOption_relocated test)
      (relocatedStmts_relocated consequent)

theorem relocatedCases_relocated : ∀ cases : List SwitchCase,
    relocatedCases g (relocatedCases f cases) = relocatedCases (g ∘ f) cases
  | [] => rfl
  | c :: cases => congrArg₂ List.cons c.relocated_relocated (relocatedCases_relocated cases)

/-- A clause may have a parameter with places, or none. -/
theorem CatchClause.relocated_relocated : ∀ c : CatchClause,
    (c.relocated f).relocated g = c.relocated (g ∘ f)
  | .mk _ none body => congrArg (CatchClause.mk _ none) body.relocated_relocated
  | .mk _ (some param) body => congrArg₂ (CatchClause.mk _ <| some ·) param.relocated_relocated
      body.relocated_relocated

theorem DefaultExport.relocated_relocated : ∀ d : DefaultExport,
    (d.relocated f).relocated g = d.relocated (g ∘ f)
  | .function func => congrArg DefaultExport.function func.relocated_relocated
  | .class c => congrArg DefaultExport.class c.relocated_relocated
  | .expr e => congrArg DefaultExport.expr e.relocated_relocated

/-- In an export there may be a declaration, which has places inside. -/
theorem ModuleDecl.relocated_relocated : ∀ d : ModuleDecl,
    (d.relocated f).relocated g = d.relocated (g ∘ f)
  | .importFrom .. | .exportAll .. => by
    simp only [ModuleDecl.relocated, Relocatable.Lawful.relocated_relocated f g]
  | .exportNamed _ specifiers source declaration attributes => by
    simp only [ModuleDecl.relocated, Relocatable.Lawful.relocated_relocated f g,
      relocatedElse_relocated declaration]
  | .exportDefault _ value => congrArg (ModuleDecl.exportDefault _) value.relocated_relocated

/-- Statements in a list are moved one by one. -/
theorem relocatedStmts_relocated : ∀ body : List Stmt,
    relocatedStmts g (relocatedStmts f body) = relocatedStmts (g ∘ f) body
  | [] => rfl
  | s :: body => congrArg₂ List.cons s.relocated_relocated (relocatedStmts_relocated body)

theorem relocatedElse_relocated : ∀ o : Option Stmt,
    relocatedElse g (relocatedElse f o) = relocatedElse (g ∘ f) o
  | none => rfl
  | some s => congrArg some s.relocated_relocated

theorem relocatedInit_relocated : ∀ o : Option ForInit,
    relocatedInit g (relocatedInit f o) = relocatedInit (g ∘ f) o
  | none => rfl
  | some init => congrArg some init.relocated_relocated

theorem relocatedCatch_relocated : ∀ o : Option CatchClause,
    relocatedCatch g (relocatedCatch f o) = relocatedCatch (g ∘ f) o
  | none => rfl
  | some c => congrArg some c.relocated_relocated

theorem relocatedFinally_relocated : ∀ o : Option Block,
    relocatedFinally g (relocatedFinally f o) = relocatedFinally (g ∘ f) o
  | none => rfl
  | some b => congrArg some b.relocated_relocated

/-- Moving the places in a statement twice is moving them once. -/
theorem Stmt.relocated_relocated : ∀ s : Stmt, (s.relocated f).relocated g = s.relocated (g ∘ f)
  | .block b => congrArg Stmt.block b.relocated_relocated
  | .varDecl d => congrArg Stmt.varDecl d.relocated_relocated
  | .function func => congrArg Stmt.function func.relocated_relocated
  | .class c => congrArg Stmt.class c.relocated_relocated
  | .expr _ e => congrArg (Stmt.expr _) e.relocated_relocated
  | .if _ test consequent alternate => by
    simp only [Stmt.relocated, test.relocated_relocated, consequent.relocated_relocated,
      relocatedElse_relocated alternate]
    rfl
  | .for _ init test update body => by
    simp only [Stmt.relocated, relocatedInit_relocated init, relocatedOption_relocated test,
      relocatedOption_relocated update, body.relocated_relocated]
    rfl
  | .forIn _ left right body => by
    simp only [Stmt.relocated, left.relocated_relocated, right.relocated_relocated,
      body.relocated_relocated]
    rfl
  | .forOf _ isAwait left right body => by
    simp only [Stmt.relocated, left.relocated_relocated, right.relocated_relocated,
      body.relocated_relocated]
    rfl
  | .while _ test body => congrArg₂ (Stmt.while _) test.relocated_relocated body.relocated_relocated
  | .doWhile _ body test =>
    congrArg₂ (Stmt.doWhile _) body.relocated_relocated test.relocated_relocated
  | .switch _ discriminant cases => congrArg₂ (Stmt.switch _) discriminant.relocated_relocated
      (relocatedCases_relocated cases)
  | .try _ block handler finalizer => by
    simp only [Stmt.relocated, block.relocated_relocated, relocatedCatch_relocated handler,
      relocatedFinally_relocated finalizer]
    rfl
  | .return _ argument => congrArg (Stmt.return _) (relocatedOption_relocated argument)
  | .throw _ argument => congrArg (Stmt.throw _) argument.relocated_relocated
  | .break _ label => congrArg (Stmt.break _) (Relocatable.Lawful.relocated_relocated f g label)
  | .continue _ label => congrArg (Stmt.continue _) (Relocatable.Lawful.relocated_relocated f g label)
  | .labeled _ _ body => congrArg (Stmt.labeled _ _) body.relocated_relocated
  | .debugger _ | .empty _ => rfl
  | .with _ object body => congrArg₂ (Stmt.with _) object.relocated_relocated body.relocated_relocated
  | .module d => congrArg Stmt.module d.relocated_relocated

end

end

instance : Relocatable.Lawful Expr := ⟨Expr.relocated_relocated⟩
instance : Relocatable.Lawful ForInit := ⟨ForInit.relocated_relocated⟩
instance : Relocatable.Lawful ForTarget := ⟨ForTarget.relocated_relocated⟩
instance : Relocatable.Lawful Stmt := ⟨Stmt.relocated_relocated⟩

/-! ## Without places -/

/-- What is left of something when all places in it are the same. -/
def placeless {α : Type} [Relocatable α] (a : α) : α := relocated (fun _ => .origin) a

/-- Without their places, things are the same before and after a move. -/
@[simp] theorem placeless_relocated {α : Type} [Relocatable α] [Relocatable.Lawful α]
    (f : Position → Position) (a : α) : placeless (relocated f a) = placeless a :=
  relocated_relocated f _ a

end WithScope
