import WithScope.Scope.Outline
import WithScope.Syntax.Location

/-!
# The outline of a program

`outline` lists what a construct declares and refers to in the order of its text, with one
exception: the names of a pattern are all declared before any of the identifiers in it is listed,
because its default values already see all of them.
-/

namespace WithScope

/-- An identifier, and what it does there. -/
def mention (parent : Parent) (role : Role) (id : Ident) : Outline :=
  .occurrence (.reference id role parent)

/-- A name that is declared. -/
def declaration (site : BindSite) (id : Ident) : Outline :=
  .occurrence (.declaration site id)

/-- The name of a function or class, declared at `site` if there is one. -/
def declareName (site : BindSite) : Option Ident → List Outline
  | some id => [declaration site id]
  | none => []

/-- The name of a function or class as the scope that it opens holds it. -/
def ownName (parent : Parent) : Option Ident → List Outline
  | some id => [declaration .current id, mention parent .ownName id]
  | none => []

/-- A label, if there is one. -/
def labelOutline (parent : Parent) : Option Ident → List Outline
  | some id => [mention parent .label id]
  | none => []

/-- Where the names of a variable declaration bind. -/
def VarKind.site (kind : VarKind) : BindSite :=
  if kind.isLexical then .lexical else .hoisted

/-- The name of a function, if it has one. -/
def Func.id : Func → Option Ident
  | .mk _ id _ _ _ _ => id

/-- The name of a class, if it has one. -/
def Class.id : Class → Option Ident
  | .mk _ id _ _ _ => id

/-- The name that an import binds. -/
def ImportSpecifier.outline (s : ImportSpecifier) : List Outline :=
  [declaration .root s.localName, mention .module .importLocal s.localName]

/-- The name that an export refers to, which may belong to another module. -/
def ExportSpecifier.outline (parent : Parent) (ofOther : Bool) (s : ExportSpecifier) :
    List Outline :=
  match s.localName with
  | .ident id => [mention parent (.exportLocal ofOther) id]
  | .string _ => []

/-! ## The names that a pattern declares -/

mutual

/-- The names that a pattern declares at `site`. -/
def Pat.declarations (site : BindSite) : Pat → List Outline
  | .ident id => [declaration site id]
  | .expr target => [.occurrence (.misplaced target)]
  | .array _ elements => elementDeclarations site elements
  | .object _ properties => propertyDeclarations site properties
  | .rest _ argument => argument.declarations site
  | .assign _ left _ => left.declarations site

/-- The names that a property of an object pattern declares at `site`. -/
def PatProperty.declarations (site : BindSite) : PatProperty → List Outline
  | .keyValue _ _ value => value.declarations site
  | .shorthand _ id _ => [declaration site id]
  | .rest _ argument => argument.declarations site

/-- The names that the elements of an array pattern declare at `site`. -/
def elementDeclarations (site : BindSite) : List (Option Pat) → List Outline
  | [] => []
  | none :: elements => elementDeclarations site elements
  | some p :: elements => p.declarations site ++ elementDeclarations site elements

/-- The names that the properties of an object pattern declare at `site`. -/
def propertyDeclarations (site : BindSite) : List PatProperty → List Outline
  | [] => []
  | p :: properties => p.declarations site ++ propertyDeclarations site properties

end

/-! ## Outlines of all constructs -/

mutual

/-- The outline of an expression that `parent` holds. -/
def Expr.outline (parent : Parent) : Expr → List Outline
  | .ident id => [mention parent .operand id]
  | .this loc => [.occurrence (.this loc)]
  | .null _ | .bool .. | .number _ | .string _ | .bigInt .. | .regExp .. | .super _ => []
  | .template t => t.outline (.expr (.template t))
  | .array loc elements => elementsOutline (.expr (.array loc elements)) elements
  | .object _ properties => propertiesOutline properties
  | .paren loc e => e.outline (.expr (.paren loc e))
  | .function f => f.outline
  | .arrow _ _ params body => [.scope .arrow (paramsOutline .arrow params ++ body.outline)]
  | .class c => c.outline
  | .unary loc op argument => argument.outline (.expr (.unary loc op argument))
  | .update loc op isBefore argument => argument.outline (.expr (.update loc op isBefore argument))
  | .binary loc op left right =>
    let parent := Parent.expr (.binary loc op left right)
    left.outline parent ++ right.outline parent
  | .logical loc op left right =>
    let parent := Parent.expr (.logical loc op left right)
    left.outline parent ++ right.outline parent
  | .conditional loc test consequent alternate =>
    let parent := Parent.expr (.conditional loc test consequent alternate)
    test.outline parent ++ consequent.outline parent ++ alternate.outline parent
  | .assign loc op left right =>
    let parent := Parent.expr (.assign loc op left right)
    left.outline .assignment parent ++ right.outline parent
  | .sequence loc items => expressionsOutline (.expr (.sequence loc items)) items
  | .member loc object property isOptional =>
    let parent := Parent.expr (.member loc object property isOptional)
    object.outline parent ++ property.outline parent
  | .call loc callee arguments isOptional =>
    let parent := Parent.expr (.call loc callee arguments isOptional)
    callee.outline parent ++ expressionsOutline parent arguments
  | .new loc callee arguments =>
    let parent := Parent.expr (.new loc callee arguments)
    callee.outline parent ++ expressionsOutline parent arguments
  | .taggedTemplate loc tag quasi =>
    let parent := Parent.expr (.taggedTemplate loc tag quasi)
    tag.outline parent ++ quasi.outline parent
  | .spread _ argument => argument.outline .spread
  | .yield loc delegate argument => optionOutline (.expr (.yield loc delegate argument)) argument
  | .await loc argument => argument.outline (.expr (.await loc argument))
  | .importCall loc source options =>
    let parent := Parent.expr (.importCall loc source options)
    source.outline parent ++ optionOutline parent options
  | .metaProperty loc object property =>
    let parent := Parent.expr (.metaProperty loc object property)
    [mention parent .metaName object, mention parent .metaName property]
  | .privateIn loc name right => right.outline (.expr (.privateIn loc name right))

/-- The outline of an expression that may be left out. -/
def optionOutline (parent : Parent) : Option Expr → List Outline
  | none => []
  | some e => e.outline parent

/-- The outline of expressions that `parent` holds. -/
def expressionsOutline (parent : Parent) : List Expr → List Outline
  | [] => []
  | e :: items => e.outline parent ++ expressionsOutline parent items

/-- The outline of the elements of an array literal. -/
def elementsOutline (parent : Parent) : List (Option Expr) → List Outline
  | [] => []
  | none :: elements => elementsOutline parent elements
  | some e :: elements => e.outline parent ++ elementsOutline parent elements

/-- The outline of the expressions in a template. -/
def Template.outline (parent : Parent) : Template → List Outline
  | .mk _ _ items => expressionsOutline parent items

/-- The outline of what stands after a member access. -/
def MemberName.outline (parent : Parent) : MemberName → List Outline
  | .ident id => [mention parent .memberName id]
  | .privateName _ => []
  | .computed e => e.outline parent

/-- The outline of a key. -/
def Key.outline (parent : Parent) : Key → List Outline
  | .ident id => [mention parent .key id]
  | .privateName _ | .string _ | .number _ => []
  | .computed e => e.outline parent

/-- The outline of the properties of an object literal. -/
def propertiesOutline : List Property → List Outline
  | [] => []
  | p :: properties => p.outline ++ propertiesOutline properties

/-- The outline of a property of an object literal. -/
def Property.outline : Property → List Outline
  | .value _ key value => key.outline .property ++ value.outline .property
  | .shorthand _ (.ident id) => [mention .property .shorthand id]
  | .shorthand _ key => key.outline .property
  | .method _ _ key value => key.outline .property ++ value.outline
  | .spread _ argument => argument.outline .spread

/-- The outline of a function. -/
def Func.outline : Func → List Outline
  | .mk _ id _ _ params body =>
    [.scope .function (ownName .function id ++ paramsOutline .function params ++ body.outline)]

/-- The outline of the body of an arrow function. -/
def ArrowBody.outline : ArrowBody → List Outline
  | .block body => body.outline
  | .expr value => value.outline .arrow

/-- The outline of parameters, each of which sees the ones before it. -/
def paramsOutline (parent : Parent) : List Pat → List Outline
  | [] => []
  | p :: params =>
    p.declarations .current ++ p.outline .binding parent ++ paramsOutline parent params

/-- The outline of a class. -/
def Class.outline : Class → List Outline
  | .mk _ id superClass _ members =>
    [.scope .class (ownName .class id ++ optionOutline .class superClass ++ membersOutline members)]

/-- The outline of the elements of a class. -/
def membersOutline : List Member → List Outline
  | [] => []
  | m :: members => m.outline ++ membersOutline members

/-- The outline of an element of a class. -/
def Member.outline : Member → List Outline
  | .method _ _ _ key value => key.outline .classMember ++ value.outline
  | .field _ _ key none => key.outline .classMember
  | .field _ _ key (some value) =>
    key.outline .classMember ++ [.scope .classInit (value.outline .classMember)]
  | .staticBlock _ body => [.scope .classInit (statementsOutline body)]

/-- The outline of a pattern that `parent` holds. -/
def Pat.outline (use : PatUse) (parent : Parent) : Pat → List Outline
  | .ident id => [mention parent (.leaf use) id]
  | .array loc elements => patElementsOutline use (.pat (.array loc elements) use) elements
  | .object _ properties => patPropertiesOutline use properties
  | .rest loc argument => argument.outline use (.pat (.rest loc argument) use)
  | .assign loc left right =>
    let parent := Parent.pat (.assign loc left right) use
    left.outline use parent ++ right.outline parent
  | .expr target => target.outline (.pat (.expr target) use)

/-- The outline of the elements of an array pattern. -/
def patElementsOutline (use : PatUse) (parent : Parent) : List (Option Pat) → List Outline
  | [] => []
  | none :: elements => patElementsOutline use parent elements
  | some p :: elements => p.outline use parent ++ patElementsOutline use parent elements

/-- The outline of the properties of an object pattern. -/
def patPropertiesOutline (use : PatUse) : List PatProperty → List Outline
  | [] => []
  | p :: properties => p.outline use ++ patPropertiesOutline use properties

/-- The outline of a property of an object pattern. -/
def PatProperty.outline (use : PatUse) : PatProperty → List Outline
  | .keyValue _ key value =>
    key.outline (.patProperty use) ++ value.outline use (.patProperty use)
  | .shorthand _ id value =>
    mention (.patProperty use) (.leaf use) id :: optionOutline (.patProperty use) value
  | .rest _ argument => argument.outline use (.patProperty use)

/-- The outline of statements in braces. -/
def Block.outline : Block → List Outline
  | .mk _ body => [.scope .block (statementsOutline body)]

/-- The outline of a variable declaration. -/
def VarDecl.outline : VarDecl → List Outline
  | .mk _ kind declarators => declaratorsOutline kind.site declarators

/-- The outline of declared patterns, each of which is declared before its initial value is read. -/
def declaratorsOutline (site : BindSite) : List Declarator → List Outline
  | [] => []
  | d :: declarators => d.outline site ++ declaratorsOutline site declarators

/-- The outline of a declared pattern and its initial value. -/
def Declarator.outline (site : BindSite) : Declarator → List Outline
  | .mk _ id value =>
    id.declarations site ++ id.outline .binding .declarator ++ optionOutline .declarator value

/-- The outline of what a `for` loop begins with. -/
def initOutline (parent : Parent) : Option ForInit → List Outline
  | none => []
  | some (.decl d) => d.outline
  | some (.expr e) => e.outline parent

/-- The outline of what a loop over values assigns to. -/
def ForTarget.outline (parent : Parent) : ForTarget → List Outline
  | .decl d => d.outline
  | .pat p => p.outline .assignment parent

/-- The outline of the clauses of a `switch`. -/
def casesOutline : List SwitchCase → List Outline
  | [] => []
  | .mk _ test consequent :: cases =>
    optionOutline .switchCase test ++ statementsOutline consequent ++ casesOutline cases

/-- The outline of a `catch` clause, if there is one. -/
def catchOutline : Option CatchClause → List Outline
  | none => []
  | some (.mk _ none body) => [.scope .catch body.outline]
  | some (.mk _ (some param) body) =>
    [.scope .catch
      (param.declarations .current ++ param.outline .binding .catch ++ body.outline)]

/-- The outline of a block, if there is one. -/
def blockOutline : Option Block → List Outline
  | none => []
  | some b => b.outline

/-- The outline of what is exported by default. -/
def DefaultExport.outline : DefaultExport → List Outline
  | .function f => declareName .hoisted f.id ++ f.outline
  | .class c => declareName .hoisted c.id ++ c.outline
  | .expr e => e.outline .module

/-- The outline of an import or export. -/
def ModuleDecl.outline : ModuleDecl → List Outline
  | .importFrom _ specifiers _ _ => specifiers.flatMap ImportSpecifier.outline
  | .exportNamed _ specifiers source declaration _ =>
    elseOutline declaration ++ specifiers.flatMap (ExportSpecifier.outline .module source.isSome)
  | .exportDefault _ value => value.outline
  | .exportAll .. => []

/-- The outline of a statement that may be left out. -/
def elseOutline : Option Stmt → List Outline
  | none => []
  | some s => s.outline

/-- The outline of statements. -/
def statementsOutline : List Stmt → List Outline
  | [] => []
  | s :: body => s.outline ++ statementsOutline body

/-- The outline of a statement. -/
def Stmt.outline : Stmt → List Outline
  | .block b => b.outline
  | .varDecl d => d.outline
  | .function f => declareName .hoisted f.id ++ f.outline
  | .class c => declareName .hoisted c.id ++ c.outline
  | .expr loc e => e.outline (.stmt (.expr loc e))
  | .if loc test consequent alternate =>
    test.outline (.stmt (.if loc test consequent alternate)) ++ consequent.outline
      ++ elseOutline alternate
  | .for loc init test update body =>
    let parent := Parent.stmt (.for loc init test update body)
    [.scope .loop
      (initOutline parent init ++ optionOutline parent test ++ optionOutline parent update
        ++ body.outline)]
  | .forIn loc left right body =>
    let parent := Parent.stmt (.forIn loc left right body)
    [.scope .loop (left.outline parent ++ right.outline parent ++ body.outline)]
  | .forOf loc isAwait left right body =>
    let parent := Parent.stmt (.forOf loc isAwait left right body)
    [.scope .loop (left.outline parent ++ right.outline parent ++ body.outline)]
  | .while loc test body => test.outline (.stmt (.while loc test body)) ++ body.outline
  | .doWhile loc body test => body.outline ++ test.outline (.stmt (.doWhile loc body test))
  | .switch loc discriminant cases =>
    discriminant.outline (.stmt (.switch loc discriminant cases))
      ++ [.scope .switch (casesOutline cases)]
  | .try _ block handler finalizer =>
    block.outline ++ catchOutline handler ++ blockOutline finalizer
  | .return loc argument => optionOutline (.stmt (.return loc argument)) argument
  | .throw loc argument => argument.outline (.stmt (.throw loc argument))
  | .break loc label => labelOutline (.stmt (.break loc label)) label
  | .continue loc label => labelOutline (.stmt (.continue loc label)) label
  | .labeled loc label body =>
    mention (.stmt (.labeled loc label body)) .label label :: body.outline
  | .debugger _ | .empty _ => []
  | .with loc object body => object.outline (.stmt (.with loc object body)) ++ body.outline
  | .module d => d.outline

end

/-- The outline of a program. -/
def Program.outline (p : Program) : Outline := .scope .program (statementsOutline p.body)

end WithScope
