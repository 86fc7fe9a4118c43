import WithScope.Grammar.Operation

/-!
# Imports and exports
-/

namespace WithScope.Grammar

open WithScope.Parser

variable (g : Grammar)

/-- Fails unless an import or export may stand here: directly in a module, or anywhere if the
options say so. -/
def checkModulePosition (start : Position) (isTopLevel : Bool) : Parser Unit := do
  let options := (← read).options
  if options.modulesAnywhere then return ()
  else if options.sourceType ≠ .module then fail start .moduleDeclarationInScript
  else if !isTopLevel then fail start .nestedModuleDeclaration
  else return ()

/-! ## Names and sources -/

/-- The text that names another module. -/
def moduleSource : Parser StringLit := do
  let t ← expectKind .stringLiteral
  return ⟨t.span, t.text⟩

/-- A name that a module exports, bare or quoted. -/
def moduleName : Parser ModuleName := do
  if ← atKind .stringLiteral then return .string (← moduleSource)
  else return .ident (← identName)

/-- One entry of a `with` clause. -/
def importAttribute : Parser ImportAttribute := do
  let start ← here
  let key ← moduleName
  expectMark .colon
  let value ← moduleSource
  return ⟨← spanFrom start, key, value⟩

/-- Whether a `with` clause begins here; `assert` may stand for `with` on the same line. -/
def atImportAttributes : Parser Bool := do
  if ← atWord .with then return true
  else if ← atName "assert" then return !(← afterNewline)
  else return false

/-- The `with` clause of an import or export, which may be left out. -/
def importAttributes : Parser (List ImportAttribute) := do
  if ← atImportAttributes then
    discard bump
    expectMark .leftBrace
    commaSeparated .rightBrace importAttribute
  else return []

/-! ## Imports -/

/-- The name that the importing module uses for `imported`, if no `as` follows; `isName` says
whether it is an identifier and not a reserved word. -/
def importedName (isName : Bool) : ModuleName → Parser Ident
  | .ident id => if isName then return id else fail id.loc.start (.unexpectedKeyword id.name)
  | .string lit => fail lit.loc.start .stringImportWithoutLocal

/-- A name in the braces of an import. -/
def namedImport : Parser ImportSpecifier := do
  let start ← here
  let isName ← atKind .identifier
  let imported ← moduleName
  let localName ←
    if ← atName "as" then
      discard bump
      ident
    else importedName isName imported
  return .named (← spanFrom start) imported localName

/-- A namespace, or names in braces. -/
def importSpecifiers : Parser (List ImportSpecifier) := do
  if ← atMark .star then
    let start ← here
    discard bump
    expectName "as"
    let localName ← ident
    return [.namespace (← spanFrom start) localName]
  else
    expectMark .leftBrace
    commaSeparated .rightBrace namedImport

/-- All that an import binds, and the word `from`. -/
def importClause : Parser (List ImportSpecifier) := do
  let specifiers ←
    if ← atKind .identifier then
      let id ← ident
      let others ← if ← eatMark .comma then importSpecifiers else pure []
      pure (.default id.loc id :: others)
    else importSpecifiers
  expectName "from"
  return specifiers

/-- An import. -/
def importDeclaration : Parser ModuleDecl := do
  let start ← here
  expectWord .import
  let specifiers ← if ← atKind .stringLiteral then pure [] else importClause
  let source ← moduleSource
  let attributes ← importAttributes
  semicolon
  return .importFrom (← spanFrom start) specifiers source attributes

/-! ## Exports -/

/-- A name in the braces of an export. -/
def exportSpecifier : Parser ExportSpecifier := do
  let start ← here
  let localName ← moduleName
  let exported ←
    if ← atName "as" then
      discard bump
      moduleName
    else pure localName
  return ⟨← spanFrom start, localName, exported⟩

/-- What follows `export default`. -/
def defaultExport : Parser DefaultExport := do
  let start ← here
  if ← atWord .function then return .function (← g.function start false false)
  else if ← atAsyncFunction then
    discard bump
    return .function (← g.function start true false)
  else if ← atWord .class then return .class (← g.classDefinition false)
  else
    let e ← g.assignment
    semicolon
    return .expr e

/-- An export of all that another module exports, from the end of the star on. -/
def exportAll (start : Position) : Parser ModuleDecl := do
  let exported ←
    if ← atName "as" then
      discard bump
      some <$> moduleName
    else pure none
  expectName "from"
  let source ← moduleSource
  let attributes ← importAttributes
  semicolon
  return .exportAll (← spanFrom start) exported source attributes

/-- An export list from the end of its opening brace on. -/
def exportList (start : Position) : Parser ModuleDecl := do
  let specifiers ← commaSeparated .rightBrace exportSpecifier
  if ← atName "from" then
    discard bump
    let source ← moduleSource
    let attributes ← importAttributes
    semicolon
    return .exportNamed (← spanFrom start) specifiers (some source) none attributes
  else
    semicolon
    return .exportNamed (← spanFrom start) specifiers none none []

/-- Whether `let` stands here and begins a declaration: a binding follows it. -/
def atLetDeclaration : Parser Bool := do
  if ← atName "let" then
    let next ← peek
    return next.kind = .punctuator .leftBracket || next.kind = .punctuator .leftBrace
      || next.kind = .identifier
  else return false

/-- Whether something begins here that can be declared and exported at once. -/
def atExportable : Parser Bool := do
  match ← kind with
  | .keyword .var | .keyword .const | .keyword .function | .keyword .class => return true
  | _ => if ← atLetDeclaration then return true else atAsyncFunction

/-- An export. -/
def exportDeclaration : Parser ModuleDecl := do
  let start ← here
  expectWord .export
  if ← eatWord .default then
    let value ← g.defaultExport
    return .exportDefault (← spanFrom start) value
  else if ← eatMark .star then exportAll start
  else if ← eatMark .leftBrace then exportList start
  else if ← atExportable then
    let declaration ← g.statement false
    return .exportNamed (← spanFrom start) [] none (some declaration) []
  else unexpected

end WithScope.Grammar
