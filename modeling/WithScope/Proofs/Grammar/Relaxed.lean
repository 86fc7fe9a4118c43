import WithScope.Proofs.Grammar.Relaxes

/-!
# Reading under options that allow more

Each production reads the same under options that allow more if those that it is made of do
(`Grammar.Relaxed`), and so the grammar of every level does, by induction on the level. Of the
productions only `return` and the place of a module declaration look at the permissions at all.

The main result is `parse_relaxed`: a text that can be read is read the same, with the same places,
under options that allow more.
-/

namespace WithScope

open WithScope.Parser (Relaxes)
open WithScope.Parser.Relaxes

namespace Grammar

/-! ## Productions that contain each other -/

/-- The productions through which a grammar contains itself read the same under options that allow
more. -/
structure Relaxed (g : Grammar) : Prop where
  statement : ∀ isTopLevel, Relaxes (g.statement isTopLevel)
  assignment : Relaxes g.assignment
  operation : ∀ floor, Relaxes (g.operation floor)
  unary : Relaxes g.unary
  leftHandSide : Relaxes g.leftHandSide
  newExpr : Relaxes g.newExpr
  arrayPattern : Relaxes g.arrayPattern
  objectPattern : Relaxes g.objectPattern

namespace Relaxed

variable {g : Grammar} (h : g.Relaxed)
include h

/-! ### Expressions in brackets -/

/-- Of the expressions between commas each is read the same. -/
theorem expression : Relaxes g.expression := by
  refine bind here fun start => bind h.assignment fun first => ?_
  refine bind (atMark _) fun isSequence => ite ?_ (pure _)
  refine bind h.assignment.afterCommas fun others => ?_
  exact bind (spanFrom _) fun loc => pure _

/-- The parentheses of a statement are looked for under all options. -/
theorem parenExpression : Relaxes g.parenExpression := by
  refine bind (expectMark _) fun _ => bind h.expression.allowIn fun e => ?_
  exact bind (expectMark _) fun _ => pure _

/-- What an access computes in brackets is an expression, which may hold functions and so
`return`. -/
theorem bracketExpression : Relaxes g.bracketExpression :=
  bind h.expression.allowIn fun _ => bind (expectMark _) fun _ => pure _

/-- The points of a spread are passed, or left alone, under both options. -/
theorem spreadOrAssignment : Relaxes g.spreadOrAssignment := by
  refine bind here fun start => bind (eatMark _) fun isSpread => ite ?_ h.assignment
  refine bind h.assignment fun argument => ?_
  exact bind (spanFrom _) fun loc => pure _

/-- Under more permissions a call has the same arguments. -/
theorem arguments : Relaxes g.arguments :=
  bind (expectMark _) fun _ => h.spreadOrAssignment.commaSeparated.allowIn

/-- Only a computed key holds an expression; the others are single tokens. -/
theorem key : Relaxes g.key := by
  refine bind kind fun k => ?_
  split
  case h_5 =>
    refine bind skip fun _ => bind h.assignment.allowIn fun e => ?_
    exact bind (expectMark _) fun _ => pure _
  case h_6 => exact bind identName fun id => pure _
  all_goals exact bind bump fun t => pure _

/-- Whether an escape is legal does not depend on the options, and the rest of the step is the
expression after a stretch of text. -/
theorem templateStep (isTagged : Bool) (parts : TemplateParts) :
    Relaxes (g.templateStep isTagged parts) := by
  refine bind bump fun t => ite (fail _ _) (ite (pure _) ?_)
  refine bind h.expression.allowIn fun e => bind kind fun k => ?_
  split
  · exact pure _
  · exact pure _
  · exact unexpected

/-- All stretches and expressions of a template, by the rounds of its repetition. -/
theorem template (isTagged : Bool) : Relaxes (g.template isTagged) := by
  refine bind here fun start => bind (repeatFrom (h.templateStep isTagged) _) fun parts => ?_
  exact bind (spanFrom _) fun loc => pure _

/-! ### Patterns that declare names -/

/-- Which pattern begins is decided by one token. -/
theorem bindingTarget : Relaxes g.bindingTarget := by
  refine bind kind fun k => ?_
  split
  · exact h.arrayPattern
  · exact h.objectPattern
  · exact bind ident fun _ => pure _

/-- A target and its default value, which is an expression of its own. -/
theorem bindingElement : Relaxes g.bindingElement := by
  refine bind here fun start => bind h.bindingTarget fun target => ?_
  refine bind (eatMark _) fun hasDefault => ite ?_ (pure _)
  refine bind h.assignment.allowIn fun right => ?_
  exact bind (spanFrom _) fun loc => pure _

/-- The target after `...` is read the same. -/
theorem restBinding : Relaxes g.restBinding := by
  refine bind here fun start => bind (expectMark _) fun _ => ?_
  refine bind h.bindingTarget fun argument => ?_
  exact bind (spanFrom _) fun loc => pure _

/-- Elements that are left out are left out under both options. -/
theorem bindingElementOrHole : Relaxes g.bindingElementOrHole :=
  bind (eatMark _) fun _ => ite (pure _) h.bindingElement.itemAndComma.map

/-- Under more permissions an array pattern has the same elements, its rest among them. -/
theorem arrayPatternBody : Relaxes g.arrayPatternBody := by
  refine bind here fun start => bind (expectMark _) fun _ => ?_
  refine bind (h.bindingElementOrHole.itemsWithRest h.restBinding.map) fun elements => ?_
  exact bind (spanFrom _) fun loc => pure _

/-- A property without a colon is a name, or a fault that the options do not mend. -/
theorem bindingProperty : Relaxes g.bindingProperty := by
  refine bind here fun start => bind (atKind _) fun mayBeShorthand => bind h.key fun key => ?_
  refine bind (eatMark _) fun hasValue => ite ?_ ?_
  · refine bind h.bindingElement fun value => ?_
    exact bind (spanFrom _) fun loc => pure _
  · split
    · refine ite (fail _ _) (bind (eatMark _) fun hasDefault => ite ?_ ?_)
      · refine bind h.assignment.allowIn fun value => ?_
        exact bind (spanFrom _) fun loc => pure _
      · exact bind (spanFrom _) fun loc => pure _
    · exact unexpected

omit h in
/-- The rest of an object pattern is a single name. -/
theorem restProperty : Relaxes Grammar.restProperty := by
  refine bind here fun start => bind (expectMark _) fun _ => bind ident fun id => ?_
  exact bind (spanFrom _) fun loc => pure _

/-- Under more permissions an object pattern has the same properties. -/
theorem objectPatternBody : Relaxes g.objectPatternBody := by
  refine bind here fun start => bind (expectMark _) fun _ => ?_
  refine bind (h.bindingProperty.itemAndComma.itemsWithRest restProperty) fun properties => ?_
  exact bind (spanFrom _) fun loc => pure _

/-! ### Functions and classes -/

/-- The statements of a block do not stand directly in the program. -/
theorem block : Relaxes g.block := by
  refine bind here fun start => bind (expectMark _) fun _ => ?_
  refine bind (collectUntil (atMark _) ?_) fun body => ?_
  · exact bind (atKind _) fun atEnd => ite unexpected (h.statement false)
  · exact bind skip fun _ => bind (spanFrom _) fun loc => pure _

/-- Parameters are patterns, with a rest at their end or without. -/
theorem params : Relaxes g.params :=
  bind (expectMark _) fun _ => h.bindingElement.itemAndComma.itemsWithRest h.restBinding

/-- Parameters and body are read in the context of the function, where `return` is always
allowed. -/
theorem functionRest (start : Position) (id : Option Ident) (isAsync isGenerator : Bool) :
    Relaxes (g.functionRest start id isAsync isGenerator) := by
  refine bind (inBody ?_) fun parts => bind (spanFrom _) fun loc => pure _
  exact bind h.params fun params => bind h.block fun body => pure _

/-- Whether a name may be left out depends on where the function stands, and not on the options. -/
theorem function (start : Position) (isAsync nameRequired : Bool) :
    Relaxes (g.function start isAsync nameRequired) := by
  refine bind (expectWord _) fun _ => bind (eatMark _) fun isGenerator => ?_
  exact bind (relaxes_optionalName _ _) fun id => h.functionRest start id isAsync isGenerator

/-- The context of an arrow's body is made of the one around it, which options are no part of. -/
theorem arrowRest (start : Position) (params : List Pat) (isAsync : Bool) :
    Relaxes (g.arrowRest start params isAsync) := by
  refine bind (expectMark _) fun _ => bind context fun around => ?_
  refine bind (inBody ?_) fun body => bind (spanFrom _) fun loc => pure _
  refine bind (atMark _) fun hasBlock => ite ?_ ?_
  · exact bind h.block.allowIn fun body => pure _
  · exact bind h.assignment fun body => pure _

/-- From its parameters on a method is a function without a name. -/
theorem methodRest (m : MethodModifiers) : Relaxes (g.methodRest m) :=
  bind here fun start => h.functionRest start none m.isAsync m.isGenerator

/-- A method of a class is one of an object literal with a place of its own. -/
theorem classMethod (start : Position) (isStatic : Bool) (m : MethodModifiers) (key : Key) :
    Relaxes (g.classMethod start isStatic m key) :=
  bind (h.methodRest m) fun _ => bind (spanFrom _) fun _ => pure _

/-- The value of a field is read in a context of its own. -/
theorem classField (start : Position) (isStatic : Bool) (key : Key) :
    Relaxes (g.classField start isStatic key) := by
  refine bind (eatMark _) fun hasValue => join h.assignment.inBody.map (pure _) fun value => ?_
  exact bind semicolon fun _ => bind (spanFrom _) fun loc => pure _

/-- What follows the key decides between methods, fields and faults. -/
theorem methodOrField (start : Position) (isStatic : Bool) :
    Relaxes (g.methodOrField start isStatic) := by
  refine bind relaxes_methodModifiers fun m => bind h.key fun key => ?_
  refine bind (atMark _) fun isMethod => ite (h.classMethod start isStatic m key) ?_
  exact ite (h.classField start isStatic key) unexpected

/-- Under more permissions an element of a class is of the same sort, a static block among them. -/
theorem member : Relaxes g.member := by
  refine bind here fun start => bind (relaxes_atModifier _) fun isStatic => ?_
  refine ite (bind skip fun _ => ?_) (h.methodOrField start false)
  refine bind (atMark _) fun isBlock => ite ?_ (h.methodOrField start true)
  exact bind h.block.inBody fun body => bind (spanFrom _) fun loc => pure _

/-- Semicolons between the elements of a class are passed. -/
theorem members : Relaxes g.members := by
  refine repeatFrom (fun members => bind (eatMark _) fun atEnd => ite (pure _) ?_) _
  exact bind (eatMark _) fun atSemicolon => ite (pure _) (bind h.member fun member => pure _)

/-- A class is read the same if what it extends and its elements are. -/
theorem classDefinition (nameRequired : Bool) : Relaxes (g.classDefinition nameRequired) := by
  refine bind here fun start => bind (expectWord _) fun _ => ?_
  refine bind (relaxes_optionalName _ _) fun id => bind (eatWord _) fun isDerived => ?_
  refine join h.leftHandSide.map (pure _) fun superClass => ?_
  refine bind here fun bodyStart => bind (expectMark _) fun _ => bind h.members fun members => ?_
  exact bind (spanFrom _) fun loc => bind (spanFrom _) fun bodyLoc => pure _

/-! ### Primary expressions -/

/-- Whether a name is a parameter is decided by the arrow after it. -/
theorem nameOrArrow (start : Position) : Relaxes (g.nameOrArrow start) :=
  bind ident fun _ => bind relaxes_atArrow fun _ => ite (h.arrowRest start _ false) (pure _)

/-- Without an arrow after it the parameter is a fault under both options. -/
theorem asyncArrow (start : Position) : Relaxes (g.asyncArrow start) := by
  refine bind skip fun _ => bind ident fun id => ?_
  exact bind relaxes_atArrow fun isArrow => ite (h.arrowRest start _ true) unexpected

/-- The arguments are read first, and read again as parameters without any options. -/
theorem asyncCallOrArrow (start : Position) : Relaxes (g.asyncCallOrArrow start) := by
  refine bind ident fun callee => bind h.arguments fun arguments => ?_
  refine bind relaxes_atArrow fun isArrow => ite ?_ ?_
  · exact bind (ofExcept _) fun params => h.arrowRest start params true
  · exact bind (spanFrom _) fun loc => pure _

/-- What an identifier begins is decided by it and the token after it. -/
theorem identifierExpression : Relaxes g.identifierExpression := by
  refine bind here fun start => bind relaxes_atAsyncFunction fun isFunction => ite ?_ ?_
  · exact bind skip fun _ => bind (h.function start true false) fun f => pure _
  · refine bind (atName _) fun isAsync => ite (bind peek fun next => ?_) (h.nameOrArrow start)
    refine ite (h.nameOrArrow start) ?_
    split
    · exact h.asyncArrow start
    · exact h.asyncCallOrArrow start
    · exact h.nameOrArrow start

/-- One round in parentheses: their end, a rest or an expression. -/
theorem parenItemsStep (before : List Expr) : Relaxes (g.parenItemsStep before) := by
  refine bind (atMark _) fun atEnd => ite (pure _) (bind (atMark _) fun atRest => ite ?_ ?_)
  · exact bind h.restBinding fun rest => pure _
  · refine bind h.assignment fun item => bind (atMark _) fun isLast => ite (pure _) ?_
    exact bind (expectMark _) fun _ => bind (atMark _) fun atEnd => ite (pure _) (pure _)

/-- What stands in parentheses is read before it is known whether an arrow follows. -/
theorem parenOrArrow : Relaxes g.parenOrArrow := by
  refine bind here fun start => bind (expectMark _) fun _ => ?_
  refine bind (allowIn (repeatFrom h.parenItemsStep _)) fun list => ?_
  refine bind (expectKind _) fun close => bind relaxes_atArrow fun isArrow => ite ?_ ?_
  · exact bind (ofExcept _) fun params => h.arrowRest start _ false
  · split
    · exact fail _ _
    · exact ite (fail _ _) (bind (spanFrom _) fun loc => pure _)

/-- `import.meta` and calls of `import` may stand anywhere, so no permission is asked for. -/
theorem importExpression : Relaxes g.importExpression := by
  refine bind here fun start => bind (expectKind _) fun word => ?_
  refine bind (eatMark _) fun isMeta => ite ?_ ?_
  · refine bind identName fun property => ite ?_ (fail _ _)
    exact bind (spanFrom _) fun loc => pure _
  · refine bind h.arguments fun arguments => ?_
    split
    · exact fail _ _
    · exact bind (spanFrom _) fun loc => pure _
    · exact bind (spanFrom _) fun loc => pure _
    · exact fail _ _

/-- An element that is left out is a comma under both options. -/
theorem elementOrHole : Relaxes g.elementOrHole := by
  refine bind (eatMark _) fun isHole => ite (pure _) ?_
  exact bind h.spreadOrAssignment.itemAndComma fun element => pure _

/-- Under more permissions an array literal has the same elements. -/
theorem arrayLiteral : Relaxes g.arrayLiteral := by
  refine bind here fun start => bind (expectMark _) fun _ => ?_
  refine bind (allowIn (collectUntil (eatMark _) h.elementOrHole)) fun elements => ?_
  exact bind (spanFrom _) fun loc => pure _

/-- The default value after a name is kept for the pattern that the literal may become. -/
theorem nameProperty (start : Position) (id : Ident) : Relaxes (g.nameProperty start id) := by
  refine bind (eatMark _) fun hasDefault => ite ?_ ?_
  · exact bind h.assignment fun right => bind (spanFrom _) fun loc => pure _
  · exact bind (spanFrom _) fun loc => pure _

/-- Methods, values and bare names are told apart by the token after the key. -/
theorem propertyRest (start : Position) (m : MethodModifiers) (mayBeShorthand : Bool) (key : Key) :
    Relaxes (g.propertyRest start m mayBeShorthand key) := by
  refine bind (atMark _) fun isMethod => ite ?_ (ite unexpected ?_)
  · exact bind (h.methodRest m) fun value => bind (spanFrom _) fun loc => pure _
  refine bind (eatMark _) fun hasValue => ite ?_ ?_
  · exact bind h.assignment fun value => bind (spanFrom _) fun loc => pure _
  · split
    · exact ite (h.nameProperty start _) (fail _ _)
    · exact unexpected

/-- A spread, or modifiers and a key with what follows it. -/
theorem property : Relaxes g.property := by
  refine bind here fun start => bind (eatMark _) fun isSpread => ite ?_ ?_
  · exact bind h.assignment fun argument => bind (spanFrom _) fun loc => pure _
  · refine bind relaxes_methodModifiers fun m => bind (atKind _) fun mayBeShorthand => ?_
    exact bind h.key fun key => h.propertyRest start m mayBeShorthand key

/-- Under more permissions an object literal has the same properties. -/
theorem objectLiteral : Relaxes g.objectLiteral := by
  refine bind here fun start => bind (expectMark _) fun _ => ?_
  refine bind h.property.commaSeparated.allowIn fun properties => ?_
  exact bind (spanFrom _) fun loc => pure _

/-- One token decides which of the primary expressions begins. -/
theorem primary : Relaxes g.primary := by
  refine bind kind fun k => ?_
  split
  · exact h.parenOrArrow
  · exact h.arrayLiteral
  · exact h.objectLiteral
  · exact bind here fun start => bind (h.function start false false) fun _ => pure _
  · exact bind (h.classDefinition false) fun _ => pure _
  · exact h.importExpression
  · exact h.identifierExpression
  · exact bind (h.template false) fun _ => pure _
  · exact bind (h.template false) fun _ => pure _
  · exact relaxes_literal

/-! ### Operands -/

/-- The member access after an operand, or none, is found under both options. -/
theorem memberAccess? (start : Position) (e : Expr) : Relaxes (g.memberAccess? start e) := by
  refine bind kind fun k => ?_
  split
  · refine bind skip fun _ => bind relaxes_memberName fun property => ?_
    exact bind (spanFrom _) fun loc => pure _
  · refine bind skip fun _ => bind h.bracketExpression fun property => ?_
    exact bind (spanFrom _) fun loc => pure _
  · exact bind (h.template true) fun quasi => bind (spanFrom _) fun loc => pure _
  · exact bind (h.template true) fun quasi => bind (spanFrom _) fun loc => pure _
  · exact pure _

/-- After `?.` stand arguments, an expression in brackets or a name. -/
theorem optionalAccess (start : Position) (e : Expr) : Relaxes (g.optionalAccess start e) := by
  refine bind skip fun _ => bind (atMark _) fun isCall => ite ?_ ?_
  · exact bind h.arguments fun arguments => bind (spanFrom _) fun loc => pure _
  refine bind (eatMark _) fun isComputed => ite ?_ ?_
  · exact bind h.bracketExpression fun property => bind (spanFrom _) fun loc => pure _
  · exact bind relaxes_memberName fun property => bind (spanFrom _) fun loc => pure _

/-- As `memberAccess?`, with calls among what may follow. -/
theorem access? (start : Position) (e : Expr) : Relaxes (g.access? start e) := by
  refine bind kind fun k => ?_
  split
  · exact bind (h.optionalAccess start e) fun _ => pure _
  · exact bind h.arguments fun _ => bind (spanFrom _) fun _ => pure _
  · exact h.memberAccess? start e

omit h in
/-- However an operand goes on, its accesses are read one after the other. -/
theorem accesses {step : Expr → Parser (Option Expr)} (hstep : ∀ e, Relaxes (step e)) (e : Expr) :
    Relaxes (Grammar.accesses step e) := by
  refine repeatFrom (fun e => bind (hstep e) fun e' => ?_) _
  cases e' with
  | none => exact pure _
  | some a => exact pure _

/-- An optional chain after the operand of `new` is refused under all options. -/
theorem newCallee : Relaxes g.newCallee := by
  refine bind here fun start => bind (atWord _) fun isNew => ?_
  refine join h.newExpr h.primary fun first => ?_
  refine bind (accesses (h.memberAccess? start) first) fun callee => ?_
  refine bind (atMark _) fun isOptional => ite ?_ (pure _)
  exact bind here fun place => fail _ _

/-- Whether `new.target` may stand here is said by the context. -/
theorem newBody : Relaxes g.newBody := by
  refine bind here fun start => bind (expectKind _) fun word => ?_
  refine bind (eatMark _) fun isTarget => ite (relaxes_newTarget start word) ?_
  refine bind h.newCallee fun callee => bind (atMark _) fun hasArguments => ?_
  exact join h.arguments (pure _) fun arguments => bind (spanFrom _) fun loc => pure _

/-- Arrows are not accessed or called. -/
theorem leftHandSideBody : Relaxes g.leftHandSideBody := by
  refine bind here fun start => bind (atWord _) fun isNew => ?_
  refine join h.newBody h.primary fun e => ?_
  exact ite (pure _) (accesses (h.access? start) e)

/-- An updating operator belongs to the operand before it unless a line ends between them. -/
theorem postfixOperand (start : Position) : Relaxes (g.postfixOperand start) := by
  refine bind h.leftHandSideBody fun e => bind kind fun k => ?_
  split
  · exact pure _
  · refine bind afterNewline fun isApart => ite (pure _) ?_
    refine bind (relaxes_checkUpdateTarget _) fun _ => bind skip fun _ => ?_
    exact bind (spanFrom _) fun loc => pure _

/-- `await` is an operator where the context says so. -/
theorem unaryBody : Relaxes g.unaryBody := by
  refine bind here fun start => bind kind fun k => bind kind fun k => ?_
  split
  · exact bind skip fun _ => bind h.unary fun argument => bind (spanFrom _) fun loc => pure _
  · refine bind skip fun _ => bind h.unary fun argument => ?_
    refine bind (relaxes_checkUpdateTarget _) fun _ => ?_
    exact bind (spanFrom _) fun loc => pure _
  · refine bind context fun around => bind token fun t => ite ?_ (h.postfixOperand start)
    exact bind skip fun _ => bind h.unary fun argument => bind (spanFrom _) fun loc => pure _

/-! ### Operations and assignments -/

/-- A private name stands only before `in`, and only where that is an operator. -/
theorem privateIn (start : Position) (floor : Nat) : Relaxes (g.privateIn start floor) := by
  refine bind context fun around => ite unexpected (bind peek fun next => ite unexpected ?_)
  refine bind bump fun t => bind skip fun _ => bind (h.operation _) fun right => ?_
  exact bind (spanFrom _) fun loc => pure _

/-- Which operators are taken depends on the floor and the context alone. -/
theorem operations (start : Position) (floor : Nat) (first : Expr) :
    Relaxes (g.operations start floor first) := by
  refine repeatFrom (fun left => bind (relaxes_operator? floor) fun op => ?_) _
  split
  · exact pure _
  · refine ite (fail _ _) (bind skip fun _ => bind (h.operation _) fun right => ?_)
    exact bind (spanFrom _) fun loc => pure _

/-- An arrow takes no operators. -/
theorem operationBody (floor : Nat) : Relaxes (g.operationBody floor) := by
  refine bind here fun start => bind (atKind _) fun isPrivate => ?_
  refine join (h.privateIn start floor) h.unaryBody fun first => ?_
  exact ite (pure _) (h.operations start floor first)

/-- The test of a conditional is an operation, and its branches are assignments. -/
theorem conditional : Relaxes g.conditional := by
  refine bind here fun start => bind (h.operationBody 0) fun test => ite (pure _) ?_
  refine bind (eatMark _) fun isConditional => ite ?_ (pure _)
  refine bind h.assignment.allowIn fun consequent => bind (expectMark _) fun _ => ?_
  exact bind h.assignment fun alternate => bind (spanFrom _) fun loc => pure _

/-- Whether `yield` has an argument is decided by the line end and the token after it. -/
theorem yieldExpression : Relaxes g.yieldExpression := by
  refine bind here fun start => bind skip fun _ => bind afterNewline fun isAlone => ite ?_ ?_
  · exact bind (spanFrom _) fun loc => pure _
  refine bind (eatMark _) fun isDelegate => ite ?_ ?_
  · exact bind h.assignment fun argument => bind (spanFrom _) fun loc => pure _
  · refine bind context fun around => bind kind fun k => ite ?_ ?_
    · exact bind (spanFrom _) fun loc => pure _
    · exact bind h.assignment fun argument => bind (spanFrom _) fun loc => pure _

/-- The left side is read again as a target without any options. -/
theorem conditionalOrAssignment : Relaxes g.conditionalOrAssignment := by
  refine bind here fun start => bind h.conditional fun left => bind kind fun k => ?_
  split
  · exact pure _
  · refine ite (pure _) (bind (ofExcept _) fun target => bind skip fun _ => ?_)
    exact bind h.assignment fun right => bind (spanFrom _) fun loc => pure _

/-- `yield` is an expression of its own where the context says so. -/
theorem assignmentBody : Relaxes g.assignmentBody :=
  bind context fun _ => bind token fun _ => ite h.yieldExpression h.conditionalOrAssignment

/-! ### Statements -/

/-- A default export is a function, a class or an expression by what it begins with. -/
theorem defaultExport : Relaxes g.defaultExport := by
  refine bind here fun start => bind (atWord _) fun isFunction => ite ?_ ?_
  · exact bind (h.function start false false) fun f => pure _
  refine bind relaxes_atAsyncFunction fun isAsync => ite ?_ ?_
  · exact bind skip fun _ => bind (h.function start true false) fun f => pure _
  refine bind (atWord _) fun isClass => ite ?_ ?_
  · exact bind (h.classDefinition false) fun c => pure _
  · exact bind h.assignment fun e => bind semicolon fun _ => pure _

/-- Where an export may stand is not asked here but by the statement that holds it. -/
theorem exportDeclaration : Relaxes g.exportDeclaration := by
  refine bind here fun start => bind (expectWord _) fun _ => ?_
  refine bind (eatWord _) fun isDefault => ite ?_ ?_
  · exact bind h.defaultExport fun value => bind (spanFrom _) fun loc => pure _
  refine bind (eatMark _) fun isAll => ite (relaxes_exportAll start) ?_
  refine bind (eatMark _) fun isList => ite (relaxes_exportList start) ?_
  refine bind relaxes_atExportable fun isDeclaration => ite ?_ unexpected
  exact bind (h.statement false) fun declaration => bind (spanFrom _) fun loc => pure _

/-- A name that `let` must not declare is refused under all options. -/
theorem declarator (kind : VarKind) : Relaxes (g.declarator kind) := by
  refine bind here fun start => bind h.bindingTarget fun id => ?_
  refine bind (relaxes_checkLexicalNames _ _) fun _ => bind (eatMark _) fun hasValue => ?_
  refine join h.assignment.map (pure _) fun value => ?_
  exact bind (spanFrom _) fun loc => pure _

/-- Of the declarators between commas each is read the same. -/
theorem varDecl : Relaxes g.varDecl := by
  refine bind here fun start => bind relaxes_varKind fun kind => ?_
  refine bind (h.declarator kind) fun first => bind (h.declarator kind).afterCommas fun others => ?_
  exact bind (spanFrom _) fun loc => pure _

/-- A declaration and its semicolon, which is left out under both options or none. -/
theorem varStatement (start : Position) : Relaxes (g.varStatement start) := by
  refine bind h.varDecl fun ⟨loc, kind, declarators⟩ => bind semicolon fun _ => ?_
  exact bind (spanFrom _) fun loc => pure _

/-- The word `else` belongs to the nearest `if` under both options. -/
theorem ifStatement (start : Position) : Relaxes (g.ifStatement start) := by
  refine bind skip fun _ => bind h.parenExpression fun test => ?_
  refine bind (h.statement false) fun consequent => bind (eatWord _) fun hasElse => ?_
  refine join (h.statement false).map (pure _) fun alternate => ?_
  exact bind (spanFrom _) fun loc => pure _

/-- A clause has a test after `case` and none after `default`. -/
theorem caseTest : Relaxes g.caseTest := by
  refine bind (eatWord _) fun hasTest => ite ?_ ?_
  · exact bind h.expression.allowIn fun test => pure _
  · exact bind (expectWord _) fun _ => pure _

/-- The statements of a clause end where the next clause or the whole `switch` does. -/
theorem switchCase : Relaxes g.switchCase := by
  refine bind here fun start => bind h.caseTest fun test => bind (expectMark _) fun _ => ?_
  refine bind (collectUntil relaxes_atCaseEnd (h.statement false)) fun consequent => ?_
  refine bind (atKind _) fun atEnd => ite unexpected ?_
  exact bind (spanFrom _) fun loc => pure _

/-- The clauses are read where `break` may stand, which is a matter of context. -/
theorem switchStatement (start : Position) : Relaxes (g.switchStatement start) := by
  refine bind skip fun _ => bind h.parenExpression fun discriminant => ?_
  refine bind (expectMark _) fun _ => ?_
  refine bind (withContext (collectUntil (eatMark _) h.switchCase)) fun cases => ?_
  exact bind (spanFrom _) fun loc => pure _

/-- The body of a loop is a statement in a context of its own. -/
theorem loopBody : Relaxes g.loopBody := withContext (h.statement false)

/-- A test and a body. -/
theorem whileStatement (start : Position) : Relaxes (g.whileStatement start) := by
  refine bind skip fun _ => bind h.parenExpression fun test => ?_
  exact bind h.loopBody fun body => bind (spanFrom _) fun loc => pure _

/-- The semicolon after the test is passed if there is one, and not missed otherwise. -/
theorem doWhileStatement (start : Position) : Relaxes (g.doWhileStatement start) := by
  refine bind skip fun _ => bind h.loopBody fun body => ?_
  refine bind (expectWord _) fun _ => bind h.parenExpression fun test => ?_
  refine bind (discard (eatMark _)) fun _ => ?_
  exact bind (spanFrom _) fun loc => pure _

/-- A loop begins with a declaration or an expression. -/
theorem forInit : Relaxes g.forInit := by
  refine bind relaxes_atVarDecl fun isDecl => ite ?_ ?_
  · exact bind h.varDecl fun d => pure _
  · exact bind h.expression fun e => pure _

/-- The mark after an expression shows whether it was left out. -/
theorem optionalExpression (mark : Punctuator) : Relaxes (g.optionalExpression mark) :=
  bind (atMark _) fun _ => ite (pure _) (bind h.expression.allowIn fun _ => pure _)

/-- Test and update may be left out, and the body may not. -/
theorem forRest (start : Position) (init : Option ForInit) : Relaxes (g.forRest start init) := by
  refine bind (expectMark _) fun _ => bind (h.optionalExpression _) fun test => ?_
  refine bind (expectMark _) fun _ => bind (h.optionalExpression _) fun update => ?_
  refine bind (expectMark _) fun _ => bind h.loopBody fun body => ?_
  exact bind (spanFrom _) fun loc => pure _

/-- What the loop begins with is read again as a target without any options. -/
theorem forOfRest (start : Position) (isAwait : Bool) (init : ForInit) :
    Relaxes (g.forOfRest start isAwait init) := by
  refine bind (relaxes_forTarget init) fun target => bind skip fun _ => ?_
  refine bind h.assignment.allowIn fun right => bind (expectMark _) fun _ => ?_
  exact bind h.loopBody fun body => bind (spanFrom _) fun loc => pure _

/-- As `forOfRest`, with commas in what is looped over. -/
theorem forInRest (start : Position) (init : ForInit) : Relaxes (g.forInRest start init) := by
  refine bind (relaxes_forTarget init) fun target => bind skip fun _ => ?_
  refine bind h.expression.allowIn fun right => bind (expectMark _) fun _ => ?_
  exact bind h.loopBody fun body => bind (spanFrom _) fun loc => pure _

/-- Which loop it is turns on the token after what it begins with. -/
theorem forStatement (start : Position) : Relaxes (g.forStatement start) := by
  refine bind skip fun _ => bind relaxes_eatAwait fun isAwait => bind (expectMark _) fun _ => ?_
  refine bind (atMark _) fun isBare => ite (h.forRest start none) ?_
  refine bind h.forInit.withContext fun init => ?_
  refine bind (atName _) fun isOf => ite (h.forOfRest start isAwait init) ?_
  exact bind (atWord _) fun isIn => ite (h.forInRest start init) (h.forRest start (some init))

/-- A `return` may stand where it may under fewer permissions. -/
theorem returnStatement (start : Position) : Relaxes (g.returnStatement start) := by
  refine guard (fun env o ho hallowed => ?_) ?_
  · simp only [Bool.and_eq_false_iff, Bool.not_eq_false'] at hallowed ⊢
    exact hallowed.imp_right ho.returnAnywhere
  · refine bind skip fun _ => bind atStatementEnd fun isBare => ?_
    refine join (pure _) h.expression.map fun argument => bind semicolon fun _ => ?_
    exact bind (spanFrom _) fun loc => pure _

/-- A line end after `throw` is a fault under both options. -/
theorem throwStatement (start : Position) : Relaxes (g.throwStatement start) := by
  refine bind skip fun _ => bind afterNewline fun isApart => ite ?_ ?_
  · exact bind here fun place => fail _ _
  · refine bind h.expression fun argument => bind semicolon fun _ => ?_
    exact bind (spanFrom _) fun loc => pure _

/-- The clause and its parameter may both be left out. -/
theorem catchClause : Relaxes g.catchClause := by
  refine bind here fun start => bind (eatWord _) fun hasClause => ite ?_ (pure _)
  refine bind (eatMark _) fun hasParam => ite ?_ ?_
  · refine bind h.bindingTarget fun param => bind (expectMark _) fun _ => ?_
    exact bind (pure _) fun param => bind h.block fun body => bind (spanFrom _) fun loc => pure _
  · exact bind (pure _) fun param => bind h.block fun body => bind (spanFrom _) fun loc => pure _

/-- A `try` with neither `catch` nor `finally` is a fault under both options. -/
theorem tryStatement (start : Position) : Relaxes (g.tryStatement start) := by
  refine bind skip fun _ => bind h.block fun body => bind h.catchClause fun handler => ?_
  refine bind (eatWord _) fun hasFinally => join h.block.map (pure _) fun finalizer => ite ?_ ?_
  · exact bind here fun place => fail _ _
  · exact bind (spanFrom _) fun loc => pure _

/-- No option forbids `with`. -/
theorem withStatement (start : Position) : Relaxes (g.withStatement start) := by
  refine bind skip fun _ => bind h.parenExpression fun object => ?_
  exact bind (h.statement false) fun body => bind (spanFrom _) fun loc => pure _

/-- A label must not be one of those around it, which are the same under both options. -/
theorem labeledStatement (start : Position) : Relaxes (g.labeledStatement start) := by
  refine bind ident fun label => read (fun env => ite (fail _ _) ?_) fun _ _ => rfl
  refine bind (expectMark _) fun _ => bind (h.statement false).withLabel fun body => ?_
  exact bind (spanFrom _) fun loc => pure _

/-- An expression and its semicolon. -/
theorem expressionStatement (start : Position) : Relaxes (g.expressionStatement start) :=
  bind h.expression fun _ => bind semicolon fun _ => bind (spanFrom _) fun _ => pure _

/-- Declarations with `let`, `async` functions and labels are told from expressions by the token
after the identifier. -/
theorem statementAtName (start : Position) : Relaxes (g.statementAtName start) := by
  refine bind relaxes_atLetDeclaration fun isDecl => ite (h.varStatement start) ?_
  refine bind relaxes_atAsyncFunction fun isFunction => ite ?_ ?_
  · exact bind skip fun _ => bind (h.function start true true) fun f => pure _
  · exact bind peek fun next => ite (h.labeledStatement start) (h.expressionStatement start)

/-- An import that is called or accessed needs no permission, and any other may stand where it may
under fewer permissions. -/
theorem statementAtImport (start : Position) (isTopLevel : Bool) :
    Relaxes (g.statementAtImport start isTopLevel) := by
  refine bind peek fun next => ?_
  split
  · exact h.expressionStatement start
  · exact h.expressionStatement start
  · refine bind (relaxes_checkModulePosition _ _) fun _ => ?_
    exact bind relaxes_importDeclaration fun d => pure _

/-- By the word, one statement each. -/
theorem statementAtWord (start : Position) (isTopLevel : Bool) (word : Keyword) :
    Relaxes (g.statementAtWord start isTopLevel word) := by
  unfold Grammar.statementAtWord
  split
  case h_1 | h_2 => exact h.varStatement start
  case h_3 => exact bind (h.function start false true) fun f => pure _
  case h_4 => exact bind (h.classDefinition true) fun c => pure _
  case h_5 => exact h.ifStatement start
  case h_6 => exact h.forStatement start
  case h_7 => exact h.whileStatement start
  case h_8 => exact h.doWhileStatement start
  case h_9 => exact h.switchStatement start
  case h_10 => exact h.tryStatement start
  case h_11 => exact h.returnStatement start
  case h_12 => exact h.throwStatement start
  case h_13 => exact relaxes_jumpStatement start true
  case h_14 => exact relaxes_jumpStatement start false
  case h_15 => exact relaxes_debuggerStatement start
  case h_16 => exact h.withStatement start
  case h_17 => exact h.statementAtImport start isTopLevel
  case h_18 =>
    refine bind (relaxes_checkModulePosition _ _) fun _ => ?_
    exact bind h.exportDeclaration fun d => pure _
  case h_19 => exact h.expressionStatement start

/-- What a statement is, is decided by its first token. -/
theorem statementBody (isTopLevel : Bool) : Relaxes (g.statementBody isTopLevel) := by
  refine bind here fun start => bind kind fun k => ?_
  split
  · exact bind h.block fun b => pure _
  · exact bind bump fun t => pure _
  · exact h.statementAtName start
  · exact h.statementAtWord start isTopLevel _
  · exact h.expressionStatement start

end Relaxed

/-! ## The grammar of all levels -/

/-- At the limit of nesting nothing is read under any options. -/
theorem relaxes_tooDeep {α : Type} : Relaxes (tooDeep : Parser α) :=
  bind here fun _ => fail _ _

/-- The induction on the level begins with the grammar that reads nothing. -/
theorem relaxed_limit : limit.Relaxed :=
  ⟨fun _ => relaxes_tooDeep, relaxes_tooDeep, fun _ => relaxes_tooDeep, relaxes_tooDeep,
    relaxes_tooDeep, relaxes_tooDeep, relaxes_tooDeep, relaxes_tooDeep⟩

/-- One level more: the productions of a level are made of those of the level inside it. -/
theorem Relaxed.deeper {g : Grammar} (h : g.Relaxed) : g.deeper.Relaxed where
  statement := h.statementBody
  assignment := h.assignmentBody
  operation := h.operationBody
  unary := h.unaryBody
  leftHandSide := h.leftHandSideBody
  newExpr := h.newBody
  arrayPattern := h.arrayPatternBody
  objectPattern := h.objectPatternBody

/-- The grammar of every level reads the same under options that allow more. -/
theorem relaxed_nest (n : Nat) : (nest n).Relaxed := by
  induction n with
  | zero => exact relaxed_limit
  | succ n ih => exact ih.deeper

/-- The source type goes into the tree, and is the same on both sides. -/
theorem Relaxed.program {g : Grammar} (h : g.Relaxed) : Relaxes g.program := by
  refine bind here fun start => bind (collectUntil (atKind _) (h.statement true)) fun body =>
    bind token fun t => fun env s r o ho hrun => ?_
  rw [← hrun]
  show Except.ok (Program.mk _ o.sourceType body, s) = .ok (.mk _ env.options.sourceType body, s)
  rw [ho.sourceType]

end Grammar

/-- **Permissions.** A text that can be read is read the same, with the same places, under options
that allow `return` and module declarations wherever the first ones do. -/
theorem parse_relaxed {o o' : Options} {source : List Char} {p : Program} (ho : o.Relaxed o')
    (h : parse o source = .ok p) : parse o' source = .ok p := by
  unfold parse at h ⊢
  split at h
  · cases h
  · next first lexer hfirst =>
    obtain ⟨⟨q, s⟩, hrun, rfl⟩ := exists_of_map_eq_ok h
    have hsame : o'.surrounding = o.surrounding.under o' := by
      unfold Options.surrounding Surrounding.under
      rw [ho.sourceType]
    have hprogram : Relaxes (Grammar.nest Grammar.maxNesting).program :=
      (Grammar.relaxed_nest _).program
    rw [hsame, @hprogram o.surrounding _ _ _ ho hrun]
    rfl

/-- A module with an import and an arrow that returns, under options that allow nothing more and
under options that allow everything. -/
theorem parse_relaxed_module :
    ∃ p, parse ⟨.module, false, false⟩ "import a from 'b'; () => \x7b return \x7d".toList = .ok p ∧
      parse ⟨.module, true, true⟩ "import a from 'b'; () => \x7b return \x7d".toList = .ok p := by
  have hrelaxed : Options.Relaxed ⟨.module, false, false⟩ ⟨.module, true, true⟩ :=
    ⟨rfl, nofun, nofun⟩
  have hread : (parse ⟨.module, false, false⟩
      "import a from 'b'; () => \x7b return \x7d".toList).isOk := by decide +kernel
  cases h : parse ⟨.module, false, false⟩ "import a from 'b'; () => \x7b return \x7d".toList with
  | error e =>
    rw [h] at hread
    cases hread
  | ok p => exact ⟨p, rfl, parse_relaxed hrelaxed h⟩

end WithScope
