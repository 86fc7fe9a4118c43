import WithScope.Proofs.Grammar.Advances
import WithScope.Proofs.Tree.Legal

/-!
# Primary expressions move past tokens

`Grammar.Consuming` says of the productions through which the grammar contains itself that they move
past tokens. Then so do the productions that are made of them, here those of patterns, functions and
classes, and of primary expressions, and so does every round of a repetition but the last. Where a
production does nothing more than to move past one token, that token is known not to be the end of
the text.
-/

namespace WithScope

/-! ## Expressions read again as patterns -/

/-- A result that is no spent budget. -/
def Unspent {α : Type} (x : Except SyntaxError α) : Prop := ∀ e, x = .error e → e.NotSpent

namespace Unspent

variable {α β : Type} {x : Except SyntaxError α}

theorem ok (a : α) : Unspent (.ok a : Except SyntaxError α) := nofun

theorem error {e : SyntaxError} (h : e.cause ≠ .budgetSpent) :
    Unspent (.error e : Except SyntaxError α) := fun _ he => by cases he; exact h

/-- A step that spends nothing, and then another one. -/
theorem bind {f : α → Except SyntaxError β} (hx : Unspent x) (hf : ∀ a, Unspent (f a)) :
    Unspent (x >>= f) := by
  cases x with
  | error e => exact error (hx e rfl)
  | ok a => exact hf a

theorem map {f : α → β} (hx : Unspent x) : Unspent (f <$> x) := by
  cases x with
  | error e => exact error (hx e rfl)
  | ok a => exact ok _

/-- Neither of two ways spends anything. -/
theorem ite {c : Prop} [Decidable c] {y : Except SyntaxError α} (hx : Unspent x) (hy : Unspent y) :
    Unspent (if c then x else y) := by
  split
  · exact hx
  · exact hy

end Unspent

open Unspent in
mutual

/-- Reading an expression again as a pattern walks over the tree, which takes no budget. -/
theorem unspent_toPattern (declares : Bool) (e : Expr) : Unspent (e.toPattern declares) := by
  unfold Expr.toPattern
  split
  · exact ok _
  · exact (unspent_elements declares _).map
  · exact (unspent_properties declares _).map
  · exact ite (error nofun) (ok _)
  · refine ite (error nofun) ?_
    split
    · exact ok _
    · split
      · exact unspent_toPattern false _
      · exact unspent_toPattern false _
      · exact unspent_toPattern false _
      · exact error nofun
    · exact error nofun

/-- As `unspent_toPattern`, for the elements of an array literal. -/
theorem unspent_elements (declares : Bool) (elements : List (Option Expr)) :
    Unspent (toPatternElements declares elements) := by
  unfold toPatternElements
  split
  · exact ok _
  · exact (unspent_elements declares _).bind fun _ => ok _
  · split
    · exact error nofun
    · exact (unspent_toPattern declares _).bind fun _ => ok _
  · exact (unspent_toPattern declares _).bind fun _ =>
      (unspent_elements declares _).bind fun _ => ok _

/-- As `unspent_toPattern`, for the properties of an object literal. -/
theorem unspent_properties (declares : Bool) (properties : List Property) :
    Unspent (toPatternProperties declares properties) := by
  unfold toPatternProperties
  split
  · exact ok _
  · split
    · exact error nofun
    · exact (unspent_toPattern declares _).bind fun _ => ok _
  · exact (unspent_property declares _).bind fun _ =>
      (unspent_properties declares _).bind fun _ => ok _

/-- As `unspent_toPattern`, for one property. -/
theorem unspent_property (declares : Bool) (p : Property) : Unspent (p.toPattern declares) := by
  unfold Property.toPattern
  split
  · exact ok _
  · split
    · exact ok _
    · exact (unspent_toPattern declares _).map
  · exact (unspent_toPattern declares _).map
  · exact error nofun
  · exact error nofun
  · exact (unspent_toPattern declares _).map

end

/-- The faults of parameters are about their shape. -/
theorem unspent_toParams (items : List Expr) : Unspent (toParams items) := by
  fun_induction toParams items with
  | case1 => exact .ok _
  | case2 => exact .error nofun
  | case3 loc argument => exact (unspent_toPattern true argument).bind fun _ => .ok _
  | case4 e items _ ih => exact (unspent_toPattern true e).bind fun _ => ih.bind fun _ => .ok _

/-- The only fault of a simple target is that it is none. -/
theorem unspent_toSimpleTarget (e : Expr) : Unspent e.toSimpleTarget :=
  .ite (unspent_toPattern false e) (.error nofun)

/-- The target of an assignment is a pattern or a simple one. -/
theorem unspent_assignTarget (op : AssignOp) (left : Expr) :
    Unspent (Grammar.assignTarget op left) :=
  .ite (unspent_toPattern false left) (unspent_toSimpleTarget left)

open WithScope.Parser (Runs Advances Consumes Proceeds Rounds)
open WithScope.Parser.Advances

namespace Grammar

variable {source : List Char}

/-! ## Productions that do not contain themselves -/

/-- A name that may be left out is passed if it is there. -/
theorem proceeds_optionalName (isRequired : Bool) (isName : Token → Bool) :
    Proceeds source (optionalName isRequired isName) :=
  pass token fun _ => ite (pass ident fun _ => pure rfl) (ite unexpected (pure rfl))

/-- Whether an arrow follows is seen without moving. -/
theorem proceeds_atArrow : Proceeds source atArrow :=
  pass (atMark _) fun _ => ite (pass afterNewline fun _ => pure rfl) (pure rfl)

/-- The token after `async` is looked at and not passed. -/
theorem proceeds_atAsyncFunction : Proceeds source atAsyncFunction :=
  pass (atName _) fun _ => ite (pass peek fun _ => pure rfl) (pure rfl)

/-- The token after a modifier is looked at and not passed. -/
theorem proceeds_atModifier (word : String) : Proceeds source (atModifier word) :=
  pass (atName _) fun _ => ite (pass peek fun _ => pure rfl) (pure rfl)

/-- There may be no modifier, and then nothing is passed. -/
theorem proceeds_methodModifiers : Proceeds source methodModifiers := by
  have hstar (kind : MethodKind) (isAsync : Bool) :
      Proceeds source
        (do return ⟨kind, isAsync, ← Parser.eatMark .star⟩ : Parser MethodModifiers) :=
    pass (eatMark _) fun _ => pure rfl
  refine pass (proceeds_atModifier _) fun _ => ite (pass skip fun _ => hstar _ _) ?_
  refine pass (proceeds_atModifier _) fun _ => ite (pass skip fun _ => pure rfl) ?_
  exact pass (proceeds_atModifier _) fun _ => ite (pass skip fun _ => pure rfl) (hstar _ _)

/-- The token in place of the slash is passed. -/
theorem runs_regExp {env : Surrounding} {s : ParserState} (hs : s.Sound source)
    (hk : s.token.kind.isSlash) : Runs source (fun _ => true) env s regExp := by
  refine Parser.Outcome.bind (Runs.rescan hs hk) fun _ s' h => ?_
  obtain ⟨hlater, hk'⟩ := h
  refine Parser.Outcome.mono ((Runs.take hlater.sound hk').bind fun t => ?_)
    fun _ _ => hlater.trans
  split
  · exact pure rfl
  · exact fail nofun

/-- A token of a kind that is known, and what is made of it. -/
theorem runs_leaf {α : Type} {env : Surrounding} {s : ParserState} {k : TokenKind} {mk : Token → α}
    (hs : s.Sound source) (hk : s.token.kind = k) (hne : k ≠ .eof) :
    Runs source (fun _ => true) env s (do return mk (← Parser.bump)) :=
  (Runs.take hs (hk ▸ hne)).bind fun _ => pure rfl

/-- Every literal is a token, which is not the last one since its kind is known. -/
theorem consumes_literal : Consumes source literal := by
  refine fun env s hs => .kind ?_
  split
  case h_2 hk =>
    refine (Runs.take hs (by rw [hk]; exact nofun)).bind fun t => pass kind fun k => ?_
    split
    · exact pure rfl
    · exact pure rfl
    · exact pure rfl
    · exact fail nofun
  case h_9 hk | h_10 hk => exact runs_regExp hs (by rw [hk]; rfl)
  case h_11 => exact unexpected hs
  all_goals
    next hk => exact runs_leaf hs hk nofun

/-- After a point there has to be a name. -/
theorem consumes_memberName : Consumes source memberName := by
  refine fun env s hs => .ifKind (fun hk => ?_) ((take identName fun _ => pure rfl) hs)
  exact runs_leaf hs hk nofun

/-- The name after `new.` is passed before it is compared. -/
theorem consumes_newTarget (start : Position) (word : Token) :
    Consumes source (newTarget start word) := by
  refine take identName fun property => ite (fail nofun) ?_
  exact pass context fun around => ite (fail nofun) (pass (spanFrom _) fun _ => pure rfl)

/-- What can be updated is seen from the tree. -/
theorem proceeds_checkUpdateTarget (e : Expr) : Proceeds source (checkUpdateTarget e) :=
  ite (pure rfl) (fail nofun)

/-- An operator is looked at; it is passed only when it is taken. -/
theorem proceeds_operator? (floor : Nat) : Proceeds source (operator? floor) :=
  pass context fun _ => pass kind fun _ => pure rfl

/-! ## Rounds -/

/-- A statement of a block, if the text goes on. -/
def blockItem (g : Grammar) : Parser Stmt := do
  if ← Parser.atKind .eof then Parser.unexpected else g.statement false

/-- One round of the elements of a class. -/
def memberRound (g : Grammar) (members : List Member) : Parser (List Member ⊕ List Member) := do
  if ← Parser.eatMark .rightBrace then return .inr members.reverse
  else if ← Parser.eatMark .semicolon then return .inl members
  else return .inl ((← g.member) :: members)

/-- The elements of a class are collected round by round. -/
theorem members_eq (g : Grammar) : g.members = Parser.repeatFrom [] g.memberRound := rfl

/-! ## Productions that contain each other -/

/-- The productions through which a grammar contains itself move past tokens. -/
structure Consuming (source : List Char) (g : Grammar) : Prop where
  statement : ∀ isTopLevel, Consumes source (g.statement isTopLevel)
  assignment : Consumes source g.assignment
  operation : ∀ floor, Consumes source (g.operation floor)
  unary : Consumes source g.unary
  leftHandSide : Consumes source g.leftHandSide
  newExpr : Consumes source g.newExpr
  arrayPattern : Consumes source g.arrayPattern
  objectPattern : Consumes source g.objectPattern

namespace Consuming

variable {g : Grammar} (h : g.Consuming source)
include h

/-! ### Expressions in brackets -/

/-- An expression moves past its first assignment. -/
theorem expression : Consumes source g.expression := by
  refine pass here fun start => take h.assignment fun first => ?_
  refine pass (atMark _) fun isList => ite ?_ (pure rfl)
  exact pass h.assignment.afterCommas fun others => pass (spanFrom _) fun loc => pure rfl

/-- Its opening parenthesis is passed at least. -/
theorem parenExpression : Consumes source g.parenExpression := by
  refine take (expectMark _) fun opening => pass h.expression.allowIn fun e => ?_
  exact pass (expectMark _) fun closing => pure rfl

/-- What stands in brackets is not empty. -/
theorem bracketExpression : Consumes source g.bracketExpression :=
  take h.expression.allowIn fun _ => pass (expectMark _) fun _ => pure rfl

/-- A spread moves past its points, and anything else past a token of its own. -/
theorem spreadOrAssignment : Consumes source g.spreadOrAssignment := by
  refine pass here fun start => pass (eatMark _) fun isSpread => ite ?_ h.assignment
  exact take h.assignment fun argument => pass (spanFrom _) fun loc => pure rfl

/-- Even empty arguments have their parentheses. -/
theorem arguments : Consumes source g.arguments :=
  take (expectMark _) fun _ => any h.spreadOrAssignment.commaSeparated.allowIn

/-- A key is a token at least; a computed one has its bracket. -/
theorem key : Consumes source g.key := by
  refine fun env s hs => .kind ?_
  split
  case h_1 hk | h_2 hk | h_3 hk | h_4 hk => exact runs_leaf hs hk nofun
  case h_5 hk =>
    refine (Runs.skip hs (by rw [hk]; exact nofun)).bind fun _ => ?_
    exact pass h.assignment.allowIn fun _ => pass (expectMark _) fun _ => pure rfl
  case h_6 => exact (take identName fun _ => pure rfl) hs

/-- A stretch of a template is passed, and after an expression there is another one. -/
theorem templateStep {env : Surrounding} {s : ParserState} (hs : s.Sound source)
    (hk : s.token.kind ≠ .eof) (isTagged : Bool) (parts : TemplateParts) :
    Parser.Outcome SyntaxError.NotSpent env s (g.templateStep isTagged parts) fun r s' =>
      s.Later source true s' ∧ (r.isLeft = true → s'.token.kind ≠ .eof) := by
  refine Parser.Outcome.bind (Runs.take hs hk) fun t s₁ h₁ => ?_
  dsimp only
  split
  · exact .fail nofun
  split
  · exact .pure ⟨h₁, nofun⟩
  refine Parser.Outcome.bind (h.expression.allowIn h₁.sound) fun e s₂ h₂ => ?_
  have hlater : s.Later source true s₂ := h₁.trans (h₂.mono fun _ => rfl)
  refine .kind ?_
  split
  · next hk => exact .pure ⟨hlater, fun _ => by rw [hk]; exact nofun⟩
  · next hk => exact .pure ⟨hlater, fun _ => by rw [hk]; exact nofun⟩
  · exact Runs.unexpected

/-- Even at the end of the text a round that is not the last one moves past a token, for an
expression is read in it. -/
theorem templateRound (isTagged : Bool) : Rounds source (g.templateStep isTagged) := by
  refine fun parts => pass bump fun t => ite (fail nofun) (ite (pure rfl) ?_)
  refine take h.expression.allowIn fun e => pass kind fun k => ?_
  split
  · exact pure rfl
  · exact pure rfl
  · exact unexpected

/-- A template begins with a part of it, so the current token must not be the last one. -/
theorem template {env : Surrounding} {s : ParserState} (hs : s.Sound source)
    (hk : s.token.kind ≠ .eof) (isTagged : Bool) :
    Runs source (fun _ => true) env s (g.template isTagged) := by
  refine .here (Runs.bind (t := fun _ => true) ?_ fun parts => pass (spanFrom _) fun _ => pure rfl)
  refine Runs.repeatFrom (I := fun s => s.token.kind ≠ .eof) (fun parts s hs hk => ?_) hs hk
  refine Parser.Outcome.mono (h.templateStep hs hk isTagged parts) fun r s' ⟨hlater, hk'⟩ => ?_
  exact ⟨hlater.mono fun _ => rfl, hk'⟩

/-! ### Patterns that declare names -/

/-- A pattern is a name or has a bracket to begin with. -/
theorem bindingTarget : Consumes source g.bindingTarget := by
  refine pass kind fun k => ?_
  split
  · exact h.arrayPattern
  · exact h.objectPattern
  · exact take ident fun _ => pure rfl

/-- The target is passed; its default value may be missing. -/
theorem bindingElement : Consumes source g.bindingElement := by
  refine pass here fun start => take h.bindingTarget fun target => ?_
  refine pass (eatMark _) fun hasDefault => ite ?_ (pure rfl)
  exact pass h.assignment.allowIn fun value => pass (spanFrom _) fun loc => pure rfl

/-- The points before a rest are passed. -/
theorem restBinding : Consumes source g.restBinding := by
  refine pass here fun start => take (expectMark _) fun points => ?_
  exact pass h.bindingTarget fun target => pass (spanFrom _) fun loc => pure rfl

/-- An element that is left out still has its comma. -/
theorem bindingElementOrHole : Consumes source g.bindingElementOrHole :=
  eaten (eatMark _) (pure rfl) h.bindingElement.itemAndComma.map

/-- An empty array pattern has its brackets. -/
theorem arrayPatternBody : Consumes source g.arrayPatternBody := by
  refine pass here fun start => take (expectMark _) fun opening => ?_
  refine pass (h.bindingElementOrHole.itemsWithRest h.restBinding.map) fun elements => ?_
  exact pass (spanFrom _) fun loc => pure rfl

/-- A property moves past its key, whatever follows. -/
theorem bindingProperty : Consumes source g.bindingProperty := by
  refine pass here fun start => pass (atKind _) fun isName => take h.key fun key => ?_
  refine pass (eatMark _) fun hasTarget => ite ?target ?shorthand
  case target => exact pass h.bindingElement fun value => pass (spanFrom _) fun loc => pure rfl
  case shorthand =>
    split
    · refine ite (fail nofun) (pass (eatMark _) fun hasDefault => ite ?_ ?_)
      · exact pass h.assignment.allowIn fun value => pass (spanFrom _) fun loc => pure rfl
      · exact pass (spanFrom _) fun loc => pure rfl
    · exact unexpected

omit h in
/-- The points before the rest of an object pattern are passed. -/
theorem restProperty : Consumes source Grammar.restProperty := by
  refine pass here fun start => take (expectMark _) fun points => ?_
  exact pass ident fun id => pass (spanFrom _) fun loc => pure rfl

/-- An empty object pattern has its braces. -/
theorem objectPatternBody : Consumes source g.objectPatternBody := by
  refine pass here fun start => take (expectMark _) fun opening => ?_
  refine pass (h.bindingProperty.itemAndComma.itemsWithRest restProperty) fun properties => ?_
  exact pass (spanFrom _) fun loc => pure rfl

/-! ### Functions and classes -/

/-- A statement of a block; the end of the text is none. -/
theorem blockItem : Consumes source g.blockItem :=
  pass (atKind _) fun _ => ite unexpected (h.statement false)

/-- An empty block has its braces. -/
theorem block : Consumes source g.block := by
  refine pass here fun start => take (expectMark _) fun opening => ?_
  refine pass (collectUntil (atMark _) h.blockItem) fun body => pass skip fun closing => ?_
  exact pass (spanFrom _) fun loc => pure rfl

/-- An empty list of parameters has its parentheses. -/
theorem params : Consumes source g.params :=
  take (expectMark _) fun _ => any (h.bindingElement.itemAndComma.itemsWithRest h.restBinding)

/-- A function moves past its parameters. -/
theorem functionRest (start : Position) (id : Option Ident) (isAsync isGenerator : Bool) :
    Consumes source (g.functionRest start id isAsync isGenerator) := by
  refine take (inBody ?_) fun rest => pass (spanFrom _) fun loc => pure rfl
  exact take h.params fun params => pass h.block fun body => pure rfl

/-- The word `function` is passed, or there is a fault. -/
theorem function (start : Position) (isAsync nameRequired : Bool) :
    Consumes source (g.function start isAsync nameRequired) := by
  refine take (expectWord _) fun word => pass (eatMark _) fun isGenerator => ?_
  refine pass (proceeds_optionalName _ _) fun id => ?_
  exact any (h.functionRest start id isAsync isGenerator)

/-- The arrow is passed, or there is a fault. -/
theorem arrowRest (start : Position) (params : List Pat) (isAsync : Bool) :
    Consumes source (g.arrowRest start params isAsync) := by
  refine take (expectMark _) fun arrow => pass context fun around => ?_
  refine pass (inBody (t := fun _ => false) ?_) fun body => pass (spanFrom _) fun loc => pure rfl
  refine pass (atMark _) fun hasBlock => ite ?_ ?_
  · exact pass h.block.allowIn fun block => pure rfl
  · exact pass h.assignment fun value => pure rfl

/-- A method moves past its parameters. -/
theorem methodRest (m : MethodModifiers) : Consumes source (g.methodRest m) :=
  pass here fun start => h.functionRest start none m.isAsync m.isGenerator

/-- As `methodRest`, with a place of its own. -/
theorem classMethod (start : Position) (isStatic : Bool) (m : MethodModifiers) (key : Key) :
    Consumes source (g.classMethod start isStatic m key) :=
  take (h.methodRest m) fun _ => pass (spanFrom _) fun _ => pure rfl

/-- The key of a field has been passed before, so the rest of it may be empty. -/
theorem classField (start : Position) (isStatic : Bool) (key : Key) :
    Proceeds source (g.classField start isStatic key) := by
  refine pass (eatMark _) fun hasValue => join h.assignment.inBody.map done fun value => ?_
  exact pass semicolon fun ended => pass (spanFrom _) fun loc => pure rfl

/-- An element of a class moves past its key. -/
theorem methodOrField (start : Position) (isStatic : Bool) :
    Consumes source (g.methodOrField start isStatic) := by
  refine pass proceeds_methodModifiers fun m => take h.key fun key => ?_
  refine pass (atMark _) fun isMethod => ite (any (h.classMethod start isStatic m key)) ?_
  exact ite (h.classField start isStatic key) unexpected

/-- Every element of a class has a key or a block. -/
theorem member : Consumes source g.member := by
  refine pass here fun start => pass (proceeds_atModifier _) fun isStatic => ite ?_ ?_
  · refine pass skip fun word => pass (atMark _) fun isBlock => ite ?_ (h.methodOrField start true)
    exact take h.block.inBody fun block => pass (spanFrom _) fun loc => pure rfl
  · exact h.methodOrField start false

/-- A round moves past a semicolon, an element or the closing brace. -/
theorem memberRound (members : List Member) : Consumes source (g.memberRound members) := by
  refine eaten (eatMark _) (pure rfl) (eaten (eatMark _) (pure rfl) ?_)
  exact take h.member fun member => pure rfl

/-- The closing brace of a class is passed in the end. -/
theorem members : Consumes source g.members := by
  rw [members_eq]
  exact repeatFrom (fun _ => any (h.memberRound _)) _

/-- The word `class` is passed, or there is a fault. -/
theorem classDefinition (nameRequired : Bool) :
    Consumes source (g.classDefinition nameRequired) := by
  refine pass here fun start => take (expectWord _) fun word => ?_
  refine pass (proceeds_optionalName _ _) fun id => pass (eatWord _) fun hasHeritage => ?_
  refine join h.leftHandSide.map done fun heritage => pass here fun bodyStart => ?_
  refine pass (expectMark _) fun opening => pass h.members fun members => ?_
  exact pass (spanFrom _) fun bodyLoc => pass (spanFrom _) fun loc => pure rfl

/-! ### Primary expressions -/

/-- A name is passed, with an arrow after it or without. -/
theorem nameOrArrow (start : Position) : Consumes source (g.nameOrArrow start) := by
  refine take ident fun id => pass proceeds_atArrow fun isArrow => ?_
  exact ite (any (h.arrowRest start _ false)) (pure rfl)

/-- The word `async` is skipped, and the parameter passed. -/
theorem asyncArrow (start : Position) : Consumes source (g.asyncArrow start) := by
  refine pass skip fun word => take ident fun id => pass proceeds_atArrow fun isArrow => ?_
  exact ite (any (h.arrowRest start _ true)) unexpected

/-- The word `async` is passed as the name that it may be. -/
theorem asyncCallOrArrow (start : Position) : Consumes source (g.asyncCallOrArrow start) := by
  refine take ident fun id => pass h.arguments fun arguments => ?_
  refine pass proceeds_atArrow fun isArrow => ite ?arrow ?call
  case arrow =>
    refine pass (ofExcept (unspent_toParams arguments)) fun params => ?_
    exact any (h.arrowRest start params true)
  case call => exact pass (spanFrom _) fun loc => pure rfl

/-- What an identifier begins moves past it. -/
theorem identifierExpression : Consumes source g.identifierExpression := by
  refine pass here fun start => pass proceeds_atAsyncFunction fun isFunction => ite ?_ ?_
  · exact pass skip fun word => take (h.function start true false) fun f => pure rfl
  · refine pass (atName _) fun isAsync => ite (pass peek fun next => ?_) (h.nameOrArrow start)
    refine ite (h.nameOrArrow start) ?_
    split
    · exact h.asyncArrow start
    · exact h.asyncCallOrArrow start
    · exact h.nameOrArrow start

/-- A round in parentheses moves past an item, or it is the last. -/
theorem parenItemsStep : Rounds source g.parenItemsStep := by
  refine fun before => pass (atMark _) fun isEnd => ite (pure rfl) ?_
  refine pass (atMark _) fun isRest => ite ?rest ?item
  case rest => exact take h.restBinding fun rest => pure rfl
  case item =>
    refine take h.assignment fun item => pass (atMark _) fun isLast => ite (pure rfl) ?_
    refine pass (expectMark _) fun comma => pass (atMark _) fun isTrailing => ?_
    exact ite (pure rfl) (pure rfl)

/-- The opening parenthesis is passed, whatever stands in it. -/
theorem parenOrArrow : Consumes source g.parenOrArrow := by
  refine pass here fun start => take (expectMark _) fun opening => ?_
  refine pass (allowIn (repeatFrom h.parenItemsStep _)) fun list => ?_
  refine pass (expectKind nofun) fun close => pass proceeds_atArrow fun isArrow => ite ?arrow ?expr
  case arrow =>
    refine pass (ofExcept (unspent_toParams list.items)) fun params => ?_
    exact any (h.arrowRest start _ false)
  case expr =>
    split
    · exact fail fun h => by cases h
    · exact ite (fail fun h => by cases h) (pass (spanFrom _) fun loc => pure rfl)

/-- The word `import` is passed first. -/
theorem importExpression : Consumes source g.importExpression := by
  refine pass here fun start => take (expectKind nofun) fun word => ?_
  refine pass (eatMark _) fun isMeta => ite ?_ ?_
  · refine pass identName fun property => ite ?_ (fail nofun)
    exact pass (spanFrom _) fun loc => pure rfl
  · refine pass h.arguments fun arguments => ?_
    split
    · exact fail nofun
    · exact pass (spanFrom _) fun loc => pure rfl
    · exact pass (spanFrom _) fun loc => pure rfl
    · exact fail nofun

/-- An element that is left out still has its comma. -/
theorem elementOrHole : Consumes source g.elementOrHole := by
  refine eaten (eatMark _) (pure rfl) ?_
  exact take h.spreadOrAssignment.itemAndComma fun element => pure rfl

/-- An empty array literal has its brackets. -/
theorem arrayLiteral : Consumes source g.arrayLiteral := by
  refine pass here fun start => take (expectMark _) fun opening => ?_
  refine pass (allowIn (collectUntil (eatMark _) h.elementOrHole)) fun elements => ?_
  exact pass (spanFrom _) fun loc => pure rfl

/-- The name has been passed before, so there may be nothing more. -/
theorem nameProperty (start : Position) (id : Ident) :
    Proceeds source (g.nameProperty start id) := by
  refine pass (eatMark _) fun hasDefault => ite ?_ (pass (spanFrom _) fun loc => pure rfl)
  exact pass h.assignment fun value => pass (spanFrom _) fun loc => pure rfl

/-- The key has been passed before, so there may be nothing more. -/
theorem propertyRest (start : Position) (m : MethodModifiers) (mayBeShorthand : Bool) (key : Key) :
    Proceeds source (g.propertyRest start m mayBeShorthand key) := by
  refine pass (atMark _) fun isMethod => ite ?method (ite unexpected ?_)
  case method => exact pass (h.methodRest m) fun f => pass (spanFrom _) fun loc => pure rfl
  refine pass (eatMark _) fun hasValue => ite ?value ?shorthand
  case value => exact pass h.assignment fun value => pass (spanFrom _) fun loc => pure rfl
  case shorthand =>
    split
    · exact ite (h.nameProperty start _) (fail nofun)
    · exact unexpected

/-- A property moves past its points or its key. -/
theorem property : Consumes source g.property := by
  refine pass here fun start => pass (eatMark _) fun isSpread => ite ?_ ?_
  · exact take h.assignment fun argument => pass (spanFrom _) fun loc => pure rfl
  · refine pass proceeds_methodModifiers fun m => pass (atKind _) fun mayBeShorthand => ?_
    exact take h.key fun key => h.propertyRest start m mayBeShorthand key

/-- An empty object literal has its braces. -/
theorem objectLiteral : Consumes source g.objectLiteral := by
  refine pass here fun start => take (expectMark _) fun opening => ?_
  refine pass h.property.commaSeparated.allowIn fun properties => ?_
  exact pass (spanFrom _) fun loc => pure rfl

/-- No primary expression is without a token. -/
theorem primary : Consumes source g.primary := by
  refine fun env s hs => .kind ?_
  split
  · exact h.parenOrArrow hs
  · exact h.arrayLiteral hs
  · exact h.objectLiteral hs
  · exact (pass here fun start => take (h.function start false false) fun _ => pure rfl) hs
  · exact (take (h.classDefinition false) fun _ => pure rfl) hs
  · exact h.importExpression hs
  · exact h.identifierExpression hs
  · next hk => exact (h.template hs (by rw [hk]; exact nofun) false).bind fun _ => pure rfl
  · next hk => exact (h.template hs (by rw [hk]; exact nofun) false).bind fun _ => pure rfl
  · exact consumes_literal hs

end Consuming

end Grammar

end WithScope
