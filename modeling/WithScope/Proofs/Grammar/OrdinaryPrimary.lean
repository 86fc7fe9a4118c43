import WithScope.Grammar.Primary
import WithScope.Proofs.Grammar.Tells
import WithScope.Proofs.Token.Stability
import WithScope.Proofs.Tree.Operation
import WithScope.Proofs.Tree.Ordinary

/-!
# Ordinary productions

A property that says nothing of ordinary nodes is upheld by all productions that make no others.
`Grammar.Carries I P` says that the productions through which the grammar contains itself, from the
states that `I` holds of, yield trees all of whose nodes have the property `P`. Then so do the
ordinary productions that are made of them: here those of patterns, functions and classes, and of
literals. The elements of a class may be fields, which are not ordinary, so a class relies on its
elements.
-/

namespace WithScope

/-- Expressions separated by commas, as the one expression that they are. -/
theorem Node.OffOrdinary.joined {P : Node → Prop} (hP : Node.OffOrdinary P) {first : Expr}
    {others : List Expr} (hitems : ∀ e ∈ first :: others, (Node.expr e).All P) :
    (Node.expr (Grammar.joined first others)).All P := by
  cases others with
  | nil => exact hitems first (List.mem_cons_self ..)
  | cons second others => exact hP.intro rfl (List.forall_mem_map.2 hitems)

/-- The productions through which a grammar contains itself, apart from those of operations alone,
yield trees all of whose nodes have a property that says nothing of ordinary nodes. -/
structure Grammar.Carries (I : ParserState → Prop) (P : Node → Prop) (g : Grammar) : Prop where
  /-- it says nothing of ordinary nodes -/
  off : Node.OffOrdinary P
  statement : ∀ isTopLevel, (g.statement isTopLevel).Tells I fun s => (Node.stmt s).All P
  assignment : g.assignment.Tells I fun e => (Node.expr e).All P
  leftHandSide : g.leftHandSide.Tells I fun e => (Node.expr e).All P
  arrayPattern : g.arrayPattern.Tells I fun p => (Node.pat .binding p).All P
  objectPattern : g.objectPattern.Tells I fun p => (Node.pat .binding p).All P

namespace Grammar.Carries

variable {I : ParserState → Prop} [ParserState.Kept I] {P : Node → Prop} {g : Grammar}
  (h : g.Carries I P)
include h

/-! ## Expressions in brackets -/

/-- What holds of each assignment holds of a sequence of them. -/
theorem expression : g.expression.Tells I fun e => (Node.expr e).All P := by
  refine .after fun start => .bind h.assignment fun first hfirst => .after fun isList => .ite ?_ ?_
  · refine .bind h.assignment.afterCommas fun others hothers => .after fun loc => .pure ?_
    exact h.off.intro rfl (List.forall_mem_map.2 (List.forall_mem_cons.2 ⟨hfirst, hothers⟩))
  · exact .pure hfirst

/-- Parentheses leave nothing of their own in the tree. -/
theorem parenExpression : g.parenExpression.Tells I fun e => (Node.expr e).All P :=
  .after fun _ => .bind h.expression.allowIn fun _ he => .after fun _ => .pure he

/-- Brackets leave nothing of their own in the tree. -/
theorem bracketExpression : g.bracketExpression.Tells I fun e => (Node.expr e).All P :=
  .bind h.expression.allowIn fun _ he => .after fun _ => .pure he

/-- A spread has the property with its argument. -/
theorem spreadOrAssignment : g.spreadOrAssignment.Tells I fun e => (Node.expr e).All P := by
  refine .after fun start => .after fun isSpread => .ite ?_ h.assignment
  refine .bind h.assignment fun argument ha => .after fun loc => .pure ?_
  exact h.off.intro rfl (List.forall_mem_singleton.2 ha)

/-- Each argument has the property. -/
theorem arguments : g.arguments.Tells I fun es => ∀ e ∈ es, (Node.expr e).All P :=
  .after fun _ => h.spreadOrAssignment.commaSeparated.allowIn

/-- A key has the property, also when it is computed. -/
theorem key : g.key.Tells I fun k => (Node.key k).All P := by
  refine .after fun kind => ?_
  split
  case h_5 =>
    refine .after fun _ => .bind h.assignment.allowIn fun e he => .after fun _ => .pure ?_
    exact h.off.intro rfl (List.forall_mem_singleton.2 he)
  all_goals exact .after fun _ => .pure (h.off.leaf rfl rfl)

/-! ## Patterns that declare names -/

/-- A name that is bound has the property, and so does a pattern. -/
theorem bindingTarget : g.bindingTarget.Tells I fun p => (Node.pat .binding p).All P := by
  refine .after fun kind => ?_
  split
  · exact h.arrayPattern
  · exact h.objectPattern
  · exact .after fun id => .pure (h.off.leaf rfl rfl)

/-- A target with a default has the property. -/
theorem bindingElement : g.bindingElement.Tells I fun p => (Node.pat .binding p).All P := by
  refine .after fun start => .bind h.bindingTarget fun target ht => .after fun hasDefault =>
    .ite ?_ (.pure ht)
  refine .bind h.assignment.allowIn fun right hr => .after fun loc => .pure ?_
  exact h.off.intro rfl (List.forall_mem_cons.2 ⟨ht, List.forall_mem_singleton.2 hr⟩)

/-- What takes the rest has the property. -/
theorem restBinding : g.restBinding.Tells I fun p => (Node.pat .binding p).All P := by
  refine .after fun start => .after fun _ => .bind h.bindingTarget fun argument ha =>
    .after fun loc => .pure ?_
  exact h.off.intro rfl (List.forall_mem_singleton.2 ha)

/-- An element of a pattern has the property if it is there. -/
theorem bindingElementOrHole :
    g.bindingElementOrHole.Tells I fun element => ∀ p ∈ element, (Node.pat .binding p).All P :=
  .after fun _ => .ite .none h.bindingElement.itemAndComma.some

/-- The elements of an array pattern have the property, and so does the pattern. -/
theorem arrayPatternBody : g.arrayPatternBody.Tells I fun p => (Node.pat .binding p).All P := by
  refine .after fun start => .after fun _ => ?_
  refine .bind (.itemsWithRest h.bindingElementOrHole h.restBinding.some) fun elements hall => ?_
  refine .after fun loc => .pure (h.off.intro rfl ?_)
  exact forall_mem_elements fun p hp => hall _ hp p rfl

/-- A property of a pattern has the property with its key and its target. -/
theorem bindingProperty :
    g.bindingProperty.Tells I fun p => (Node.patProperty .binding p).All P := by
  refine .after fun start => .after fun mayBeShorthand => .bind h.key fun key hkey =>
    .after fun hasValue => .ite ?_ ?_
  · refine .bind h.bindingElement fun value hv => .after fun loc => .pure (h.off.intro rfl ?_)
    exact List.forall_mem_cons.2 ⟨hkey, List.forall_mem_singleton.2 hv⟩
  · split
    · refine .ite (.fail _ _) (.after fun hasDefault => .ite ?_ ?_)
      · refine .bind h.assignment.allowIn fun value hv => .after fun loc => .pure ?_
        exact h.off.intro rfl (List.forall_mem_singleton.2 hv)
      · exact .after fun loc => .pure (h.off.leaf rfl rfl)
    · exact .unexpected

/-- The rest of an object pattern is a name. -/
theorem restProperty :
    Grammar.restProperty.Tells I fun p => (Node.patProperty .binding p).All P := by
  refine .after fun start => .after fun _ => .after fun id => .after fun loc => .pure ?_
  exact h.off.intro rfl (List.forall_mem_singleton.2 (h.off.leaf rfl rfl))

/-- The properties of an object pattern have the property, and so does the pattern. -/
theorem objectPatternBody : g.objectPatternBody.Tells I fun p => (Node.pat .binding p).All P := by
  refine .after fun start => .after fun _ => ?_
  refine .bind (.itemsWithRest h.bindingProperty.itemAndComma h.restProperty) fun ps hps => ?_
  refine .after fun loc => .pure ?_
  exact h.off.intro rfl (List.forall_mem_map.2 hps)

/-! ## Functions -/

/-- What holds of each statement holds of a block of them. -/
theorem block : g.block.Tells I fun b => (Node.block b).All P := by
  refine .after fun start => .after fun _ => ?_
  have hitem := h.statement false
  refine .bind (.collectUntil (.after fun isEnd => .ite .unexpected hitem)) fun body hbody => ?_
  refine .after fun _ => .after fun loc => ?_
  refine .pure ?_
  exact h.off.intro rfl (List.forall_mem_map.2 hbody)

/-- Each parameter has the property. -/
theorem params : g.params.Tells I fun ps => ∀ p ∈ ps, (Node.pat .binding p).All P :=
  .after fun _ => .itemsWithRest h.bindingElement.itemAndComma h.restBinding

/-- The parameters and the body of a function have the property. -/
theorem functionRest (start : Position) (id : Option Ident) (isAsync isGenerator : Bool) :
    (g.functionRest start id isAsync isGenerator).Tells I fun f => (Node.function f).All P := by
  have hbody : (do let params ← g.params
                   let body ← g.block
                   return (params, body) : Parser (List Pat × Block)).Tells I fun f =>
      (∀ p ∈ f.1, (Node.pat .binding p).All P) ∧ (Node.block f.2).All P :=
    .bind h.params fun params hparams => .bind h.block fun body hbody => .pure ⟨hparams, hbody⟩
  refine .bind hbody.inBody fun ⟨params, body⟩ ⟨hparams, hbody⟩ => .after fun loc =>
    .pure (h.off.intro rfl ?_)
  exact List.forall_mem_append.2
    ⟨List.forall_mem_map.2 hparams, List.forall_mem_singleton.2 hbody⟩

/-- A function has the property with what it is called. -/
theorem function (start : Position) (isAsync nameRequired : Bool) :
    (g.function start isAsync nameRequired).Tells I fun f => (Node.function f).All P :=
  .after fun _ => .after fun isGenerator => .after fun id =>
    h.functionRest start id isAsync isGenerator

/-- As `functionRest`, for a function without a name. -/
theorem methodRest (m : Grammar.MethodModifiers) :
    (g.methodRest m).Tells I fun f => (Node.function f).All P :=
  .after fun start => h.functionRest start none m.isAsync m.isGenerator

/-! ## Classes -/

/-- A method has the property with its key. -/
theorem classMethod (start : Position) (isStatic : Bool) (m : Grammar.MethodModifiers) {key : Key}
    (hkey : (Node.key key).All P) :
    (g.classMethod start isStatic m key).Tells I fun m => (Node.member m).All P := by
  refine .bind (h.methodRest m) fun value hvalue => .after fun loc => .pure (h.off.intro rfl ?_)
  exact List.forall_mem_cons.2 ⟨hkey, List.forall_mem_singleton.2 hvalue⟩

omit h in
/-- What holds of each member holds of all of them. -/
theorem members (hmember : g.member.Tells I fun m => (Node.member m).All P) :
    g.members.Tells I fun ms => ∀ m ∈ ms, (Node.member m).All P := by
  refine .repeatFrom (P := fun ms => ∀ m ∈ ms, (Node.member m).All P) (fun ms hms => ?_)
    (List.forall_mem_nil _)
  refine .after fun isEnd => .ite ?_ (.after fun isEmpty => .ite ?_ ?_)
  · exact .pure fun m hm => hms m (List.mem_reverse.1 hm)
  · exact .pure hms
  · exact .bind hmember fun m hm => .pure (List.forall_mem_cons.2 ⟨hm, hms⟩)

/-- A class has the property with what it extends and its members. -/
theorem classDefinition (hmember : g.member.Tells I fun m => (Node.member m).All P)
    (nameRequired : Bool) :
    (g.classDefinition nameRequired).Tells I fun c => (Node.class c).All P := by
  refine .after fun start => .after fun _ => .after fun id => ?_
  refine .after fun hasSuperClass => .join h.leftHandSide.some .none fun superClass hsuper => ?_
  refine .after fun bodyStart => .after fun _ => .bind (members hmember) fun ms hms => ?_
  refine .after fun bodyLoc => .after fun loc => ?_
  refine .pure (h.off.intro rfl ?_)
  exact List.forall_mem_append.2 ⟨forall_mem_toList hsuper, List.forall_mem_map.2 hms⟩

/-! ## Primary expressions -/

/-- A member of `super` has the property with its key. -/
theorem superOperand : Grammar.superOperand.Tells I (Expr.Whole P) := by
  refine .after fun t => .after fun kind => ?_
  split
  case h_4 => exact .fail _ _
  all_goals exact .pure ⟨h.off.leaf rfl rfl, rfl, rfl⟩

/-- Literals, of which regular expressions are not ordinary. -/
theorem literal (hregExp : ∀ env s, I s → s.token.kind.isSlash → Parser.Leaves env s Grammar.regExp
      fun e s' => I s' ∧ Expr.Whole P e) : Grammar.literal.Tells I (Expr.Whole P) := by
  intro env s hs
  have hleaf {mk : Token → Expr} (hmk : ∀ t, Expr.Whole P (mk t)) :
      (Parser.bump >>= fun t => pure (mk t)).Tells I (Expr.Whole P) :=
    .after fun t => .pure (hmk t)
  refine .kind ?_
  split
  case h_2 => exact h.superOperand env s hs
  case h_9 hk | h_10 hk => exact hregExp env s hs (by rw [hk]; rfl)
  case h_11 => exact .unexpected
  all_goals exact hleaf (fun t => ⟨h.off.leaf rfl rfl, rfl, rfl⟩) env s hs

/-- The items of a parenthesized list that has been read so far or up to its end. -/
theorem parenItemsStep (before : List Expr) (hb : ∀ e ∈ before, (Node.expr e).All P) :
    (g.parenItemsStep before).Tells I (Sum.elim (fun items => ∀ e ∈ items, (Node.expr e).All P)
      fun list => (∀ e ∈ list.items, (Node.expr e).All P) ∧
        ∀ p ∈ list.rest, (Node.pat .binding p).All P) := by
  have hreverse {items : List Expr} (hitems : ∀ e ∈ items, (Node.expr e).All P) :
      ∀ e ∈ items.reverse, (Node.expr e).All P := fun e he => hitems e (List.mem_reverse.1 he)
  refine .after fun isEnd => .ite (.pure ⟨hreverse hb, nofun⟩) (.after fun isRest => .ite ?_ ?_)
  · refine .bind h.restBinding fun rest hrest => .pure ⟨hreverse hb, fun p hp => ?_⟩
    cases hp
    exact hrest
  · refine .bind h.assignment fun item hi => ?_
    have hitems : ∀ e ∈ item :: before, (Node.expr e).All P := List.forall_mem_cons.2 ⟨hi, hb⟩
    refine .after fun _ => .ite (.pure ⟨hreverse hitems, nofun⟩) ?_
    exact .after fun _ => .after fun _ => .ite (.pure ⟨hreverse hitems, nofun⟩) (.pure hitems)

/-- All that stands in parentheses. -/
theorem parenItems : (Parser.repeatFrom [] g.parenItemsStep).Tells I fun list =>
    (∀ e ∈ list.items, (Node.expr e).All P) ∧ ∀ p ∈ list.rest, (Node.pat .binding p).All P :=
  .repeatFrom h.parenItemsStep (List.forall_mem_nil _)

/-- An import has the property with what is imported. -/
theorem importExpression : g.importExpression.Tells I (Expr.Whole P) := by
  refine .after fun start => .after fun word => .after fun isMeta => .ite ?_ ?_
  · refine .after fun property => .ite (.after fun loc => .pure ?_) (.fail _ _)
    exact ⟨h.off.leaf rfl rfl, rfl, rfl⟩
  · refine .bind h.arguments fun arguments ha => ?_
    split
    · exact .fail _ _
    · exact .after fun loc => .pure ⟨h.off.intro rfl (List.forall_mem_map.2 ha), rfl, rfl⟩
    · exact .after fun loc => .pure ⟨h.off.intro rfl (List.forall_mem_map.2 ha), rfl, rfl⟩
    · exact .fail _ _

/-! ## Array and object literals -/

/-- An element of an array has the property if it is there. -/
theorem elementOrHole : g.elementOrHole.Tells I fun element => ∀ e ∈ element, (Node.expr e).All P :=
  .after fun _ => .ite .none h.spreadOrAssignment.itemAndComma.some

/-- The elements of an array have the property, and so does the array. -/
theorem arrayLiteral : g.arrayLiteral.Tells I (Expr.Whole P) := by
  refine .after fun start => .after fun _ => .bind (.allowIn (.collectUntil h.elementOrHole))
    fun elements he => .after fun loc => .pure ⟨h.off.intro rfl ?_, rfl, rfl⟩
  exact forall_mem_elements fun e hmem => he _ hmem e rfl

/-- A name that stands for a property has it as key and as value. -/
theorem nameProperty (start : Position) (id : Ident) :
    (g.nameProperty start id).Tells I fun p => (Node.property p).All P := by
  refine .after fun hasDefault => .ite ?_ (.after fun loc => .pure (h.off.leaf rfl rfl))
  refine .bind h.assignment fun right hr => .after fun loc => .pure (h.off.intro rfl ?_)
  refine List.forall_mem_cons.2 ⟨h.off.leaf rfl rfl, List.forall_mem_singleton.2 ?_⟩
  -- a default value is kept as an assignment to the name, in case a pattern is meant
  refine h.off.intro rfl (List.forall_mem_cons.2 ⟨?_, List.forall_mem_singleton.2 hr⟩)
  exact h.off.leaf rfl rfl

/-- A property has the property with its key and its value. -/
theorem propertyRest (start : Position) (m : Grammar.MethodModifiers) (mayBeShorthand : Bool)
    {key : Key} (hkey : (Node.key key).All P) :
    (g.propertyRest start m mayBeShorthand key).Tells I fun p => (Node.property p).All P := by
  refine .after fun isMethod => .ite ?_ (.ite .unexpected (.after fun hasValue => .ite ?_ ?_))
  · refine .bind (h.methodRest m) fun value hvalue => .after fun loc => .pure (h.off.intro rfl ?_)
    exact List.forall_mem_cons.2 ⟨hkey, List.forall_mem_singleton.2 hvalue⟩
  · refine .bind h.assignment fun value hvalue => .after fun loc => .pure (h.off.intro rfl ?_)
    exact List.forall_mem_cons.2 ⟨hkey, List.forall_mem_singleton.2 hvalue⟩
  · split
    · exact .ite (h.nameProperty start _) (.fail _ _)
    · exact .unexpected

/-- Each form of a property has the property. -/
theorem property : g.property.Tells I fun p => (Node.property p).All P := by
  refine .after fun start => .after fun isSpread => .ite ?_ ?_
  · refine .bind h.assignment fun argument ha => .after fun loc => .pure (h.off.intro rfl ?_)
    exact List.forall_mem_singleton.2 ha
  · exact .after fun m => .after fun mayBeShorthand => .bind h.key fun key hkey =>
      h.propertyRest start m mayBeShorthand hkey

/-- The properties of an object have the property, and so does the object. -/
theorem objectLiteral : g.objectLiteral.Tells I (Expr.Whole P) := by
  refine .after fun start => .after fun _ => .bind h.property.commaSeparated.allowIn
    fun properties hp => .after fun loc => .pure ⟨h.off.intro rfl ?_, rfl, rfl⟩
  exact List.forall_mem_map.2 hp

end Grammar.Carries

end WithScope
