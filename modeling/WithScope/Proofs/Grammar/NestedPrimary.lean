import Mathlib.Data.List.TakeDrop
import WithScope.Grammar.Primary
import WithScope.Proofs.Grammar.Since
import WithScope.Proofs.Token.RegExp
import WithScope.Proofs.Tree.NestedCover

/-!
# Primary expressions are nested

`Grammar.Nests` says of the productions through which the grammar contains itself that they form
constructs. Then so do the productions that are made of them: here those of patterns, functions and
classes, and of primary expressions.
-/

namespace WithScope

open WithScope.Parser (Reads Looks Decides Round)

/-- The productions through which a grammar contains itself form constructs. -/
structure Grammar.Nests (source : List Char) (g : Grammar) : Prop where
  statement : ∀ isTopLevel, Forms source (g.statement isTopLevel) .stmt
  assignment : Forms source g.assignment .expr
  operation : ∀ floor, Forms source (g.operation floor) .expr
  unary : Forms source g.unary .expr
  leftHandSide : Forms source g.leftHandSide .expr
  newExpr : Forms source g.newExpr .expr
  arrayPattern : Forms source g.arrayPattern .pat
  objectPattern : Forms source g.objectPattern .pat

namespace Grammar

variable {source : List Char} {env : Surrounding} {s : ParserState} {moved : Bool}
  {start : Position} {ns : List Located}

/-- The rest of an object pattern holds its name. -/
theorem forms_restProperty : Forms source restProperty .patProperty := by
  refine fun env s hs => .here (.bind (Since.here hs).expectMark fun _ s h₁ => ?_)
  refine .bind (forms_name.adds h₁) fun id s h₂ => ?_
  exact .spanFrom (.pure (h₂.made rfl h₂.row))

/-! ## Items in parentheses -/

/-- Expressions separated by commas stand as one expression where they stood. -/
theorem row_joined {first : Expr} {others : List Expr} {lo hi : Nat}
    (h : Row source lo hi ((first :: others).map .expr)) :
    Row source lo hi [.expr (joined first others)] := by
  cases others with
  | nil => exact h
  | cons second others =>
    obtain ⟨last, hlast⟩ : ∃ last, (second :: others).getLast? = some last :=
      ⟨_, List.getLast?_eq_some_getLast (List.cons_ne_nil _ _)⟩
    have hlast' : ((first :: second :: others).map Located.expr).getLast? = some (.expr last) := by
      rw [List.getLast?_map, List.getLast?_cons_cons, hlast]
      rfl
    have hrow := h.tighten hlast'
    have hmem := List.mem_of_getLast? hlast'
    have hfirst := h.within (.expr first) (List.mem_cons_self ..)
    have hdefault : (second :: others).getLastD first = last := by
      rw [List.getLastD_eq_getLast?, hlast]
      rfl
    simp only [joined, hdefault]
    refine .singleton (hrow.nested_intro ?_ ?_ rfl rfl (hrow.lt_of_ne_nil (List.cons_ne_nil _ _)))
      hfirst.1 (h.within _ hmem).2
    · exact h.isPlace_start (n := .expr first) (List.mem_cons_self ..)
    · exact (h.nested _ hmem).isPlace_stop

/-- Items that are read again as parameters stand in front of the rest parameter. -/
theorem nested_parenItems {list : ParenItems} {lo hi : Nat}
    (h : Row source lo hi (list.items.map .expr ++ list.rest.toList.map .pat)) :
    Converts source (toParams list.items) fun params =>
      Row source lo hi ((params ++ list.rest.toList).map .pat) := by
  obtain ⟨items, rest | rest, trailingComma⟩ := list
  · simpa using nested_toParams items (by simpa using h)
  · obtain ⟨hitems, hrest⟩ := h.of_append_cons
    refine (nested_toParams items hitems).mono fun params hparams => ?_
    have hlo := (h.within (.pat rest) (by simp)).1
    have hhi := hrest.lt_of_ne_nil (List.cons_ne_nil _ _)
    rw [List.map_append]
    exact hparams.append hrest hlo hhi.le

/-! ## Looking ahead -/

/-- An arrow is seen without moving. -/
theorem looks_atArrow : Looks source env s atArrow :=
  .ite (.look (.atKind _) ((Looks.afterNewline).bind fun _ => .pure rfl) (.pure rfl))

/-- The token after `async` is looked at and not passed. -/
theorem looks_atAsyncFunction (hs : s.Sound source) : Looks source env s atAsyncFunction :=
  .ite (.look (.atName _) ((Looks.peek hs).bind fun _ => .pure rfl) (.pure rfl))

/-- The token after a modifier is looked at and not passed. -/
theorem looks_atModifier (hs : s.Sound source) (word : String) :
    Looks source env s (atModifier word) :=
  .ite (.look (.atName _) ((Looks.peek hs).bind fun _ => .pure rfl) (.pure rfl))

/-- Modifiers belong to the method and are no constructs of their own. -/
theorem keeps_methodModifiers : Keeps source methodModifiers := by
  intro env s moved start ns hs
  refine .ite (.look (looks_atModifier hs.sound _) ?_ ?_)
  · refine .bind hs.discardBump fun _ s h₁ => ?_
    exact .bind (Keeps.eatMark _ h₁) fun _ s h₂ => .pure h₂
  refine .ite (.look (looks_atModifier hs.sound _) ?_ ?_)
  · exact .bind hs.discardBump fun _ s h₁ => .pure h₁
  refine .ite (.look (looks_atModifier hs.sound _) ?_ ?_)
  · exact .bind hs.discardBump fun _ s h₁ => .pure h₁
  · exact .bind (Keeps.eatMark _ hs) fun _ s h₁ => .pure h₁

/-- A name that is left out adds nothing. -/
theorem adds_optionalName (isRequired : Bool) (isName : Token → Bool) :
    Adds source (optionalName isRequired isName) fun id => id.toList.map .ident := by
  refine fun env s moved start ns hs => .token ?_
  split
  · exact .bind (forms_ident.adds hs) fun id s h₁ => .pure h₁.relax
  split
  · exact .unexpected hs.sound
  · exact .pure (by simpa using hs)

/-! ## Literals -/

/-- The last slash is the one in front of the flags, since there is none in these. -/
theorem regExpParts?_eq {body flags rest : List Char} (opening : Char)
    (h : RegExpParts body flags rest) :
    regExpParts? (opening :: body ++ '/' :: flags) = some (body, flags) := by
  have hslash : isIdContinue '/' = false := by decide +kernel
  have hflags : ∀ c ∈ flags.reverse, (c != '/') = true := fun c hc => bne_iff_ne.2 fun heq => by
    rw [← heq, h.flags c (List.mem_reverse.1 hc)] at hslash
    cases hslash
  have hspan : (opening :: body ++ '/' :: flags).reverse.span (· != '/') =
      (flags.reverse, '/' :: (opening :: body).reverse) := by
    rw [List.span_eq_takeWhile_dropWhile, List.reverse_append, List.reverse_cons, List.append_assoc,
      List.singleton_append]
    exact splitWhile_append_of hflags (by simp)
  obtain ⟨c, cs, hcs⟩ : ∃ c cs, (opening :: body).reverse = c :: cs :=
    List.exists_cons_of_ne_nil (by simp)
  unfold regExpParts?
  rw [hspan, hcs]
  simp [← hcs]

/-- A regular expression that has been read is one for the grammar too. -/
theorem forms_regExp (hs : s.Sound source) :
    Reads source env s regExp fun e s' => Made source s.here (.expr e) s' := by
  refine .bind (.rescan hs) fun _ s₁ ⟨hs₁, t, l, hrescan, heq⟩ => ?_
  obtain ⟨-, hstart, hk⟩ := hs.rescan hrescan
  obtain ⟨opening, body, flags, htext, hvalue, hparts⟩ := Lexer.rescanRegExp_parts hrescan
  subst heq
  have hhere : s.here = t.span.start := hstart.symm
  refine .bind (Since.here hs₁).bump fun t' s₂ ⟨ht, hlast, _, hsince⟩ => ?_
  rw [ht, hvalue, htext, regExpParts?_eq opening hparts, hhere]
  refine .pure ((hsince hk).made ?_ (.nil _ _))
  rw [hlast]
  rfl

/-- There is nothing inside of `super`. -/
theorem forms_superOperand (hs : s.Sound source) (hk : s.token.kind ≠ .eof) :
    Reads source env s superOperand fun e s' => Made source s.here (.expr e) s' := by
  refine .bind (hs.leaf hk) fun t s₁ h₁ => .kind ?_
  split
  · exact .pure (h₁ _ rfl rfl)
  · exact .pure (h₁ _ rfl rfl)
  · exact .pure (h₁ _ rfl rfl)
  · exact .fail ((h₁ (.string ⟨t.span, ""⟩) rfl rfl).since.isPlace (n := .string ⟨t.span, ""⟩)
      (List.mem_singleton_self _)) nofun

/-- A literal is a construct of one token, with nothing inside. -/
theorem forms_literal : Forms source literal .expr := by
  refine fun env s hs => .kind ?_
  split
  · next hk => exact hs.leafAs hk TokenKind.noConfusion _ (fun _ => rfl) fun _ => rfl
  · next hk => exact forms_superOperand hs (by rw [hk]; exact TokenKind.noConfusion)
  · next hk => exact hs.leafAs hk TokenKind.noConfusion _ (fun _ => rfl) fun _ => rfl
  · next hk => exact hs.leafAs hk TokenKind.noConfusion _ (fun _ => rfl) fun _ => rfl
  · next hk => exact hs.leafAs hk TokenKind.noConfusion _ (fun _ => rfl) fun _ => rfl
  · next hk => exact hs.leafAs hk TokenKind.noConfusion _ (fun _ => rfl) fun _ => rfl
  · next hk => exact hs.leafAs hk TokenKind.noConfusion _ (fun _ => rfl) fun _ => rfl
  · next hk => exact hs.leafAs hk TokenKind.noConfusion _ (fun _ => rfl) fun _ => rfl
  · exact forms_regExp hs
  · exact forms_regExp hs
  · exact .unexpected hs

/-! ## Templates -/

/-- What has been read of a template. -/
def TemplateParts.located (parts : TemplateParts) : List Located :=
  interleave (parts.quasis.reverse.map .quasi) (parts.expressions.reverse.map .expr)

/-- Before a stretch of text there is an expression for each stretch, and a token to begin with. -/
def Opening (source : List Char) (start : Position) (parts : TemplateParts) (s : ParserState) :
    Prop :=
  s.token.kind ≠ .eof ∧ parts.quasis.length = parts.expressions.length ∧
    Since source false start parts.located s

/-- A stretch of text is added behind everything that is in a template so far. -/
theorem located_quasi {parts : TemplateParts} (h : parts.quasis.length = parts.expressions.length)
    (q : Quasi) : TemplateParts.located ⟨q :: parts.quasis, parts.expressions⟩
      = parts.located ++ [.quasi q] := by
  simp [TemplateParts.located, interleave_concat, h]

/-- An expression is added behind the stretch of text before it. -/
theorem located_both {parts : TemplateParts} (h : parts.quasis.length = parts.expressions.length)
    (q : Quasi) (e : Expr) : TemplateParts.located ⟨q :: parts.quasis, e :: parts.expressions⟩
      = parts.located ++ [.quasi q] ++ [.expr e] := by
  simp [TemplateParts.located, interleave_concat_concat, h]

namespace Nests

variable {g : Grammar} (h : g.Nests source)
include h

/-! ## Expressions in brackets -/

/-- A sequence holds its expressions, and a single one is no sequence. -/
theorem expression : Forms source g.expression .expr := by
  intro env s hs
  refine .here (.bind (h.assignment hs) fun first s h₁ => .ite (.look (.atKind _) ?_ (.pure h₁)))
  refine .bind (h.assignment.toAdds.afterCommas.ofFlatMap h₁.since) fun others s h₂ => ?_
  exact .spanFrom (.pure (h₂.made rfl h₂.row))

/-- The parentheses of a statement belong to the statement. -/
theorem parenExpression : Adds source g.parenExpression fun e => [.expr e] := by
  refine fun env s moved start ns hs => .bind hs.expectMark fun _ s h₁ => ?_
  refine .bind (h.expression.withContext.adds h₁) fun e s h₂ => ?_
  exact .bind h₂.expectMark fun _ s h₃ => .pure h₃.relax

/-- The brackets of an access belong to the access. -/
theorem bracketExpression : Adds source g.bracketExpression fun e => [.expr e] := by
  refine fun env s moved start ns hs => ?_
  refine .bind (h.expression.withContext.adds hs) fun e s h₁ => ?_
  exact .bind h₁.expectMark fun _ s h₂ => .pure h₂.relax

/-- A spread holds its argument. -/
theorem spreadOrAssignment : Forms source g.spreadOrAssignment .expr := by
  refine fun env s hs => .here (.ite ((Since.here hs).eatKind TokenKind.noConfusion
    (fun s h₁ => ?_) fun _ => h.assignment hs))
  refine .bind (h.assignment.adds h₁) fun e s h₂ => ?_
  exact .spanFrom (.pure (h₂.made rfl h₂.row))

/-- Arguments are added to the call that they belong to. -/
theorem arguments : Adds source g.arguments fun es => es.map .expr := by
  refine fun env s moved start ns hs => .bind hs.expectMark fun _ s h₁ => ?_
  exact h.spreadOrAssignment.toAdds.commaSeparated.ofFlatMap.withContext h₁.relax

/-- A key is added as what it is; the brackets of a computed one are no part of it. -/
theorem key : Adds source g.key fun k => [k.located] := by
  intro env s moved start ns hs
  have hleaf {k : TokenKind} (hk : s.token.kind = k) (hne : k ≠ .eof) {mk : Token → Key}
      (hloc : ∀ t, (mk t).located.loc = t.span) (hchildren : ∀ t, (mk t).located.children = []) :
      Reads source env s (Parser.bump >>= fun t => pure (mk t)) fun k s' =>
        Since source moved start (ns ++ [k.located]) s' :=
    (hs.sound.leafAs hk hne mk hloc hchildren).mono fun _ _ h₁ => (hs.add h₁).relax
  refine .kind ?_
  split
  · next hk => exact hleaf hk TokenKind.noConfusion (fun _ => rfl) fun _ => rfl
  · next hk => exact hleaf hk TokenKind.noConfusion (fun _ => rfl) fun _ => rfl
  · next hk => exact hleaf hk TokenKind.noConfusion (fun _ => rfl) fun _ => rfl
  · next hk => exact hleaf hk TokenKind.noConfusion (fun _ => rfl) fun _ => rfl
  · refine .bind hs.discardBump fun _ s h₁ => ?_
    refine .bind (h.assignment.withContext.adds h₁) fun e s h₂ => ?_
    exact .bind h₂.expectMark fun _ s h₃ => .pure h₃.relax
  · exact .bind (forms_identName.adds hs) fun id s h₁ => .pure h₁.relax

/-- A round adds a stretch of text, and an expression unless the template ends. -/
theorem templateStep {isTagged : Bool} {parts : TemplateParts} (hs : Opening source start parts s) :
    Reads source env s (g.templateStep isTagged parts)
      (Round (Opening source start) fun parts s' => Since source true start parts.located s') := by
  obtain ⟨hk, hlength, hs⟩ := hs
  refine .bind (hs.sound.leaf hk) fun t s h₁ => ?_
  have hquasi (raw : String) (cooked : Option String) (tail : Bool) :
      Since source true start (TemplateParts.located
        ⟨⟨t.span, raw, cooked, tail⟩ :: parts.quasis, parts.expressions⟩) s := by
    rw [located_quasi hlength]
    exact hs.add (h₁ _ rfl rfl)
  dsimp only
  generalize (unescape t.text.toList).toOption.map String.ofList = cooked
  generalize (decide (t.kind = .noSubstitutionTemplate) || decide (t.kind = .templateTail)) = tail
  have h₂ := hquasi t.text cooked tail
  split
  · refine .fail (h₂.isPlace (n := .quasi ⟨t.span, t.text, cooked, tail⟩) ?_) nofun
    rw [located_quasi hlength]
    exact List.mem_append_right _ (List.mem_singleton_self _)
  split
  · exact .pure h₂
  · refine .bind (h.expression.withContext.adds h₂) fun e s h₂ => .kind ?_
    rw [located_quasi hlength, ← located_both hlength] at h₂
    split
    · next hk => exact .pure ⟨by rw [hk]; exact TokenKind.noConfusion, by simp [hlength], h₂.relax⟩
    · next hk => exact .pure ⟨by rw [hk]; exact TokenKind.noConfusion, by simp [hlength], h₂.relax⟩
    · exact .unexpected h₂.sound

/-- A template, from its first stretch of text on. -/
theorem template (isTagged : Bool) (hs : s.Sound source) (hk : s.token.kind ≠ .eof) :
    Reads source env s (g.template isTagged) fun t s' => Made source s.here (.template t) s' := by
  refine .here (.bind (P := fun parts s' => Since source true s.here parts.located s')
    (.repeatFrom (a := ⟨[], []⟩) (I := Opening source s.here)
      (fun _ _ hopening => hopening.2.2.sound) (fun _ _ => h.templateStep)
      ⟨hk, rfl, .here hs⟩) fun parts s h₁ => ?_)
  exact .spanFrom (.pure (h₁.made rfl h₁.row))

/-! ## Patterns that declare names -/

/-- A target is a name or a pattern in brackets. -/
theorem bindingTarget : Forms source g.bindingTarget .pat := by
  refine fun env s hs => .kind ?_
  split
  · exact h.arrayPattern hs
  · exact h.objectPattern hs
  · exact .bind (forms_name hs) fun id s h₁ => .pure h₁

/-- A default value stands behind its target, and both are in the element. -/
theorem bindingElement : Forms source g.bindingElement .pat := by
  refine fun env s hs => .here (.bind (h.bindingTarget hs) fun target s h₁ => ?_)
  refine .ite (h₁.since.eatKind TokenKind.noConfusion (fun s h₂ => ?_) fun _ => .pure h₁)
  refine .bind (h.assignment.withContext.adds h₂) fun right s h₃ => ?_
  exact .spanFrom (.pure (h₃.made rfl h₃.row))

/-- A rest holds its target. -/
theorem restBinding : Forms source g.restBinding .pat := by
  refine fun env s hs => .here (.bind (Since.here hs).expectMark fun _ s h₁ => ?_)
  refine .bind (h.bindingTarget.adds h₁) fun argument s h₂ => ?_
  exact .spanFrom (.pure (h₂.made rfl h₂.row))

/-- An element that is left out adds nothing. -/
theorem bindingElementOrHole :
    Adds source g.bindingElementOrHole fun p => (p.map Located.pat).toList := by
  refine fun env s moved start ns hs => .ite (hs.eatKind TokenKind.noConfusion
    (fun s h₁ => .pure ?_) fun _ => ?_)
  · simpa using h₁.relax
  · exact .map (h.bindingElement.toAdds.itemAndComma hs)

/-- An array pattern holds its elements one after the other. -/
theorem arrayPatternBody : Forms source g.arrayPatternBody .pat := by
  refine fun env s hs => .here (.bind (Since.here hs).expectMark fun _ s h₁ => ?_)
  have hrest : Adds source (some <$> g.restBinding) fun p => (p.map Located.pat).toList :=
    fun _ _ _ _ _ hs => .map (h.restBinding.toAdds hs)
  refine .bind ((h.bindingElementOrHole.itemsWithRest hrest).ofOptions h₁) fun elements s h₂ => ?_
  exact .spanFrom (.pure (h₂.made rfl h₂.row))

/-- A property holds its key and its value. A bare name is both, and counts once. -/
theorem bindingProperty : Forms source g.bindingProperty .patProperty := by
  refine fun env s hs => .here ((Looks.atKind _).bind fun mayBeShorthand => ?_)
  refine .bind (h.key (Since.here hs)) fun key s h₁ => ?_
  refine .ite (h₁.eatKind TokenKind.noConfusion (fun s h₂ => ?_) fun _ => ?_)
  · refine .bind (h.bindingElement.adds h₂) fun value s h₃ => ?_
    exact .spanFrom (.pure (h₃.made rfl h₃.row))
  · split
    · next id =>
      split
      · exact .fail (h₁.isPlace (List.mem_singleton_self _)) nofun
      · have h₁ := h₁.grown (List.cons_ne_nil _ _)
        refine .ite (h₁.eatKind TokenKind.noConfusion (fun s h₂ => ?_) fun _ => ?_)
        · refine .bind (h.assignment.withContext.adds h₂) fun value s h₃ => ?_
          exact .spanFrom (.pure (h₃.made rfl h₃.row))
        · exact .spanFrom (.pure (h₁.made rfl h₁.row))
    · exact .unexpected h₁.sound

/-- An object pattern holds its properties one after the other. -/
theorem objectPatternBody : Forms source g.objectPatternBody .pat := by
  refine fun env s hs => .here (.bind (Since.here hs).expectMark fun _ s h₁ => ?_)
  refine .bind ((h.bindingProperty.toAdds.itemAndComma.itemsWithRest
    forms_restProperty.toAdds).ofFlatMap h₁) fun properties s h₂ => ?_
  exact .spanFrom (.pure (h₂.made rfl h₂.row))

/-! ## Blocks and functions -/

/-- A block holds its statements one after the other. -/
theorem block : Forms source g.block .block := by
  refine fun env s hs => .here (.bind (Since.here hs).expectMark fun _ s h₁ => ?_)
  have hitem : Adds source (do if ← Parser.atKind .eof then Parser.unexpected else g.statement false)
      fun s => [Located.stmt s] := fun _ _ _ _ _ hs =>
    .ite (.look (.atKind _) (.unexpected hs.sound) ((h.statement false).toAdds hs))
  refine .bind ((Adds.collectUntil (.atKind _) hitem).ofFlatMap h₁) fun body s h₂ => ?_
  exact .bind h₂.discardBump fun _ s h₃ => .spanFrom (.pure (h₃.made rfl h₃.row))

/-- Parameters are added to the function that they belong to. -/
theorem params : Adds source g.params fun ps => ps.map .pat := by
  refine fun env s moved start ns hs => .bind hs.expectMark fun _ s h₁ => ?_
  exact (h.bindingElement.toAdds.itemAndComma.itemsWithRest h.restBinding.toAdds).ofFlatMap h₁.relax

/-- A function holds its name, which comes first, its parameters and its body. -/
theorem functionRest {id : Option Ident} {isAsync isGenerator : Bool}
    (hs : Since source moved start (id.toList.map .ident) s) :
    Reads source env s (g.functionRest start id isAsync isGenerator) fun f s' =>
      Made source start (.function f) s' := by
  refine .bind (P := fun parts s' => Since source true start
    (id.toList.map .ident ++ parts.1.map .pat ++ [.block parts.2]) s') ?_ fun parts s h₁ => ?_
  · refine .inBody fun env => .bind (h.params hs) fun params s h₁ => ?_
    exact .bind (h.block.adds h₁) fun body s h₂ => .pure h₂
  · exact .spanFrom (.pure (h₁.made rfl h₁.row))

/-- From its word on, a function reads all that it holds. -/
theorem function {isAsync nameRequired : Bool} (hs : Since source moved start [] s) :
    Reads source env s (g.function start isAsync nameRequired) fun f s' =>
      Made source start (.function f) s' := by
  refine .bind hs.expectWord fun _ s h₁ => .bind (Keeps.eatMark _ h₁) fun isGenerator s h₂ => ?_
  exact .bind (adds_optionalName _ _ h₂) fun id s h₃ => h.functionRest h₃

/-- The parameters of an arrow stand before it, and its body behind. -/
theorem arrowRest {params : List Pat} {isAsync : Bool}
    (hs : Since source moved start (params.map .pat) s) :
    Reads source env s (g.arrowRest start params isAsync) fun e s' =>
      Made source start (.expr e) s' := by
  refine .bind hs.expectMark fun _ s h₁ => .context ?_
  have hbody : Forms source (do
      if ← Parser.atMark .leftBrace then return ArrowBody.block (← Parser.allowIn g.block)
      else return ArrowBody.expr (← g.assignment)) ArrowBody.located := fun _ _ hs =>
    .ite (.look (.atKind _) (.bind (h.block.withContext hs) fun _ _ h => .pure h)
      (.bind (h.assignment hs) fun _ _ h => .pure h))
  refine .bind (hbody.inBody.adds h₁) fun body s h₂ => ?_
  exact .spanFrom (.pure (h₂.made rfl h₂.row))

/-- A method begins at its parameters, where its function does. -/
theorem methodRest (m : MethodModifiers) : Forms source (g.methodRest m) .function :=
  fun _ _ hs => .here (h.functionRest (Since.here hs))

/-! ## Classes -/

/-- A method of a class holds its key and its function. -/
theorem classMethod {isStatic : Bool} {m : MethodModifiers} {key : Key}
    (hs : Since source moved start [key.located] s) :
    Reads source env s (g.classMethod start isStatic m key) fun m s' =>
      Made source start (.member m) s' := by
  refine .bind ((h.methodRest m).adds hs) fun value s h₁ => ?_
  exact .spanFrom (.pure (h₁.made rfl h₁.row))

/-- A field holds its key and its value, if it has one. -/
theorem classField {isStatic : Bool} {key : Key} (hs : Since source moved start [key.located] s) :
    Reads source env s (g.classField start isStatic key) fun m s' =>
      Made source start (.member m) s' := by
  have hs := hs.grown (List.cons_ne_nil _ _)
  refine .join (Q := fun value s' => Since source true start
      (key.located :: value.toList.map .expr) s')
    (hs.eatKind TokenKind.noConfusion (fun s h₁ => .map (h.assignment.inBody.adds h₁))
      fun _ => .pure hs) fun value s h₁ => ?_
  refine .bind h₁.semicolon fun _ s h₂ => ?_
  exact .spanFrom (.pure (h₂.made rfl h₂.row))

/-- The modifiers before a key hold nothing. -/
theorem methodOrField {isStatic : Bool} (hs : Since source moved start [] s) :
    Reads source env s (g.methodOrField start isStatic) fun m s' =>
      Made source start (.member m) s' := by
  refine .bind (keeps_methodModifiers hs) fun m s h₁ => .bind (h.key h₁) fun key s h₂ => ?_
  refine .ite (.look (.atKind _) (h.classMethod h₂) ?_)
  split
  · exact h.classField h₂
  · exact .unexpected h₂.sound

/-- A static block holds the statements of its block, and no block. -/
theorem member : Forms source g.member .member := by
  refine fun env s hs => .here (.ite (.look (looks_atModifier hs _) ?_ (h.methodOrField (.here hs))))
  refine .bind (Since.here hs).discardBump fun _ s h₁ => .ite (.look (.atKind _) ?_ ?_)
  · refine .bind (h.block.inBody.adds h₁) fun b s h₂ => .spanFrom (.pure ?_)
    exact h₂.made rfl (Row.inner (n := .block b) h₂.row)
  · exact h.methodOrField h₁

/-- The elements of a class are added one after the other, past semicolons. -/
theorem members : Adds source g.members fun ms => ms.map .member := by
  intro env s moved start ns hs
  refine .repeatFrom (I := fun ms s => Since source moved start (ns ++ ms.reverse.map .member) s)
    (fun _ _ h => h.sound) (fun ms s h₁ => ?_) (by simpa using hs)
  refine .ite (h₁.eatKind TokenKind.noConfusion (fun s h₂ => .pure h₂.relax) fun _ => ?_)
  refine .ite (h₁.eatKind TokenKind.noConfusion (fun s h₂ => .pure h₂.relax) fun _ => ?_)
  refine .bind (h.member.adds h₁) fun m s h₂ => .pure ?_
  simpa [Round] using h₂.relax

/-- A class holds its name, what it extends and its elements. -/
theorem classDefinition (nameRequired : Bool) :
    Forms source (g.classDefinition nameRequired) .class := by
  refine fun env s hs => .here (.bind (Since.here hs).expectWord fun _ s h₁ => ?_)
  refine .bind (adds_optionalName _ _ h₁) fun id s h₂ => ?_
  refine .join (Q := fun superClass s' => Since source true _
      (id.toList.map .ident ++ superClass.toList.map .expr) s')
    (h₂.eatKind TokenKind.noConfusion (fun s h₃ => .map (h.leftHandSide.adds h₃))
      fun _ => .pure (by simpa using h₂)) fun superClass s h₃ => .here ?_
  refine .bind (Since.here h₃.sound).expectMark fun _ s h₄ => ?_
  refine .bind (h.members h₄) fun members s h₅ => .spanFrom (.spanFrom (.pure ?_))
  have h₆ := h₃.add (h₅.made (n := .classBody ⟨_, s.lastEnd⟩ members) rfl h₅.row)
  exact h₆.made rfl h₆.row

/-! ## Names, arrows and `async` -/

/-- A name is one construct, be it an expression or a parameter. -/
theorem nameOrArrow (hs : s.Sound source) :
    Reads source env s (g.nameOrArrow s.here) fun e s' => Made source s.here (.expr e) s' := by
  refine .bind (forms_ident hs) fun id s h₁ => .ite (.look looks_atArrow ?_ (.pure ?_))
  · exact h.arrowRest (h₁.cast (m := .pat (.ident id)) rfl rfl).since
  · exact h₁.cast rfl rfl

/-- The word `async` is the beginning of the arrow function. -/
theorem asyncArrow (hs : s.Sound source) :
    Reads source env s (g.asyncArrow s.here) fun e s' => Made source s.here (.expr e) s' := by
  refine .bind (Since.here hs).discardBump fun _ s h₁ => .bind (forms_name.adds h₁) fun id s h₂ => ?_
  exact .ite (.look looks_atArrow (h.arrowRest h₂) (.unexpected h₂.sound))

/-- Arguments that become parameters stand where they stood. -/
theorem asyncCallOrArrow (hs : s.Sound source) :
    Reads source env s (g.asyncCallOrArrow s.here) fun e s' => Made source s.here (.expr e) s' := by
  refine .bind (forms_ident hs) fun callee s h₁ => ?_
  have h₁ := (h₁.cast (m := .expr (.ident callee)) rfl rfl).since
  refine .bind (h.arguments h₁) fun arguments s h₂ => .ite (.look looks_atArrow ?_ ?_)
  · have hrow := (h₂.sublist (List.sublist_append_right _ _)).row
    exact .bind (h₂.convert (nested_toParams arguments hrow)) fun params s h₃ => h.arrowRest h₃
  · exact .spanFrom (.pure (h₂.made rfl h₂.row))

/-- Whatever an identifier begins, it begins with this token. -/
theorem identifierExpression : Forms source g.identifierExpression .expr := by
  refine fun env s hs => .here (.ite (.look (looks_atAsyncFunction hs) ?_ ?_))
  · refine .bind (Since.here hs).discardBump fun _ s h₁ => ?_
    exact .bind (h.function h₁) fun f s h₂ => .pure (h₂.wrap rfl rfl)
  refine .ite (.look (.atName _) ((Looks.peek hs).bind fun next => ?_) (h.nameOrArrow hs))
  split
  · exact h.nameOrArrow hs
  split
  · exact h.asyncArrow hs
  · exact h.asyncCallOrArrow hs
  · exact h.nameOrArrow hs

/-! ## Parentheses -/

/-- A round in parentheses adds an expression or the rest, or ends the list. -/
theorem parenItemsStep {before : List Expr}
    (hs : Since source true start (before.reverse.map .expr) s) :
    Reads source env s (g.parenItemsStep before)
      (Round (fun before s' => Since source true start (before.reverse.map .expr) s')
        fun list s' => Since source true start
          (list.items.map .expr ++ list.rest.toList.map .pat) s') := by
  refine .ite (.look (.atKind _) (.pure (by simpa [Round] using hs)) ?_)
  refine .ite (.look (.atKind _) ?_ ?_)
  · refine .bind (h.restBinding.adds hs) fun rest s h₁ => .pure ?_
    simpa [Round] using h₁
  refine .bind (h.assignment.adds hs) fun item s h₁ => ?_
  have h₁ : Since source true start ((item :: before).reverse.map .expr) s := by simpa using h₁
  refine .ite (.look (.atKind _) (.pure (by simpa [Round] using h₁)) ?_)
  refine .bind h₁.expectMark fun _ s h₂ => ?_
  exact .ite (.look (.atKind _) (.pure (by simpa [Round] using h₂)) (.pure h₂))

/-- Parentheses hold their expression, and an arrow function its parameters. -/
theorem parenOrArrow : Forms source g.parenOrArrow .expr := by
  refine fun env s hs => .here (.bind (Since.here hs).expectMark fun _ s₁ h₁ => ?_)
  refine .bind (P := fun list s' => Since source true s.here
      (list.items.map .expr ++ list.rest.toList.map .pat) s')
    (.allowIn fun env => .repeatFrom (fun _ _ h => h.sound) (fun _ _ => h.parenItemsStep) h₁)
    fun list s₂ h₂ => ?_
  refine .bind (h₂.expectKind TokenKind.noConfusion) fun close s₃ ⟨hclose, _, h₃⟩ => ?_
  have hplace : IsPlace source close.span.start := hclose ▸ h₂.sound.isPlace_here
  refine .ite (.look looks_atArrow ?_ ?_)
  · exact .bind (h₃.convert (nested_parenItems h₃.row)) fun params s₄ h₄ => h.arrowRest h₄
  · split
    · exact .fail hplace nofun
    · next first others hitems =>
      split
      · exact .fail hplace nofun
      · refine .spanFrom (.pure (h₃.made rfl ?_))
        have hrow := (h₃.sublist (List.sublist_append_left _ _)).row
        rw [hitems] at hrow
        exact row_joined hrow

/-! ## `import` as an expression -/

/-- An import that is called holds its arguments, and `import.meta` its two names. -/
theorem importExpression : Forms source g.importExpression .expr := by
  refine fun env s hs => .here (.bind (hs.expectLeaf TokenKind.noConfusion) fun word s h₁ => ?_)
  have h₁ := (h₁ (.ident ⟨word.span, "import"⟩) rfl rfl).since
  refine .ite (h₁.eatKind TokenKind.noConfusion (fun s h₂ => ?_) fun _ => ?_)
  · refine .bind (forms_identName.adds h₂) fun property s h₃ => ?_
    split
    · exact .spanFrom (.pure (h₃.made rfl h₃.row))
    · exact .fail (h₃.isPlace (n := .ident property) (by simp)) nofun
  · have h₁ := h₁.sublist (List.nil_sublist _)
    refine .bind (h.arguments h₁) fun arguments s h₂ => ?_
    split
    · exact .fail h₁.isPlace_start nofun
    · exact .spanFrom (.pure (h₂.made rfl h₂.row))
    · exact .spanFrom (.pure (h₂.made rfl h₂.row))
    · exact .fail h₁.isPlace_start nofun

/-! ## Array and object literals -/

/-- An element that is left out adds nothing. -/
theorem elementOrHole : Adds source g.elementOrHole fun e => (e.map Located.expr).toList := by
  refine fun env s moved start ns hs => .ite (hs.eatKind TokenKind.noConfusion
    (fun s h₁ => .pure ?_) fun _ => ?_)
  · simpa using h₁.relax
  · exact .bind (h.spreadOrAssignment.toAdds.itemAndComma hs) fun e s h₁ => .pure h₁

/-- An array literal holds its elements one after the other. -/
theorem arrayLiteral : Forms source g.arrayLiteral .expr := by
  refine fun env s hs => .here (.bind (Since.here hs).expectMark fun _ s h₁ => ?_)
  refine .bind ((Adds.collectUntil (.eatMark _) h.elementOrHole).ofOptions.withContext h₁)
    fun elements s h₂ => ?_
  exact .spanFrom (.pure (h₂.made rfl h₂.row))

/-- A default value is kept behind the name that it is for. -/
theorem nameProperty {id : Ident} (hs : Since source true start [.ident id] s) :
    Reads source env s (g.nameProperty start id) fun p s' =>
      Made source start (.property p) s' := by
  refine .ite (hs.eatKind TokenKind.noConfusion (fun s h₁ => ?_) fun _ => ?_)
  · refine .bind (h.assignment.adds h₁) fun right s h₂ => .spanFrom (.pure ?_)
    obtain ⟨hname, hright⟩ := Row.of_cons h₂.row
    have hrow : Row source start.offset s.lastEnd.offset [.pat (.ident id), .expr right] :=
      h₂.row.cons_of_replaced (hname.replaced (m := .pat (.ident id)) rfl (.nil _ _)) hright
    have hvalue := h₂.made (n := .expr (.assign ⟨start, s.lastEnd⟩ .assign (.ident id) right)) rfl hrow
    refine hvalue.wrap rfl ?_
    simp [Located.children, Located.propertyChildren, Located.repeatsKey]
  · exact .spanFrom (.pure (hs.made rfl hs.row))

/-- What follows a key is added behind it. -/
theorem propertyRest {m : MethodModifiers} {mayBeShorthand : Bool} {key : Key}
    (hs : Since source moved start [key.located] s) :
    Reads source env s (g.propertyRest start m mayBeShorthand key) fun p s' =>
      Made source start (.property p) s' := by
  refine .ite (.look (.atKind _) ?_ ?_)
  · refine .bind ((h.methodRest m).adds hs) fun value s h₁ => ?_
    exact .spanFrom (.pure (h₁.made rfl h₁.row))
  split
  · exact .unexpected hs.sound
  refine .ite (hs.eatKind TokenKind.noConfusion (fun s h₁ => ?_) fun _ => ?_)
  · refine .bind (h.assignment.adds h₁) fun value s h₂ => ?_
    exact .spanFrom (.pure (h₂.made rfl h₂.row.property))
  · split
    · next id =>
      split
      · exact h.nameProperty (hs.grown (List.cons_ne_nil _ _))
      · exact .fail (hs.isPlace (List.mem_singleton_self _)) nofun
    · exact .unexpected hs.sound

/-- A property begins with its points, its modifiers or its key. -/
theorem property : Forms source g.property .property := by
  refine fun env s hs => .here (.ite ((Since.here hs).eatKind TokenKind.noConfusion
    (fun s h₁ => ?_) fun _ => ?_))
  · refine .bind (h.assignment.adds h₁) fun argument s h₂ => ?_
    exact .spanFrom (.pure (h₂.made rfl h₂.row))
  · refine .bind (keeps_methodModifiers (Since.here hs)) fun m s h₁ => ?_
    refine (Looks.atKind _).bind fun mayBeShorthand => ?_
    exact .bind (h.key h₁) fun key s h₂ => h.propertyRest h₂

/-- An object literal holds its properties one after the other. -/
theorem objectLiteral : Forms source g.objectLiteral .expr := by
  refine fun env s hs => .here (.bind (Since.here hs).expectMark fun _ s h₁ => ?_)
  refine .bind (h.property.toAdds.commaSeparated.ofFlatMap.withContext h₁) fun properties s h₂ => ?_
  exact .spanFrom (.pure (h₂.made rfl h₂.row))

/-! ## All of them -/

/-- A primary expression is one construct, from its first token on. -/
theorem primary : Forms source g.primary .expr := by
  refine fun env s hs => .kind ?_
  split
  · exact h.parenOrArrow hs
  · exact h.arrayLiteral hs
  · exact h.objectLiteral hs
  · exact .here (.bind (h.function (Since.here hs)) fun f s h₁ => .pure (h₁.wrap rfl rfl))
  · exact .bind (h.classDefinition false hs) fun c s h₁ => .pure (h₁.wrap rfl rfl)
  · exact h.importExpression hs
  · exact h.identifierExpression hs
  · next hk =>
    refine .bind (h.template false hs (by rw [hk]; exact TokenKind.noConfusion)) fun t s h₁ => ?_
    exact .pure (h₁.wrap rfl rfl)
  · next hk =>
    refine .bind (h.template false hs (by rw [hk]; exact TokenKind.noConfusion)) fun t s h₁ => ?_
    exact .pure (h₁.wrap rfl rfl)
  · exact forms_literal hs

end Nests

end Grammar

end WithScope
