import WithScope.Proofs.Grammar.AlikeStatement
import WithScope.Proofs.Grammar.Bracketed
import WithScope.Proofs.Token.Footing
import WithScope.Proofs.Tree.HandedOn

/-!
# Objects that are returned

A return that hands its value on returns an object literal: `{}`, or `{value: (A)}`. These are the
productions that read it, from the inside out, given what comes of the tokens (`ParserState.Facing`)
and of what stands in the parentheses.
-/

namespace WithScope

/-! ## The tokens -/

namespace ParserState

/-- The text `cs` comes after the current token, and no substitution is open. -/
structure Facing (source cs : List Char) (s : ParserState) : Prop where
  /-- it is a state of the text -/
  steady : s.Steady source
  /-- what comes after the token -/
  rest : s.lexer.rest = cs
  /-- no substitution is open -/
  substitutions : s.lexer.substitutions = []

namespace Facing

variable {source cs : List Char} {s : ParserState}

/-- Past a token that opens and closes no substitution. -/
theorem past {t : Token} {l : Lexer} (h : s.Facing source cs) (hnext : s.lexer.next = (.ok t, l))
    (hk : t.kind.opened = 0) :
    s.Past ⟨l, t, s.token.span.stop⟩ ∧
      (⟨l, t, s.token.span.stop⟩ : ParserState).Facing source l.rest := by
  have hpast : s.Past ⟨l, t, s.token.span.stop⟩ := ⟨t, l, hnext, rfl⟩
  have hsubs := Lexer.substitutions_next hnext
  rw [hk, h.substitutions] at hsubs
  exact ⟨hpast, h.steady.past hpast, rfl, List.eq_nil_of_length_eq_zero (by simpa using hsubs)⟩

/-- A mark comes next, right away or after a space. -/
theorem mark {c : Char} {mark : Punctuator} (gap : List Char) (hgap : gap = [] ∨ gap = [' '])
    (hmark : (c, mark) ∈ Lexer.handingMarks) (h : s.Facing source (gap ++ c :: cs)) :
    ∃ m, s.Past m ∧ m.Facing source cs ∧ m.token.kind = .punctuator mark ∧
      m.token.newlineBefore = false := by
  obtain ⟨t, hnext, hk, hline⟩ := h.steady.lexer.next_mark gap hmark hgap h.rest
  obtain ⟨hpast, hfacing⟩ := h.past hnext (by rw [hk]; rfl)
  rw [Lexer.track_rest] at hfacing
  exact ⟨_, hpast, hfacing, hk, hline⟩

/-- A closing brace comes next. -/
theorem rightBrace (h : s.Facing source ('}' :: cs)) : ∃ m, s.Past m ∧ m.Facing source cs ∧
    m.token.kind = .punctuator .rightBrace := by
  obtain ⟨t, hnext, hk⟩ := h.steady.lexer.next_rightBrace h.substitutions h.rest
  obtain ⟨hpast, hfacing⟩ := h.past hnext (by rw [hk]; rfl)
  rw [Lexer.track_rest] at hfacing
  exact ⟨_, hpast, hfacing, hk⟩

/-- A name comes next. -/
theorem name {name : List Char} (hname : isName name)
    (hfree : Keyword.ofSpelling? (String.ofList name) = none)
    (hcs : ∀ c ∈ cs.head?, c ≠ '\\' ∧ isIdContinue c = false) (h : s.Facing source (name ++ cs)) :
    ∃ m, s.Past m ∧ m.Facing source cs ∧ m.token.kind = .identifier ∧
      m.token.text = String.ofList name := by
  obtain ⟨t, hnext, hk, hvalue⟩ := h.steady.lexer.next_name hname hfree h.rest hcs
  obtain ⟨hpast, hfacing⟩ := h.past hnext (by rw [hk]; rfl)
  exact ⟨_, hpast, hfacing, hk, by rw [Token.text, hvalue]⟩

end Facing

end ParserState

/-! ## The productions -/

namespace Grammar

open WithScope.Parser (Outcome)

variable {F : SyntaxError → Prop} {env : Surrounding} {s m : ParserState} {g : Grammar}
  {Q : Expr → ParserState → Prop}

/-- Where `in` is an operator already, nothing changes. -/
theorem outcome_allowIn {α : Type} {p : Parser α} {R : α → ParserState → Prop}
    (hin : env.context.noIn = false) (h : Outcome F env s p R) : Outcome F env s p.allowIn R := by
  obtain ⟨options, context, labels⟩ := env
  obtain ⟨_, _, _, _, _, _, _⟩ := context
  cases hin
  exact h

/-- An expression in parentheses before a mark that no expression goes on with. -/
theorem outcome_parenOrArrow (hin : env.context.noIn = false) (hpast : s.Past m)
    (hk : s.token.kind = .punctuator .leftParen)
    (h : Outcome F env m (Parser.repeatFrom [] g.parenItemsStep) fun list k => ∃ first others,
      list = ⟨first :: others, none, false⟩ ∧ k.token.kind = .punctuator .rightParen ∧
        ∃ b, k.Past b ∧ b.token.kind.isFinal ∧
          Q (.paren ⟨s.token.span.start, b.lastEnd⟩ (joined first others)) b) :
    Outcome F env s g.parenOrArrow (Settled Q) := by
  refine .here (.expectMark hpast hk ((outcome_allowIn hin h).bind ?_))
  rintro _ k ⟨first, others, rfl, hk, b, hpast, hfinal, hQ⟩
  refine .expectKind hpast hk (.bind (P := fun isArrow s => isArrow = false ∧ s = b) ?_ ?_)
  · exact .ifKind_ne (TokenKind.ne_of_isFinal hfinal rfl) ⟨rfl, rfl⟩
  · rintro _ _ ⟨rfl, rfl⟩
    exact ⟨rfl, hfinal, hQ⟩

/-- A property with the name `value`. -/
theorem outcome_property {c p : ParserState} {R : Property → ParserState → Prop}
    (hk : s.token.kind = .identifier) (hname : s.token.text = "value") (hpast : s.Past c)
    (hcolon : c.token.kind = .punctuator .colon) (hpast' : c.Past p)
    (h : Outcome F env p g.assignment fun e b =>
      R (.value ⟨s.token.span.start, b.lastEnd⟩ (.ident ⟨s.token.span, "value"⟩) e) b) :
    Outcome F env s g.property R := by
  have hmodifier (word : String) (hword : "value" ≠ word) :
      Outcome F env s (atModifier word) fun b m => b = false ∧ s = m := by
    refine .ifName_ne ?_ ⟨rfl, rfl⟩
    rw [Token.isIdentifier, hname, beq_eq_false_iff_ne.2 hword, Bool.and_false]
  have hmodifiers : Outcome F env s methodModifiers fun modifiers m =>
      modifiers = ⟨.method, false, false⟩ ∧ s = m := by
    refine (hmodifier "async" (by decide)).bind ?_
    rintro _ _ ⟨rfl, rfl⟩
    refine (hmodifier "get" (by decide)).bind ?_
    rintro _ _ ⟨rfl, rfl⟩
    refine (hmodifier "set" (by decide)).bind ?_
    rintro _ _ ⟨rfl, rfl⟩
    exact .bind (P := fun b m => b = false ∧ s = m) (.ifKind_ne (by simp [hk]) ⟨rfl, rfl⟩)
      fun _ _ hb => hb.imp (congrArg _) id
  refine .here (.eaten_ne (by simp [hk]) (hmodifiers.bind ?_))
  rintro _ _ ⟨rfl, rfl⟩
  refine Outcome.bind (P := fun b m => b = true ∧ s = m) ⟨decide_eq_true hk, rfl⟩ ?_
  rintro _ _ ⟨rfl, rfl⟩
  have hkey : Outcome F env s g.key fun key m => key = .ident ⟨s.token.span, "value"⟩ ∧ c = m := by
    have hident : Outcome F env s Parser.identName fun id m =>
        id = ⟨s.token.span, s.token.text⟩ ∧ c = m := by
      refine .kind ?_
      rw [hk]
      exact .expectKind hpast hk ⟨rfl, rfl⟩
    refine .kind ?_
    rw [hk]
    refine hident.bind ?_
    rintro _ _ ⟨rfl, rfl⟩
    exact ⟨congrArg (Key.ident ⟨_, ·⟩) hname, rfl⟩
  refine hkey.bind ?_
  rintro _ _ ⟨rfl, rfl⟩
  refine .ifKind_ne (by simp [hcolon]) (.eaten_eq hpast' hcolon (h.bind fun e b hR => ?_))
  exact hR

/-- An object literal without properties. -/
theorem outcome_objectLiteral_empty {r c : ParserState} (hin : env.context.noIn = false)
    (hk : s.token.kind = .punctuator .leftBrace) (hpast : s.Past r)
    (hbrace : r.token.kind = .punctuator .rightBrace) (hpast' : r.Past c)
    (hfinal : c.token.kind.isFinal) (hQ : Q (.object ⟨s.token.span.start, c.lastEnd⟩ []) c) :
    Outcome F env s g.objectLiteral (Settled Q) := by
  have hnone : Outcome F env r (Parser.commaSeparated .rightBrace g.property)
      fun properties m => properties = [] ∧ c = m :=
    .repeatFrom_once (.eaten_eq hpast' hbrace ⟨[], rfl, rfl, rfl⟩)
  refine .here (.expectMark hpast hk ((outcome_allowIn hin hnone).bind ?_))
  rintro _ _ ⟨rfl, rfl⟩
  exact ⟨rfl, hfinal, hQ⟩

/-- An object literal with one property. -/
theorem outcome_objectLiteral_one {v : ParserState} (hin : env.context.noIn = false)
    (hk : s.token.kind = .punctuator .leftBrace) (hpast : s.Past v)
    (hv : v.token.kind ≠ .punctuator .rightBrace)
    (h : Outcome F env v g.property fun x r => r.token.kind = .punctuator .rightBrace ∧ ∃ c,
      r.Past c ∧ c.token.kind.isFinal ∧ Q (.object ⟨s.token.span.start, c.lastEnd⟩ [x]) c) :
    Outcome F env s g.objectLiteral (Settled Q) := by
  have hone : Outcome F env v (Parser.commaSeparated .rightBrace g.property) fun properties c =>
      ∃ x, properties = [x] ∧ c.token.kind.isFinal ∧
        Q (.object ⟨s.token.span.start, c.lastEnd⟩ [x]) c := by
    have hitem : Outcome F env v (Parser.itemAndComma .rightBrace g.property) fun x r =>
        r.token.kind = .punctuator .rightBrace ∧ ∃ c, r.Past c ∧ c.token.kind.isFinal ∧
          Q (.object ⟨s.token.span.start, c.lastEnd⟩ [x]) c :=
      h.bind fun x r hr => .ifKind_eq hr.1 hr
    refine .repeatFrom_twice (.eaten_ne hv (hitem.bind ?_))
    rintro x r ⟨hbrace, c, hpast, hc⟩
    exact ⟨[x], rfl, .eaten_eq hpast hbrace ⟨[x], rfl, x, rfl, hc⟩⟩
  refine .here (.expectMark hpast hk ((outcome_allowIn hin hone).bind ?_))
  rintro _ c ⟨x, rfl, hfinal, hQ⟩
  exact ⟨rfl, hfinal, hQ⟩

/-! ## What is returned -/

variable {copy result : List Char} (hF : ∀ place, F ⟨.nestingTooDeep, place⟩)
  (hin : env.context.noIn = false) (hk : s.token.kind = .punctuator .leftBrace)
include hF hin hk

/-- The object that is returned for no argument. -/
theorem outcome_object_none (hs : s.Facing copy ('}' :: ';' :: result))
    (hQ : ∀ loc (c : ParserState), c.Facing copy result → c.token.kind = .punctuator .semicolon →
      Q (.object loc []) c) (n : Nat) :
    Outcome F env s (nest n).expression (Settled Q) := by
  obtain ⟨r, hpast, hr, hbrace⟩ := hs.rightBrace
  obtain ⟨c, hpast', hc, hsemicolon, -⟩ := hr.mark [] (.inl rfl)
    (show (';', .semicolon) ∈ Lexer.handingMarks by decide)
  refine outcome_expression hF (by rw [hk]; rfl) (fun n => .kind ?_) n
  rw [hk]
  exact outcome_objectLiteral_empty hin hk hpast hbrace hpast' (by rw [hsemicolon]; rfl)
    (hQ _ c hc hsemicolon)

/-- The object that is returned for an argument, given what is read in the parentheses. -/
theorem outcome_object_some {argument : List Char} {e : Expr} {P : Prop}
    (hs : s.Facing copy ("value: (".toList ++ (argument ++ ')' :: '}' :: ';' :: result)))
    (hargument : ∀ (p : ParserState) n, p.Facing copy (argument ++ ')' :: '}' :: ';' :: result) →
      ∃ a, p.Past a ∧ Outcome F env a (Parser.repeatFrom [] (nest n).parenItemsStep) fun list b =>
        ∃ first others, list = ⟨first :: others, none, false⟩ ∧
          placeless (joined first others) = placeless e ∧
          b.token.kind = .punctuator .rightParen ∧ b.Facing copy ('}' :: ';' :: result) ∧ P)
    (hQ : ∀ loc loc' loc'' (id : Ident) inner (c : ParserState), placeless inner = placeless e →
      id.name = "value" → P → c.Facing copy result → c.token.kind = .punctuator .semicolon →
      Q (.object loc [.value loc' (.ident id) (.paren loc'' inner)]) c) (n : Nat) :
    Outcome F env s (nest n).expression (Settled Q) := by
  have hname : ∀ d ∈ (':' :: ' ' :: '(' :: (argument ++ ')' :: '}' :: ';' :: result)).head?,
      d ≠ '\\' ∧ isIdContinue d = false := by
    rintro d ⟨⟩
    decide +kernel
  obtain ⟨v, hv, hvfacing, hvkind, hvname⟩ :=
    ParserState.Facing.name (show isName "value".toList by decide +kernel) (by decide) hname hs
  obtain ⟨c, hc, hcfacing, hckind, -⟩ :=
    hvfacing.mark [] (.inl rfl) (show (':', .colon) ∈ Lexer.handingMarks by decide)
  obtain ⟨p, hp, hpfacing, hpkind, -⟩ :=
    hcfacing.mark [' '] (.inr rfl) (show ('(', .leftParen) ∈ Lexer.handingMarks by decide)
  have hparen (n : Nat) : Outcome F env p (nest n).primary (Settled fun value r => ∃ loc inner,
      value = .paren loc inner ∧ placeless inner = placeless e ∧ r.Facing copy (';' :: result) ∧
        r.token.kind = .punctuator .rightBrace ∧ P) := by
    obtain ⟨a, ha, hitems⟩ := hargument p n hpfacing
    refine .kind ?_
    rw [hpkind]
    refine outcome_parenOrArrow hin ha hpkind (hitems.mono ?_)
    rintro _ b ⟨first, others, rfl, hjoined, hbkind, hbfacing, hP⟩
    obtain ⟨r, hr, hrfacing, hrkind⟩ := hbfacing.rightBrace
    exact ⟨first, others, rfl, hbkind, r, hr, by rw [hrkind]; rfl, _, _, rfl, hjoined, hrfacing, hrkind,
      hP⟩
  have hproperty (n : Nat) : Outcome F env v (nest n).property fun x r =>
      r.token.kind = .punctuator .rightBrace ∧ ∃ c, r.Past c ∧ c.token.kind.isFinal ∧
        Q (.object ⟨s.token.span.start, c.lastEnd⟩ [x]) c := by
    refine outcome_property hvkind hvname hc hckind hp
      ((outcome_assignment hF (by rw [hpkind]; rfl) hparen n).mono ?_)
    rintro _ r ⟨-, -, loc, inner, rfl, hinner, hrfacing, hrkind, hP⟩
    obtain ⟨d, hd, hdfacing, hdkind, -⟩ := hrfacing.mark [] (.inl rfl)
      (show (';', .semicolon) ∈ Lexer.handingMarks by decide)
    exact ⟨hrkind, d, hd, by rw [hdkind]; rfl, hQ _ _ _ _ inner d hinner rfl hP hdfacing hdkind⟩
  refine outcome_expression hF (by rw [hk]; rfl) (fun n => .kind ?_) n
  rw [hk]
  exact outcome_objectLiteral_one hin hk hv (by rw [hvkind]; nofun) (hproperty n)

omit hF hin hk in
/-- A return of something that begins on the same line. -/
theorem outcome_returnStatement {start : Position} {R : Stmt → ParserState → Prop}
    (hallowed : (!env.context.inFunction && !env.options.returnAnywhere) = false) (hpast : s.Past m)
    (hk : m.token.kind = .punctuator .leftBrace) (hline : m.token.newlineBefore = false)
    (h : Outcome F env m g.expression fun e c => c.token.kind = .punctuator .semicolon ∧
      ∃ d, c.Past d ∧ R (.return ⟨start, d.lastEnd⟩ (some e)) d) :
    Outcome F env s (g.returnStatement start) R := by
  have hend : Outcome F env m Parser.atStatementEnd fun b s => b = false ∧ m = s := by
    refine .ifKind_ne (by rw [hk]; nofun) ⟨?_, rfl⟩
    rw [hk, hline]
    rfl
  refine Outcome.bind (P := fun surrounding m => env = surrounding ∧ s = m) ⟨rfl, rfl⟩ ?_
  rintro _ _ ⟨rfl, rfl⟩
  refine .ite_false hallowed (.skip hpast (hend.bind ?_))
  rintro _ _ ⟨rfl, rfl⟩
  have hargument : Outcome F env m (some <$> g.expression) fun argument c => ∃ e, argument = some e ∧
      c.token.kind = .punctuator .semicolon ∧
      ∃ d, c.Past d ∧ R (.return ⟨start, d.lastEnd⟩ (some e)) d :=
    Outcome.bind (f := fun e => pure (some e)) h fun e c hc => Outcome.pure ⟨e, rfl, hc⟩
  refine .ite_false rfl (hargument.bind ?_)
  rintro _ c ⟨e, rfl, hk, d, hpast, hR⟩
  refine Outcome.bind (P := fun _ s => d = s) (.eaten_eq hpast hk rfl) ?_
  rintro _ _ rfl
  exact hR

end Grammar

end WithScope
