import WithScope.Proofs.Grammar.Alike

/-!
# Primary expressions read a copy alike

What an expression can end with is followed up to the end of the stretch: arguments, templates,
functions, classes, names, literals and what stands in brackets.
-/

namespace WithScope

open Stretch.Follows

namespace Grammar

variable {Ψ : Stretch}

/-! ## Templates -/

/-- What has been read of a template, with its places moved. -/
instance : Relocatable TemplateParts :=
  ⟨fun f parts => ⟨Relocatable.relocated f parts.quasis, Relocatable.relocated f parts.expressions⟩⟩

/-- What stands in parentheses, with its places moved. -/
instance : Relocatable ParenItems := ⟨fun f list =>
  ⟨Relocatable.relocated f list.items, Relocatable.relocated f list.rest, list.trailingComma⟩⟩

/-- How many substitutions a template closes from such a token on. -/
def closed : TokenKind → Int
  | .templateMiddle | .templateTail => 1
  | _ => 0

/-- The parts of a template end with such a token. -/
def endsTemplate (k : TokenKind) : Bool := k = .noSubstitutionTemplate || k = .templateTail

/-- What a stretch of text in a template stands for, unless there is an illegal escape in it. -/
def cooked? (t : Token) : Option String := (unescape t.text.toList).toOption.map String.ofList

/-- The parts of a template with one more stretch of text. -/
def TemplateParts.push (parts : TemplateParts) (t : Token) : TemplateParts :=
  ⟨⟨t.span, t.text, cooked? t, endsTemplate t.kind⟩ :: parts.quasis, parts.expressions⟩

/-- What would come after a fault does not come. -/
theorem unexpected_bind {α β : Type} (f : α → Parser β) :
    (Parser.unexpected >>= f) = Parser.unexpected := by
  funext env s
  show ((if s.token.kind = .eof then Parser.fail s.token.span.start .unexpectedEnd
    else Parser.fail s.token.span.start (.unexpectedToken s.token.spelling) : Parser α) >>= f) env s =
    (if s.token.kind = .eof then Parser.fail s.token.span.start .unexpectedEnd
    else Parser.fail s.token.span.start (.unexpectedToken s.token.spelling) : Parser β) env s
  split <;> rfl

/-- A round of a template, as the token that it begins with decides. -/
theorem templateStep_eq (g : Grammar) (isTagged : Bool) (parts : TemplateParts) :
    g.templateStep isTagged parts = (do
      let t ← Parser.bump
      if (cooked? t).isNone && !isTagged then Parser.fail t.span.start .escapeInTemplate
      else if endsTemplate t.kind then return .inr (parts.push t)
      else
        let e ← Parser.allowIn g.expression
        match ← Parser.kind with
        | .templateMiddle | .templateTail =>
          return .inl ⟨(parts.push t).quasis, e :: parts.expressions⟩
        | _ => Parser.unexpected) := rfl

/-- One round of a template and the others. -/
theorem iterate_templateStep (g : Grammar) (isTagged : Bool) (c : Char) (budget : List Char)
    (parts : TemplateParts) : Parser.iterate (g.templateStep isTagged) (c :: budget) parts = (do
      let t ← Parser.bump
      if (cooked? t).isNone && !isTagged then Parser.fail t.span.start .escapeInTemplate
      else if endsTemplate t.kind then return parts.push t
      else
        let e ← Parser.allowIn g.expression
        match ← Parser.kind with
        | .templateMiddle | .templateTail =>
          Parser.iterate (g.templateStep isTagged) budget
            ⟨(parts.push t).quasis, e :: parts.expressions⟩
        | _ => Parser.unexpected) := by
  rw [Parser.iterate, templateStep_eq, bind_assoc]
  refine congrArg (_ >>= ·) (funext fun t => ?_)
  split
  next => rfl
  next =>
    split
    next => rw [pure_bind]
    next =>
      simp only [bind_assoc]
      refine congrArg (_ >>= ·) (funext fun e => congrArg (_ >>= ·) (funext fun k => ?_))
      split
      · rw [pure_bind]
      · rw [pure_bind]
      · rw [unexpected_bind]

/-- Expressions joined in the copy are the copy of the joined expressions. -/
theorem joined_moved (first : Expr) (others : List Expr) :
    joined (Ψ.moved first) (Ψ.moved others) = Ψ.moved (joined first others) := by
  cases others with
  | nil => rfl
  | cons second others =>
    have hlast : ((second :: others).map (Expr.relocated Ψ.places.shift)).getLastD
        (first.relocated Ψ.places.shift) =
        ((second :: others).getLastD first).relocated Ψ.places.shift := by
      rw [List.getLastD_eq_getLast?, List.getLast?_map, Option.getD_map,
        ← List.getLastD_eq_getLast?]
    show Expr.sequence (((first.relocated _).loc).to
      (((second :: others).map (Expr.relocated Ψ.places.shift)).getLastD
        (first.relocated Ψ.places.shift)).loc) _ = _
    rw [hlast, Expr.loc_relocated, Expr.loc_relocated]
    simp [joined, Span.to]

/-- The body of a function begins with a brace. -/
theorem leaves_block {g : Grammar} {env : Surrounding} {s : ParserState} :
    Parser.Leaves env s g.block fun _ _ => s.token.kind = .punctuator .leftBrace :=
  .here (.bind (Parser.leaves_expectMark _) fun _ _ hk =>
    (Parser.Leaves.of_yields (.trivial _)).mono fun _ _ _ => hk.1)

section

variable {taken : Bool} {env : Surrounding} {s₁ s₂ : ParserState}

/-- A name that may be left out, also at the end of the stretch. -/
theorem optionalName_near (isRequired : Bool) {isName : Token → Bool}
    (hname : ∀ t, isName (Ψ.moved t) = isName t)
    (hparen : ∀ t, t.kind = .punctuator .rightParen → isName t = false) :
    Ψ.Follows .within Ψ.Near false env s₁ s₂ (optionalName isRequired isName)
      (optionalName isRequired isName) :=
  test_near hname hparen (fun _ => take ident fun _ _ _ => done rfl)
    (ite Iff.rfl (fun _ => unexpected) fun _ => done rfl)

end

/-! ## What begins with `async` -/

/-- What begins with the word `async`, as the token after it decides if it is on the same line. -/
def atAsync (g : Grammar) (start : Position) (next : Token) : Parser Expr :=
  if next.newlineBefore then g.nameOrArrow start
  else if next.kind = .keyword .function then do
    discard Parser.bump
    return .function (← g.function start true false)
  else if next.kind = .identifier then g.asyncArrow start
  else if next.kind = .punctuator .leftParen then g.asyncCallOrArrow start
  else g.nameOrArrow start

/-- What would come after a fault does not come. -/
theorem run_bind_error {α β : Type} {p : Parser α} {env : Surrounding} {s : ParserState}
    {e : SyntaxError} (h : p env s = .error e) (f : α → Parser β) : (p >>= f) env s = .error e := by
  show (p env s >>= fun r => f r.1 env r.2) = _
  rw [h]
  rfl

/-- What an identifier begins, as this token and the next decide. -/
theorem run_identifierExpression (g : Grammar) (env : Surrounding) (s : ParserState) :
    g.identifierExpression env s =
      (if s.token.isIdentifier "async" then Parser.peek >>= g.atAsync s.here
        else g.nameOrArrow s.here) env s := by
  show (atAsyncFunction >>= fun b => if b = true then _ else
    Parser.atName "async" >>= fun b => if b = true then _ else _) env s = _
  cases hname : s.token.isIdentifier "async" with
  | false => simp [atAsyncFunction, Parser.run_atName, hname, ParserState.here]
  | true =>
    rcases hnext : s.lexer.next with ⟨e | t, l⟩
    · have hpeek : Parser.peek env s = .error e := by
        rw [Parser.peek_eq, hnext]
        rfl
      simp [atAsyncFunction, Parser.run_atName, hname, ParserState.here, run_bind_error hpeek]
    · have hpeek : Parser.peek env s = .ok (t, s) := Parser.run_peek ⟨t, l, hnext, rfl⟩
      simp only [atAsyncFunction, atAsync, Parser.run_atName, hname, ParserState.here,
        Parser.run_bind hpeek, if_true, bind_assoc, pure_bind]
      cases hnewline : t.newlineBefore with
      | true => simp [Parser.run_atName, hname, Parser.run_bind hpeek, hnewline]
      | false =>
        by_cases hfunction : t.kind = .keyword .function
        · simp [hfunction]
        · simp [hfunction, Parser.run_atName, hname, Parser.run_bind hpeek, hnewline]
          generalize t.kind = k
          cases k with
          | punctuator mark => cases mark <;> rfl
          | _ => rfl

/-! ## Literals -/

/-- A slash that is read again, and past the regular expression that it begins. -/
theorem follows_rescanned {env : Surrounding} {s₁ s₂ : ParserState} (hk : s₁.token.kind.isSlash) :
    Ψ.Follows .within Ψ.Abreast true env s₁ s₂ (Parser.rescan >>= fun _ => Parser.bump)
      (Parser.rescan >>= fun _ => Parser.bump) := by
  intro hs t s₁' hrun
  replace hrun : (Parser.rescan env s₁ >>= fun x => Parser.bump env x.2) = .ok (t, s₁') := hrun
  obtain ⟨⟨⟨⟩, m₁⟩, hrescan, hbump⟩ := exists_of_bind_eq_ok hrun
  have hreread := Parser.leaves_rescan.of_run hrescan
  obtain ⟨rfl, hpast⟩ := Parser.leaves_bump.of_run hbump
  have hm := hs.reread hreread
  obtain ⟨-, hkind, -⟩ := hs.stop_reread hk hreread
  refine ⟨.single (.regExp hk hreread hpast), fun habreast hw => ?_⟩
  have hin : Ψ.Inside m₁ := Stretch.Within.inside hw hm (.single (.token hkind hpast))
  obtain ⟨m₂, hreread₂, habreast'⟩ := habreast.reread hk hreread (hin.suffix hm)
  obtain ⟨s₂', hpast₂, hnear⟩ := habreast'.past hpast hw
  have hrun₂ : (Parser.rescan >>= fun _ => Parser.bump) env s₂ = .ok (m₂.token, s₂') := by
    show (Parser.rescan env s₂ >>= fun x => Parser.bump env x.2) = _
    rw [Parser.run_rescan hreread₂]
    exact Parser.run_bump hpast₂
  unfold Parser.Outcome
  rw [hrun₂]
  refine ⟨habreast'.token, hnear, ?_⟩
  have hopened : m₁.token.kind.opened = 0 := by
    obtain ⟨r, l, hr, rfl⟩ := hreread
    rw [(Lexer.substitutions_rescanRegExp hr).2.2]
    rfl
  rw [show s₁'.opened = m₁.lexer.substitutions.length from hpast.opened, ← hreread.opened hk,
    ParserState.opened, hopened]
  omega

/-- The word `super` is followed by what is done with it. -/
theorem leaves_superOperand {env : Surrounding} {s : ParserState} :
    Parser.Leaves env s superOperand fun e s' => e.isArrow = false ∧
      (s'.token.kind = .punctuator .leftParen ∨ s'.token.kind = .punctuator .dot ∨
        s'.token.kind = .punctuator .leftBracket) := by
  refine .after fun t s' => .kind ?_
  split
  next hk => exact .pure ⟨rfl, .inl hk⟩
  next hk => exact .pure ⟨rfl, .inr (.inl hk)⟩
  next hk => exact .pure ⟨rfl, .inr (.inr hk)⟩
  next => exact .fail _ _

/-- The token after `super` is in the stretch, since it must be called or accessed. -/
theorem follows_superOperand {env : Surrounding} {s₁ s₂ : ParserState}
    (hk : s₁.token.kind = .keyword .super) :
    Ψ.Follows .clear Ψ.Abreast true env s₁ s₂ superOperand superOperand := by
  refine take (bump (by rw [hk]; rfl)) fun t s₁ s₂ => kind ?_
  split
  · exact done rfl
  · exact done rfl
  · exact done rfl
  · exact fail

/-- A slash of the stretch is read again as the same regular expression. -/
theorem follows_regExp {env : Surrounding} {s₁ s₂ : ParserState} (hk : s₁.token.kind.isSlash) :
    Ψ.Follows .within Ψ.Abreast true env s₁ s₂ regExp regExp := by
  rw [regExp, ← bind_assoc]
  refine take (follows_rescanned hk) fun t _ _ => ?_
  rw [show (Ψ.moved t).text = t.text from rfl]
  rcases regExpParts? t.text.toList with _ | ⟨body, flags⟩
  · exact fail
  · exact done rfl

/-- A literal is one token, and nothing behind it matters. -/
theorem follows_literal {env : Surrounding} {s₁ s₂ : ParserState}
    (hk : s₁.token.kind ≠ .keyword .super) :
    Ψ.Follows .within Ψ.Abreast true env s₁ s₂ literal literal := by
  refine kind ?_
  split
  case h_2 hsuper => exact absurd hsuper hk
  case h_9 hslash | h_10 hslash => exact follows_regExp (by rw [hslash]; rfl)
  case h_11 => exact unexpected
  all_goals exact take (bump (by simp_all [TokenKind.isPlain])) fun _ _ _ => done rfl

namespace Alike

variable {g g' : Grammar} (h : Alike Ψ g g')
include h

/-! ## Expressions in brackets -/

/-- A comma behind the stretch would be no part of the copy. -/
theorem outer_expression : Ψ.Outer g.expression g'.expression := by
  intro env s₁ s₂
  refine here (take (h.assignment _ _ _) fun first s₁ s₂ =>
    ifKind_near nofun (fun hk => ?_) (done rfl))
  exact take (afterCommas_near hk fun _ _ => h.assignment.near) fun _ _ _ =>
    spanFrom rfl (done (by simp))

/-- The bracket that closes the expression is in the stretch. -/
theorem outer_bracketExpression : Ψ.Outer g.bracketExpression g'.bracketExpression := by
  intro env s₁ s₂
  exact closedBy (fun habreast _ => habreast) (allowIn fun env =>
    any (clear (h.outer_expression env s₁ s₂) id))

/-- The parenthesis that closes the arguments is in the stretch. -/
theorem outer_arguments : Ψ.Outer g.arguments g'.arguments := by
  intro env s₁ s₂
  exact take (expectMark _) fun _ _ _ => allowIn fun _ => commaSeparated (h.inner_spreadOrAssignment _)

/-- From any of its tokens on a template closes the substitutions that it opens, and the one that it
has been in. -/
theorem follows_templateRounds (isTagged : Bool) (env : Surrounding) (budget : List Char) :
    ∀ (budget' : List Char) (parts : TemplateParts) (s₁ s₂ : ParserState),
      (s₁.token.kind = .noSubstitutionTemplate ∨ s₁.token.kind = .templateHead ∨
        s₁.token.kind = .templateMiddle ∨ s₁.token.kind = .templateTail) →
      Ψ.FollowsBy (-closed s₁.token.kind) .within Ψ.Abreast true env s₁ s₂
        (Parser.iterate (g.templateStep isTagged) budget parts)
        (Parser.iterate (g'.templateStep isTagged) budget' (Ψ.moved parts)) := by
  induction budget with
  | nil => exact fun _ _ _ _ _ _ _ _ hrun => by cases hrun
  | cons c budget ih =>
    intro budget' parts s₁ s₂ hk
    -- what comes after a stretch of text that does not end the template
    have hmore (budget' : List Char) (parts : TemplateParts) (s₁ s₂ : ParserState) :
        Ψ.FollowsBy (-1) .within Ψ.Near false env s₁ s₂
          (do
            let e ← Parser.allowIn g.expression
            match ← Parser.kind with
            | .templateMiddle | .templateTail =>
              Parser.iterate (g.templateStep isTagged) budget ⟨parts.quasis, e :: parts.expressions⟩
            | _ => Parser.unexpected)
          (do
            let e ← Parser.allowIn g'.expression
            match ← Parser.kind with
            | .templateMiddle | .templateTail =>
              Parser.iterate (g'.templateStep isTagged) budget'
                ⟨Ψ.moved parts.quasis, e :: Ψ.moved parts.expressions⟩
            | _ => Parser.unexpected) := by
      have hstays {k : TokenKind} (hk : k ≠ .templateMiddle ∧ k ≠ .templateTail)
          (p : Parser TemplateParts) :
          (match k with | .templateMiddle | .templateTail => p | _ => Parser.unexpected) =
            Parser.unexpected := by
        split
        · exact absurd rfl hk.1
        · exact absurd rfl hk.2
        · rfl
      refine bind_by (t := false) (Int.zero_add _) (allowIn fun _ => h.outer_expression.near)
        fun e s₁ s₂ _ => ?_
      refine kind_near (fun k => k ≠ .templateMiddle ∧ k ≠ .templateTail) ⟨nofun, nofun⟩
        (fun k hk => hstays hk _) (fun k hk => hstays hk _) (fun _ => ?_) unexpected
      have hnext := ih budget' ⟨parts.quasis, e :: parts.expressions⟩ s₁ s₂
      split
      next hk =>
        rw [hk] at hnext
        exact hnext (.inr (.inr (.inl rfl)))
      next hk =>
        rw [hk] at hnext
        exact hnext (.inr (.inr (.inr rfl)))
      next => exact unexpected
    have hround (budget' : List Char) :
        Ψ.FollowsBy (-closed s₁.token.kind) .within Ψ.Abreast true env s₁ s₂
          (Parser.iterate (g.templateStep isTagged) (c :: budget) parts)
          (Parser.iterate (g'.templateStep isTagged) (c :: budget') (Ψ.moved parts)) := by
      rw [iterate_templateStep, iterate_templateStep]
      have hkind : s₁.token.kind ≠ .eof ∧ s₁.token.kind.opened +
          (if endsTemplate s₁.token.kind = true then 0 else -1) = -closed s₁.token.kind := by
        rcases hk with hk | hk | hk | hk <;> rw [hk] <;> exact ⟨nofun, rfl⟩
      refine bump_then hkind.1 hkind.2 fun s₁' s₂' => ite Iff.rfl (fun _ => fail) fun _ => ?_
      refine ite Iff.rfl (fun hends => ?_) fun hends => ?_
      · rw [if_pos hends]
        exact done rfl
      · rw [if_neg hends]
        exact hmore budget' (parts.push s₁.token) s₁' s₂'
    cases budget' with
    | nil => exact scarce (hround []) (.inr rfl)
    | cons c' budget' => exact hround budget'

/-- A template has its tail in the stretch. -/
theorem follows_template (isTagged : Bool) {env : Surrounding} {s₁ s₂ : ParserState}
    (hk : s₁.token.kind = .noSubstitutionTemplate ∨ s₁.token.kind = .templateHead) :
    Ψ.Follows .within Ψ.Abreast true env s₁ s₂ (g.template isTagged) (g'.template isTagged) := by
  have hrounds : Ψ.Follows .within Ψ.Abreast true env s₁ s₂
      (Parser.repeatFrom ⟨[], []⟩ (g.templateStep isTagged))
      (Parser.repeatFrom ⟨[], []⟩ (g'.templateStep isTagged)) := by
    have hiterate := h.follows_templateRounds isTagged env ('\x00' :: '\x00' :: s₁.lexer.rest)
      ('\x00' :: '\x00' :: s₂.lexer.rest) ⟨[], []⟩ s₁ s₂ (hk.imp_right .inl)
    rcases hk with hk | hk <;> rw [hk] at hiterate <;> exact hiterate
  exact here (take hrounds fun parts _ _ => spanFrom rfl (done (by simp)))

/-! ## Functions -/

/-- A block has its closing brace in the stretch. -/
theorem outer_block : Ψ.Outer g.block g'.block := by
  intro env s₁ s₂
  refine here (take (expectMark _) fun _ s₁ s₂ => before Stretch.Near.same
    (collectUntil (fun _ _ => atMark _) fun s₁ s₂ => ?_) (fun body m₁ m₂ hrun => ?_)
    fun body m₁ r hrun _ => ?_)
  · exact ifKind (fun _ => unexpected) fun _ => h.statement false env s₁ s₂
  · have hk := (Parser.leaves_collectUntil _ _).of_run hrun
    exact take (skip (by rw [hk]; rfl)) fun _ _ _ => spanFrom rfl (done (by simp))
  · rw [(Parser.leaves_collectUntil _ _).of_run hrun]
    rfl

/-- A function ends with the brace of its body. -/
theorem outer_functionRest {start start' : Position} (hstart : start' = Ψ.places.shift start)
    (id : Option Ident) (isAsync isGenerator : Bool) :
    Ψ.Outer (g.functionRest start id isAsync isGenerator)
      (g'.functionRest start' (Ψ.moved id) isAsync isGenerator) := by
  intro env s₁ s₂
  refine take (inBody fun env => before (fun habreast _ => habreast) (any h.follows_params)
    (fun params m₁ m₂ _ => take (h.outer_block _ _ _) fun _ _ _ => done rfl)
    fun params m₁ r _ hrun => ?_) fun ⟨params, body⟩ _ _ => spanFrom hstart (done ?_)
  · rw [leaves_block.of_bind hrun]
    rfl
  · simp

/-- As `outer_functionRest`, for a method. -/
theorem outer_methodRest (m : MethodModifiers) : Ψ.Outer (g.methodRest m) (g'.methodRest m) := by
  intro env s₁ s₂
  exact here (h.outer_functionRest rfl none m.isAsync m.isGenerator env s₁ s₂)

/-- As `outer_functionRest`, from the word `function` on. -/
theorem outer_function {start start' : Position} (hstart : start' = Ψ.places.shift start)
    (isAsync nameRequired : Bool) :
    Ψ.Outer (g.function start isAsync nameRequired) (g'.function start' isAsync nameRequired) := by
  intro env s₁ s₂
  refine take (expectWord _) fun _ _ _ => pass (eatKind_near rfl nofun) fun isGenerator _ _ => ?_
  refine pass (optionalName_near _ (fun _ => rfl) fun t ht => by rw [ht]; rfl) fun id _ _ => ?_
  exact (h.outer_functionRest hstart id isAsync isGenerator).near

/-- The body of an arrow function may be an expression that ends with the stretch. -/
theorem outer_arrowRest {start start' : Position} (hstart : start' = Ψ.places.shift start)
    (params : List Pat) (isAsync : Bool) :
    Ψ.Outer (g.arrowRest start params isAsync) (g'.arrowRest start' (Ψ.moved params) isAsync) := by
  intro env s₁ s₂
  refine take (expectMark _) fun _ s₁ s₂ => context (pass (inBody fun env => ?_) fun body _ _ =>
    spanFrom hstart (done (by simp)))
  refine ifKind_near nofun (fun _ => ?_) ?_
  · exact take (allowIn fun _ => h.outer_block _ _ _) fun _ _ _ => done rfl
  · exact pass h.assignment.near fun _ _ _ => done rfl

/-! ## Classes -/

/-- A method stands inside of the braces of its class. -/
theorem inner_classMethod {start start' : Position} (hstart : start' = Ψ.places.shift start)
    (isStatic : Bool) (m : MethodModifiers) (key : Key) :
    Ψ.Inner (g.classMethod start isStatic m key) (g'.classMethod start' isStatic m (Ψ.moved key)) := by
  intro env s₁ s₂
  have hkey : isKeyNamed "constructor" (Ψ.moved key) = isKeyNamed "constructor" key := by
    cases key <;> rfl
  refine pass ((h.outer_methodRest m).inner _ _ _) fun _ _ _ => spanFrom hstart (done ?_)
  rw [hkey]
  rfl

/-- A field may do without its semicolon where its copy may. -/
theorem inner_classField {start start' : Position} (hstart : start' = Ψ.places.shift start)
    (isStatic : Bool) (key : Key) :
    Ψ.Inner (g.classField start isStatic key) (g'.classField start' isStatic (Ψ.moved key)) := by
  intro env s₁ s₂
  have hend (value : Option Expr) (s₁ s₂ : ParserState) :
      Ψ.Follows .clear (Ψ.after .clear) false env s₁ s₂
        (do
          Parser.semicolon
          return .field (← Parser.spanFrom start) isStatic key value : Parser Member)
        (do
          Parser.semicolon
          return .field (← Parser.spanFrom start') isStatic (Ψ.moved key) (Ψ.moved value)) :=
    pass semicolon fun _ _ _ => spanFrom hstart (done (by simp))
  refine eaten rfl (fun s₁ s₂ => ?_) fun _ => hend none s₁ s₂
  exact pass (map (inBody fun _ => h.assignment.inner _ _ _) fun _ => rfl) hend

/-- The token after a key tells methods from fields on both sides. -/
theorem inner_methodOrField {start start' : Position} (hstart : start' = Ψ.places.shift start)
    (isStatic : Bool) : Ψ.Inner (g.methodOrField start isStatic) (g'.methodOrField start' isStatic) := by
  intro env s₁ s₂
  refine pass (inner_methodModifiers _ _ _) fun m _ _ => pass (h.inner_key _ _ _) fun key s₁ s₂ => ?_
  refine ifKind (fun _ => h.inner_classMethod hstart isStatic m key _ _ _) fun _ => ?_
  exact ite Iff.rfl (fun _ => h.inner_classField hstart isStatic key _ _ _) fun _ => unexpected

/-- Static blocks, methods and fields are told apart by tokens that have their copies. -/
theorem inner_member : Ψ.Inner g.member g'.member := by
  intro env s₁ s₂
  refine here (follows_ahead (fun _ => rfl) (fun hk => take (skip (by rw [hk]; rfl)) fun _ s₁ s₂ => ?_)
    (h.inner_methodOrField rfl false env s₁ s₂))
  refine ifKind (fun _ => ?_) fun _ => h.inner_methodOrField rfl true env s₁ s₂
  refine pass (inBody fun _ => h.outer_block.inner _ _ _) fun block _ _ => ?_
  obtain ⟨loc, body⟩ := block
  exact spanFrom rfl (done rfl)

omit h in
/-- The elements of a class, and past the closing brace. -/
theorem members_eq (g : Grammar) : g.members = Parser.closedBy .rightBrace
    (Parser.repeatFrom [] fun members => do
      if ← Parser.atMark .rightBrace then return .inr members.reverse
      else return .inl (← (do
        if ← Parser.eatMark .semicolon then return members else return (← g.member) :: members))) := by
  rw [← Parser.repeatFrom_eatMark]
  refine congrArg (Parser.repeatFrom []) (funext fun members => congrArg (_ >>= ·) (funext fun b => ?_))
  cases b with
  | true => rfl
  | false =>
    simp only [Bool.false_eq_true, if_false, bind_assoc]
    refine congrArg (_ >>= ·) (funext fun b => ?_)
    cases b <;> simp

/-- The brace that closes a class may be the last token of the stretch. -/
theorem members_near {env : Surrounding} {s₁ s₂ : ParserState} {taken : Bool} :
    Ψ.Follows .within Ψ.Near taken env s₁ s₂ g.members g'.members := by
  rw [members_eq, members_eq]
  refine closedBy Stretch.Near.same (repeatFrom rfl fun members s₁ s₂ => ifKind (fun _ => ?_) fun _ => ?_)
  · exact done (congrArg Sum.inr List.map_reverse.symm)
  · refine pass (eaten rfl (fun _ _ => done rfl) fun _ => ?_) fun _ _ _ => done rfl
    exact pass (h.inner_member _ _ _) fun _ _ _ => done rfl

/-- A class ends with its closing brace. -/
theorem outer_classDefinition (nameRequired : Bool) :
    Ψ.Outer (g.classDefinition nameRequired) (g'.classDefinition nameRequired) := by
  intro env s₁ s₂
  refine here (take (expectWord _) fun _ _ _ => pass (optionalName_near _ (fun _ => rfl) ?_)
    fun id s₁ s₂ => ?_)
  · intro t ht
    rw [ht]
    rfl
  have hbody {start start' : Position} (hstart : start' = Ψ.places.shift start)
      (superClass : Option Expr) (s₁ s₂ : ParserState) :
      Ψ.Follows .within Ψ.Near false env s₁ s₂
        (do
          let bodyStart ← Parser.here
          Parser.expectMark .leftBrace
          let members ← g.members
          return Class.mk (← Parser.spanFrom start) id superClass (← Parser.spanFrom bodyStart)
            members)
        (do
          let bodyStart ← Parser.here
          Parser.expectMark .leftBrace
          let members ← g'.members
          return Class.mk (← Parser.spanFrom start') (Ψ.moved id) (Ψ.moved superClass)
            (← Parser.spanFrom bodyStart) members) :=
    near (here (take (expectMark _) fun _ _ _ => pass h.members_near fun members _ _ =>
      spanFrom hstart (spanFrom rfl (done (by simp)))))
  refine eaten_near rfl nofun (fun s₁ s₂ => ?_) (hbody rfl none s₁ s₂)
  exact pass (map h.leftHandSide.near fun _ => rfl) (hbody rfl)

/-! ## Names, arrows and `async` -/

section

variable {start start' : Position} (hstart : start' = Ψ.places.shift start)
include hstart

/-- An arrow behind the stretch would be no part of the copy. -/
theorem outer_nameOrArrow : Ψ.Outer (g.nameOrArrow start) (g'.nameOrArrow start') := by
  intro env s₁ s₂
  exact take ident fun id s₁ s₂ =>
    arrow_near (h.outer_arrowRest hstart [.ident id] false env s₁ s₂) (done rfl)

/-- What follows the word `async` before the one parameter of an arrow function. -/
theorem outer_asyncParam : Ψ.Outer
    (do
      let id ← Parser.ident
      if ← atArrow then g.arrowRest start [.ident id] true else Parser.unexpected)
    (do
      let id ← Parser.ident
      if ← atArrow then g'.arrowRest start' [.ident id] true else Parser.unexpected) := by
  intro env s₁ s₂
  exact take ident fun id s₁ s₂ =>
    arrow_near (h.outer_arrowRest hstart [.ident id] true env s₁ s₂) unexpected

/-- The arrow after the parameter is in the stretch, or there is a fault. -/
theorem follows_asyncArrow {env : Surrounding} {s₁ s₂ : ParserState}
    (hk : s₁.token.kind = .identifier) :
    Ψ.Follows .within Ψ.Abreast true env s₁ s₂ (g.asyncArrow start) (g'.asyncArrow start') :=
  take (skip (by rw [hk]; rfl)) fun _ _ _ => (h.outer_asyncParam hstart).near

/-- What follows the word `async` before arguments or parameters. -/
theorem outer_asyncArguments (callee : Ident) : Ψ.Outer
    (do
      let arguments ← g.arguments
      if ← atArrow then
        let params ← MonadExcept.ofExcept (toParams arguments)
        g.arrowRest start params true
      else return .call (← Parser.spanFrom start) (.ident callee) arguments false)
    (do
      let arguments ← g'.arguments
      if ← atArrow then
        let params ← MonadExcept.ofExcept (toParams arguments)
        g'.arrowRest start' params true
      else return .call (← Parser.spanFrom start') (.ident (Ψ.moved callee)) arguments false) := by
  intro env s₁ s₂
  refine take (h.outer_arguments _ _ _) fun arguments s₁ s₂ => arrow_near ?_ ?_
  · exact ofExcept (toParams_relocated Ψ.places.shift_injective arguments) fun params =>
      h.outer_arrowRest hstart params true env s₁ s₂
  · exact spanFrom hstart (done (by simp))

/-- Arguments become parameters on both sides or on neither. -/
theorem outer_asyncCallOrArrow :
    Ψ.Outer (g.asyncCallOrArrow start) (g'.asyncCallOrArrow start') := by
  intro env s₁ s₂
  exact take ident fun callee _ _ => (h.outer_asyncArguments hstart callee).near

end

/-- What begins with `async` is decided by the token after it. -/
theorem follows_atAsync {start start' : Position} (hstart : start' = Ψ.places.shift start)
    (next : Token) {env : Surrounding} {s₁ s₂ : ParserState} (hk : s₁.token.kind = .identifier) :
    Ψ.Follows .within Ψ.Abreast true env s₁ s₂ (g.atAsync start next)
      (g'.atAsync start' (Ψ.moved next)) := by
  refine ite Iff.rfl (fun _ => h.outer_nameOrArrow hstart _ _ _) fun _ => ?_
  refine ite Iff.rfl (fun _ => ?_) fun _ => ?_
  · exact take (skip (by rw [hk]; rfl)) fun _ _ _ =>
      pass (h.outer_function hstart true false).near fun _ _ _ => done rfl
  refine ite Iff.rfl (fun _ => h.follows_asyncArrow hstart hk) fun _ => ?_
  refine ite Iff.rfl (fun _ => h.outer_asyncCallOrArrow hstart _ _ _) fun _ => ?_
  exact h.outer_nameOrArrow hstart _ _ _

/-- Unless the word `async` is a name, the token after it is passed as well. -/
theorem atAsync_eq_or_passed {start : Position} {next : Token} {env : Surrounding}
    {s m s' : ParserState} {e : Expr} (hs : s.Steady Ψ.source) (hpast : s.Past m)
    (hrun : g.atAsync start next env s = .ok (e, s')) :
    g.atAsync start next = g.nameOrArrow start ∨ Relation.TransGen ParserState.Pass m s' := by
  unfold atAsync at hrun ⊢
  split at hrun
  next hnewline => exact .inl (if_pos hnewline)
  next hnewline =>
    rw [if_neg hnewline]
    split at hrun
    next hfunction =>
      have hrest : Ψ.Follows .within Ψ.Near true env m m
          (do return .function (← g.function start true false) : Parser Expr)
          (do return .function (← g'.function (Ψ.places.shift start) true false)) :=
        near (take (h.outer_function rfl true false _ _ _) fun _ _ _ => done rfl)
      exact .inr (passed_beyond hs hpast Parser.leaves_discardBump (fun _ => hrest) hrun)
    next hfunction =>
      rw [if_neg hfunction]
      split at hrun
      next hident =>
        exact .inr (passed_beyond hs hpast Parser.leaves_discardBump
          (fun _ => (h.outer_asyncParam rfl).near) hrun)
      next hident =>
        rw [if_neg hident]
        split at hrun
        next hparen =>
          exact .inr (passed_beyond hs hpast (Parser.leaves_ident.mono fun _ _ h => h.2)
            (fun callee => (h.outer_asyncArguments rfl callee).near) hrun)
        next hparen => exact .inl (if_neg hparen)

/-- Whatever an identifier begins begins in the stretch. -/
theorem follows_identifierExpression {env : Surrounding} {s₁ s₂ : ParserState}
    (hk : s₁.token.kind = .identifier) :
    Ψ.Follows .within Ψ.Abreast true env s₁ s₂ g.identifierExpression g'.identifierExpression := by
  have hname := h.outer_nameOrArrow (rfl : Ψ.places.shift s₁.here = Ψ.places.shift s₁.here) env s₁ s₂
  have hdecided (habreast : Ψ.Abreast s₁ s₂) :
      s₂.token.isIdentifier "async" = s₁.token.isIdentifier "async" := by
    rw [habreast.token]
    rfl
  by_cases hasync : s₁.token.isIdentifier "async" = true
  swap
  · refine of_run ?_ (fun habreast => ?_) hname
    · rw [run_identifierExpression, if_neg hasync]
    · rw [run_identifierExpression, hdecided habreast, if_neg hasync, habreast.here]
  intro hs e s₁' hrun
  rw [run_identifierExpression, if_pos hasync] at hrun
  obtain ⟨⟨next, m⟩, hpeek, hatAsync⟩ := exists_of_bind_eq_ok
    (show (Parser.peek env s₁ >>= fun x => g.atAsync s₁.here x.1 env x.2) = .ok (e, s₁') from hrun)
  obtain ⟨rfl, hnext⟩ := Parser.leaves_peek.of_run hpeek
  have hpast : m.Past ⟨m.lexer.next.2, next, m.token.span.stop⟩ := ⟨_, _, Prod.ext hnext rfl, rfl⟩
  obtain ⟨htrail, hfollows⟩ := h.follows_atAsync rfl next hk hs e s₁' hatAsync
  refine ⟨htrail, fun habreast hw => ?_⟩
  have hwithin : Ψ.Within ⟨m.lexer.next.2, next, m.token.span.stop⟩ := by
    obtain ⟨m', hpass, hpath⟩ := Relation.TransGen.head'_iff.1 (htrail.passed rfl)
    cases hpass with
    | token _ hpast' =>
      obtain rfl := hpast.unique hpast'
      exact Stretch.Within.of_path hw (hs.past hpast) hpath
    | regExp hslash => rw [hk] at hslash; cases hslash
  obtain ⟨m₂, hpast₂, hnear⟩ := habreast.past hpast hwithin
  have hrun₂ : g'.identifierExpression env s₂ = g'.atAsync s₂.here m₂.token env s₂ := by
    rw [run_identifierExpression, hdecided habreast, if_pos hasync,
      Parser.run_bind (Parser.run_peek hpast₂)]
  unfold Parser.Outcome
  rw [hrun₂, habreast.here]
  rcases hnear with hsame | hborder
  · rw [hsame.abreast.token]
    exact hfollows habreast hw
  · -- the word is the last token of the stretch, so it is a name on both sides
    have hlast : g'.atAsync (Ψ.places.shift m.here) m₂.token =
        g'.nameOrArrow (Ψ.places.shift m.here) := by
      simp [atAsync, hborder.kind.1, hborder.kind.2]
    rw [hlast]
    rcases h.atAsync_eq_or_passed hs hpast hatAsync with heq | hpassed
    · exact (hname hs e s₁' (heq ▸ hatAsync)).2 habreast hw
    · exact absurd (Stretch.Within.inside hw (hs.past hpast) hpassed) hborder.not_inside

/-! ## Parentheses -/

/-- A round in parentheses, for the items and their copies. -/
theorem inner_parenItemsStep (items : List Expr) :
    Ψ.Inner (g.parenItemsStep items) (g'.parenItemsStep (Ψ.moved items)) := by
  intro env s₁ s₂
  have hreverse (items : List Expr) : (Ψ.moved items).reverse = Ψ.moved items.reverse :=
    List.map_reverse.symm
  refine ifKind (fun _ => done ?_) fun _ => ifKind (fun _ => ?_) fun _ => ?_
  · rw [hreverse]
    rfl
  · refine pass (h.inner_restBinding _ _ _) fun rest _ _ => done ?_
    rw [hreverse]
    rfl
  refine pass (h.assignment.inner _ _ _) fun item _ _ => ifKind (fun _ => done ?_) fun _ => ?_
  · exact congrArg (fun items => Sum.inr (ParenItems.mk items none false)) (hreverse (item :: items))
  refine take (expectMark _) fun _ _ _ => ifKind (fun _ => done ?_) fun _ => done rfl
  exact congrArg (fun items => Sum.inr (ParenItems.mk items none true)) (hreverse (item :: items))

/-- The closing parenthesis is in the stretch, and so is the arrow after it if there is one. -/
theorem outer_parenOrArrow : Ψ.Outer g.parenOrArrow g'.parenOrArrow := by
  intro env s₁ s₂
  refine here (take (expectMark _) fun _ s₁ s₂ => before Stretch.Near.same
    (allowIn fun _ => repeatFrom rfl fun items => h.inner_parenItemsStep items _) ?_ ?_)
  · rintro ⟨items, rest, trailingComma⟩ m₁ m₂ -
    refine take (expectKind rfl) fun close s₁ s₂ => arrow_near ?_ ?_
    · refine ofExcept (toParams_relocated Ψ.places.shift_injective items) fun params => ?_
      have hparams : Ψ.moved params ++ (Ψ.moved rest).toList = Ψ.moved (params ++ rest.toList) := by
        cases rest <;> simp
      change Ψ.Follows .within Ψ.Abreast true env s₁ s₂ (g.arrowRest _ (params ++ rest.toList) false)
        (g'.arrowRest _ (Ψ.moved params ++ (Ψ.moved rest).toList) false)
      rw [hparams]
      exact h.outer_arrowRest rfl _ _ _ _ _
    · cases items with
      | nil => exact fail
      | cons first others =>
        refine ite ?_ (fun _ => fail) fun _ => spanFrom rfl (done ?_)
        · cases rest <;> rfl
        · exact congrArg (Expr.paren _) (joined_moved first others)
  · intro list m₁ r _ hrun
    rw [Parser.kind_of_expectKind hrun]
    rfl

/-! ## `import`, array and object literals -/

/-- The word `import` and what makes an expression of it are in the stretch. -/
theorem outer_importExpression : Ψ.Outer g.importExpression g'.importExpression := by
  intro env s₁ s₂
  refine here (take (expectKind rfl) fun word _ _ => eaten_near rfl nofun (fun s₁ s₂ => ?_) ?_)
  · refine pass (near identName) fun property _ _ => ite Iff.rfl (fun _ => ?_) fun _ => fail
    exact spanFrom rfl (done rfl)
  · refine pass h.outer_arguments.near fun arguments _ _ => ?_
    match arguments with
    | [] => exact fail
    | [source] => exact spanFrom rfl (done rfl)
    | [source, options] => exact spanFrom rfl (done rfl)
    | _ :: _ :: _ :: _ => exact fail

/-- An element that is left out is left out in the copy. -/
theorem inner_elementOrHole : Ψ.Inner g.elementOrHole g'.elementOrHole := by
  intro env s₁ s₂
  refine eaten rfl (fun _ _ => done rfl) fun _ => ?_
  exact pass (itemAndComma (h.inner_spreadOrAssignment _ _ _)) fun _ _ _ => done rfl

/-- The bracket that closes the literal is in the stretch. -/
theorem outer_arrayLiteral : Ψ.Outer g.arrayLiteral g'.arrayLiteral := by
  intro env s₁ s₂
  refine here (take (expectMark _) fun _ _ _ => pass ?_ fun _ _ _ => spanFrom rfl (done (by simp)))
  exact allowIn fun _ => collectClosed (h.inner_elementOrHole _)

section

variable {start start' : Position} (hstart : start' = Ψ.places.shift start)
include hstart

/-- A default value is kept with the name on both sides. -/
theorem inner_nameProperty (id : Ident) :
    Ψ.Inner (g.nameProperty start id) (g'.nameProperty start' (Ψ.moved id)) := by
  intro env s₁ s₂
  refine eaten rfl (fun _ _ => ?_) fun _ => spanFrom hstart (done rfl)
  exact pass (h.assignment.inner _ _ _) fun _ _ _ => spanFrom hstart (done rfl)

/-- Methods, values and names are told apart by the token after the key. -/
theorem inner_propertyRest (m : MethodModifiers) (mayBeShorthand : Bool) (key : Key) :
    Ψ.Inner (g.propertyRest start m mayBeShorthand key)
      (g'.propertyRest start' m mayBeShorthand (Ψ.moved key)) := by
  intro env s₁ s₂
  refine ifKind (fun _ => ?_) fun _ => ite Iff.rfl (fun _ => unexpected) fun _ => ?_
  · exact pass ((h.outer_methodRest m).inner _ _ _) fun _ _ _ => spanFrom hstart (done rfl)
  refine eaten rfl (fun _ _ => ?_) fun _ => ?_
  · exact pass (h.assignment.inner _ _ _) fun _ _ _ => spanFrom hstart (done rfl)
  cases key with
  | ident id => exact ite Iff.rfl (fun _ => h.inner_nameProperty hstart id _ _ _) fun _ => fail
  | _ => exact unexpected

end

/-- A spread on both sides or on neither. -/
theorem inner_property : Ψ.Inner g.property g'.property := by
  intro env s₁ s₂
  refine here (eaten rfl (fun _ _ => ?_) fun _ => ?_)
  · exact pass (h.assignment.inner _ _ _) fun _ _ _ => spanFrom rfl (done rfl)
  refine pass (inner_methodModifiers _ _ _) fun m _ _ => pass (atKind _) fun mayBeShorthand _ _ => ?_
  exact pass (h.inner_key _ _ _) fun key _ _ => h.inner_propertyRest rfl m mayBeShorthand key _ _ _

/-- The brace that closes the literal is in the stretch. -/
theorem outer_objectLiteral : Ψ.Outer g.objectLiteral g'.objectLiteral := by
  intro env s₁ s₂
  refine here (take (expectMark _) fun _ _ _ => pass ?_ fun _ _ _ => spanFrom rfl (done (by simp)))
  exact allowIn fun _ => commaSeparated (h.inner_property _)

/-! ## All of them -/

omit h in
/-- Where the word `super` stands, it is the operand. -/
theorem run_primary_super {env : Surrounding} {s : ParserState}
    (hk : s.token.kind = .keyword .super) : g.primary env s = superOperand env s := by
  rw [primary, Parser.run_kind, hk]
  show literal env s = _
  rw [literal, Parser.run_kind, hk]

/-- One token decides which primary expression begins. -/
theorem follows_primary {env : Surrounding} {s₁ s₂ : ParserState}
    (hk : s₁.token.kind ≠ .keyword .super) :
    Ψ.Follows .within Ψ.Abreast true env s₁ s₂ g.primary g'.primary := by
  refine kind ?_
  split
  next => exact h.outer_parenOrArrow _ _ _
  next => exact h.outer_arrayLiteral _ _ _
  next => exact h.outer_objectLiteral _ _ _
  next => exact here (take (h.outer_function rfl false false _ _ _) fun _ _ _ => done rfl)
  next => exact take (h.outer_classDefinition false _ _ _) fun _ _ _ => done rfl
  next => exact h.outer_importExpression _ _ _
  next hident => exact h.follows_identifierExpression hident
  next hquasi => exact take (h.follows_template false (.inl hquasi)) fun _ _ _ => done rfl
  next hhead => exact take (h.follows_template false (.inr hhead)) fun _ _ _ => done rfl
  next => exact follows_literal hk

end Alike

end Grammar

end WithScope
