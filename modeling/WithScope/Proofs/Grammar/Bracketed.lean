import WithScope.Grammar.Program
import WithScope.Proofs.Grammar.Moves

/-!
# Expressions that are one bracket

An expression is read through the levels of the grammar down to a primary one. If it begins with a
bracket and a mark follows that no expression goes on with, then every level takes the primary
expression as it is: `Grammar.outcome_expression`.
-/

namespace WithScope

/-- A mark that is no operator and no name, so that it is left to the primary expressions. -/
def TokenKind.isBare : TokenKind → Bool
  | .punctuator .leftParen | .punctuator .rightParen | .punctuator .leftBrace
  | .punctuator .dotDotDot => true
  | _ => false

/-- A mark that no expression goes on with. -/
def TokenKind.isFinal : TokenKind → Bool
  | .punctuator .semicolon | .punctuator .rightParen | .punctuator .rightBrace => true
  | _ => false

theorem TokenKind.ne_of_isBare {k k' : TokenKind} (h : k.isBare) (h' : k'.isBare = false) :
    k ≠ k' := by
  rintro rfl
  rw [h] at h'
  cases h'

theorem TokenKind.ne_of_isFinal {k k' : TokenKind} (h : k.isFinal) (h' : k'.isFinal = false) :
    k ≠ k' := by
  rintro rfl
  rw [h] at h'
  cases h'

/-- Such a mark is no name. -/
theorem Token.isIdentifier_of_isBare {t : Token} (h : t.kind.isBare) (name : String) :
    t.isIdentifier name = false := by
  have hne : (t.kind == .identifier) = false := beq_eq_false_iff_ne.2 (TokenKind.ne_of_isBare h rfl)
  rw [Token.isIdentifier, hne, Bool.false_and]

namespace Parser.Outcome

variable {α β : Type} {F : SyntaxError → Prop} {env : Surrounding} {s s' : ParserState}
  {R : β → ParserState → Prop} {p q : Parser β} (h : s.Past s')
include h

/-! ## Past a token that is known -/

theorem past : Outcome F env s Parser.bump fun t m => t = s.token ∧ m = s' := by
  obtain ⟨t, l, hnext, rfl⟩ := h
  unfold Outcome
  rw [bump_eq, hnext]
  exact ⟨rfl, rfl⟩

theorem bump {f : Token → Parser β} (hf : Outcome F env s' (f s.token) R) :
    Outcome F env s (Parser.bump >>= f) R := by
  refine (past h).bind ?_
  rintro _ _ ⟨rfl, rfl⟩
  exact hf

theorem skip {f : Unit → Parser β} (hf : Outcome F env s' (f ()) R) :
    Outcome F env s (discard Parser.bump >>= f) R := by
  show Outcome F env s ((fun _ => ()) <$> Parser.bump >>= f) R
  rw [bind_map_left]
  exact bump h hf

theorem eaten_eq {k : TokenKind} (hk : s.token.kind = k) (hf : Outcome F env s' p R) :
    Outcome F env s (eatKind k >>= fun b => if b = true then p else q) R := by
  rw [eatKind_ite]
  exact ifKind_eq hk (skip h hf)

theorem expectKind {k : TokenKind} {f : Token → Parser β} (hk : s.token.kind = k)
    (hf : Outcome F env s' (f s.token) R) : Outcome F env s (Parser.expectKind k >>= f) R := by
  refine (ifKind_eq hk (past h)).bind ?_
  rintro _ _ ⟨rfl, rfl⟩
  exact hf

theorem expectMark {mark : Punctuator} {f : Unit → Parser β} (hk : s.token.kind = .punctuator mark)
    (hf : Outcome F env s' (f ()) R) : Outcome F env s (Parser.expectMark mark >>= f) R := by
  show Outcome F env s ((fun _ => ()) <$> Parser.expectKind _ >>= f) R
  rw [bind_map_left]
  exact expectKind h hk hf

end Parser.Outcome

namespace Grammar

/-- Such a mark is no operator before an operand. -/
theorem operators_of_isBare {k : TokenKind} (h : k.isBare) :
    unaryOp? k = none ∧ updateOp? k = none := by
  unfold TokenKind.isBare at h
  split at h <;> first | exact ⟨rfl, rfl⟩ | cases h

/-- Such a mark is no operator after an operand. -/
theorem operators_of_isFinal {k : TokenKind} (h : k.isFinal) :
    updateOp? k = none ∧ (∀ noIn, infixOp? noIn k = none) ∧ assignOp? k = none := by
  unfold TokenKind.isFinal at h
  split at h <;> first | exact ⟨rfl, fun _ => rfl, rfl⟩ | cases h

end Grammar

namespace Grammar

open WithScope.Parser (Outcome)

variable {F : SyntaxError → Prop} {env : Surrounding} {s : ParserState} {g : Grammar}
  {Q : Expr → ParserState → Prop}

/-- An expression that is no arrow function, before a mark that none goes on with. -/
def Settled (Q : Expr → ParserState → Prop) (e : Expr) (s : ParserState) : Prop :=
  e.isArrow = false ∧ s.token.kind.isFinal ∧ Q e s

/-- Nothing is called or accessed before such a mark. -/
theorem outcome_access? (start : Position) (e : Expr) (hk : s.token.kind.isFinal) :
    Outcome F env s (g.access? start e) fun a s' => a = none ∧ s' = s := by
  have hne {k : TokenKind} (h : k.isFinal = false) : s.token.kind ≠ k :=
    TokenKind.ne_of_isFinal hk h
  refine .kind ?_
  split
  case h_1 h | h_2 h => exact absurd h (hne rfl)
  case h_3 =>
    refine .kind ?_
    split
    case h_5 => exact ⟨rfl, rfl⟩
    all_goals exact absurd ‹_› (hne rfl)

section

variable (hk : s.token.kind.isBare) (h : Outcome F env s g.primary (Settled Q))
include hk h

theorem outcome_leftHandSideBody : Outcome F env s g.leftHandSideBody (Settled Q) := by
  refine .here (.ifKind_ne (TokenKind.ne_of_isBare hk rfl) (h.bind fun e s' he => .ite_false he.1 ?_))
  refine .repeatFrom_once ((outcome_access? s.token.span.start e he.2.1).bind ?_)
  rintro _ _ ⟨rfl, rfl⟩
  exact ⟨e, rfl, he⟩

theorem outcome_unaryBody : Outcome F env s g.unaryBody (Settled Q) := by
  obtain ⟨hunary, hupdate⟩ := operators_of_isBare hk
  refine .here (.kind (.kind ?_))
  rw [hunary, hupdate]
  refine .context (.token (.ite_false ?_ ?_))
  · rw [Token.isIdentifier_of_isBare hk, Bool.and_false]
  · refine (outcome_leftHandSideBody hk h).bind fun e s' he => .kind ?_
    rw [(operators_of_isFinal he.2.1).1]
    exact he

theorem outcome_operationBody (floor : Nat) :
    Outcome F env s (g.operationBody floor) (Settled Q) := by
  refine .here (.ifKind_ne (TokenKind.ne_of_isBare hk rfl)
    ((outcome_unaryBody hk h).bind fun e s' he => ?_))
  refine .ite_false he.1 (.repeatFrom_once ?_)
  rw [operator?, bind_assoc]
  refine .context ?_
  rw [bind_assoc]
  refine .kind ?_
  rw [(operators_of_isFinal he.2.1).2.1]
  exact ⟨e, rfl, he⟩

theorem outcome_conditional : Outcome F env s g.conditional (Settled Q) := by
  refine .here ((outcome_operationBody hk h 0).bind fun e s' he => .ite_false he.1 ?_)
  exact .eaten_ne (TokenKind.ne_of_isFinal he.2.1 rfl) he

theorem outcome_assignmentBody : Outcome F env s g.assignmentBody (Settled Q) := by
  refine .context (.token (.ite_false ?_ ?_))
  · rw [Token.isIdentifier_of_isBare hk, Bool.and_false]
  · refine .here ((outcome_conditional hk h).bind fun e s' he => .kind ?_)
    rw [(operators_of_isFinal he.2.1).2.2]
    exact he

end

/-! ## Every level of nesting -/

theorem outcome_assignment (hF : ∀ place, F ⟨.nestingTooDeep, place⟩) (hk : s.token.kind.isBare)
    (h : ∀ n, Outcome F env s (nest n).primary (Settled Q)) (n : Nat) :
    Outcome F env s (nest n).assignment (Settled Q) := by
  cases n with
  | zero => exact hF _
  | succ n => exact outcome_assignmentBody hk (h n)

/-- A primary expression that is one bracket is a whole expression, unless nesting has reached its
limit. -/
theorem outcome_expression (hF : ∀ place, F ⟨.nestingTooDeep, place⟩) (hk : s.token.kind.isBare)
    (h : ∀ n, Outcome F env s (nest n).primary (Settled Q)) (n : Nat) :
    Outcome F env s (nest n).expression (Settled Q) :=
  .here ((outcome_assignment hF hk h n).bind fun _ _ he =>
    .ifKind_ne (TokenKind.ne_of_isFinal he.2.1 rfl) he)

/-- No expression begins with a closing parenthesis, nor with `...`. -/
theorem assignment_ne_ok (n : Nat) (hk : s.token.kind = .punctuator .rightParen ∨
    s.token.kind = .punctuator .dotDotDot) (x : Expr × ParserState) :
    (nest n).assignment env s ≠ .ok x := by
  have hprimary (n : Nat) : Parser.Leaves env s (nest n).primary (Settled fun _ _ => False) := by
    refine .kind ?_
    rcases hk with hk | hk <;> rw [hk]
    all_goals
      refine .kind ?_
      rw [hk]
      exact .unexpected
  have hbare : s.token.kind.isBare := by rcases hk with hk | hk <;> rw [hk] <;> rfl
  have hnone : Parser.Leaves env s (nest n).assignment (Settled fun _ _ => False) :=
    outcome_assignment (fun _ => trivial) hbare hprimary n
  exact fun hrun => (hnone.of_run hrun).2.2

end Grammar

end WithScope
