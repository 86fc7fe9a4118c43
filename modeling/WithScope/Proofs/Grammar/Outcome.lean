import WithScope.Grammar.Parser

/-!
# What comes of a parser

`Outcome F env s p Q` says what comes of running the parser `p` in the surrounding `env` from the
state `s`: if it succeeds, then with a value and in a state that `Q` holds of, and if it fails, then
with a fault that `F` holds of. Which states and faults are worth talking about depends on what is
to be shown; how parsers are put together does not.
-/

/-- The state in which the current token of another one has been read again, as a regular
expression. -/
def WithScope.ParserState.Reread (s s' : ParserState) : Prop :=
  ∃ t l, s.lexer.rescanRegExp s.token = (.ok t, l) ∧ s' = ⟨l, t, s.lastEnd⟩

namespace WithScope.Parser

variable {α β : Type} {F : SyntaxError → Prop} {env : Surrounding} {s : ParserState}

/-- What comes of a parser in a surrounding and from a state. -/
def Outcome (F : SyntaxError → Prop) (env : Surrounding) (s : ParserState) (p : Parser α)
    (Q : α → ParserState → Prop) : Prop :=
  match p env s with
  | .ok (a, s') => Q a s'
  | .error e => F e

namespace Outcome

variable {p : Parser α} {f : α → Parser β} {P Q : α → ParserState → Prop}
  {R : β → ParserState → Prop}

theorem mono (hp : Outcome F env s p P) (h : ∀ a s', P a s' → Q a s') : Outcome F env s p Q := by
  unfold Outcome at hp ⊢
  cases heq : p env s with
  | error e =>
    rw [heq] at hp
    exact hp
  | ok x =>
    rw [heq] at hp
    exact h _ _ hp

theorem pure {a : α} (h : Q a s) : Outcome F env s (Pure.pure a) Q := h

theorem fail {place : Position} {cause : SyntaxCause} (h : F ⟨cause, place⟩) :
    Outcome F env s (Parser.fail place cause) Q := h

theorem bind (hp : Outcome F env s p P) (hf : ∀ a s', P a s' → Outcome F env s' (f a) R) :
    Outcome F env s (p >>= f) R := by
  have hrun : (p >>= f) env s = p env s >>= fun x => f x.1 env x.2 := rfl
  unfold Outcome at hp ⊢
  rw [hrun]
  cases heq : p env s with
  | error e =>
    rw [heq] at hp
    exact hp
  | ok x =>
    rw [heq] at hp
    exact hf _ _ hp

/-! ## Looking at the state and the surrounding -/

/-- The kind of the current token is known. -/
theorem kind {f : TokenKind → Parser β} (h : Outcome F env s (f s.token.kind) R) :
    Outcome F env s (Parser.kind >>= f) R := h

theorem here {f : Position → Parser β} (h : Outcome F env s (f s.token.span.start) R) :
    Outcome F env s (Parser.here >>= f) R := h

theorem token {f : Token → Parser β} (h : Outcome F env s (f s.token) R) :
    Outcome F env s (Parser.token >>= f) R := h

theorem context {f : Context → Parser β} (h : Outcome F env s (f env.context) R) :
    Outcome F env s (Parser.context >>= f) R := h

/-! ## Choices -/

variable {p q : Parser β}

theorem ite_false {b : Bool} (hb : b = false) (h : Outcome F env s q R) :
    Outcome F env s (if b = true then p else q) R := by
  subst hb
  exact h

/-- The current token is of the kind that is looked for. -/
theorem ifKind_eq {k : TokenKind} (hk : s.token.kind = k) (h : Outcome F env s p R) :
    Outcome F env s (atKind k >>= fun b => if b = true then p else q) R := by
  have hif : (if decide (s.token.kind = k) = true then p else q) = p := if_pos (decide_eq_true hk)
  show Outcome F env s (if decide (s.token.kind = k) = true then p else q) R
  rwa [hif]

/-- The current token is of another kind. -/
theorem ifKind_ne {k : TokenKind} (hk : s.token.kind ≠ k) (h : Outcome F env s q R) :
    Outcome F env s (atKind k >>= fun b => if b = true then p else q) R := by
  have hif : (if decide (s.token.kind = k) = true then p else q) = q :=
    if_neg fun heq => hk (of_decide_eq_true heq)
  show Outcome F env s (if decide (s.token.kind = k) = true then p else q) R
  rwa [hif]

/-- The current token is another name, or none. -/
theorem ifName_ne {name : String} (hname : s.token.isIdentifier name = false)
    (h : Outcome F env s q R) :
    Outcome F env s (atName name >>= fun b => if b = true then p else q) R :=
  show Outcome F env s (if s.token.isIdentifier name = true then p else q) R from ite_false hname h

/-- A repetition that ends with its first round. -/
theorem repeatFrom_once {step : α → Parser (α ⊕ β)} {a : α}
    (h : Outcome F env s (step a) fun r s' => ∃ b, r = .inr b ∧ R b s') :
    Outcome F env s (repeatFrom a step) R := by
  show Outcome F env s (iterate step ('\x00' :: '\x00' :: s.lexer.rest) a) R
  refine h.bind ?_
  rintro _ s' ⟨b, rfl, hb⟩
  exact hb

/-- A repetition that ends with its second round. -/
theorem repeatFrom_twice {step : α → Parser (α ⊕ β)} {a : α}
    (h : Outcome F env s (step a) fun r m => ∃ c, r = .inl c ∧
      Outcome F env m (step c) fun r s' => ∃ b, r = .inr b ∧ R b s') :
    Outcome F env s (repeatFrom a step) R := by
  show Outcome F env s (iterate step ('\x00' :: '\x00' :: s.lexer.rest) a) R
  refine h.bind ?_
  rintro _ m ⟨c, rfl, hc⟩
  refine hc.bind ?_
  rintro _ s' ⟨b, rfl, hb⟩
  exact hb

end Outcome

/-- One way past a token that is there, and another way if it is not. -/
theorem eatKind_ite (k : TokenKind) (p q : Parser α) :
    (eatKind k >>= fun b => if b = true then p else q) =
      (atKind k >>= fun b => if b = true then discard bump >>= fun _ => p else q) := by
  rw [eatKind, bind_assoc]
  refine congrArg (_ >>= ·) (funext fun b => ?_)
  cases b with
  | true => simp only [if_true, bind_assoc, pure_bind]
  | false => simp only [Bool.false_eq_true, if_false, pure_bind]

theorem Outcome.eaten_ne {p q : Parser β} {Q : β → ParserState → Prop} {k : TokenKind}
    (hk : s.token.kind ≠ k) (h : Outcome F env s q Q) :
    Outcome F env s (eatKind k >>= fun b => if b = true then p else q) Q := by
  rw [eatKind_ite]
  exact ifKind_ne hk h

/-! ## What depends on the lexer -/

theorem bump_eq (env : Surrounding) (s : ParserState) : bump env s =
    (match s.lexer.next with
      | (.error e, _) => throw e
      | (.ok t, lexer) => do
        set (⟨lexer, t, s.token.span.stop⟩ : ParserState)
        return s.token : Parser Token) env s := rfl

theorem rescan_eq (env : Surrounding) (s : ParserState) : rescan env s =
    (match s.lexer.rescanRegExp s.token with
      | (.error e, _) => throw e
      | (.ok t, lexer) => set (⟨lexer, t, s.lastEnd⟩ : ParserState) : Parser Unit) env s := rfl

theorem peek_eq (env : Surrounding) (s : ParserState) : peek env s =
    (match s.lexer.next.1 with
      | .error e => throw e
      | .ok t => return t : Parser Token) env s := rfl

end WithScope.Parser
