import WithScope.Proofs.Grammar.Outcome
import WithScope.Proofs.Grammar.Yields

/-!
# What parsers leave behind

`p.Yields Q` says nothing of the state in which a parser leaves off. `Leaves env s p Q` does: if the
parser `p` succeeds in the surrounding `env` from the state `s`, then with a value and in a state
that `Q` holds of. As there, nothing is said of a parser that fails.
-/

namespace WithScope.Parser

variable {α β : Type} {env : Surrounding} {s : ParserState}

/-- If a parser succeeds, then with a value and in a state that `Q` holds of. -/
def Leaves (env : Surrounding) (s : ParserState) (p : Parser α) (Q : α → ParserState → Prop) :
    Prop :=
  Outcome (fun _ => True) env s p Q

namespace Leaves

variable {p q : Parser α} {f : α → Parser β} {P Q : α → ParserState → Prop}
  {R : β → ParserState → Prop}

/-- What holds of all that is yielded holds of what is left behind. -/
theorem of_yields {Q : α → Prop} (h : p.Yields Q) : Leaves env s p fun a _ => Q a := by
  unfold Leaves Outcome
  split
  · exact h _ _ _ _ ‹_›
  · trivial

/-- What a run leaves holds of its result. -/
theorem of_run {a : α} {s' : ParserState} (h : Leaves env s p Q) (hrun : p env s = .ok (a, s')) :
    Q a s' := by
  unfold Leaves Outcome at h
  rwa [hrun] at h

/-- What holds wherever a parser leaves off holds of all that it yields. -/
theorem yields {Q : α → Prop} (h : ∀ env s, Leaves env s p fun a _ => Q a) : p.Yields Q :=
  fun env s _ _ hrun => (h env s).of_run hrun

/-- What is known of a parser that succeeds is that it does. -/
theorem self : Leaves env s p fun a s' => p env s = .ok (a, s') := by
  unfold Leaves Outcome
  split
  · assumption
  · trivial

/-- What is left may be weakened. -/
theorem mono (hp : Leaves env s p P) (h : ∀ a s', P a s' → Q a s') : Leaves env s p Q :=
  Outcome.mono (F := fun _ => True) hp h

/-- What is left in two ways is left in both. -/
theorem and (hp : Leaves env s p P) (hq : Leaves env s p Q) :
    Leaves env s p fun a s' => P a s' ∧ Q a s' := by
  unfold Leaves Outcome at hp hq ⊢
  split at hp <;> simp_all

/-- A value that is given is left with the state as it is. -/
theorem pure {a : α} (h : Q a s) : Leaves env s (Pure.pure a) Q := h

/-- A fault leaves nothing. -/
theorem fail (place : Position) (cause : SyntaxCause) :
    Leaves env s (Parser.fail place cause) Q := True.intro

/-- What comes second starts at what the first leaves. -/
theorem bind (hp : Leaves env s p P) (hf : ∀ a s', P a s' → Leaves env s' (f a) R) :
    Leaves env s (p >>= f) R :=
  Outcome.bind (F := fun _ => True) hp hf

/-- What is made of a value is left in its place. -/
theorem map {f : α → β} (hp : Leaves env s p fun a s' => R (f a) s') :
    Leaves env s (f <$> p) R :=
  bind hp fun _ _ h => pure h

/-- What follows a parser that leaves the state as it is. -/
theorem look {P : α → Prop} (hp : Leaves env s p fun a s' => s' = s ∧ P a)
    (hf : ∀ a, P a → Leaves env s (f a) R) : Leaves env s (p >>= f) R :=
  bind hp fun a _ ⟨hs, ha⟩ => hs ▸ hf a ha

/-- Nothing of the first part is needed for the second. -/
theorem after (hf : ∀ a s', Leaves env s' (f a) R) : Leaves env s (p >>= f) R :=
  bind (of_yields (.trivial p)) fun a s' _ => hf a s'

/-- A choice is known to the way that it takes. -/
theorem ite {c : Prop} [Decidable c] (hp : c → Leaves env s p Q) (hq : ¬c → Leaves env s q Q) :
    Leaves env s (if c then p else q) Q := by
  split
  · exact hp ‹_›
  · exact hq ‹_›

/-- As `fail`, at the next token. -/
theorem unexpected : Leaves env s Parser.unexpected Q :=
  after fun _ _ => ite (fun _ => fail _ _) fun _ => fail _ _

/-- The place of the next token is known to what follows. -/
theorem here {f : Position → Parser β} (h : Leaves env s (f s.token.span.start) R) :
    Leaves env s (Parser.here >>= f) R := h

/-- The kind of the next token is known to what follows. -/
theorem kind {f : TokenKind → Parser β} (h : Leaves env s (f s.token.kind) R) :
    Leaves env s (Parser.kind >>= f) R := h

/-- The next token is known to what follows. -/
theorem token {f : Token → Parser β} (h : Leaves env s (f s.token) R) :
    Leaves env s (Parser.token >>= f) R := h

/-- The context is known to what follows. -/
theorem context {f : Context → Parser β} (h : Leaves env s (f env.context) R) :
    Leaves env s (Parser.context >>= f) R := h

/-- The surrounding is known to what follows. -/
theorem read {f : Surrounding → Parser β} (h : Leaves env s (f env) R) :
    Leaves env s (MonadReader.read >>= f) R := h

/-- A span ends where the last token did. -/
theorem spanFrom {start : Position} {f : Span → Parser β}
    (h : Leaves env s (f ⟨start, s.lastEnd⟩) R) : Leaves env s (Parser.spanFrom start >>= f) R := h

/-- What a computation gives is known to what follows. -/
theorem ofExcept {x : Except SyntaxError α} (h : ∀ a, x = .ok a → Leaves env s (f a) R) :
    Leaves env s (MonadExcept.ofExcept x >>= f) R := by
  cases x with
  | error e => exact True.intro
  | ok a => exact h a rfl

/-- Where `in` is an operator again, the same is left. -/
theorem allowIn (hp : ∀ env, Leaves env s p Q) : Leaves env s (Parser.allowIn p) Q := hp _

/-- In a body the same is left. -/
theorem inBody {context : Context} (hp : ∀ env, Leaves env s p Q) :
    Leaves env s (Parser.inBody context p) Q := hp _

/-- Two ways to come to the same place. -/
theorem join {c : Prop} [Decidable c] (hp : c → Leaves env s p P) (hq : ¬c → Leaves env s q P)
    (hf : ∀ a s', P a s' → Leaves env s' (f a) R) :
    Leaves env s (if c then p >>= f else q >>= f) R :=
  ite (fun hc => bind (hp hc) hf) fun hc => bind (hq hc) hf

/-- A repetition whose steps keep the invariant `P`. -/
theorem iterate {step : α → Parser (α ⊕ β)}
    (hstep : ∀ a s, P a s →
      Leaves env s (step a) fun r s' => Sum.elim (fun a => P a s') (fun b => R b s') r)
    (budget : List Char) {a : α} {s : ParserState} (ha : P a s) :
    Leaves env s (Parser.iterate step budget a) R := by
  -- the budget only bounds the rounds, so a spent one is a fault like any other
  induction budget generalizing a s with
  | nil => exact after fun _ _ => fail _ _
  | cons _ budget ih =>
    refine bind (hstep a s ha) fun r s' hr => ?_
    cases r with
    | inl a' => exact ih hr
    | inr b => exact pure hr

/-- An invariant that every round leaves holds at the end. -/
theorem repeatFrom {step : α → Parser (α ⊕ β)}
    (hstep : ∀ a s, P a s →
      Leaves env s (step a) fun r s' => Sum.elim (fun a => P a s') (fun b => R b s') r)
    {a : α} (ha : P a s) : Leaves env s (Parser.repeatFrom a step) R :=
  iterate hstep _ ha

end Leaves

end WithScope.Parser
