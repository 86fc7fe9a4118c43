import Mathlib.Logic.Relation
import WithScope.Grammar.Program
import WithScope.Proofs.Grammar.Leaves

/-!
# How parsers move

A parser changes its state in two ways only: it goes on to the next token, or it reads the current
one again as a regular expression. So what both of these keep is kept by every parser, however it is
put together (`Parser.Moves`). The instances here are those of parsers that do not depend on the
productions through which the grammar contains itself.
-/

namespace WithScope

/-- One move: on to the next token, or back to the beginning of the current one. -/
inductive ParserState.Move : ParserState → ParserState → Prop
  | next {s : ParserState} {t : Token} {l : Lexer} (h : s.lexer.next = (.ok t, l)) :
      Move s ⟨l, t, s.token.span.stop⟩
  | rescan {s : ParserState} {t : Token} {l : Lexer}
      (h : s.lexer.rescanRegExp s.token = (.ok t, l)) : Move s ⟨l, t, s.lastEnd⟩

/-- A state that comes after another one by any number of moves. -/
abbrev ParserState.Reaches : ParserState → ParserState → Prop :=
  Relation.ReflTransGen ParserState.Move

/-- The state after the current token of another one. -/
def ParserState.Past (s s' : ParserState) : Prop :=
  ∃ t l, s.lexer.next = (.ok t, l) ∧ s' = ⟨l, t, s.token.span.stop⟩

theorem ParserState.Reread.move {s s' : ParserState} (h : s.Reread s') : s.Move s' := by
  obtain ⟨t, l, hrescan, rfl⟩ := h
  exact .rescan hrescan

namespace ParserState.Past

variable {s s' : ParserState} (h : s.Past s')
include h

theorem move : s.Move s' := by
  obtain ⟨t, l, hnext, rfl⟩ := h
  exact .next hnext

theorem lastEnd : s'.lastEnd = s.token.span.stop := by
  obtain ⟨t, l, -, rfl⟩ := h
  rfl

/-- The token that has been looked at is the one that comes next. -/
theorem token {t : Token} (hnext : s.lexer.next.1 = .ok t) : s'.token = t := by
  obtain ⟨t', l, h, rfl⟩ := h
  rw [h] at hnext
  cases hnext
  rfl

end ParserState.Past

namespace Parser

variable {α β : Type} {env : Surrounding} {s : ParserState}

/-! ## Tokens -/

theorem leaves_bump : Leaves env s bump fun t s' => t = s.token ∧ s.Past s' := by
  unfold Leaves Outcome
  rw [bump_eq]
  rcases hnext : s.lexer.next with ⟨e | t, l⟩
  · exact True.intro
  · exact ⟨rfl, _, _, hnext, rfl⟩

theorem leaves_peek : Leaves env s peek fun t s' => s' = s ∧ s.lexer.next.1 = .ok t := by
  unfold Leaves Outcome
  rw [peek_eq]
  cases s.lexer.next.1 with
  | error e => exact True.intro
  | ok t => exact ⟨rfl, rfl⟩

theorem leaves_rescan : Leaves env s rescan fun _ s' => s.Reread s' := by
  unfold Leaves Outcome
  rw [rescan_eq]
  rcases hrescan : s.lexer.rescanRegExp s.token with ⟨e | t, l⟩
  · exact True.intro
  · exact ⟨t, l, hrescan, rfl⟩

/-! ## Parsers that move -/

/-- A parser that does nothing to the state but move. -/
class Moves (p : Parser α) : Prop where
  reaches : ∀ env s, Leaves env s p fun _ s' => s.Reaches s'

namespace Moves

variable {p q : Parser α}

/-! ## Parsers put together -/

/-- A parser that leaves the state as it is. -/
theorem of_stays (h : ∀ env s, Leaves env s p fun _ s' => s' = s) : p.Moves :=
  ⟨fun env s => (h env s).mono fun _ _ heq => heq ▸ .refl⟩

instance (a : α) : (pure a : Parser α).Moves := ⟨fun _ _ => .pure .refl⟩

instance instBind {f : α → Parser β} [hp : p.Moves] [hf : ∀ a, (f a).Moves] : (p >>= f).Moves :=
  ⟨fun env s => (hp.reaches env s).bind fun a s₁ h₁ =>
    ((hf a).reaches env s₁).mono fun _ _ h₂ => h₁.trans h₂⟩

instance {f : α → β} [p.Moves] : (f <$> p).Moves :=
  inferInstanceAs (p >>= fun a => pure (f a)).Moves

instance [p.Moves] : (discard p).Moves :=
  inferInstanceAs (p >>= fun _ => pure ()).Moves

instance {c : Prop} [Decidable c] [hp : p.Moves] [hq : q.Moves] : (if c then p else q).Moves := by
  split
  · exact hp
  · exact hq

instance (place : Position) (cause : SyntaxCause) : (fail place cause : Parser α).Moves :=
  ⟨fun _ _ => .fail place cause⟩

instance {a : α} {step : α → Parser (α ⊕ β)} [h : ∀ a, (step a).Moves] :
    (repeatFrom a step).Moves := by
  refine ⟨fun env s => .repeatFrom (P := fun _ s' => s.Reaches s') (fun a s₁ h₁ => ?_) .refl⟩
  refine ((h a).reaches env s₁).mono fun r _ h₂ => ?_
  cases r <;> exact h₁.trans h₂

/-! ## Tokens -/

instance : kind.Moves := of_stays fun _ _ => rfl

instance : token.Moves := of_stays fun _ _ => rfl

instance : here.Moves := of_stays fun _ _ => rfl

instance (start : Position) : (spanFrom start).Moves := of_stays fun _ _ => rfl

instance : context.Moves := of_stays fun _ _ => rfl

instance : (MonadReader.read : Parser Surrounding).Moves := of_stays fun _ _ => rfl

instance : bump.Moves := ⟨fun _ _ => leaves_bump.mono fun _ _ h => .single h.2.move⟩

instance : peek.Moves := of_stays fun _ _ => leaves_peek.mono fun _ _ h => h.1

instance : (unexpected : Parser α).Moves := by
  unfold unexpected
  infer_instance

instance (k : TokenKind) : (atKind k).Moves := by
  unfold atKind
  infer_instance

instance (mark : Punctuator) : (atMark mark).Moves := by
  unfold atMark
  infer_instance

instance (word : Keyword) : (atWord word).Moves := by
  unfold atWord
  infer_instance

instance (name : String) : (atName name).Moves := by
  unfold atName
  infer_instance

instance : afterNewline.Moves := by
  unfold afterNewline
  infer_instance

instance (k : TokenKind) : (eatKind k).Moves := by
  unfold eatKind
  infer_instance

instance (mark : Punctuator) : (eatMark mark).Moves := by
  unfold eatMark
  infer_instance

instance (word : Keyword) : (eatWord word).Moves := by
  unfold eatWord
  infer_instance

instance (k : TokenKind) : (expectKind k).Moves := by
  unfold expectKind
  infer_instance

instance (mark : Punctuator) : (expectMark mark).Moves := by
  unfold expectMark
  infer_instance

instance (word : Keyword) : (expectWord word).Moves := by
  unfold expectWord
  infer_instance

instance (name : String) : (expectName name).Moves := by
  unfold expectName
  infer_instance

/-! ## Lists -/

instance {stop : Parser Bool} [stop.Moves] [p.Moves] : (collectUntil stop p).Moves := by
  unfold collectUntil
  infer_instance

instance {close : Punctuator} [p.Moves] : (itemAndComma close p).Moves := by
  unfold itemAndComma
  infer_instance

instance {close : Punctuator} [p.Moves] : (commaSeparated close p).Moves := by
  unfold commaSeparated
  infer_instance

/-! ## Names and the ends of statements -/

instance : ident.Moves := by
  unfold ident
  infer_instance

instance : identName.Moves := by
  unfold identName
  refine @instBind _ _ _ _ _ fun kind => ?_
  cases kind <;> infer_instance

end Moves

end Parser

namespace Grammar

open WithScope.Parser (Moves)

instance : atAsyncFunction.Moves := by
  unfold atAsyncFunction
  infer_instance

instance (word : String) : (atModifier word).Moves := by
  unfold atModifier
  infer_instance

instance : methodModifiers.Moves := by
  unfold methodModifiers
  infer_instance

instance (isRequired : Bool) (isName : Token → Bool) : (optionalName isRequired isName).Moves := by
  unfold optionalName
  infer_instance

instance (e : Expr) : (checkUpdateTarget e).Moves := by
  unfold checkUpdateTarget
  infer_instance

instance (floor : Nat) : (operator? floor).Moves := by
  unfold operator?
  infer_instance

instance (start : Position) (isTopLevel : Bool) : (checkModulePosition start isTopLevel).Moves := by
  unfold checkModulePosition
  infer_instance

instance : moduleSource.Moves := by
  unfold moduleSource
  infer_instance

instance : moduleName.Moves := by
  unfold moduleName
  infer_instance

instance : importAttribute.Moves := by
  unfold importAttribute
  infer_instance

instance : atImportAttributes.Moves := by
  unfold atImportAttributes
  infer_instance

instance : importAttributes.Moves := by
  unfold importAttributes
  infer_instance

instance (isName : Bool) (imported : ModuleName) : (importedName isName imported).Moves := by
  cases imported <;> unfold importedName <;> infer_instance

instance : namedImport.Moves := by
  unfold namedImport
  infer_instance

instance : importSpecifiers.Moves := by
  unfold importSpecifiers
  infer_instance

instance : importClause.Moves := by
  unfold importClause
  refine @Moves.instBind _ _ _ _ _ fun isName => ?_
  dsimp only
  split <;> infer_instance

instance : exportSpecifier.Moves := by
  unfold exportSpecifier
  infer_instance

instance : atLetDeclaration.Moves := by
  unfold atLetDeclaration
  infer_instance

instance : eatAwait.Moves := by
  unfold eatAwait
  infer_instance

instance (kind : VarKind) (id : Pat) : (checkLexicalNames kind id).Moves := by
  unfold checkLexicalNames
  cases id.find? "let" <;> infer_instance

instance (start : Position) (isBreak : Bool) (label : Option Ident) :
    (checkJump start isBreak label).Moves := by
  unfold checkJump
  refine @Moves.instBind _ _ _ _ _ fun surrounding => ?_
  dsimp only
  cases label.filter _ <;> infer_instance

/-! ## Matches on the current token -/

instance : atExportable.Moves := by
  unfold atExportable
  refine @Moves.instBind _ _ _ _ _ fun kind => ?_
  split <;> infer_instance

instance : atVarDecl.Moves := by
  unfold atVarDecl
  refine @Moves.instBind _ _ _ _ _ fun kind => ?_
  split <;> infer_instance

instance : atCaseEnd.Moves := by
  unfold atCaseEnd
  refine @Moves.instBind _ _ _ _ _ fun kind => ?_
  split <;> infer_instance

instance : varKind.Moves := by
  unfold varKind
  refine @Moves.instBind _ _ _ _ _ fun t => ?_
  split <;> infer_instance

end Grammar

end WithScope
