import WithScope.Grammar.Program
import WithScope.Proofs.Grammar.Outcome
import WithScope.Proofs.Grammar.Reads
import WithScope.Proofs.Token.Progress

/-!
# What parsers move past

`ParserState.left` measures what is left to read: a token that is not the last one, and the
characters after it. No parser leaves more to read than there was before it, and one that moves past
a token leaves less. So a repetition each round of which moves past a token comes to an end within
its budget, which has more rounds than there is left to read.

`Advances source taken p` says that of the parser `p` in the states of a text: `taken` says after
which results less is left than before, and no fault is that of a spent budget. There is a rule for
each way to put parsers together.

* `Consumes` — a parser that moves past a token whenever it succeeds;
* `Proceeds` — a parser that may have moved past tokens or not.
-/

namespace WithScope

/-- A fault other than a budget that has been spent. -/
def SyntaxError.NotSpent (e : SyntaxError) : Prop := e.cause ≠ .budgetSpent

/-- The faults that a lexer finds are not spent budgets. -/
theorem SyntaxError.notSpent_of_lexical {e : SyntaxError} (h : ∃ cause, e.cause = .lexical cause) :
    e.NotSpent := by
  obtain ⟨cause, h⟩ := h
  unfold NotSpent
  rw [h]
  exact nofun

/-! ## What is left to read -/

/-- How much there is left to read: the current token, unless it is the last one, and the characters
after it. -/
def ParserState.left (s : ParserState) : Nat :=
  s.lexer.rest.length + if s.token.kind = .eof then 0 else 1

/-- A state that comes after another one of a text: no more is left to read, and less if `taken`
holds. -/
structure ParserState.Later (source : List Char) (taken : Bool) (s s' : ParserState) : Prop where
  /-- the later state is one of the text, too -/
  sound : s'.Sound source
  /-- nothing is put back -/
  le : s'.left ≤ s.left
  /-- something has been taken -/
  lt : taken = true → s'.left < s.left

namespace ParserState

variable {source : List Char} {s s' s'' : ParserState} {taken more : Bool}

/-- A state comes after itself, with nothing taken. -/
theorem Later.refl (hs : s.Sound source) : s.Later source false s := ⟨hs, le_rfl, nofun⟩

/-- What has been taken on either of two ways has been taken on both together. -/
theorem Later.trans (h : s.Later source taken s') (h' : s'.Later source (!taken && more) s'') :
    s.Later source more s'' := by
  refine ⟨h'.sound, h'.le.trans h.le, fun hmore => ?_⟩
  cases taken with
  | true => exact h'.le.trans_lt (h.lt rfl)
  | false => exact (h'.lt hmore).trans_le h.le

/-- A state that comes later with something taken comes later without that being asked. -/
theorem Later.mono (h : s.Later source taken s') (hmore : more = true → taken = true) :
    s.Later source more s' :=
  ⟨h.sound, h.le, fun hm => h.lt (hmore hm)⟩

namespace Sound

variable (hs : s.Sound source)
include hs

omit hs in
/-- The token after the current one and what follows it are among the characters after the current
one. -/
theorem left_next {t : Token} {l : Lexer} (h : s.lexer.next = (.ok t, l)) :
    (⟨l, t, s.token.span.stop⟩ : ParserState).left ≤ s.lexer.rest.length := by
  show l.rest.length + (if t.kind = .eof then 0 else 1) ≤ s.lexer.rest.length
  by_cases ht : t.kind = .eof
  · obtain ⟨gap, text, hrest, -⟩ := Lexer.next_split h
    rw [if_pos ht, hrest, List.length_append]
    omega
  · have := Lexer.next_shorter h ht
    rw [if_neg ht]
    omega

/-- Moving past a token takes it, unless it was the last one. -/
theorem later_next {t : Token} {l : Lexer} (h : s.lexer.next = (.ok t, l)) :
    s.Later source (s.token.kind ≠ .eof) ⟨l, t, s.token.span.stop⟩ := by
  have hleft := left_next h
  refine ⟨hs.next h, hleft.trans (Nat.le_add_right _ _), fun hk => ?_⟩
  unfold left at hleft ⊢
  rw [if_neg (of_decide_eq_true hk)]
  omega

/-- A regular expression in place of a slash has taken some of the characters after it. -/
theorem later_rescan (hk : s.token.kind.isSlash) {t : Token} {l : Lexer}
    (h : s.lexer.rescanRegExp s.token = (.ok t, l)) :
    s.Later source false ⟨l, t, s.lastEnd⟩ := by
  obtain ⟨given, hsession, hgiven⟩ := hs.session
  obtain ⟨before, text, ht, hl⟩ := hs.token
  obtain ⟨v, -, hrest, -⟩ := Lexer.rescan_split hsession hgiven hk ht hl.source h
  have hne : s.token.kind ≠ .eof := by
    intro heof
    rw [heof] at hk
    cases hk
  refine ⟨(hs.rescan h).1, ?_, nofun⟩
  show l.rest.length + (if t.kind = .eof then 0 else 1) ≤ s.lexer.rest.length + _
  rw [if_neg (hs.rescan h).2.2, if_neg hne, hrest, List.length_append]
  omega

end Sound

end ParserState

namespace Parser

variable {source : List Char} {env : Surrounding} {s : ParserState} {α β : Type}

/-- From a state of a text, a parser comes to a later one, to one with less left if `taken` holds of
its result, or to a fault that is not that of a spent budget. -/
def Runs (source : List Char) (taken : α → Bool) (env : Surrounding) (s : ParserState)
    (p : Parser α) : Prop :=
  Outcome SyntaxError.NotSpent env s p fun a s' => s.Later source (taken a) s'

/-- What a parser does from each state of a text. -/
def Advances (source : List Char) (taken : α → Bool) (p : Parser α) : Prop :=
  ∀ ⦃env s⦄, s.Sound source → Runs source taken env s p

/-- A parser that moves past a token. -/
abbrev Consumes (source : List Char) (p : Parser α) : Prop := Advances source (fun _ => true) p

/-- A parser that may move past tokens. -/
abbrev Proceeds (source : List Char) (p : Parser α) : Prop := Advances source (fun _ => false) p

/-! ## Rounds -/

/-- One round of a list: the end of it, or one more item. -/
def itemRound (stop : Parser Bool) (item : Parser α) (items : List α) :
    Parser (List α ⊕ List α) := do
  if ← stop then return .inr items.reverse
  else return .inl ((← item) :: items)

/-- A list is collected in rounds of `itemRound`. -/
theorem collectUntil_eq (stop : Parser Bool) (item : Parser α) :
    collectUntil stop item = repeatFrom [] (itemRound stop item) := rfl

/-- One round of a list that may end with a rest. -/
def itemOrRestRound (close : Punctuator) (item rest : Parser α) (items : List α) :
    Parser (List α ⊕ List α) := do
  if ← eatMark close then return .inr items.reverse
  else if ← atMark .dotDotDot then
    let last ← rest
    expectMark close
    return .inr (last :: items).reverse
  else return .inl ((← item) :: items)

/-- A list with a rest is collected in rounds of `itemOrRestRound`. -/
theorem itemsWithRest_eq (close : Punctuator) (item rest : Parser α) :
    itemsWithRest close item rest = repeatFrom [] (itemOrRestRound close item rest) := rfl

/-- A round that moves past a token unless it is the last one. -/
abbrev Rounds (source : List Char) (step : α → Parser (α ⊕ β)) : Prop :=
  ∀ a, Advances source (Sum.elim (fun _ => true) fun _ => false) (step a)

variable {p q : Parser α} {f : α → Parser β} {t u : α → Bool} {v : β → Bool}

/-! ## From one state -/

namespace Runs

/-- Less may be asked of what has been taken. -/
theorem mono (hp : Runs source t env s p) (h : ∀ a, u a = true → t a = true) :
    Runs source u env s p :=
  Outcome.mono hp fun a _ hlater => hlater.mono (h a)

/-- If the first of two parsers has taken something, the second need not. -/
theorem bind (hp : Runs source t env s p) (hf : ∀ a, Advances source (fun b => !t a && v b) (f a)) :
    Runs source v env s (p >>= f) :=
  Outcome.bind hp fun a _ hlater =>
    Outcome.mono (hf a hlater.sound) fun _ _ hlater' => hlater.trans hlater'

/-- A value that is given without reading takes nothing. -/
theorem pure (hs : s.Sound source) {a : α} (h : u a = false) : Runs source u env s (Pure.pure a) :=
  show s.Later source (u a) s from h ▸ .refl hs

/-- Whatever is asked of a result. -/
theorem unexpected {Q : α → ParserState → Prop} :
    Outcome SyntaxError.NotSpent env s Parser.unexpected Q := by
  show Outcome _ env s (if s.token.kind = .eof then _ else _) Q
  split <;> exact .fail nofun

/-- Less is left if the current token is not the last one. -/
theorem bump (hs : s.Sound source) :
    Runs source (fun _ => s.token.kind ≠ .eof) env s Parser.bump := by
  unfold Runs Outcome
  rw [bump_eq]
  rcases hnext : s.lexer.next with ⟨e | t, l⟩
  · exact SyntaxError.notSpent_of_lexical (Lexer.next_lexical (congrArg Prod.fst hnext))
  · exact hs.later_next hnext

/-- Past a token that is not the last one. -/
theorem take (hs : s.Sound source) (hk : s.token.kind ≠ .eof) :
    Runs source (fun _ => true) env s Parser.bump :=
  (bump hs).mono fun _ _ => decide_eq_true hk

/-- The current token is taken, since it is known not to be the last one. -/
theorem skip (hs : s.Sound source) (hk : s.token.kind ≠ .eof) :
    Runs source (fun _ => true) env s (discard Parser.bump) :=
  (take hs hk).bind fun _ _ _ hs => pure hs rfl

/-- A regular expression takes the place of a slash. -/
theorem rescan (hs : s.Sound source) (hk : s.token.kind.isSlash) :
    Outcome SyntaxError.NotSpent env s Parser.rescan fun _ s' =>
      s.Later source false s' ∧ s'.token.kind ≠ .eof := by
  unfold Outcome
  rw [rescan_eq]
  rcases hrescan : s.lexer.rescanRegExp s.token with ⟨e | t, l⟩
  · exact SyntaxError.notSpent_of_lexical (Lexer.advance_lexical (congrArg Prod.fst hrescan))
  · exact ⟨hs.later_rescan hk hrescan, (hs.rescan hrescan).2.2⟩

/-! ### Looking at the state -/

/-- The place of the current token is looked at, and nothing taken. -/
theorem here {f : Position → Parser β} (h : Runs source v env s (f s.here)) :
    Runs source v env s (Parser.here >>= f) := h

/-- The kind of the current token is looked at, and nothing taken. -/
theorem kind {f : TokenKind → Parser β} (h : Runs source v env s (f s.token.kind)) :
    Runs source v env s (Parser.kind >>= f) := h

/-- One of two parsers, as the kind of the current token has it. -/
theorem ifKind {k : TokenKind} {p q : Parser β} (hyes : s.token.kind = k → Runs source v env s p)
    (hno : Runs source v env s q) :
    Runs source v env s (Parser.atKind k >>= fun b => if b = true then p else q) := by
  show Runs source v env s (if decide (s.token.kind = k) = true then p else q)
  split
  · next h => exact hyes (of_decide_eq_true h)
  · exact hno

/-! ### Repetition -/

/-- A repetition whose rounds move past tokens comes to an end. What holds before each round may be
an assumption. -/
theorem repeatFrom {I : ParserState → Prop} {step : α → Parser (α ⊕ β)}
    (hstep : ∀ a s, s.Sound source → I s → Outcome SyntaxError.NotSpent env s (step a) fun r s' =>
      s.Later source (r.elim (fun _ => true) v) s' ∧ (r.isLeft = true → I s'))
    {a : α} (hs : s.Sound source) (hI : I s) : Runs source v env s (Parser.repeatFrom a step) := by
  have hiterate (budget : List Char) : ∀ a s, s.Sound source → I s → s.left < budget.length →
      Runs source v env s (iterate step budget a) := by
    -- each round but the last leaves less, so the budget stays longer than what is left
    induction budget with
    | nil => exact fun _ _ _ _ hleft => absurd hleft (Nat.not_lt_zero _)
    | cons _ budget ih =>
      intro a s hs hI hleft
      refine Outcome.bind (hstep a s hs hI) fun r s' ⟨hlater, hI'⟩ => ?_
      cases r with
      | inl a' =>
        have hless := hlater.lt rfl
        rw [List.length_cons] at hleft
        refine Outcome.mono (ih a' s' hlater.sound (hI' rfl) (by omega)) fun _ _ hlater' => ?_
        exact hlater.trans (hlater'.mono fun hfalse => by cases hfalse)
      | inr b => exact hlater
  refine hiterate _ a s hs hI ?_
  show _ < s.lexer.rest.length + 1 + 1
  unfold ParserState.left
  split <;> omega

end Runs

/-! ## From all states -/

namespace Advances

/-- As `Runs.mono`, from every state. -/
theorem mono (hp : Advances source t p) (h : ∀ a, u a = true → t a = true) :
    Advances source u p :=
  fun _ _ hs => (hp hs).mono h

/-- A parser that moves past a token is one of any kind. -/
theorem any (hp : Consumes source p) : Advances source u p := hp.mono fun _ _ => rfl

/-- As `Runs.bind`, from every state that the first parser leads to. -/
theorem bind (hp : Advances source t p) (hf : ∀ a, Advances source (fun b => !t a && v b) (f a)) :
    Advances source v (p >>= f) :=
  fun _ _ hs => (hp hs).bind hf

/-- What comes first moves past a token. -/
theorem take (hp : Consumes source p) (hf : ∀ a, Proceeds source (f a)) :
    Advances source v (p >>= f) :=
  bind hp hf

/-- What comes first may move past a token or not. -/
theorem pass (hp : Advances source t p) (hf : ∀ a, Advances source v (f a)) :
    Advances source v (p >>= f) :=
  bind hp fun a => (hf a).mono fun _ h => (Bool.and_eq_true_iff.1 h).2

theorem pure {a : α} (h : u a = false) : Advances source u (Pure.pure a : Parser α) :=
  fun _ _ hs => .pure hs h

/-- A value, where nothing has to be taken. -/
theorem done {a : α} : Proceeds source (Pure.pure a : Parser α) := pure rfl

/-- What is made of a value does not change what has been taken. -/
theorem map {f : α → β} (hp : Consumes source p) : Consumes source (f <$> p) :=
  take hp fun _ => done

/-- A value may be forgotten, and with it whether something was taken. -/
theorem discard (hp : Advances source t p) : Proceeds source (discard p) := pass hp fun _ => done

/-- A choice takes what both of its sides take. -/
theorem ite {c : Prop} [Decidable c] (hp : Advances source u p) (hq : Advances source u q) :
    Advances source u (if c then p else q) := by
  split
  · exact hp
  · exact hq

/-- Two ways to come to the same place. -/
theorem join {t' : α → Bool} {c : Prop} [Decidable c] (hp : Advances source t p)
    (hq : Advances source t' q) (hf : ∀ a, Advances source v (f a)) :
    Advances source v (if c then p >>= f else q >>= f) :=
  ite (pass hp hf) (pass hq hf)

/-- Either way moves past a token. -/
theorem joinTake {c : Prop} [Decidable c] (hp : Consumes source p) (hq : Consumes source q)
    (hf : ∀ a, Proceeds source (f a)) :
    Advances source v (if c then p >>= f else q >>= f) :=
  ite (take hp hf) (take hq hf)

/-- A fault other than a spent budget is no result, so anything may be said of results. -/
theorem fail {place : Position} {cause : SyntaxCause} (h : cause ≠ .budgetSpent) :
    Advances source u (Parser.fail place cause : Parser α) :=
  fun _ _ _ => Outcome.fail h

/-- What is worked out without reading takes nothing, and must not fail by a spent budget. -/
theorem ofExcept {x : Except SyntaxError α} (h : ∀ e, x = .error e → e.NotSpent) :
    Proceeds source (ofExcept x : Parser α) := by
  cases x with
  | error e => exact fun _ _ _ => h e rfl
  | ok a => exact pure rfl

/-! ### Looking at the state and the surrounding -/

theorem token : Proceeds source Parser.token := fun _ _ hs => .refl hs

theorem kind : Proceeds source Parser.kind := fun _ _ hs => .refl hs

theorem here : Proceeds source Parser.here := fun _ _ hs => .refl hs

theorem spanFrom (start : Position) : Proceeds source (Parser.spanFrom start) :=
  fun _ _ hs => .refl hs

theorem context : Proceeds source Parser.context := fun _ _ hs => .refl hs

theorem read : Proceeds source (MonadReader.read : Parser Surrounding) := fun _ _ hs => .refl hs

/-- The token that is looked at is read again later. -/
theorem peek : Proceeds source Parser.peek := by
  intro env s hs
  unfold Runs Outcome
  rw [peek_eq]
  cases h : s.lexer.next.1 with
  | error e => exact SyntaxError.notSpent_of_lexical (Lexer.next_lexical h)
  | ok t => exact .refl hs

theorem atKind (k : TokenKind) : Proceeds source (Parser.atKind k) := pass kind fun _ => pure rfl

theorem atMark (mark : Punctuator) : Proceeds source (Parser.atMark mark) := atKind _

theorem atWord (word : Keyword) : Proceeds source (Parser.atWord word) := atKind _

theorem atName (name : String) : Proceeds source (Parser.atName name) :=
  pass token fun _ => pure rfl

/-- Whether a line has ended is known to the current token. -/
theorem afterNewline : Proceeds source Parser.afterNewline := pass token fun _ => pure rfl

theorem atStatementBreak : Proceeds source Parser.atStatementBreak := pass token fun _ => pure rfl

/-- The end of a statement is seen without moving. -/
theorem atStatementEnd : Proceeds source Parser.atStatementEnd :=
  pass (atMark _) fun _ => ite (pure rfl) atStatementBreak

/-- A token that fits nowhere is a fault of its own. -/
theorem unexpected : Advances source u (Parser.unexpected : Parser α) :=
  fun _ _ _ => Runs.unexpected

/-! ### Moving on -/

/-- At the end of the text the last token is given again, so moving may take nothing. -/
theorem bump : Proceeds source Parser.bump := fun _ _ hs => (Runs.bump hs).mono fun _ => nofun

theorem skip : Proceeds source (Functor.discard Parser.bump) := discard bump

/-- Past a token of the given kind if it is there. -/
theorem eatKind {k : TokenKind} (hk : k ≠ .eof) : Advances source id (Parser.eatKind k) := by
  refine fun env s hs => .ifKind (fun heq => ?_) (.pure hs rfl)
  exact (Runs.skip hs (heq ▸ hk)).bind fun _ => pure rfl

/-- A punctuator that is eaten is taken, and is not the end of the text. -/
theorem eatMark (mark : Punctuator) : Advances source id (Parser.eatMark mark) := eatKind nofun

/-- A reserved word that is eaten is taken. -/
theorem eatWord (word : Keyword) : Advances source id (Parser.eatWord word) := eatKind nofun

/-- One way after a token that has been there, and another way if it has not. -/
theorem eaten {c : Parser Bool} (hc : Advances source id c) (hp : Proceeds source p)
    (hq : Advances source u q) :
    Advances source u (c >>= fun b => if b = true then p else q) := by
  refine bind hc fun b => ?_
  cases b with
  | true => exact hp
  | false => exact hq

/-- A token of the expected kind is there to be taken, or there is a fault. -/
theorem expectKind {k : TokenKind} (hk : k ≠ .eof) : Consumes source (Parser.expectKind k) :=
  fun _ _ hs => .ifKind (fun heq => .take hs (heq ▸ hk)) (unexpected hs)

theorem expectMark (mark : Punctuator) : Consumes source (Parser.expectMark mark) :=
  map (expectKind nofun)

theorem expectWord (word : Keyword) : Consumes source (Parser.expectWord word) :=
  map (expectKind nofun)

theorem expectName (name : String) : Proceeds source (Parser.expectName name) :=
  pass (atName name) fun _ => ite skip unexpected

/-- A name is taken, or there is a fault. -/
theorem ident : Consumes source Parser.ident := take (expectKind nofun) fun _ => pure rfl

/-- A name is taken, be it reserved or not. -/
theorem identName : Consumes source Parser.identName := by
  refine fun env s hs => Runs.kind ?_
  split
  · next hk => exact (Runs.take hs (by rw [hk]; exact nofun)).bind fun _ => pure rfl
  · exact ident hs

/-- A semicolon that may be left out need not be taken. -/
theorem semicolon : Proceeds source Parser.semicolon :=
  pass (eatMark _) fun _ =>
    ite (pure rfl) (pass atStatementBreak fun _ => ite (pure rfl) unexpected)

/-! ### Changed surroundings -/

/-- The context has no part in what is taken. -/
theorem withContext {change : Context → Context} (hp : Advances source t p) :
    Advances source t (p.withContext change) :=
  fun _ _ hs => hp hs

theorem allowIn (hp : Advances source t p) : Advances source t p.allowIn := hp.withContext

/-- The surrounding of a body has no part in what is taken. -/
theorem inBody {context : Context} (hp : Advances source t p) :
    Advances source t (p.inBody context) :=
  fun _ _ hs => hp hs

theorem withLabel {name : String} (hp : Advances source t p) :
    Advances source t (p.withLabel name) :=
  fun _ _ hs => hp hs

/-! ### Repetition -/

/-- A repetition each round of which moves past a token unless it is the last one. -/
theorem repeatFrom {step : α → Parser (α ⊕ β)}
    (hstep : ∀ a, Advances source (Sum.elim (fun _ => true) v) (step a)) (a : α) :
    Advances source v (Parser.repeatFrom a step) :=
  fun _ _ hs => Runs.repeatFrom (I := fun _ => True)
    (fun a _ hs _ => Outcome.mono (hstep a hs) fun _ _ hlater => ⟨hlater, fun _ => trivial⟩)
    hs trivial

/-- An item moves past a token. -/
theorem itemRound {stop : Parser Bool} {t : Bool → Bool} (hstop : Advances source t stop)
    (hp : Consumes source p) (items : List α) :
    Advances source (Sum.elim (fun _ => true) fun _ => t true) (Parser.itemRound stop p items) := by
  refine bind hstop fun b => ?_
  cases b with
  | true => exact pure (by simp)
  | false => exact take hp fun _ => done

/-- Items that move past tokens, up to where they stop. -/
theorem collectUntil {stop : Parser Bool} {t : Bool → Bool} (hstop : Advances source t stop)
    (hp : Consumes source p) : Advances source (fun _ => t true) (Parser.collectUntil stop p) := by
  rw [collectUntil_eq]
  exact repeatFrom (itemRound hstop hp) _

/-- Every further item has its comma, so the rounds come to an end. -/
theorem afterCommas (hp : Consumes source p) : Proceeds source (Parser.afterCommas p) :=
  collectUntil (t := fun _ => false) (pass (eatMark _) fun _ => done) hp

/-- The item is taken, and the comma if there is one. -/
theorem itemAndComma {close : Punctuator} (hp : Consumes source p) :
    Consumes source (Parser.itemAndComma close p) :=
  take hp fun _ => pass (atMark _) fun _ => ite (pure rfl) (pass (expectMark _) fun _ => pure rfl)

/-- What closes the list is taken in the end. -/
theorem commaSeparated {close : Punctuator} (hp : Consumes source p) :
    Consumes source (Parser.commaSeparated close p) :=
  collectUntil (eatMark _) hp.itemAndComma

/-- An item moves past a token, and so does the end of the list. -/
theorem itemOrRestRound {close : Punctuator} {rest : Parser α} (hp : Consumes source p)
    (hrest : Advances source t rest) (items : List α) :
    Consumes source (Parser.itemOrRestRound close p rest items) := by
  refine eaten (eatMark _) (pure rfl) (pass (atMark _) fun _ => ite ?_ ?_)
  · exact pass hrest fun _ => take (expectMark _) fun _ => done
  · exact take hp fun _ => done

/-- What closes the list is taken, after the rest or without it. -/
theorem itemsWithRest {close : Punctuator} {rest : Parser α} (hp : Consumes source p)
    (hrest : Advances source t rest) : Consumes source (Parser.itemsWithRest close p rest) := by
  rw [itemsWithRest_eq]
  exact repeatFrom (fun items => any (itemOrRestRound hp hrest items)) _

end Advances

end Parser

end WithScope
