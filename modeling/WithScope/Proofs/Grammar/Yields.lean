import WithScope.Grammar.Program

/-!
# What parsers yield

`p.YieldsIn env Q` says that whatever the parser `p` reads in the surrounding `env`, from any state,
has the property `Q`, and `p.Yields Q` says it of any surrounding. Neither says anything of a parser
that fails, nor of the state in which a parser leaves off: a property of trees that holds of all that
is read depends on how trees are put together and on what surrounds them, and not on the text.

There is one rule for each way to put parsers together, so that the proof about a production follows
the production.
-/

namespace WithScope.Parser

variable {α β γ : Type} {P Q : α → Prop} {R : β → Prop} {env : Surrounding}

/-- A whole text that is read is read from its first token on. -/
theorem exists_run_of_parse {options : Options} {source : List Char} {program : Program}
    (h : parse options source = .ok program) :
    ∃ t l s', (Lexer.ofSource source).next = (.ok t, l) ∧
      (Grammar.nest Grammar.maxNesting).program options.surrounding ⟨l, t, .origin⟩ =
        .ok (program, s') := by
  unfold parse at h
  split at h
  case h_1 => cases h
  case h_2 t l hfirst =>
    cases hrun : (Grammar.nest Grammar.maxNesting).program options.surrounding
        ⟨l, t, Position.origin⟩ with
    | error e =>
      rw [hrun] at h
      cases h
    | ok result =>
      rw [hrun] at h
      cases h
      exact ⟨t, l, result.2, hfirst, hrun⟩

/-- Whatever a parser reads in a surrounding has the property. -/
def YieldsIn (env : Surrounding) (p : Parser α) (Q : α → Prop) : Prop :=
  ∀ s a s', p env s = .ok (a, s') → Q a

namespace YieldsIn

variable {p q : Parser α}

/-! ## Sequences and choices -/

/-- Nothing is said where every value will do. -/
theorem trivial (p : Parser α) : p.YieldsIn env fun _ => True :=
  fun _ _ _ _ => True.intro

/-- What is read has every weaker property. -/
theorem mono (h : p.YieldsIn env P) (hPQ : ∀ a, P a → Q a) : p.YieldsIn env Q :=
  fun s a s' hrun => hPQ a (h s a s' hrun)

/-- A value that is given without reading has to have the property. -/
theorem pure {a : α} (h : Q a) : (Pure.pure a : Parser α).YieldsIn env Q := by
  intro s b s' hrun
  cases hrun
  exact h

/-- What follows a parser may rely on what the parser yields. -/
theorem bind {f : α → Parser β} (hp : p.YieldsIn env P) (hf : ∀ a, P a → (f a).YieldsIn env R) :
    (p >>= f).YieldsIn env R := by
  intro s b s' hrun
  replace hrun : (p env s >>= fun x => f x.1 env x.2) = .ok (b, s') := hrun
  cases h : p env s with
  | error e =>
    rw [h] at hrun
    cases hrun
  | ok x =>
    rw [h] at hrun
    exact hf x.1 (hp s x.1 x.2 h) x.2 b s' hrun

/-- What follows a parser may have the property whatever the parser yields. -/
theorem after {f : α → Parser β} (hf : ∀ a, (f a).YieldsIn env R) : (p >>= f).YieldsIn env R :=
  bind (trivial p) fun a _ => hf a

/-- What is made of a value has the property that it is made for. -/
theorem map {f : α → β} (hp : p.YieldsIn env fun a => R (f a)) : (f <$> p).YieldsIn env R :=
  bind hp fun _ h => pure h

/-- What may be left out has the property where it is not. -/
theorem some (hp : p.YieldsIn env Q) : (Option.some <$> p).YieldsIn env fun o => ∀ a ∈ o, Q a := by
  refine map (hp.mono fun a ha b hb => ?_)
  cases hb
  exact ha

/-- Nothing holds of what is left out. -/
theorem none : (Pure.pure Option.none : Parser (Option α)).YieldsIn env fun o => ∀ a ∈ o, Q a :=
  pure fun _ ha => by cases ha

/-- A value that is not left out has to have the property. -/
theorem pureSome {a : α} (h : Q a) :
    (Pure.pure (Option.some a) : Parser (Option α)).YieldsIn env fun o => ∀ a ∈ o, Q a := by
  refine pure fun b hb => ?_
  cases hb
  exact h

/-- What is read after a test may rely on how the test came out. -/
theorem choice {c : Prop} [Decidable c] (hp : c → p.YieldsIn env Q)
    (hq : ¬c → q.YieldsIn env Q) : (if c then p else q).YieldsIn env Q := by
  split
  · exact hp ‹_›
  · exact hq ‹_›

/-- Whichever side is chosen, what it reads has the property. -/
theorem ite {c : Prop} [Decidable c] (hp : p.YieldsIn env Q) (hq : q.YieldsIn env Q) :
    (if c then p else q).YieldsIn env Q :=
  choice (fun _ => hp) fun _ => hq

/-- Two ways to come to the same place. -/
theorem join {c : Prop} [Decidable c] {f : α → Parser β} (hp : p.YieldsIn env P)
    (hq : q.YieldsIn env P) (hf : ∀ a, P a → (f a).YieldsIn env R) :
    (if c then p >>= f else q >>= f).YieldsIn env R :=
  ite (bind hp hf) (bind hq hf)

/-! ## Failures -/

theorem throw (e : SyntaxError) : (MonadExcept.throw e : Parser α).YieldsIn env Q := by
  intro s a s' hrun
  cases hrun

/-- A parser that fails reads nothing, so anything may be said of what it reads. -/
theorem fail (place : Position) (cause : SyntaxCause) :
    (Parser.fail place cause : Parser α).YieldsIn env Q :=
  throw _

theorem unexpected : (Parser.unexpected : Parser α).YieldsIn env Q :=
  after fun _ => ite (fail _ _) (fail _ _)

/-- Of what is worked out without reading, only a success counts. -/
theorem ofExcept {x : Except SyntaxError α} (h : ∀ a, x = .ok a → Q a) :
    (ofExcept x : Parser α).YieldsIn env Q := by
  intro s a s' hrun
  cases x with
  | error e => cases hrun
  | ok a =>
    cases hrun
    exact h a rfl

/-! ## Surroundings -/

/-- The context is that of the surrounding which is spoken of. -/
theorem context {f : Context → Parser β} (hf : (f env.context).YieldsIn env R) :
    (Parser.context >>= f).YieldsIn env R := hf

/-- The surrounding is the one which is spoken of. -/
theorem read {f : Surrounding → Parser β} (hf : (f env).YieldsIn env R) :
    (MonadReader.read >>= f).YieldsIn env R := hf

/-- In a changed context the property is asked for there. -/
theorem withContext {change : Context → Context}
    (hp : p.YieldsIn { env with context := change env.context } Q) :
    (p.withContext change).YieldsIn env Q := hp

theorem allowIn (hp : p.YieldsIn { env with context := { env.context with noIn := false } } Q) :
    p.allowIn.YieldsIn env Q := hp

/-- A body is read in a context of its own, without the labels around it. -/
theorem inBody {context : Context}
    (hp : p.YieldsIn { env with context := context, labels := [] } Q) :
    (p.inBody context).YieldsIn env Q := hp

/-- A statement with a label is read with one more label around it. -/
theorem withLabel {name : String} (hp : p.YieldsIn { env with labels := name :: env.labels } Q) :
    (p.withLabel name).YieldsIn env Q := hp

/-! ## Repetitions -/

/-- A repetition whose steps keep the property `P` of what they go on with. -/
theorem iterate {step : α → Parser (α ⊕ β)}
    (hstep : ∀ a, P a → (step a).YieldsIn env (Sum.elim P R)) (budget : List Char) {a : α}
    (ha : P a) : (Parser.iterate step budget a).YieldsIn env R := by
  induction budget generalizing a with
  | nil => exact after fun _ => fail _ _
  | cons _ budget ih =>
    refine bind (hstep a ha) fun r hr => ?_
    cases r with
    | inl a' => exact ih hr
    | inr b => exact pure hr

/-- A property that holds at the start and is kept by each round, and what comes of it in the last.
-/
theorem repeatFrom {step : α → Parser (α ⊕ β)}
    (hstep : ∀ a, P a → (step a).YieldsIn env (Sum.elim P R)) {a : α} (ha : P a) :
    (Parser.repeatFrom a step).YieldsIn env R :=
  after fun _ => iterate hstep _ ha

/-- Each item of a list has the property of an item. -/
theorem collectUntil {stop : Parser Bool} (hp : p.YieldsIn env Q) :
    (Parser.collectUntil stop p).YieldsIn env fun items => ∀ a ∈ items, Q a := by
  refine repeatFrom (P := fun items => ∀ a ∈ items, Q a) (fun items h => after fun isEnd => ?_)
    (List.forall_mem_nil _)
  refine ite (pure fun a ha => h a (List.mem_reverse.1 ha)) (bind hp fun a ha => pure ?_)
  exact List.forall_mem_cons.2 ⟨ha, h⟩

theorem afterCommas (hp : p.YieldsIn env Q) :
    (Parser.afterCommas p).YieldsIn env fun items => ∀ a ∈ items, Q a :=
  collectUntil hp

/-- A comma adds nothing to an item. -/
theorem itemAndComma {close : Punctuator} (hp : p.YieldsIn env Q) :
    (Parser.itemAndComma close p).YieldsIn env Q :=
  bind hp fun _ h => after fun _ => ite (pure h) (after fun _ => pure h)

/-- Each of the items between commas has the property. -/
theorem commaSeparated {close : Punctuator} (hp : p.YieldsIn env Q) :
    (Parser.commaSeparated close p).YieldsIn env fun items => ∀ a ∈ items, Q a :=
  collectUntil hp.itemAndComma

/-- All of the items but the last are read as items, and the last one perhaps as a rest. -/
theorem itemsWithRest {close : Punctuator} {rest : Parser α} (hp : p.YieldsIn env P)
    (hrest : rest.YieldsIn env Q) (hPQ : ∀ a, P a → Q a) :
    (Parser.itemsWithRest close p rest).YieldsIn env fun items =>
      (∀ a ∈ items.dropLast, P a) ∧ ∀ a ∈ items, Q a := by
  refine repeatFrom (P := fun items => ∀ a ∈ items, P a) (fun items h => after fun isEnd => ?_)
    (List.forall_mem_nil _)
  have hreverse : ∀ a ∈ items.reverse, P a := fun a ha => h a (List.mem_reverse.1 ha)
  refine ite (pure ⟨?_, ?_⟩) (after fun isRest => ite ?_ ?_)
  · exact fun a ha => hreverse a ((List.dropLast_sublist _).subset ha)
  · exact fun a ha => hPQ a (hreverse a ha)
  · refine bind hrest fun last hlast => after fun _ => pure ?_
    rw [Sum.elim_inr, List.reverse_cons, List.dropLast_concat]
    refine ⟨hreverse, fun a ha => ?_⟩
    rcases List.mem_append.1 ha with ha | ha
    · exact hPQ a (hreverse a ha)
    · exact List.mem_singleton.1 ha ▸ hlast
  · exact bind hp fun a ha => pure (List.forall_mem_cons.2 ⟨ha, h⟩)

/-! ## Whole texts -/

/-- What is read of a whole text is read by the grammar of all levels, with nothing around it. -/
theorem of_parse {options : Options} {source : List Char} {program : Program}
    {Q : Program → Prop}
    (h : (Grammar.nest Grammar.maxNesting).program.YieldsIn options.surrounding Q)
    (hparse : parse options source = .ok program) : Q program := by
  obtain ⟨t, l, s', -, hrun⟩ := exists_run_of_parse hparse
  exact h _ _ _ hrun

end YieldsIn

/-- Whatever a parser reads in any surrounding has the property. -/
def Yields (p : Parser α) (Q : α → Prop) : Prop := ∀ env, p.YieldsIn env Q

namespace Yields

variable {p q : Parser α}

/-- Nothing is said where every value will do, in whatever surrounding. -/
theorem trivial (p : Parser α) : p.Yields fun _ => True := fun _ => .trivial p

/-- As `YieldsIn.mono`, in every surrounding. -/
theorem mono (h : p.Yields P) (hPQ : ∀ a, P a → Q a) : p.Yields Q := fun env => (h env).mono hPQ

theorem pure {a : α} (h : Q a) : (Pure.pure a : Parser α).Yields Q := fun _ => .pure h

/-- The second parser is told what the first has read. -/
theorem bind {f : α → Parser β} (hp : p.Yields P) (hf : ∀ a, P a → (f a).Yields R) :
    (p >>= f).Yields R :=
  fun env => (hp env).bind fun a ha => hf a ha env

/-- What the first parser reads may be anything. -/
theorem after {f : α → Parser β} (hf : ∀ a, (f a).Yields R) : (p >>= f).Yields R :=
  fun env => .after fun a => hf a env

/-- A value that is not left out has the property of what is read. -/
theorem some (hp : p.Yields Q) : (Option.some <$> p).Yields fun o => ∀ a ∈ o, Q a :=
  fun env => (hp env).some

theorem none : (Pure.pure Option.none : Parser (Option α)).Yields fun o => ∀ a ∈ o, Q a :=
  fun _ => .none

theorem pureSome {a : α} (h : Q a) :
    (Pure.pure (Option.some a) : Parser (Option α)).Yields fun o => ∀ a ∈ o, Q a :=
  fun _ => .pureSome h

theorem ite {c : Prop} [Decidable c] (hp : p.Yields Q) (hq : q.Yields Q) :
    (if c then p else q).Yields Q :=
  fun env => .ite (hp env) (hq env)

/-- Two ways to read the same thing, and what is made of it. -/
theorem join {c : Prop} [Decidable c] {f : α → Parser β} (hp : p.Yields P) (hq : q.Yields P)
    (hf : ∀ a, P a → (f a).Yields R) : (if c then p >>= f else q >>= f).Yields R :=
  fun env => .join (hp env) (hq env) fun a ha => hf a ha env

theorem fail (place : Position) (cause : SyntaxCause) :
    (Parser.fail place cause : Parser α).Yields Q :=
  fun _ => .fail place cause

theorem unexpected : (Parser.unexpected : Parser α).Yields Q := fun _ => .unexpected

theorem ofExcept {x : Except SyntaxError α} (h : ∀ a, x = .ok a → Q a) :
    (ofExcept x : Parser α).Yields Q :=
  fun _ => .ofExcept h

theorem withContext {change : Context → Context} (hp : p.Yields Q) :
    (p.withContext change).Yields Q :=
  fun _ => .withContext (hp _)

theorem allowIn (hp : p.Yields Q) : p.allowIn.Yields Q := hp.withContext

theorem inBody {context : Context} (hp : p.Yields Q) : (p.inBody context).Yields Q :=
  fun _ => .inBody (hp _)

theorem withLabel {name : String} (hp : p.Yields Q) : (p.withLabel name).Yields Q :=
  fun _ => .withLabel (hp _)

/-- As `YieldsIn.repeatFrom`, in every surrounding. -/
theorem repeatFrom {step : α → Parser (α ⊕ β)}
    (hstep : ∀ a, P a → (step a).Yields (Sum.elim P R)) {a : α} (ha : P a) :
    (Parser.repeatFrom a step).Yields R :=
  fun env => .repeatFrom (fun a ha => hstep a ha env) ha

/-- As `YieldsIn.collectUntil`, in every surrounding. -/
theorem collectUntil {stop : Parser Bool} (hp : p.Yields Q) :
    (Parser.collectUntil stop p).Yields fun items => ∀ a ∈ items, Q a :=
  fun env => (hp env).collectUntil

theorem afterCommas (hp : p.Yields Q) :
    (Parser.afterCommas p).Yields fun items => ∀ a ∈ items, Q a :=
  collectUntil hp

theorem itemAndComma {close : Punctuator} (hp : p.Yields Q) :
    (Parser.itemAndComma close p).Yields Q :=
  fun env => (hp env).itemAndComma

theorem commaSeparated {close : Punctuator} (hp : p.Yields Q) :
    (Parser.commaSeparated close p).Yields fun items => ∀ a ∈ items, Q a :=
  collectUntil hp.itemAndComma

/-- The items of a list have the one property, and its last item may have only the other. -/
theorem itemsWithRest {close : Punctuator} {rest : Parser α} (hp : p.Yields P)
    (hrest : rest.Yields Q) (hPQ : ∀ a, P a → Q a) :
    (Parser.itemsWithRest close p rest).Yields fun items =>
      (∀ a ∈ items.dropLast, P a) ∧ ∀ a ∈ items, Q a :=
  fun env => (hp env).itemsWithRest (hrest env) hPQ

end Yields

end WithScope.Parser
