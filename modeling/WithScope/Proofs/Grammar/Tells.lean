import WithScope.Proofs.Grammar.Moves

/-!
# What parsers yield from the states of a text

`p.Yields Q` lets a parser begin in any state at all, and so nothing that it says can depend on the
text. `p.Tells I Q` is the same for the states that an invariant `I` holds of: from any of them `p`
yields what `Q` holds of, and leaves another such state behind. If every move keeps the invariant
(`ParserState.Kept`), then so does every parser of which nothing is to be said, and the rules are
those of `Yields`.

* `Yields.tells`, `Tells.yields` — with no invariant it is the same;
* `Tells.bind` and the other rules, one for each way to put parsers together.
-/

namespace WithScope

/-- What holds of a state holds of it after every move. -/
class ParserState.Kept (I : ParserState → Prop) : Prop where
  move : ∀ {s s' : ParserState}, I s → s.Move s' → I s'

/-- What every move keeps is kept by any number of them. -/
theorem ParserState.Kept.reaches {I : ParserState → Prop} [hI : Kept I] {s s' : ParserState}
    (h : s.Reaches s') (hs : I s) : I s' := by
  induction h with
  | refl => exact hs
  | tail _ hmove ih => exact hI.move ih hmove

instance : ParserState.Kept fun _ => True := ⟨fun _ _ => trivial⟩

namespace Parser

variable {α β : Type} {I : ParserState → Prop} {P Q : α → Prop} {R : β → Prop}

/-- From a state that `I` holds of, a parser yields what `Q` holds of, and keeps `I`. -/
def Tells (I : ParserState → Prop) (p : Parser α) (Q : α → Prop) : Prop :=
  ∀ env s, I s → Leaves env s p fun a s' => I s' ∧ Q a

/-- What every run yields is told under any invariant. -/
theorem Yields.tells {p : Parser α} (h : p.Yields Q) : p.Tells (fun _ => True) Q :=
  fun _ _ _ => (Leaves.of_yields h).mono fun _ _ ha => ⟨True.intro, ha⟩

namespace Tells

variable {p q : Parser α}

/-- What is told under no invariant is yielded by every run. -/
theorem yields (h : p.Tells (fun _ => True) Q) : p.Yields Q :=
  Leaves.yields fun env s => (h env s True.intro).mono fun _ _ ha => ha.2

/-! ## Sequences and choices -/

/-- Nothing is said where every value will do. -/
theorem trivial (p : Parser α) [hp : p.Moves] [ParserState.Kept I] : p.Tells I fun _ => True :=
  fun env s hs => (hp.reaches env s).mono fun _ _ h => ⟨ParserState.Kept.reaches h hs, True.intro⟩

/-- What is told may be weakened. -/
theorem mono (h : p.Tells I P) (hPQ : ∀ a, P a → Q a) : p.Tells I Q :=
  fun env s hs => (h env s hs).mono fun a _ ⟨hs', ha⟩ => ⟨hs', hPQ a ha⟩

/-- A value that is given has what it has. -/
theorem pure {a : α} (h : Q a) : (Pure.pure a : Parser α).Tells I Q := fun _ _ hs => ⟨hs, h⟩

/-- What follows a parser may rely on what the parser yields. -/
theorem bind {f : α → Parser β} (hp : p.Tells I P) (hf : ∀ a, P a → (f a).Tells I R) :
    (p >>= f).Tells I R :=
  fun env s hs => .bind (hp env s hs) fun a s' ⟨hs', ha⟩ => hf a ha env s' hs'

/-- What follows a parser may have the property whatever the parser yields. -/
theorem after {f : α → Parser β} [p.Moves] [ParserState.Kept I] (hf : ∀ a, (f a).Tells I R) :
    (p >>= f).Tells I R :=
  bind (trivial p) fun a _ => hf a

/-- What is made of a value has what is asked of it. -/
theorem map {f : α → β} (hp : p.Tells I fun a => R (f a)) : (f <$> p).Tells I R :=
  bind hp fun _ h => pure h

/-- What may be left out has the property where it is not. -/
theorem some (hp : p.Tells I Q) : (Option.some <$> p).Tells I fun o => ∀ a ∈ o, Q a := by
  refine map (hp.mono fun a ha b hb => ?_)
  cases hb
  exact ha

/-- Nothing is asked of what is left out. -/
theorem none : (Pure.pure Option.none : Parser (Option α)).Tells I fun o => ∀ a ∈ o, Q a :=
  pure nofun

/-- What is there has what it has. -/
theorem pureSome {a : α} (h : Q a) :
    (Pure.pure (Option.some a) : Parser (Option α)).Tells I fun o => ∀ a ∈ o, Q a := by
  refine pure fun b hb => ?_
  cases hb
  exact h

/-- Both ways of a choice tell the same. -/
theorem ite {c : Prop} [Decidable c] (hp : p.Tells I Q) (hq : q.Tells I Q) :
    (if c then p else q).Tells I Q := by
  split
  · exact hp
  · exact hq

/-- Two ways to come to the same place. -/
theorem join {c : Prop} [Decidable c] {f : α → Parser β} (hp : p.Tells I P) (hq : q.Tells I P)
    (hf : ∀ a, P a → (f a).Tells I R) : (if c then p >>= f else q >>= f).Tells I R :=
  ite (bind hp hf) (bind hq hf)

/-! ## Failures -/

/-- A fault has no result to tell of. -/
theorem fail (place : Position) (cause : SyntaxCause) :
    (Parser.fail place cause : Parser α).Tells I Q :=
  fun _ _ _ => .fail place cause

/-- As `fail`, at the next token. -/
theorem unexpected : (Parser.unexpected : Parser α).Tells I Q := fun _ _ _ => .unexpected

/-- What a computation gives, if it gives something. -/
theorem ofExcept {x : Except SyntaxError α} (h : ∀ a, x = .ok a → Q a) :
    (ofExcept x : Parser α).Tells I Q := by
  cases x with
  | error e => exact fun _ _ _ => True.intro
  | ok a => exact pure (h a rfl)

/-! ## Surroundings -/

/-- In another context the same is told. -/
theorem withContext {change : Context → Context} (hp : p.Tells I Q) :
    (p.withContext change).Tells I Q :=
  fun _ s hs => hp _ s hs

/-- Where `in` is an operator again, the same is told. -/
theorem allowIn (hp : p.Tells I Q) : p.allowIn.Tells I Q := hp.withContext

/-- In a body the same is told. -/
theorem inBody {context : Context} (hp : p.Tells I Q) : (p.inBody context).Tells I Q :=
  fun _ s hs => hp _ s hs

/-- Under a label the same is told. -/
theorem withLabel {name : String} (hp : p.Tells I Q) : (p.withLabel name).Tells I Q :=
  fun _ s hs => hp _ s hs

/-! ## Repetitions -/

/-- A repetition whose steps keep the property `P` of what they go on with. -/
theorem repeatFrom {step : α → Parser (α ⊕ β)}
    (hstep : ∀ a, P a → (step a).Tells I (Sum.elim P R)) {a : α} (ha : P a) :
    (Parser.repeatFrom a step).Tells I R := by
  intro env s hs
  refine .repeatFrom (P := fun a s => I s ∧ P a) (fun a s ⟨hs, ha⟩ => ?_) ⟨hs, ha⟩
  refine (hstep a ha env s hs).mono fun r s' ⟨hs', hr⟩ => ?_
  cases r <;> exact ⟨hs', hr⟩

section Lists

variable [ParserState.Kept I]

/-- What is told of an item is told of each. -/
theorem collectUntil {stop : Parser Bool} [stop.Moves] (hp : p.Tells I Q) :
    (Parser.collectUntil stop p).Tells I fun items => ∀ a ∈ items, Q a := by
  refine repeatFrom (P := fun items => ∀ a ∈ items, Q a) (fun items h => after fun isEnd => ?_)
    (List.forall_mem_nil _)
  refine ite (pure fun a ha => h a (List.mem_reverse.1 ha)) (bind hp fun a ha => pure ?_)
  exact List.forall_mem_cons.2 ⟨ha, h⟩

/-- As `collectUntil`, after commas. -/
theorem afterCommas (hp : p.Tells I Q) :
    (Parser.afterCommas p).Tells I fun items => ∀ a ∈ items, Q a :=
  collectUntil hp

/-- The comma after an item tells nothing. -/
theorem itemAndComma {close : Punctuator} (hp : p.Tells I Q) :
    (Parser.itemAndComma close p).Tells I Q :=
  bind hp fun _ h => after fun _ => ite (pure h) (after fun _ => pure h)

/-- As `collectUntil`, in a list. -/
theorem commaSeparated {close : Punctuator} (hp : p.Tells I Q) :
    (Parser.commaSeparated close p).Tells I fun items => ∀ a ∈ items, Q a :=
  collectUntil hp.itemAndComma

/-- As `commaSeparated`, with a last item of another form. -/
theorem itemsWithRest {close : Punctuator} {rest : Parser α} (hp : p.Tells I Q)
    (hrest : rest.Tells I Q) :
    (Parser.itemsWithRest close p rest).Tells I fun items => ∀ a ∈ items, Q a := by
  refine repeatFrom (P := fun items => ∀ a ∈ items, Q a) (fun items h => after fun isEnd => ?_)
    (List.forall_mem_nil _)
  have hreverse {items : List α} (h : ∀ a ∈ items, Q a) : ∀ a ∈ items.reverse, Q a :=
    fun a ha => h a (List.mem_reverse.1 ha)
  refine ite (pure (hreverse h)) (after fun isRest => ite ?_ ?_)
  · exact bind hrest fun last hlast => after fun _ =>
      pure (hreverse (List.forall_mem_cons.2 ⟨hlast, h⟩))
  · exact bind hp fun a ha => pure (List.forall_mem_cons.2 ⟨ha, h⟩)

end Lists

end Tells

end Parser

end WithScope
