import WithScope.Proofs.Grammar.Follows
import WithScope.Proofs.Grammar.NameStatement
import WithScope.Proofs.Grammar.TightSteps

/-!
# Parsers in step up to the end of a stretch

Where an expression ends, its parser looks at the token after it, and that token is another one
after the copy: a closing parenthesis. It does not go on with an expression. A parser that goes on
after the stretch has left it, so nothing is asked of the second parser then; and if the first one
stops there, so does the second.

* `Stretch.Follows.before` — what is in brackets does not see the end of the stretch;
* `Stretch.Follows.ifKind_near`, `eaten_near`, `kind_near` — decisions on a token that may be the
  one after the stretch.
-/

namespace WithScope

namespace Parser

variable {α β γ : Type} {env : Surrounding} {s : ParserState}

/-! ## Lists and what closes them -/

/-- What comes before a punctuator, and past that. -/
def closedBy (close : Punctuator) (p : Parser α) : Parser α := do
  let a ← p
  expectMark close
  return a

/-- What a parser that has succeeded says of the state in which it began. -/
theorem Leaves.of_bind {P : Prop} {p : Parser α} {f : α → Parser β} {r : β × ParserState}
    (hp : Leaves env s p fun _ _ => P) (h : (p >>= f) env s = .ok r) : P := by
  obtain ⟨x, hx, -⟩ := exists_of_bind_eq_ok
    (show (p env s >>= fun x => f x.1 env x.2) = .ok r from h)
  exact hp.of_run hx

theorem kind_of_expectKind {k : TokenKind} {f : Token → Parser α} {r : α × ParserState}
    (h : (expectKind k >>= f) env s = .ok r) : s.token.kind = k :=
  ((leaves_expectKind k).mono fun _ _ h => h.2.1).of_bind h

theorem kind_of_expectMark {mark : Punctuator} {f : Unit → Parser α} {r : α × ParserState}
    (h : (expectMark mark >>= f) env s = .ok r) : s.token.kind = .punctuator mark :=
  ((leaves_expectMark mark).mono fun _ _ h => h.1).of_bind h

/-- Where the punctuator is, nothing is missing. -/
theorem run_expectMark {mark : Punctuator} (h : s.token.kind = .punctuator mark) :
    expectMark mark env s = (discard bump : Parser Unit) env s := by
  show (discard (if decide (s.token.kind = .punctuator mark) = true then bump else unexpected) :
    Parser Unit) env s = _
  rw [if_pos (decide_eq_true h)]

theorem run_atKind_of_ne {k : TokenKind} {p q : Parser α} (h : s.token.kind ≠ k) :
    (atKind k >>= fun b => if b = true then p else q) env s = q env s := by
  show (if decide (s.token.kind = k) = true then p else q) env s = _
  rw [if_neg (by simpa using h)]

theorem run_atKind_of_eq {k : TokenKind} {p q : Parser α} (h : s.token.kind = k) :
    (atKind k >>= fun b => if b = true then p else q) env s = p env s := by
  show (if decide (s.token.kind = k) = true then p else q) env s = _
  rw [if_pos (decide_eq_true h)]

/-- A list goes on up to a token of the kind that it asks for. -/
theorem leaves_collectUntil (k : TokenKind) (item : Parser α) :
    Leaves env s (collectUntil (atKind k) item) fun _ s' => s'.token.kind = k := by
  refine .repeatFrom (P := fun _ _ => True) (fun items s _ => ?_) trivial
  refine .look (leaves_atKind k) fun b hk => .ite (fun hb => .pure (hk.1 hb)) fun _ => ?_
  exact .after fun _ _ => .pure trivial

/-- Further items, as rounds that begin with a comma. -/
theorem afterCommas_eq (item : Parser α) : afterCommas item = repeatFrom [] fun items => do
    if ← eatMark .comma then return .inl ((← item) :: items)
    else return .inr items.reverse := by
  refine congrArg (repeatFrom []) (funext fun items => ?_)
  rw [bind_assoc]
  refine congrArg (_ >>= ·) (funext fun b => ?_)
  cases b <;> simp

/-- A repetition and what comes after its last round. -/
theorem iterate_bind (step : α → Parser (α ⊕ β)) (f : β → Parser γ) (budget : List Char) (a : α) :
    iterate step budget a >>= f =
      iterate (fun a => step a >>= Sum.elim (pure ∘ .inl) fun b => .inr <$> f b) budget a := by
  induction budget generalizing a with
  | nil => rfl
  | cons _ budget ih =>
    rw [iterate, iterate, bind_assoc, bind_assoc]
    refine congrArg (step a >>= ·) (funext fun r => ?_)
    cases r with
    | inl a' => simpa using ih a'
    | inr b => simp

theorem repeatFrom_bind (a : α) (step : α → Parser (α ⊕ β)) (f : β → Parser γ) :
    repeatFrom a step >>= f =
      repeatFrom a fun a => step a >>= Sum.elim (pure ∘ .inl) fun b => .inr <$> f b := by
  rw [repeatFrom, bind_assoc]
  exact congrArg (get >>= ·) (funext fun s => iterate_bind step f _ a)

/-- The last round may leave the closing punctuator to what comes after. -/
theorem repeatFrom_eatMark (close : Punctuator) (last : α → β) (next : α → Parser α) (a : α) :
    (repeatFrom a fun a => do
      if ← eatMark close then return .inr (last a) else return .inl (← next a)) =
    closedBy close (repeatFrom a fun a => do
      if ← atMark close then return .inr (last a) else return .inl (← next a)) := by
  rw [closedBy, repeatFrom_bind]
  refine congrArg (repeatFrom a) (funext fun a => ?_)
  rw [eatMark, eatKind_ite, atMark, bind_assoc]
  funext env s
  show (if decide (s.token.kind = .punctuator close) = true then _ else _ : Parser (α ⊕ β)) env s =
    ((if decide (s.token.kind = .punctuator close) = true then _ else _ : Parser (α ⊕ β)) >>= _)
      env s
  split
  · next h =>
    have hrun : (expectMark close >>= fun _ => pure (.inr (last a)) : Parser (α ⊕ β)) env s =
        (discard bump >>= fun _ => pure (.inr (last a)) : Parser (α ⊕ β)) env s := by
      show (expectMark close env s >>= _) = ((discard bump : Parser Unit) env s >>= _)
      rw [run_expectMark (of_decide_eq_true h)]
    simpa using hrun.symm
  · simp

theorem collectUntil_eatMark (close : Punctuator) (item : Parser α) :
    collectUntil (eatMark close) item = closedBy close (collectUntil (atMark close) item) := by
  have h := repeatFrom_eatMark close List.reverse (fun items => (· :: items) <$> item) []
  simp only [bind_map_left] at h
  exact h

end Parser

namespace Stretch

open WithScope.Parser (Outcome closedBy)

variable {Ψ : Stretch} {d : Int} {R R' : ParserState → ParserState → Prop} {taken : Bool}
  {env : Surrounding} {s₁ s₂ : ParserState}

/-- What is not true of the current token is not true of the one before the second parser, if it is
not true of a closing parenthesis either. -/
theorem Near.kind_of (h : Ψ.Near s₁ s₂) {P : TokenKind → Prop} (hparen : P (.punctuator .rightParen))
    (hk : P s₁.token.kind) : P s₂.token.kind := by
  rcases h with hsame | hborder
  · rwa [hsame.abreast.kind]
  · rwa [hborder.kind.1]

namespace Follows

variable {α β : Type} [Relocatable α] [Relocatable β] {p q p' q' : Parser α}
  {f f' : α → Parser β}

/-! ## Brackets -/

/-- What stands before a token that the parser cannot look beyond, in front of what passes it. -/
theorem before (hR : R s₁ s₂ → Ψ.Inside s₁ → R' s₁ s₂)
    (hp : Ψ.Follows .clear R' false env s₁ s₂ p q)
    (hf : ∀ a m₁ m₂, p env s₁ = .ok (a, m₁) →
      Ψ.Follows .within Ψ.Abreast true env m₁ m₂ (f a) (f' (Ψ.moved a)))
    (hkind : ∀ a m₁ r, p env s₁ = .ok (a, m₁) → f a env m₁ = .ok r →
      m₁.token.kind.peeks = false) :
    Ψ.Follows .within R taken env s₁ s₂ (p >>= f) (q >>= f') := by
  intro hs c s₁' hrun
  replace hrun : (p env s₁ >>= fun x => f x.1 env x.2) = .ok (c, s₁') := hrun
  obtain ⟨⟨a, m₁⟩, hpa, hfa⟩ := exists_of_bind_eq_ok hrun
  obtain ⟨htrail, hq⟩ := hp hs a m₁ hpa
  have hm := hs.path htrail.path
  have htrail' := (hf a m₁ s₂ hpa hm c s₁' hfa).1
  refine ⟨(htrail.trans htrail').mono fun _ => rfl, fun hR' hw => ?_⟩
  have hin : Ψ.Inside m₁ := hw.inside hm (htrail'.passed rfl)
  have hclear : Ψ.Clear m₁ := ⟨hin, by simp [hkind a m₁ _ hpa hfa]⟩
  refine Outcome.bind (hq (hR hR' (hin.of_path hs htrail.path)) hclear) ?_
  rintro b m₂ ⟨rfl, hsame, hopened⟩
  refine ((hf a m₁ m₂ hpa hm c s₁' hfa).2 hsame.abreast hw).mono fun d s₂' h => ?_
  exact ⟨h.1, h.2.1, by rw [h.2.2, hopened, Int.add_zero]⟩

/-- What is closed by a punctuator. -/
theorem closedBy {close : Punctuator} (hR : R s₁ s₂ → Ψ.Inside s₁ → R' s₁ s₂)
    (hp : Ψ.Follows .clear R' false env s₁ s₂ p q) :
    Ψ.Follows .within R taken env s₁ s₂ (Parser.closedBy close p) (Parser.closedBy close q) :=
  before hR hp (fun _ _ _ _ => take (expectMark close) fun _ _ _ => done rfl)
    fun _ _ _ _ hrun => by rw [Parser.kind_of_expectMark hrun]; rfl

/-- Items up to what closes them. -/
theorem collectClosed {close : Punctuator}
    (hp : ∀ s₁ s₂, Ψ.Follows .clear Ψ.Same false env s₁ s₂ p q) :
    Ψ.Follows .within Ψ.Near taken env s₁ s₂ (Parser.collectUntil (Parser.eatMark close) p)
      (Parser.collectUntil (Parser.eatMark close) q) := by
  rw [Parser.collectUntil_eatMark, Parser.collectUntil_eatMark]
  exact closedBy Near.same (collectUntil (fun _ _ => atMark close) hp)

theorem commaSeparated {close : Punctuator}
    (hp : ∀ s₁ s₂, Ψ.Follows .clear Ψ.Same false env s₁ s₂ p q) :
    Ψ.Follows .within Ψ.Near taken env s₁ s₂ (Parser.commaSeparated close p)
      (Parser.commaSeparated close q) :=
  collectClosed fun s₁ s₂ => itemAndComma (hp s₁ s₂)

/-! ## Decisions -/

/-- One of two parsers, of which only the first passes the current token. -/
theorem ifKind_near {k : TokenKind} (hk : k ≠ .punctuator .rightParen)
    (hyes : s₁.token.kind = k → Ψ.Follows .within Ψ.Abreast true env s₁ s₂ p q)
    (hno : Ψ.Follows .within Ψ.Near taken env s₁ s₂ p' q') :
    Ψ.Follows .within Ψ.Near taken env s₁ s₂
      (Parser.atKind k >>= fun b => if b = true then p else p')
      (Parser.atKind k >>= fun b => if b = true then q else q') := by
  by_cases h : s₁.token.kind = k
  · exact near (ifKind hyes fun hne => absurd h hne)
  · refine of_run (Parser.run_atKind_of_ne h) (fun hnear => ?_) hno
    exact Parser.run_atKind_of_ne (hnear.kind_of (P := (· ≠ k)) hk.symm h)

/-- One way after a token that has been there, and another way if it has not. -/
theorem eaten_near {k : TokenKind} (hplain : k.isPlain) (hk : k ≠ .punctuator .rightParen)
    (hyes : ∀ s₁' s₂', Ψ.Follows .within Ψ.Near false env s₁' s₂' p q)
    (hno : Ψ.Follows .within Ψ.Near taken env s₁ s₂ p' q') :
    Ψ.Follows .within Ψ.Near taken env s₁ s₂
      (Parser.eatKind k >>= fun b => if b = true then p else p')
      (Parser.eatKind k >>= fun b => if b = true then q else q') := by
  rw [Parser.eatKind_ite, Parser.eatKind_ite]
  exact ifKind_near hk (fun h => take (skip (h ▸ hplain)) fun _ => hyes) hno

/-- Past a token, if it is there. -/
theorem eatKind_near {k : TokenKind} (hplain : k.isPlain) (hk : k ≠ .punctuator .rightParen) :
    Ψ.Follows .within Ψ.Near false env s₁ s₂ (Parser.eatKind k) (Parser.eatKind k) :=
  ifKind_near hk (fun h => take (skip (h ▸ hplain)) fun _ _ _ => done rfl) (done rfl)

/-- What is done about the current token, which is passed unless `stays` holds of it. -/
theorem token_near {f g : Token → Parser α} (stays : Token → Prop)
    (hmoved : ∀ t, stays (Ψ.moved t) ↔ stays t)
    (hparen : ∀ t, t.kind = .punctuator .rightParen → stays t) (hp : ∀ t, stays t → f t = p)
    (hq : ∀ t, stays t → g t = q)
    (hpass : ¬ stays s₁.token →
      Ψ.FollowsBy d .within Ψ.Abreast true env s₁ s₂ (f s₁.token) (g (Ψ.moved s₁.token)))
    (hstay : Ψ.FollowsBy d .within Ψ.Near taken env s₁ s₂ p q) :
    Ψ.FollowsBy d .within Ψ.Near taken env s₁ s₂ (Parser.token >>= f) (Parser.token >>= g) := by
  by_cases h : stays s₁.token
  · refine of_run (congrArg (· env s₁) (hp _ h)) (fun hnear => congrArg (· env s₂) (hq _ ?_)) hstay
    rcases hnear with hsame | hborder
    · rw [hsame.abreast.token]
      exact (hmoved _).2 h
    · exact hparen _ hborder.kind.1
  · refine near (of_run rfl (fun habreast => ?_) (hpass h))
    show g s₂.token env s₂ = _
    rw [habreast.token]

/-- One of two parsers, as the current token passes a test that a parenthesis does not pass. -/
theorem test_near {test : Token → Bool} (hmoved : ∀ t, test (Ψ.moved t) = test t)
    (hparen : ∀ t, t.kind = .punctuator .rightParen → test t = false)
    (hyes : test s₁.token = true → Ψ.FollowsBy d .within Ψ.Abreast true env s₁ s₂ p q)
    (hno : Ψ.FollowsBy d .within Ψ.Near taken env s₁ s₂ p' q') :
    Ψ.FollowsBy d .within Ψ.Near taken env s₁ s₂
      (Parser.token >>= fun t => if test t = true then p else p')
      (Parser.token >>= fun t => if test t = true then q else q') := by
  refine token_near (fun t => test t ≠ true) (fun t => by rw [hmoved])
    (fun t ht => by simp [hparen t ht]) (fun t ht => if_neg ht) (fun t ht => if_neg ht)
    (fun h => ?_) hno
  have htest := not_ne_iff.1 h
  rw [if_pos htest, if_pos ((hmoved _).trans htest)]
  exact hyes htest

/-- Where an arrow may stand, it belongs to the stretch if there is one. -/
theorem arrow_near (hyes : Ψ.Follows .within Ψ.Abreast true env s₁ s₂ p q)
    (hno : Ψ.Follows .within Ψ.Near taken env s₁ s₂ p' q') :
    Ψ.Follows .within Ψ.Near taken env s₁ s₂
      (Grammar.atArrow >>= fun b => if b = true then p else p')
      (Grammar.atArrow >>= fun b => if b = true then q else q') := by
  have hatArrow (p p' : Parser α) : (Grammar.atArrow >>= fun b => if b = true then p else p') =
      (Parser.token >>= fun t =>
        if (decide (t.kind = .punctuator .arrow) && !t.newlineBefore) = true then p else p') := by
    funext env s
    show ((if decide (s.token.kind = .punctuator .arrow) = true then
        (do return !(← Parser.afterNewline)) else Pure.pure false) >>=
      fun b => if b = true then p else p' : Parser α) env s =
      (if (decide (s.token.kind = .punctuator .arrow) && !s.token.newlineBefore) = true then p
        else p') env s
    cases decide (s.token.kind = .punctuator .arrow) <;> rfl
  rw [hatArrow, hatArrow]
  refine test_near (fun _ => rfl) (fun t ht => ?_) (fun _ => hyes) hno
  rw [ht]
  rfl

/-- What is done about the current token, which is passed unless `stays` holds of its kind. -/
theorem kind_near {f f' : TokenKind → Parser α} (stays : TokenKind → Prop)
    (hparen : stays (.punctuator .rightParen)) (hp : ∀ k, stays k → f k = p)
    (hq : ∀ k, stays k → f' k = q)
    (hpass : ¬ stays s₁.token.kind →
      Ψ.FollowsBy d .within Ψ.Abreast true env s₁ s₂ (f s₁.token.kind) (f' s₁.token.kind))
    (hstay : Ψ.FollowsBy d .within Ψ.Near taken env s₁ s₂ p q) :
    Ψ.FollowsBy d .within Ψ.Near taken env s₁ s₂ (Parser.kind >>= f) (Parser.kind >>= f') :=
  token_near (f := fun t => f t.kind) (g := fun t => f' t.kind) (fun t => stays t.kind)
    (fun _ => Iff.rfl) (fun _ ht => ht ▸ hparen) (fun t => hp t.kind) (fun t => hq t.kind) hpass hstay

/-- Further items up to the end of the stretch. The first one is there. -/
theorem afterCommas_near (hk : s₁.token.kind = .punctuator .comma)
    (hp : ∀ s₁ s₂, Ψ.Follows .within Ψ.Near false env s₁ s₂ p q) :
    Ψ.Follows .within Ψ.Abreast true env s₁ s₂ (Parser.afterCommas p) (Parser.afterCommas q) := by
  rw [Parser.afterCommas_eq, Parser.afterCommas_eq]
  have hitem (items : List α) (s₁ s₂ : ParserState) : Ψ.Follows .within Ψ.Near false env s₁ s₂
      (do return .inl ((← p) :: items) : Parser (List α ⊕ List α))
      (do return .inl ((← q) :: Ψ.moved items)) :=
    pass (hp s₁ s₂) fun _ _ _ => done rfl
  refine repeatFrom_first rfl (eaten rfl (hitem []) fun hne => absurd hk hne) fun items s₁ s₂ => ?_
  exact eaten_near rfl nofun (hitem items) (done (congrArg Sum.inr List.map_reverse.symm))

/-! ## Looking ahead -/

omit [Relocatable α] in
/-- What passes a token and then others passes those after the next one. -/
theorem passed_beyond {p : Parser α} {f f' : α → Parser β} {s m s' : ParserState} {b : β}
    (hs : s.Steady Ψ.source) (hpast : s.Past m) (hp : Parser.Leaves env s p fun _ s' => s.Past s')
    (hf : ∀ a, Ψ.Follows .within Ψ.Near true env m m (f a) (f' a))
    (hrun : (p >>= f) env s = .ok (b, s')) : Relation.TransGen ParserState.Pass m s' := by
  obtain ⟨⟨a, m'⟩, hpa, hfa⟩ := exists_of_bind_eq_ok
    (show (p env s >>= fun x => f x.1 env x.2) = .ok (b, s') from hrun)
  obtain rfl := hpast.unique (hp.of_run hpa)
  exact ((hf a (hs.past hpast) b s' hfa).1).passed rfl

/-- A token that the parser looks at and passes later belongs to the stretch. -/
theorem peek_beyond [Ψ.Level R] {f f' : Token → Parser β}
    (hf : ∀ m, s₁.Past m →
      Ψ.Follows .within R taken env s₁ s₂ (f m.token) (f' (Ψ.moved m.token)))
    (hpassed : ∀ m b s₁', s₁.Steady Ψ.source → s₁.Past m → f m.token env s₁ = .ok (b, s₁') →
      Relation.TransGen ParserState.Pass m s₁') :
    Ψ.Follows .within R taken env s₁ s₂ (Parser.peek >>= f) (Parser.peek >>= f') := by
  intro hs b s₁' hrun
  obtain ⟨⟨t, m⟩, hpeek, hft⟩ := exists_of_bind_eq_ok
    (show (Parser.peek env s₁ >>= fun x => f x.1 env x.2) = .ok (b, s₁') from hrun)
  obtain ⟨rfl, hnext⟩ := Parser.leaves_peek.of_run hpeek
  have hpast : m.Past ⟨m.lexer.next.2, t, m.token.span.stop⟩ := ⟨_, _, Prod.ext hnext rfl, rfl⟩
  obtain ⟨htrail, hq⟩ := hf _ hpast hs b s₁' hft
  refine ⟨htrail, fun hR hw => ?_⟩
  have hin := Within.inside hw (hs.past hpast) (hpassed _ b s₁' hs hpast hft)
  obtain ⟨s₂', hpast₂, hsame⟩ := (abreast_of Ψ hR).past_inside hpast hin
  have hrun₂ : (Parser.peek >>= f') env s₂ = f' (Ψ.moved t) env s₂ := by
    rw [Parser.run_bind (Parser.run_peek hpast₂), hsame.abreast.token]
  unfold Outcome
  rw [hrun₂]
  exact hq hR hw

end Follows

end Stretch

end WithScope
