import WithScope.Proofs.Grammar.Stretch
import WithScope.Proofs.Tree.Reread

/-!
# Parsers in step

Two parsers go through a stretch of a text and through its copy. The second one follows the first
(`Stretch.Follows`) if it comes to the same result, at the places of the copy, as long as the first
one does not leave the stretch: it does so whenever it is not stopped by a limit of its own, on
nesting or on the rounds of a repetition. It is also part of `Follows` how the first one moves, since
that decides where it can have been.

How much of the text around the stretch matters is a matter of the `Zone`. Inside of brackets, what
is read never depends on what follows the stretch; at the end of an expression it does, and there the
copy is followed by a closing parenthesis. There is a rule for each way to put parsers together.
-/

namespace WithScope

/-- A fault that shows a limit of the parser and nothing in the text. -/
def SyntaxError.Scarce (e : SyntaxError) : Prop :=
  e.cause = .nestingTooDeep ∨ e.cause = .budgetSpent

/-- A token that opens and closes no substitution, and is not the end of the text. -/
def TokenKind.isPlain : TokenKind → Bool
  | .templateHead | .templateTail | .eof => false
  | _ => true

/-- The end of a text is not plain. -/
theorem TokenKind.ne_eof_of_isPlain {k : TokenKind} (h : k.isPlain) : k ≠ .eof := by
  rintro rfl
  cases h

/-- A plain token opens no template. -/
theorem TokenKind.opened_of_isPlain {k : TokenKind} (h : k.isPlain) : k.opened = 0 := by
  cases k <;> first | rfl | cases h

theorem Token.kind_of_isIdentifier {t : Token} {name : String} (h : t.isIdentifier name = true) :
    t.kind = .identifier :=
  eq_of_beq (Bool.and_eq_true_iff.1 h).1

namespace Parser

variable {env : Surrounding} {s s' : ParserState}

/-- Where there is a next token, moving gives the current one. -/
theorem run_bump (h : s.Past s') : bump env s = .ok (s.token, s') := by
  obtain ⟨t, l, hnext, rfl⟩ := h
  rw [bump_eq, hnext]
  rfl

/-- Where a slash can be read again, it is. -/
theorem run_rescan (h : s.Reread s') : rescan env s = .ok ((), s') := by
  obtain ⟨t, l, hrescan, rfl⟩ := h
  rw [rescan_eq, hrescan]
  rfl

/-- Looking ahead gives the next token and leaves the state. -/
theorem run_peek (h : s.Past s') : peek env s = .ok (s'.token, s) := by
  obtain ⟨t, l, hnext, rfl⟩ := h
  rw [peek_eq, hnext]
  rfl

end Parser

namespace Stretch

/-- Where the first of two parsers may leave off. -/
inductive Zone
  /-- inside of the stretch, with what it may look at -/
  | clear
  /-- inside of the stretch or right after it -/
  | within

variable (Ψ : Stretch)

/-- The states in a zone. -/
def zone : Zone → ParserState → Prop
  | .clear => Ψ.Clear
  | .within => Ψ.Within

/-- How two parsers are to each other that have passed a token. -/
def after : Zone → ParserState → ParserState → Prop
  | .clear => Ψ.Same
  | .within => Ψ.Near

/-- The second parser follows the first, if they begin in states that `R` relates. The first one
leaves `d` more substitutions open than it has found. -/
def FollowsBy (d : Int) (z : Zone) (R : ParserState → ParserState → Prop) (taken : Bool) {α : Type}
    [Relocatable α] (env : Surrounding) (s₁ s₂ : ParserState) (p q : Parser α) : Prop :=
  s₁.Steady Ψ.source → ∀ a s₁', p env s₁ = .ok (a, s₁') → s₁.Trail taken s₁' ∧
    (R s₁ s₂ → Ψ.zone z s₁' → Parser.Outcome SyntaxError.Scarce env s₂ q fun b s₂' =>
      b = Ψ.moved a ∧ Ψ.after z s₁' s₂' ∧ s₁'.opened = s₁.opened + d)

/-- The second parser follows the first, which closes the substitutions that it opens. -/
abbrev Follows (z : Zone) (R : ParserState → ParserState → Prop) (taken : Bool) {α : Type}
    [Relocatable α] (env : Surrounding) (s₁ s₂ : ParserState) (p q : Parser α) : Prop :=
  Ψ.FollowsBy 0 z R taken env s₁ s₂ p q

/-- A relation between parsers that are abreast. -/
class Level (R : ParserState → ParserState → Prop) : Prop where
  /-- the parsers are abreast -/
  abreast : ∀ {s₁ s₂}, R s₁ s₂ → Ψ.Abreast s₁ s₂

instance : Ψ.Level Ψ.Abreast := ⟨id⟩

instance : Ψ.Level Ψ.Same := ⟨Same.abreast⟩

/-- A relation between parsers whose last tokens end at matching places. -/
class Firm (R : ParserState → ParserState → Prop) : Prop where
  /-- the last tokens end at matching places -/
  lastEnd : ∀ {s₁ s₂}, R s₁ s₂ → s₂.lastEnd = Ψ.places.shift s₁.lastEnd

instance : Ψ.Firm Ψ.Same := ⟨Same.lastEnd⟩

instance : Ψ.Firm Ψ.Near := ⟨Near.lastEnd⟩

instance : Ψ.Level (Ψ.after .clear) := ⟨Same.abreast⟩

instance (z : Zone) : Ψ.Firm (Ψ.after z) := by
  cases z with
  | clear => exact ⟨Same.lastEnd⟩
  | within => exact ⟨Near.lastEnd⟩

variable {Ψ} {d : Int} {z : Zone} {R : ParserState → ParserState → Prop} {taken : Bool}
  {env : Surrounding} {s₁ s₂ s₁' : ParserState}

variable (Ψ) in
/-- States that are level stand at the same character. -/
theorem abreast_of [Ψ.Level R] (h : R s₁ s₂) : Ψ.Abreast s₁ s₂ := Level.abreast h

variable (Ψ) in
/-- In states that are firm the last tokens end at the same character. -/
theorem lastEnd_of [Ψ.Firm R] (h : R s₁ s₂) : s₂.lastEnd = Ψ.places.shift s₁.lastEnd :=
  Firm.lastEnd h

/-- What is asked of the end of a path holds all along. -/
theorem zone_of_path (hz : Ψ.zone z s₁') (h : s₁.Steady Ψ.source)
    (hpath : Relation.ReflTransGen ParserState.Pass s₁ s₁') : Ψ.zone z s₁ := by
  cases z with
  | clear => exact Clear.of_path hz h hpath
  | within => exact Within.of_path hz h hpath

/-- A token of the stretch has its copy, and after both the states are level again. -/
theorem Abreast.past_zone (h : Ψ.Abreast s₁ s₂) (hpast : s₁.Past s₁') (hz : Ψ.zone z s₁') :
    ∃ s₂', s₂.Past s₂' ∧ Ψ.after z s₁' s₂' := by
  cases z with
  | clear => exact h.past_inside hpast hz.1
  | within => exact h.past hpast hz

namespace Follows

open WithScope.Parser (Outcome)

variable {α β : Type} [Relocatable α] [Relocatable β] {p q p' q' : Parser α}
  {f f' : α → Parser β}

/-! ## From other relations -/

/-- A parser that stops at a limit follows any other. -/
theorem scarce (h : Ψ.FollowsBy d z R taken env s₁ s₂ p q)
    (hq' : Outcome SyntaxError.Scarce env s₂ q' fun _ _ => False) :
    Ψ.FollowsBy d z R taken env s₁ s₂ p q' :=
  fun hs a s₁' hrun => ⟨(h hs a s₁' hrun).1, fun _ _ => hq'.mono fun _ _ h => h.elim⟩

/-- Less may be asked of where the parsers begin, and of what they take. -/
theorem weaken {R' : ParserState → ParserState → Prop} (h : Ψ.FollowsBy d z R' taken env s₁ s₂ p q)
    (hR : R s₁ s₂ → R' s₁ s₂) {less : Bool} (hless : less = true → taken = true) :
    Ψ.FollowsBy d z R less env s₁ s₂ p q := by
  intro hs a s₁' hrun
  obtain ⟨htrail, h⟩ := h hs a s₁' hrun
  exact ⟨htrail.mono hless, fun hR' => h (hR hR')⟩

/-- A parser that is known to take a token may be one of which this is not asked. -/
theorem any (h : Ψ.FollowsBy d z R true env s₁ s₂ p q) : Ψ.FollowsBy d z R taken env s₁ s₂ p q :=
  weaken h id fun _ => rfl

/-- A parser that passes a token of the stretch begins in it. -/
theorem near (h : Ψ.FollowsBy d .within Ψ.Abreast true env s₁ s₂ p q) :
    Ψ.FollowsBy d .within Ψ.Near taken env s₁ s₂ p q := by
  intro hs a s₁' hrun
  obtain ⟨htrail, h⟩ := h hs a s₁' hrun
  refine ⟨htrail.mono fun _ => rfl, fun hnear hw => ?_⟩
  exact h (hnear.same (Within.inside hw hs (htrail.passed rfl))).abreast hw

/-- What is true right up to the end of the stretch is true inside of it. -/
theorem clear {R' : ParserState → ParserState → Prop}
    (h : Ψ.Follows .within R' taken env s₁ s₂ p q) (hR : R s₁ s₂ → R' s₁ s₂) :
    Ψ.Follows .clear R taken env s₁ s₂ p q := by
  intro hs a s₁' hrun
  obtain ⟨htrail, h⟩ := h hs a s₁' hrun
  refine ⟨htrail, fun hR' hclear => (h (hR hR') (.inl hclear.1)).mono fun b s₂' h => ?_⟩
  exact ⟨h.1, Near.same h.2.1 hclear.1, h.2.2⟩

/-! ## Sequences and choices -/

/-- A value and its copy are given without reading. -/
theorem pure {a b : α} (h : b = Ψ.moved a) (hR : R s₁ s₂ → Ψ.after z s₁ s₂) :
    Ψ.Follows z R false env s₁ s₂ (Pure.pure a) (Pure.pure b) := by
  intro _ _ _ hrun
  cases hrun
  exact ⟨.refl _, fun hR' _ => ⟨h, hR hR', (Int.add_zero _).symm⟩⟩

/-- A result at the places of the copy. -/
theorem done {a b : α} (h : b = Ψ.moved a) :
    Ψ.Follows z (Ψ.after z) false env s₁ s₂ (Pure.pure a) (Pure.pure b) := pure h id

/-- One parser after another, of which the second one may depend on how the first one went. -/
theorem bind_by {t u : Bool} {d' e : Int} (he : d + d' = e)
    (hp : Ψ.FollowsBy d z R t env s₁ s₂ p q)
    (hf : ∀ a s₁' s₂', p env s₁ = .ok (a, s₁') →
      Ψ.FollowsBy d' z (Ψ.after z) u env s₁' s₂' (f a) (f' (Ψ.moved a))) :
    Ψ.FollowsBy e z R (t || u) env s₁ s₂ (p >>= f) (q >>= f') := by
  intro hs c s₁' hrun
  replace hrun : (p env s₁ >>= fun x => f x.1 env x.2) = .ok (c, s₁') := hrun
  obtain ⟨⟨a, m₁⟩, hpa, hfa⟩ := exists_of_bind_eq_ok hrun
  obtain ⟨htrail, hq⟩ := hp hs a m₁ hpa
  have hm := hs.path htrail.path
  have htrail' := (hf a m₁ s₂ hpa hm c s₁' hfa).1
  refine ⟨htrail.trans htrail', fun hR hz => ?_⟩
  refine Outcome.bind (hq hR (zone_of_path hz hm htrail'.path)) ?_
  rintro b m₂ ⟨rfl, hafter, hopened⟩
  refine ((hf a m₁ m₂ hpa hm c s₁' hfa).2 hafter hz).mono fun b s₂' ⟨hb, hafter', hopened'⟩ => ?_
  exact ⟨hb, hafter', by rw [hopened', hopened, Int.add_assoc, he]⟩

/-- The second pair begins where the first has come to, with a value and its copy. -/
theorem bind {t u : Bool} (hp : Ψ.Follows z R t env s₁ s₂ p q)
    (hf : ∀ a s₁' s₂', Ψ.Follows z (Ψ.after z) u env s₁' s₂' (f a) (f' (Ψ.moved a))) :
    Ψ.Follows z R (t || u) env s₁ s₂ (p >>= f) (q >>= f') :=
  bind_by rfl hp fun a s₁' s₂' _ => hf a s₁' s₂'

/-- What comes first passes a token. -/
theorem take (hp : Ψ.Follows z R true env s₁ s₂ p q)
    (hf : ∀ a s₁' s₂', Ψ.Follows z (Ψ.after z) false env s₁' s₂' (f a) (f' (Ψ.moved a))) :
    Ψ.Follows z R taken env s₁ s₂ (p >>= f) (q >>= f') :=
  any (bind hp hf)

/-- What comes first may pass tokens. -/
theorem pass (hp : Ψ.Follows z R false env s₁ s₂ p q)
    (hf : ∀ a s₁' s₂', Ψ.Follows z (Ψ.after z) taken env s₁' s₂' (f a) (f' (Ψ.moved a))) :
    Ψ.Follows z R taken env s₁ s₂ (p >>= f) (q >>= f') :=
  bind hp hf

/-- What is made of a value and of its copy has to be a value and its copy. -/
theorem map {f f' : α → β} (hp : Ψ.Follows z R taken env s₁ s₂ p q)
    (hf : ∀ a, f' (Ψ.moved a) = Ψ.moved (f a)) :
    Ψ.Follows z R taken env s₁ s₂ (f <$> p) (f' <$> q) := by
  have h : Ψ.Follows z R (taken || false) env s₁ s₂ (p >>= fun a => Pure.pure (f a))
      (q >>= fun a => Pure.pure (f' a)) := bind hp fun a _ _ => done (hf a)
  rwa [Bool.or_false] at h

/-- A parser that fails is followed by any other. -/
theorem fail {place : Position} {cause : SyntaxCause} :
    Ψ.FollowsBy d z R taken env s₁ s₂ (Parser.fail place cause) q := fun _ _ _ hrun => by cases hrun

/-- Where the one fails, the other may do anything. -/
theorem unexpected : Ψ.FollowsBy d z R taken env s₁ s₂ Parser.unexpected q := by
  intro _ _ _ hrun
  replace hrun : (if s₁.token.kind = .eof then Parser.fail s₁.token.span.start .unexpectedEnd
    else Parser.fail s₁.token.span.start (.unexpectedToken s₁.token.spelling)) env s₁ = .ok _ := hrun
  split at hrun <;> cases hrun

/-- The two choose the same side. -/
theorem ite {c c' : Prop} [Decidable c] [Decidable c'] (hc : c' ↔ c)
    (hp : c → Ψ.FollowsBy d z R taken env s₁ s₂ p q)
    (hp' : ¬ c → Ψ.FollowsBy d z R taken env s₁ s₂ p' q') :
    Ψ.FollowsBy d z R taken env s₁ s₂ (if c then p else p') (if c' then q else q') := by
  by_cases h : c
  · rw [if_pos h, if_pos (hc.2 h)]
    exact hp h
  · rw [if_neg h, if_neg fun h' => h (hc.1 h')]
    exact hp' h

/-- What is computed from a result can be computed from it at the places of the copy. -/
theorem ofExcept {x y : Except SyntaxError α} (h : y = Ψ.moved x)
    (hf : ∀ a, Ψ.FollowsBy d z R taken env s₁ s₂ (f a) (f' (Ψ.moved a))) :
    Ψ.FollowsBy d z R taken env s₁ s₂ (MonadExcept.ofExcept x >>= f)
      (MonadExcept.ofExcept y >>= f') := by
  subst h
  cases x with
  | error e => exact fun _ _ _ hrun => by cases hrun
  | ok a => exact hf a

/-- A check that leaves everything as it is, unless it fails. -/
theorem check {p p' : Parser Unit} {f f' : Unit → Parser β}
    (hp : (p env s₁ = .ok ((), s₁) ∧ p' env s₂ = .ok ((), s₂)) ∨ ∃ e, p env s₁ = .error e)
    (h : Ψ.FollowsBy d z R taken env s₁ s₂ (f ()) (f' ())) :
    Ψ.FollowsBy d z R taken env s₁ s₂ (p >>= f) (p' >>= f') := by
  intro hs b s₁' hrun
  replace hrun : (p env s₁ >>= fun x => f x.1 env x.2) = .ok (b, s₁') := hrun
  rcases hp with ⟨hp, hp'⟩ | ⟨e, hp⟩
  · rw [hp] at hrun
    obtain ⟨htrail, h⟩ := h hs b s₁' hrun
    refine ⟨htrail, fun hR hz => ?_⟩
    have hrun₂ : (p' >>= f') env s₂ = f' () env s₂ :=
      show (p' env s₂ >>= fun x => f' x.1 env x.2) = _ by rw [hp']; rfl
    unfold Outcome
    rw [hrun₂]
    exact h hR hz
  · rw [hp] at hrun
    cases hrun

/-! ## Looking at the state and the surrounding -/

/-- What comes of a parser is all that matters. -/
theorem of_run (hp : p' env s₁ = p env s₁) (hq : R s₁ s₂ → q' env s₂ = q env s₂)
    (h : Ψ.FollowsBy d z R taken env s₁ s₂ p q) : Ψ.FollowsBy d z R taken env s₁ s₂ p' q' := by
  intro hs a s₁' hrun
  obtain ⟨htrail, h⟩ := h hs a s₁' (hp.symm.trans hrun)
  refine ⟨htrail, fun hR hz => ?_⟩
  have hrun₂ := h hR hz
  unfold Outcome at hrun₂ ⊢
  rwa [hq hR]

/-- The contexts are the same on both sides. -/
theorem context {f f' : Context → Parser β}
    (h : Ψ.Follows z R taken env s₁ s₂ (f env.context) (f' env.context)) :
    Ψ.Follows z R taken env s₁ s₂ (Parser.context >>= f) (Parser.context >>= f') := h

/-- The surroundings are the same on both sides. -/
theorem read {f f' : Surrounding → Parser β}
    (h : Ψ.Follows z R taken env s₁ s₂ (f env) (f' env)) :
    Ψ.Follows z R taken env s₁ s₂ (MonadReader.read >>= f) (MonadReader.read >>= f') := h

/-- A span that begins and ends in the stretch has its copy. -/
theorem spanFrom [Ψ.Firm R] {start start' : Position} {f f' : Span → Parser β}
    (hstart : start' = Ψ.places.shift start)
    (h : Ψ.Follows z R taken env s₁ s₂ (f ⟨start, s₁.lastEnd⟩)
      (f' (Ψ.moved ⟨start, s₁.lastEnd⟩))) :
    Ψ.Follows z R taken env s₁ s₂ (Parser.spanFrom start >>= f) (Parser.spanFrom start' >>= f') := by
  refine of_run rfl (fun hR => ?_) h
  show f' ⟨start', s₂.lastEnd⟩ env s₂ = _
  rw [hstart, lastEnd_of Ψ hR]
  rfl

section

variable [Ψ.Level R]

/-- The current token has its copy where the copy of the stretch is. -/
theorem here {f f' : Position → Parser β}
    (h : Ψ.Follows z R taken env s₁ s₂ (f s₁.here) (f' (Ψ.places.shift s₁.here))) :
    Ψ.Follows z R taken env s₁ s₂ (Parser.here >>= f) (Parser.here >>= f') :=
  of_run rfl (fun hR => congrArg (f' · env s₂) (abreast_of Ψ hR).here) h

/-- The current tokens differ in their places alone. -/
theorem token {f g : Token → Parser β}
    (h : Ψ.Follows z R taken env s₁ s₂ (f s₁.token) (g (Ψ.moved s₁.token))) :
    Ψ.Follows z R taken env s₁ s₂ (Parser.token >>= f) (Parser.token >>= g) :=
  of_run rfl (fun hR => congrArg (g · env s₂) (abreast_of Ψ hR).token) h

/-- The current tokens are of the same kind. -/
theorem kind {f g : TokenKind → Parser β}
    (h : Ψ.FollowsBy d z R taken env s₁ s₂ (f s₁.token.kind) (g s₁.token.kind)) :
    Ψ.FollowsBy d z R taken env s₁ s₂ (Parser.kind >>= f) (Parser.kind >>= g) :=
  of_run rfl (fun hR => congrArg (g · env s₂) (abreast_of Ψ hR).kind) h

/-- One of two parsers, as the kind of the current token has it. -/
theorem ifKind {k : TokenKind} (hyes : s₁.token.kind = k → Ψ.FollowsBy d z R taken env s₁ s₂ p q)
    (hno : s₁.token.kind ≠ k → Ψ.FollowsBy d z R taken env s₁ s₂ p' q') :
    Ψ.FollowsBy d z R taken env s₁ s₂ (Parser.atKind k >>= fun b => if b = true then p else p')
      (Parser.atKind k >>= fun b => if b = true then q else q') := by
  refine kind (f := fun kind => if decide (kind = k) = true then p else p')
    (g := fun kind => if decide (kind = k) = true then q else q') ?_
  exact ite Iff.rfl (fun h => hyes (of_decide_eq_true h)) fun h => hno fun hk =>
    h (decide_eq_true hk)

/-- One of two parsers, as the current token is an identifier `name` or not. -/
theorem ifName {name : String}
    (hyes : s₁.token.kind = .identifier → Ψ.Follows z R taken env s₁ s₂ p q)
    (hno : Ψ.Follows z R taken env s₁ s₂ p' q') :
    Ψ.Follows z R taken env s₁ s₂ (Parser.atName name >>= fun b => if b = true then p else p')
      (Parser.atName name >>= fun b => if b = true then q else q') := by
  refine token (f := fun t => if t.isIdentifier name = true then p else p')
    (g := fun t => if t.isIdentifier name = true then q else q') ?_
  exact ite Iff.rfl (fun h => hyes (Token.kind_of_isIdentifier h)) fun _ => hno

/-- A line ends before both tokens or before neither. -/
theorem ifNewline (hyes : Ψ.Follows z R taken env s₁ s₂ p q)
    (hno : Ψ.Follows z R taken env s₁ s₂ p' q') :
    Ψ.Follows z R taken env s₁ s₂ (Parser.afterNewline >>= fun b => if b = true then p else p')
      (Parser.afterNewline >>= fun b => if b = true then q else q') :=
  token (f := fun t => if t.newlineBefore = true then p else p')
    (g := fun t => if t.newlineBefore = true then q else q')
    (ite Iff.rfl (fun _ => hyes) fun _ => hno)

end

/-! ## Moving on -/

section

variable [Ψ.Level R]

/-- Past a token. -/
theorem bump_by (hk : s₁.token.kind ≠ .eof) (hd : s₁.token.kind.opened = d) :
    Ψ.FollowsBy d z R true env s₁ s₂ Parser.bump Parser.bump := by
  intro hs a s₁' hrun
  have hleaves : Parser.Leaves env s₁ Parser.bump fun t s' => t = s₁.token ∧ s₁.Past s' :=
    Parser.leaves_bump
  obtain ⟨rfl, hpast⟩ := hleaves.of_run hrun
  refine ⟨.single (.token hk hpast), fun hR hz => ?_⟩
  have habreast := abreast_of Ψ hR
  obtain ⟨s₂', hpast₂, hafter⟩ := habreast.past_zone hpast hz
  have hopened : s₁'.opened = s₁.opened + d := by
    rw [hpast.opened, ParserState.opened, hd]
    omega
  unfold Outcome
  rw [Parser.run_bump hpast₂]
  exact ⟨habreast.token, hafter, hopened⟩

/-- Past a token, and what is done about it. -/
theorem bump_then {d' e : Int} {f f' : Token → Parser β} (hk : s₁.token.kind ≠ .eof)
    (he : s₁.token.kind.opened + d' = e)
    (hf : ∀ s₁' s₂', Ψ.FollowsBy d' z (Ψ.after z) false env s₁' s₂' (f s₁.token)
      (f' (Ψ.moved s₁.token))) :
    Ψ.FollowsBy e z R true env s₁ s₂ (Parser.bump >>= f) (Parser.bump >>= f') := by
  refine bind_by (t := true) (u := false) he (bump_by hk rfl) fun t s₁' s₂' hrun => ?_
  obtain ⟨rfl, -⟩ := Parser.leaves_bump.of_run hrun
  exact hf s₁' s₂'

/-- Past a token that opens and closes no substitution. -/
theorem bump (hk : s₁.token.kind.isPlain) :
    Ψ.Follows z R true env s₁ s₂ Parser.bump Parser.bump :=
  bump_by (TokenKind.ne_eof_of_isPlain hk) (TokenKind.opened_of_isPlain hk)

/-- A plain token is passed together with its copy. -/
theorem skip (hk : s₁.token.kind.isPlain) :
    Ψ.Follows z R true env s₁ s₂ (discard Parser.bump) (discard Parser.bump) :=
  map (bump hk) fun _ => rfl

theorem expectKind {k : TokenKind} (hk : k.isPlain) :
    Ψ.Follows z R true env s₁ s₂ (Parser.expectKind k) (Parser.expectKind k) :=
  ifKind (fun h => bump (h ▸ hk)) fun _ => unexpected

theorem expectMark (mark : Punctuator) :
    Ψ.Follows z R true env s₁ s₂ (Parser.expectMark mark) (Parser.expectMark mark) :=
  map (expectKind rfl) fun _ => rfl

theorem expectWord (word : Keyword) :
    Ψ.Follows z R true env s₁ s₂ (Parser.expectWord word) (Parser.expectWord word) :=
  map (expectKind rfl) fun _ => rfl

theorem expectName (name : String) :
    Ψ.Follows z R true env s₁ s₂ (Parser.expectName name) (Parser.expectName name) :=
  ifName (fun h => skip (by rw [h]; rfl)) unexpected

/-- One way after a token that has been there, and another way if it has not. -/
theorem eaten {k : TokenKind} (hk : k.isPlain)
    (hyes : ∀ s₁' s₂', Ψ.Follows z (Ψ.after z) false env s₁' s₂' p q)
    (hno : s₁.token.kind ≠ k → Ψ.Follows z R taken env s₁ s₂ p' q') :
    Ψ.Follows z R taken env s₁ s₂ (Parser.eatKind k >>= fun b => if b = true then p else p')
      (Parser.eatKind k >>= fun b => if b = true then q else q') := by
  rw [Parser.eatKind_ite, Parser.eatKind_ite]
  exact ifKind (fun h => take (skip (h ▸ hk)) fun _ _ _ => hyes _ _) hno

/-- A name and its copy have the same text. -/
theorem ident : Ψ.Follows z R true env s₁ s₂ Parser.ident Parser.ident :=
  take (expectKind rfl) fun _ _ _ => done rfl

/-- Reserved words are taken for names on both sides. -/
theorem identName : Ψ.Follows z R true env s₁ s₂ Parser.identName Parser.identName := by
  refine kind ?_
  split
  · next hk => exact take (bump (by rw [hk]; rfl)) fun _ _ _ => done rfl
  · exact ident

end

/-! ## Changed surroundings -/

/-- A context is changed in the same way on both sides. -/
theorem withContext {change : Context → Context}
    (h : Ψ.Follows z R taken { env with context := change env.context } s₁ s₂ p q) :
    Ψ.Follows z R taken env s₁ s₂ (p.withContext change) (q.withContext change) := h

theorem allowIn (h : ∀ env, Ψ.Follows z R taken env s₁ s₂ p q) :
    Ψ.Follows z R taken env s₁ s₂ p.allowIn q.allowIn := h _

theorem inBody {context : Context} (h : ∀ env, Ψ.Follows z R taken env s₁ s₂ p q) :
    Ψ.Follows z R taken env s₁ s₂ (p.inBody context) (q.inBody context) := h _

theorem withLabel {name : String} (h : ∀ env, Ψ.Follows z R taken env s₁ s₂ p q) :
    Ψ.Follows z R taken env s₁ s₂ (p.withLabel name) (q.withLabel name) := h _

/-! ## Repetition -/

section

variable {step step' : α → Parser (α ⊕ β)}

/-- By induction on the budget of the first parser; that of the second is at least as long. -/
theorem iterate (hstep : ∀ a s₁ s₂, Ψ.Follows z (Ψ.after z) false env s₁ s₂ (step a)
      (step' (Ψ.moved a))) (budget : List Char) : ∀ (budget' : List Char) (a : α) s₁ s₂,
    Ψ.Follows z (Ψ.after z) false env s₁ s₂ (Parser.iterate step budget a)
      (Parser.iterate step' budget' (Ψ.moved a)) := by
  induction budget with
  | nil => exact fun _ _ _ _ _ _ _ hrun => by cases hrun
  | cons c budget ih =>
    have hround (budget' : List Char) (a : α) (s₁ s₂ : ParserState) :
        Ψ.Follows z (Ψ.after z) false env s₁ s₂ (Parser.iterate step (c :: budget) a)
          (Parser.iterate step' (c :: budget') (Ψ.moved a)) := by
      refine pass (hstep a s₁ s₂) fun r s₁' s₂' => ?_
      cases r with
      | inl a' => exact ih budget' a' s₁' s₂'
      | inr b => exact done rfl
    intro budget' a s₁ s₂
    cases budget' with
    | nil => exact scarce (hround [] a s₁ s₂) (.inr rfl)
    | cons c' budget' => exact hround budget' a s₁ s₂

/-- A repetition, round by round. -/
theorem repeatFrom {a a' : α} (ha : a' = Ψ.moved a)
    (hstep : ∀ a s₁ s₂, Ψ.Follows z (Ψ.after z) false env s₁ s₂ (step a) (step' (Ψ.moved a))) :
    Ψ.Follows z (Ψ.after z) false env s₁ s₂ (Parser.repeatFrom a step)
      (Parser.repeatFrom a' step') := by
  subst ha
  exact fun hs => iterate hstep _ ('\x00' :: '\x00' :: s₂.lexer.rest) a s₁ s₂ hs

/-- A repetition whose first round passes a token. -/
theorem repeatFrom_first {a a' : α} (ha : a' = Ψ.moved a)
    (hfirst : Ψ.Follows z R true env s₁ s₂ (step a) (step' a'))
    (hstep : ∀ a s₁ s₂, Ψ.Follows z (Ψ.after z) false env s₁ s₂ (step a) (step' (Ψ.moved a))) :
    Ψ.Follows z R true env s₁ s₂ (Parser.repeatFrom a step) (Parser.repeatFrom a' step') := by
  subst ha
  have h : Ψ.Follows z R true env s₁ s₂
      (Parser.iterate step ('\x00' :: '\x00' :: s₁.lexer.rest) a)
      (Parser.iterate step' ('\x00' :: '\x00' :: s₂.lexer.rest) (Ψ.moved a)) := by
    refine take hfirst fun r s₁' s₂' => ?_
    cases r with
    | inl a => exact iterate hstep _ _ a s₁' s₂'
    | inr b => exact done rfl
  exact h

end

/-- Items up to where they stop. -/
theorem collectUntil {stop stop' : Parser Bool}
    (hstop : ∀ s₁ s₂, Ψ.Follows z (Ψ.after z) false env s₁ s₂ stop stop')
    (hp : ∀ s₁ s₂, Ψ.Follows z (Ψ.after z) false env s₁ s₂ p q) :
    Ψ.Follows z (Ψ.after z) false env s₁ s₂ (Parser.collectUntil stop p)
      (Parser.collectUntil stop' q) := by
  refine repeatFrom rfl fun items s₁ s₂ => pass (hstop s₁ s₂) fun b s₁ s₂ => ite Iff.rfl ?_ ?_
  · exact fun _ => done (congrArg Sum.inr List.map_reverse.symm)
  · exact fun _ => pass (hp s₁ s₂) fun _ _ _ => done rfl

/-! ## Inside of the stretch -/

section

variable [Ψ.Level R]

/-- The parser may look at the token after the current one. -/
theorem peek {f f' : Token → Parser β} (hk : s₁.token.kind.peeks)
    (h : ∀ t, Ψ.Follows .clear R taken env s₁ s₂ (f t) (f' (Ψ.moved t))) :
    Ψ.Follows .clear R taken env s₁ s₂ (Parser.peek >>= f) (Parser.peek >>= f') := by
  intro hs a s₁' hrun
  replace hrun : (Parser.peek env s₁ >>= fun x => f x.1 env x.2) = .ok (a, s₁') := hrun
  obtain ⟨⟨t, m⟩, hpeek, hf⟩ := exists_of_bind_eq_ok hrun
  have hleaves : Parser.Leaves env s₁ Parser.peek fun t s' => s' = s₁ ∧ s₁.lexer.next.1 = .ok t :=
    Parser.leaves_peek
  obtain ⟨rfl, hnext⟩ := hleaves.of_run hpeek
  obtain ⟨htrail, hrun₂⟩ := h t hs a s₁' hf
  refine ⟨htrail, fun hR hz => ?_⟩
  have hpast : m.Past ⟨m.lexer.next.2, t, m.token.span.stop⟩ := ⟨_, _, Prod.ext hnext rfl, rfl⟩
  have hahead := (Clear.of_path hz hs htrail.path).2 hk _ hpast
  obtain ⟨s₂', hpast₂, hsame⟩ := (abreast_of Ψ hR).past_inside hpast hahead
  refine Outcome.bind (P := fun t₂ s => t₂ = Ψ.moved t ∧ s = s₂) ?_ ?_
  · unfold Outcome
    rw [Parser.run_peek hpast₂]
    exact ⟨hsame.abreast.token, rfl⟩
  · rintro _ _ ⟨rfl, rfl⟩
    exact hrun₂ hR hz

end

section

theorem atKind (k : TokenKind) :
    Ψ.Follows .clear Ψ.Same false env s₁ s₂ (Parser.atKind k) (Parser.atKind k) :=
  kind (pure rfl id)

theorem atMark (mark : Punctuator) :
    Ψ.Follows .clear Ψ.Same false env s₁ s₂ (Parser.atMark mark) (Parser.atMark mark) := atKind _

/-- Whether a statement may end is the same on both sides, wherever what follows is the same. -/
theorem atStatementBreak :
    Ψ.Follows .clear Ψ.Same false env s₁ s₂ Parser.atStatementBreak Parser.atStatementBreak :=
  token (pure rfl id)

/-- A token is passed on both sides or on neither. -/
theorem eatKind {k : TokenKind} (hk : k.isPlain) :
    Ψ.Follows .clear Ψ.Same false env s₁ s₂ (Parser.eatKind k) (Parser.eatKind k) :=
  ifKind (fun h => take (skip (h ▸ hk)) fun _ _ _ => done rfl) fun _ => done rfl

theorem eatMark (mark : Punctuator) :
    Ψ.Follows .clear Ψ.Same false env s₁ s₂ (Parser.eatMark mark) (Parser.eatMark mark) :=
  eatKind rfl

/-- A semicolon that is left out is left out on both sides. -/
theorem semicolon :
    Ψ.Follows .clear Ψ.Same false env s₁ s₂ Parser.semicolon Parser.semicolon :=
  eaten rfl (fun _ _ => done rfl) fun _ => pass atStatementBreak fun _ _ _ =>
    ite Iff.rfl (fun _ => done rfl) fun _ => unexpected

theorem atStatementEnd :
    Ψ.Follows .clear Ψ.Same false env s₁ s₂ Parser.atStatementEnd Parser.atStatementEnd :=
  ifKind (fun _ => done rfl) fun _ => atStatementBreak

/-- Further items, each after a comma. -/
theorem afterCommas (hp : ∀ s₁ s₂, Ψ.Follows .clear Ψ.Same false env s₁ s₂ p q) :
    Ψ.Follows .clear Ψ.Same false env s₁ s₂ (Parser.afterCommas p) (Parser.afterCommas q) :=
  collectUntil (fun _ _ => pass (eatMark _) fun _ _ _ => done rfl) hp

/-- An item and its comma, and those of the copy. -/
theorem itemAndComma {close : Punctuator} (hp : Ψ.Follows .clear R taken env s₁ s₂ p q) :
    Ψ.Follows .clear R taken env s₁ s₂ (Parser.itemAndComma close p)
      (Parser.itemAndComma close q) := by
  have h : Ψ.Follows .clear R (taken || false) env s₁ s₂ (Parser.itemAndComma close p)
      (Parser.itemAndComma close q) := bind hp fun _ _ _ =>
    ifKind (fun _ => done rfl) fun _ => take (expectMark _) fun _ _ _ => done rfl
  rwa [Bool.or_false] at h

end

end Follows

end Stretch

end WithScope
