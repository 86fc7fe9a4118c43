import WithScope.Proofs.Grammar.AlikeStatement
import WithScope.Proofs.Tree.HandedOn
import WithScope.Proofs.Wrapper.Upto

/-!
# Parsers of a text and of the text with replaced returns

Two parsers read what may hold returns, one from a text and the other from the same text with
replaced returns. `Ψ.Hands pre env s₁ s₂ p q` says that the second one comes to the same result with
returns that hand their values on, unless it meets a limit of its own, and that the first one finds
the returns in the order of the text. The stretch that they are in need not be the same before and
after; the returns `pre` have been found before.

What holds no returns is read within a stretch (`Hands.inner`, `Hands.lead`). There is a rule for
each way to put parsers together.
-/

namespace WithScope

open HoldsReturns (returns handedOn)
open ParserState (Before)
open Relation (ReflTransGen)
open WithScope.Parser (Outcome)

namespace Stretch

/-- Two parsers are in the stretch that ends with the first of the returns, and outside of any
substitution. -/
structure Apace (Ψ : Stretch) (rs : List Return) (s₁ s₂ : ParserState) : Prop where
  /-- the stretch ends with the first of the returns -/
  upto : Ψ.Upto rs
  /-- what becomes of the returns hands on their arguments -/
  handed : ∀ r ∈ rs, r.HandedOn Ψ.source (r.edit Ψ.source)
  /-- both parsers have the same token before them -/
  same : Ψ.Same s₁ s₂
  /-- no substitution is open -/
  opened : s₁.opened = 0

/-- The second parser comes to what the first one does, with returns that hand their values on. -/
def Hands (Ψ : Stretch) (pre : List Return) {α : Type} [Relocatable α] [HoldsReturns α]
    (env : Surrounding) (s₁ s₂ : ParserState) (p q : Parser α) : Prop :=
  s₁.Steady Ψ.source → ∀ a s₁', p env s₁ = .ok (a, s₁') → ∃ new, returns a = pre ++ new ∧
    ReflTransGen ParserState.Pass s₁ s₁' ∧ ∀ post, Before post s₁' → Before (new ++ post) s₁ ∧
      (Ψ.Apace (new ++ post) s₁ s₂ → Outcome SyntaxError.Scarce env s₂ q fun b s₂' =>
        placeless b = placeless (handedOn a) ∧
        ∃ Ψ' : Stretch, Ψ'.source = Ψ.source ∧ Ψ'.copy = Ψ.copy ∧ Ψ'.Apace post s₁' s₂')

namespace Hands

variable {Ψ : Stretch} {pre : List Return} {env : Surrounding} {s₁ s₂ : ParserState} {taken : Bool}
  {α β γ : Type} [Relocatable α] [HoldsReturns α] [Relocatable β] [HoldsReturns β] [Relocatable γ]

/-! ## What holds no returns -/

/-- What is read within a stretch, and what comes after it, which may depend on how that went. -/
theorem lead_by {p q : Parser γ} {f f' : γ → Parser α}
    (hp : Ψ.Follows .clear Ψ.Same taken env s₁ s₂ p q)
    (hf : ∀ a s₁' s₂', p env s₁ = .ok (a, s₁') →
      Ψ.Hands pre env s₁' s₂' (f a) (f' (Ψ.moved a))) :
    Ψ.Hands pre env s₁ s₂ (p >>= f) (q >>= f') := by
  intro hs c s₁' hrun
  obtain ⟨⟨a, m₁⟩, hpa, hfa⟩ := exists_of_bind_eq_ok
    (show (p env s₁ >>= fun x => f x.1 env x.2) = .ok (c, s₁') from hrun)
  obtain ⟨htrail, hq⟩ := hp hs a m₁ hpa
  have hm := hs.path htrail.path
  obtain ⟨new, hnew, hpath, h⟩ := hf a m₁ s₂ hpa hm c s₁' hfa
  refine ⟨new, hnew, htrail.path.trans hpath, fun post hpost => ?_⟩
  have hbefore := (h post hpost).1
  refine ⟨hbefore.of_path htrail.path, fun hapace => ?_⟩
  refine Outcome.bind (hq hapace.same (hapace.upto.clear hbefore hm)) ?_
  rintro b m₂ ⟨rfl, hsame, hopened⟩
  obtain ⟨new', hnew', -, h⟩ := hf a m₁ m₂ hpa hm c s₁' hfa
  obtain rfl := List.append_cancel_left (hnew.symm.trans hnew')
  refine (h post hpost).2 ⟨hapace.upto, hapace.handed, hsame, ?_⟩
  rw [hopened, hapace.opened]
  rfl

/-- What is read without a return comes before what is handed on. -/
theorem lead {p q : Parser γ} {f f' : γ → Parser α}
    (hp : Ψ.Follows .clear Ψ.Same taken env s₁ s₂ p q)
    (hf : ∀ a s₁' s₂', Ψ.Hands pre env s₁' s₂' (f a) (f' (Ψ.moved a))) :
    Ψ.Hands pre env s₁ s₂ (p >>= f) (q >>= f') :=
  lead_by hp fun a s₁' s₂' _ => hf a s₁' s₂'

/-- What is given has the returns that were found on the way. -/
theorem pure {a b : α} (h : placeless b = placeless (handedOn a)) (hpre : returns a = pre) :
    Ψ.Hands pre env s₁ s₂ (Pure.pure a) (Pure.pure b) := by
  rintro hs _ _ ⟨⟩
  exact ⟨[], by rw [hpre, List.append_nil], .refl, fun post hpost => ⟨hpost, fun hapace =>
    ⟨h, Ψ, rfl, rfl, hapace⟩⟩⟩

/-- What holds no returns is read within a stretch. -/
theorem inner [Relocatable.Lawful α] {p q : Parser α}
    (hp : Ψ.Follows .clear Ψ.Same false env s₁ s₂ p q) (hnone : p.Yields fun a => returns a = []) :
    Ψ.Hands [] env s₁ s₂ p q := by
  intro hs a s₁' hrun
  have ha := hnone env s₁ a s₁' hrun
  obtain ⟨htrail, hq⟩ := hp hs a s₁' hrun
  refine ⟨[], ha, htrail.path, fun post hpost => ⟨hpost.of_path htrail.path, fun hapace => ?_⟩⟩
  refine (hq hapace.same (hapace.upto.clear hpost (hs.path htrail.path))).mono ?_
  rintro b s₂' ⟨rfl, hsame, hopened⟩
  refine ⟨?_, Ψ, rfl, rfl, hapace.upto, hapace.handed, hsame, by rw [hopened, hapace.opened]; rfl⟩
  rw [HoldsReturns.handedOn_eq_self a ha]
  exact placeless_relocated _ a

/-! ## Sequences and choices -/

/-- One parser after another, of which the second one may depend on how the first one went. -/
theorem bind_by {p q : Parser α} {f f' : α → Parser β} (hp : Ψ.Hands [] env s₁ s₂ p q)
    (hf : ∀ (Ψ' : Stretch) a b s₁' s₂', p env s₁ = .ok (a, s₁') →
      placeless b = placeless (handedOn a) →
      Ψ'.Hands (pre ++ returns a) env s₁' s₂' (f a) (f' b)) :
    Ψ.Hands pre env s₁ s₂ (p >>= f) (q >>= f') := by
  intro hs c s₁' hrun
  obtain ⟨⟨a, m₁⟩, hpa, hfa⟩ := exists_of_bind_eq_ok
    (show (p env s₁ >>= fun x => f x.1 env x.2) = .ok (c, s₁') from hrun)
  obtain ⟨new, hnew, hpath, hq⟩ := hp hs a m₁ hpa
  have hm := hs.path hpath
  obtain ⟨others, hothers, hpath', hbefore⟩ := hf Ψ a (handedOn a) m₁ s₂ hpa rfl hm c s₁' hfa
  obtain rfl : returns a = new := hnew
  refine ⟨returns a ++ others, by rw [hothers, List.append_assoc], hpath.trans hpath', ?_⟩
  intro post hpost
  rw [List.append_assoc]
  obtain ⟨hbefore', hq⟩ := hq _ (hbefore post hpost).1
  refine ⟨hbefore', fun hapace => Outcome.bind (hq hapace) ?_⟩
  rintro b m₂ ⟨hab, Ψ', hsource, hcopy, hapace'⟩
  obtain ⟨others', hothers', -, h⟩ := hf Ψ' a b m₁ m₂ hpa hab (hsource ▸ hm) c s₁' hfa
  obtain rfl := List.append_cancel_left (hothers.symm.trans hothers')
  rw [← hsource, ← hcopy]
  exact (h post hpost).2 hapace'

/-- The returns of what comes second stand behind those of what comes first. -/
theorem bind {p q : Parser α} {f f' : α → Parser β} (hp : Ψ.Hands [] env s₁ s₂ p q)
    (hf : ∀ (Ψ' : Stretch) a b s₁' s₂', placeless b = placeless (handedOn a) →
      Ψ'.Hands (pre ++ returns a) env s₁' s₂' (f a) (f' b)) :
    Ψ.Hands pre env s₁ s₂ (p >>= f) (q >>= f') :=
  bind_by hp fun Ψ' a b s₁' s₂' _ => hf Ψ' a b s₁' s₂'

/-- What is made of a value has its returns behind those before. -/
theorem map {p q : Parser α} {f f' : α → β} (hp : Ψ.Hands [] env s₁ s₂ p q)
    (hf : ∀ a b, placeless b = placeless (handedOn a) →
      placeless (f' b) = placeless (handedOn (f a)))
    (hpre : ∀ a, returns (f a) = pre ++ returns a) :
    Ψ.Hands pre env s₁ s₂ (f <$> p) (f' <$> q) :=
  bind hp fun _ a b _ _ hab => pure (hf a b hab) (hpre a)

/-- A choice that goes the same way in both runs. -/
theorem ite {c c' : Prop} [Decidable c] [Decidable c'] (hc : c' ↔ c) {p q p' q' : Parser α}
    (hp : c → Ψ.Hands pre env s₁ s₂ p q) (hp' : ¬ c → Ψ.Hands pre env s₁ s₂ p' q') :
    Ψ.Hands pre env s₁ s₂ (if c then p else p') (if c' then q else q') := by
  by_cases h : c
  · rw [if_pos h, if_pos (hc.2 h)]
    exact hp h
  · rw [if_neg h, if_neg fun h' => h (hc.1 h')]
    exact hp' h

/-- A fault hands on nothing. -/
theorem unexpected {q : Parser α} : Ψ.Hands pre env s₁ s₂ Parser.unexpected q := fun _ _ _ hrun =>
  (Parser.Leaves.unexpected (Q := fun _ _ => False).of_run hrun).elim

/-- As `unexpected`, at a given place. -/
theorem fail {place : Position} {cause : SyntaxCause} {q : Parser α} :
    Ψ.Hands pre env s₁ s₂ (Parser.fail place cause) q := fun _ _ _ hrun => by cases hrun

/-- A parser that stops at a limit does as well as any other. -/
theorem scarce {p q q' : Parser α} (h : Ψ.Hands pre env s₁ s₂ p q)
    (hq' : Outcome SyntaxError.Scarce env s₂ q' fun _ _ => False) : Ψ.Hands pre env s₁ s₂ p q' := by
  intro hs a s₁' hrun
  obtain ⟨new, hnew, hpath, h⟩ := h hs a s₁' hrun
  exact ⟨new, hnew, hpath, fun post hpost => ⟨(h post hpost).1, fun _ =>
    hq'.mono fun _ _ h => h.elim⟩⟩

/-! ## Looking at the state and the surrounding -/

/-- What comes of a parser is all that matters. -/
theorem of_run {p q p' q' : Parser α} (hp : p' env s₁ = p env s₁)
    (hq : Ψ.Same s₁ s₂ → q' env s₂ = q env s₂) (h : Ψ.Hands pre env s₁ s₂ p q) :
    Ψ.Hands pre env s₁ s₂ p' q' := by
  intro hs a s₁' hrun
  obtain ⟨new, hnew, hpath, h⟩ := h hs a s₁' (hp.symm.trans hrun)
  refine ⟨new, hnew, hpath, fun post hpost => ⟨(h post hpost).1, fun hapace => ?_⟩⟩
  have hrun₂ := (h post hpost).2 hapace
  unfold Outcome at hrun₂ ⊢
  rwa [hq hapace.same]

/-- The two runs go on with places that differ by the shift. -/
theorem here {f f' : Position → Parser α}
    (h : Ψ.Hands pre env s₁ s₂ (f s₁.here) (f' (Ψ.places.shift s₁.here))) :
    Ψ.Hands pre env s₁ s₂ (Parser.here >>= f) (Parser.here >>= f') :=
  of_run rfl (fun hsame => congrArg (f' · env s₂) hsame.abreast.here) h

/-- The surrounding is the same in both runs. -/
theorem read {f f' : Surrounding → Parser α} (h : Ψ.Hands pre env s₁ s₂ (f env) (f' env)) :
    Ψ.Hands pre env s₁ s₂ (MonadReader.read >>= f) (MonadReader.read >>= f') := h

/-- The spans differ, and what is handed on does not look at them. -/
theorem spanFrom {start start' : Position} {f f' : Span → Parser α}
    (h : ∀ loc loc', Ψ.Hands pre env s₁ s₂ (f loc) (f' loc')) :
    Ψ.Hands pre env s₁ s₂ (Parser.spanFrom start >>= f) (Parser.spanFrom start' >>= f') :=
  of_run (p := f ⟨start, s₁.lastEnd⟩) (q := f' ⟨start', s₂.lastEnd⟩) rfl (fun _ => rfl) (h _ _)

/-- The kind of the next token is the same in both runs. -/
theorem kind {f g : TokenKind → Parser α}
    (h : Ψ.Hands pre env s₁ s₂ (f s₁.token.kind) (g s₁.token.kind)) :
    Ψ.Hands pre env s₁ s₂ (Parser.kind >>= f) (Parser.kind >>= g) :=
  of_run rfl (fun hsame => congrArg (g · env s₂) hsame.abreast.kind) h

/-- One of two parsers, as the kind of the current token has it. -/
theorem ifKind {k : TokenKind} {p q p' q' : Parser α}
    (hyes : s₁.token.kind = k → Ψ.Hands pre env s₁ s₂ p q)
    (hno : Ψ.Hands pre env s₁ s₂ p' q') :
    Ψ.Hands pre env s₁ s₂ (Parser.atKind k >>= fun b => if b = true then p else p')
      (Parser.atKind k >>= fun b => if b = true then q else q') :=
  kind (f := fun kind => if decide (kind = k) = true then p else p')
    (g := fun kind => if decide (kind = k) = true then q else q')
    (ite Iff.rfl (fun h => hyes (of_decide_eq_true h)) fun _ => hno)

/-- One of two parsers, as a word stands here that is special only in some places. -/
theorem ifName {name : String} {p q p' q' : Parser α}
    (hyes : s₁.token.kind = .identifier → Ψ.Hands pre env s₁ s₂ p q)
    (hno : Ψ.Hands pre env s₁ s₂ p' q') :
    Ψ.Hands pre env s₁ s₂ (Parser.atName name >>= fun b => if b = true then p else p')
      (Parser.atName name >>= fun b => if b = true then q else q') := by
  refine of_run (p := if s₁.token.isIdentifier name = true then p else p')
    (q := if s₁.token.isIdentifier name = true then q else q') rfl (fun hsame => ?_)
    (ite Iff.rfl (fun h => hyes (Token.kind_of_isIdentifier h)) fun _ => hno)
  show (if s₂.token.isIdentifier name = true then q else q') env s₂ = _
  rw [hsame.abreast.token]
  rfl

/-- One way after a token that has been there, and another way if it has not. -/
theorem eaten {k : TokenKind} (hk : k.isPlain) {p q p' q' : Parser α}
    (hyes : ∀ s₁' s₂', Ψ.Hands pre env s₁' s₂' p q) (hno : Ψ.Hands pre env s₁ s₂ p' q') :
    Ψ.Hands pre env s₁ s₂ (Parser.eatKind k >>= fun b => if b = true then p else p')
      (Parser.eatKind k >>= fun b => if b = true then q else q') := by
  rw [Parser.eatKind_ite, Parser.eatKind_ite]
  exact ifKind (fun h => lead (Follows.skip (h ▸ hk)) fun _ => hyes) hno

/-- In another context the same is handed on. -/
theorem withContext {change : Context → Context} {p q : Parser α}
    (h : Ψ.Hands pre { env with context := change env.context } s₁ s₂ p q) :
    Ψ.Hands pre env s₁ s₂ (p.withContext change) (q.withContext change) := h

/-- Under a label the same is handed on. -/
theorem withLabel {name : String} {p q : Parser α}
    (h : Ψ.Hands pre { env with labels := name :: env.labels } s₁ s₂ p q) :
    Ψ.Hands pre env s₁ s₂ (p.withLabel name) (q.withLabel name) := h

/-! ## Repetition -/

/-- What may be left out. -/
theorem some {p q : Parser α} (hp : Ψ.Hands [] env s₁ s₂ p q) :
    Ψ.Hands [] env s₁ s₂ (Option.some <$> p) (Option.some <$> q) :=
  map hp (fun _ _ => congrArg Option.some) fun _ => List.append_nil _

omit [Relocatable α] [HoldsReturns α] in
/-- A round that adds an item, and the others. -/
theorem iterate_collect (stop : Parser Bool) (item : Parser α) (c : Char) (budget : List Char)
    (items : List α) :
    Parser.iterate (fun items => do
        if ← stop then return .inr items.reverse else return .inl ((← item) :: items))
      (c :: budget) items = (do
        if ← stop then return items.reverse
        else
          let x ← item
          Parser.iterate (fun items => do
              if ← stop then return .inr items.reverse else return .inl ((← item) :: items))
            budget (x :: items)) := by
  rw [Parser.iterate, bind_assoc]
  refine congrArg (_ >>= ·) (funext fun b => ?_)
  cases b <;> simp

variable {stop stop' : Parser Bool} {p q : Parser α}

/-- Round by round, the returns of an item stand behind those of the items before it. -/
theorem iterate (hstop : ∀ (Ψ : Stretch) s₁ s₂, Ψ.Follows .clear Ψ.Same false env s₁ s₂ stop stop')
    (hp : ∀ (Ψ : Stretch) s₁ s₂, Ψ.Hands [] env s₁ s₂ p q) (budget : List Char) :
    ∀ (budget' : List Char) (Ψ : Stretch) (items items' : List α) s₁ s₂,
      placeless items' = placeless (handedOn items) →
      Ψ.Hands (returns items.reverse) env s₁ s₂
        (Parser.iterate (fun items => do
          if ← stop then return .inr items.reverse else return .inl ((← p) :: items)) budget items)
        (Parser.iterate (fun items => do
          if ← stop' then return .inr items.reverse else return .inl ((← q) :: items)) budget'
          items') := by
  induction budget with
  | nil => exact fun _ _ _ _ _ _ _ _ _ _ hrun => by cases hrun
  | cons c budget ih =>
    intro budget' Ψ items items' s₁ s₂ hitems
    have hround (budget' : List Char) : Ψ.Hands (returns items.reverse) env s₁ s₂
        (Parser.iterate (fun items => do
          if ← stop then return .inr items.reverse else return .inl ((← p) :: items)) (c :: budget)
          items)
        (Parser.iterate (fun items => do
          if ← stop' then return .inr items.reverse else return .inl ((← q) :: items)) (c :: budget')
          items') := by
      rw [iterate_collect, iterate_collect]
      refine lead (hstop Ψ s₁ s₂) fun b s₁ s₂ => ite Iff.rfl (fun _ => pure ?_ rfl) fun _ => ?_
      · show items'.reverse.map _ = (items.reverse.map _).map _
        rw [List.map_reverse, List.map_reverse, List.map_reverse]
        exact congrArg List.reverse hitems
      · refine bind (hp Ψ s₁ s₂) fun Ψ a b s₁ s₂ hab => ?_
        have hreturns : returns items.reverse ++ returns a = returns (a :: items).reverse := by
          show _ = (a :: items).reverse.flatMap returns
          rw [List.reverse_cons, List.flatMap_append, List.flatMap_singleton]
          rfl
        rw [hreturns]
        exact ih budget' Ψ (a :: items) (b :: items') s₁ s₂ (congrArg₂ List.cons hab hitems)
    cases budget' with
    | nil => exact scarce (hround []) (.inr rfl)
    | cons c' budget' => exact hround budget'

/-- Items up to where they stop. -/
theorem collectUntil
    (hstop : ∀ (Ψ : Stretch) s₁ s₂, Ψ.Follows .clear Ψ.Same false env s₁ s₂ stop stop')
    (hp : ∀ (Ψ : Stretch) s₁ s₂, Ψ.Hands [] env s₁ s₂ p q) :
    Ψ.Hands [] env s₁ s₂ (Parser.collectUntil stop p) (Parser.collectUntil stop' q) := by
  intro hs
  exact iterate hstop hp _ ('\x00' :: '\x00' :: s₂.lexer.rest) Ψ [] [] s₁ s₂ rfl hs

end Hands

end Stretch

end WithScope
