import WithScope.Proofs.Grammar.FollowsEnd

/-!
# Productions in brackets read a copy alike

`Grammar.Alike Ψ g g'` says that the productions through which a grammar contains itself are
followed by those of another one through a stretch and its copy. The productions here are those that
stand inside of brackets or statements, so that no expression ends with them: what follows the
stretch does not matter (`Stretch.Inner`). Those that an expression can end with are followed right
up to the end of the stretch (`Stretch.Outer`).
-/

namespace WithScope

open Stretch.Follows

namespace Stretch

variable (Ψ : Stretch)

/-- The second parser follows the first inside of the stretch. -/
def Inner {α : Type} [Relocatable α] (p q : Parser α) : Prop :=
  ∀ env s₁ s₂, Ψ.Follows .clear (Ψ.after .clear) false env s₁ s₂ p q

/-- The second parser follows the first up to the end of the stretch, and the first passes a
token. -/
def Outer {α : Type} [Relocatable α] (p q : Parser α) : Prop :=
  ∀ env s₁ s₂, Ψ.Follows .within Ψ.Abreast true env s₁ s₂ p q

variable {Ψ} {α : Type} [Relocatable α] {p q : Parser α}

theorem Outer.inner (h : Ψ.Outer p q) : Ψ.Inner p q :=
  fun env s₁ s₂ => Follows.any (Follows.clear (h env s₁ s₂) Same.abreast)

theorem Outer.near (h : Ψ.Outer p q) {taken : Bool} {env : Surrounding} {s₁ s₂ : ParserState} :
    Ψ.Follows .within Ψ.Near taken env s₁ s₂ p q := Follows.near (h env s₁ s₂)

end Stretch

/-- Modifiers hold no places. -/
instance : Relocatable Grammar.MethodModifiers := ⟨fun _ => id⟩

namespace Grammar

/-- The productions of a grammar are followed by those of another through a stretch and its
copy. -/
structure Alike (Ψ : Stretch) (g g' : Grammar) : Prop where
  statement : ∀ isTopLevel, Ψ.Inner (g.statement isTopLevel) (g'.statement isTopLevel)
  assignment : Ψ.Outer g.assignment g'.assignment
  operation : ∀ floor, Ψ.Outer (g.operation floor) (g'.operation floor)
  unary : Ψ.Outer g.unary g'.unary
  leftHandSide : Ψ.Outer g.leftHandSide g'.leftHandSide
  newExpr : Ψ.Outer g.newExpr g'.newExpr
  arrayPattern : Ψ.Inner g.arrayPattern g'.arrayPattern
  objectPattern : Ψ.Inner g.objectPattern g'.objectPattern

variable {Ψ : Stretch}

/-! ## Names and modifiers -/

/-- A name and a test of the token after it. -/
theorem inner_ahead (name : String) {test : Token → Bool} (htest : ∀ t, test (Ψ.moved t) = test t) :
    Ψ.Inner (do if ← Parser.atName name then return test (← Parser.peek) else return false)
      (do if ← Parser.atName name then return test (← Parser.peek) else return false) :=
  fun _ _ _ => ifName (fun hk => peek (by rw [hk]; rfl) fun t => done (htest t)) (done rfl)

theorem inner_atAsyncFunction : Ψ.Inner atAsyncFunction atAsyncFunction :=
  inner_ahead "async" fun _ => rfl

theorem inner_atLetDeclaration : Ψ.Inner atLetDeclaration atLetDeclaration :=
  inner_ahead "let" fun _ => rfl

section

variable {α : Type} [Relocatable α] {R : ParserState → ParserState → Prop} [Ψ.Level R]
  {taken : Bool} {env : Surrounding} {s₁ s₂ : ParserState} {p q p' q' : Parser α}

/-- One of two parsers, as a name stands before a token that passes a test. -/
theorem follows_ahead {name : String} {test : Token → Bool}
    (htest : ∀ t, test (Ψ.moved t) = test t)
    (hyes : s₁.token.kind = .identifier → Ψ.Follows .clear R taken env s₁ s₂ p q)
    (hno : Ψ.Follows .clear R taken env s₁ s₂ p' q') :
    Ψ.Follows .clear R taken env s₁ s₂
      ((do if ← Parser.atName name then return test (← Parser.peek) else return false) >>=
        fun b => if b = true then p else p')
      ((do if ← Parser.atName name then return test (← Parser.peek) else return false) >>=
        fun b => if b = true then q else q') := by
  have hahead (p p' : Parser α) :
      ((do if ← Parser.atName name then return test (← Parser.peek) else return false) >>=
        fun b => if b = true then p else p') =
      (do if ← Parser.atName name then
            let t ← Parser.peek
            if test t then p else p'
          else p') := by
    rw [bind_assoc]
    refine congrArg (_ >>= ·) (funext fun b => ?_)
    cases b <;> simp
  rw [hahead, hahead]
  refine ifName (fun hk => peek (by rw [hk]; rfl) fun t => ?_) hno
  exact ite (by rw [htest]) (fun _ => hyes hk) fun _ => hno

end

theorem inner_methodModifiers : Ψ.Inner methodModifiers methodModifiers := by
  intro env s₁ s₂
  have hskip {s₁ : ParserState} (hk : s₁.token.kind = .identifier) : s₁.token.kind.isPlain := by
    rw [hk]
    rfl
  refine follows_ahead (fun _ => rfl) (fun hk => take (skip (hskip hk)) fun _ _ _ => ?_) ?_
  · exact pass (eatMark _) fun _ _ _ => done rfl
  refine follows_ahead (fun _ => rfl) (fun hk => take (skip (hskip hk)) fun _ _ _ => ?_) ?_
  · exact done rfl
  refine follows_ahead (fun _ => rfl) (fun hk => take (skip (hskip hk)) fun _ _ _ => ?_) ?_
  · exact done rfl
  · exact pass (eatMark _) fun _ _ _ => done rfl

/-! ## Lists -/

theorem itemsWithRest {α : Type} [Relocatable α] {close : Punctuator} {item rest item' rest' : Parser α}
    (hitem : Ψ.Inner item item') (hrest : Ψ.Inner rest rest') :
    Ψ.Inner (Parser.itemsWithRest close item rest) (Parser.itemsWithRest close item' rest') := by
  intro env s₁ s₂
  refine repeatFrom rfl fun items s₁ s₂ => eaten rfl (fun _ _ => ?_) fun _ => ifKind (fun _ => ?_) ?_
  · exact done (congrArg Sum.inr List.map_reverse.symm)
  · refine pass (hrest _ _ _) fun last _ _ => take (expectMark _) fun _ _ _ => done ?_
    exact congrArg Sum.inr (List.map_reverse (l := last :: items)).symm
  · exact fun _ => pass (hitem _ _ _) fun _ _ _ => done rfl

namespace Alike

variable {g g'' : Grammar} (h : Alike Ψ g g')
include h

/-! ## Expressions in brackets -/

theorem inner_spreadOrAssignment : Ψ.Inner g.spreadOrAssignment g'.spreadOrAssignment := by
  intro env s₁ s₂
  refine here (eaten rfl (fun _ _ => ?_) fun _ => h.assignment.inner _ _ _)
  exact pass (h.assignment.inner _ _ _) fun _ _ _ => spanFrom rfl (done rfl)

theorem inner_key : Ψ.Inner g.key g'.key := by
  intro env s₁ s₂
  refine kind ?_
  split
  case h_5 hk =>
    refine take (skip (by rw [hk]; rfl)) fun _ _ _ => ?_
    exact pass (allowIn fun _ => h.assignment.inner _ _ _) fun _ _ _ =>
      take (expectMark _) fun _ _ _ => done rfl
  case h_6 => exact take identName fun _ _ _ => done rfl
  case h_1 hk | h_4 hk => exact take (bump (by rw [hk]; rfl)) fun _ _ _ => done rfl
  case h_2 hk | h_3 hk => exact take (bump (by rw [hk]; rfl)) fun _ _ _ => done rfl

/-! ## Patterns that declare names -/

theorem inner_bindingTarget : Ψ.Inner g.bindingTarget g'.bindingTarget := by
  intro env s₁ s₂
  refine kind ?_
  split
  · exact h.arrayPattern _ _ _
  · exact h.objectPattern _ _ _
  · exact take ident fun _ _ _ => done rfl

theorem inner_bindingElement : Ψ.Inner g.bindingElement g'.bindingElement := by
  intro env s₁ s₂
  refine here (pass (h.inner_bindingTarget _ _ _) fun _ _ _ => ?_)
  refine eaten rfl (fun _ _ => ?_) fun _ => done rfl
  exact pass (allowIn fun _ => h.assignment.inner _ _ _) fun _ _ _ => spanFrom rfl (done rfl)

theorem inner_restBinding : Ψ.Inner g.restBinding g'.restBinding := by
  intro env s₁ s₂
  exact here (take (expectMark _) fun _ _ _ =>
    pass (h.inner_bindingTarget _ _ _) fun _ _ _ => spanFrom rfl (done rfl))

theorem inner_bindingElementOrHole :
    Ψ.Inner g.bindingElementOrHole g'.bindingElementOrHole := by
  intro env s₁ s₂
  refine eaten rfl (fun _ _ => done rfl) fun _ => ?_
  exact map (itemAndComma (h.inner_bindingElement _ _ _)) fun _ => rfl

theorem inner_arrayPatternBody : Ψ.Inner g.arrayPatternBody g'.arrayPatternBody := by
  intro env s₁ s₂
  refine here (take (expectMark _) fun _ _ _ => pass ?_ fun _ _ _ => spanFrom rfl (done (by simp)))
  exact itemsWithRest h.inner_bindingElementOrHole
    (fun _ _ _ => map (h.inner_restBinding _ _ _) fun _ => rfl) _ _ _

omit h in
theorem inner_restProperty : Ψ.Inner Grammar.restProperty Grammar.restProperty := by
  intro env s₁ s₂
  exact here (take (expectMark _) fun _ _ _ => take ident fun _ _ _ => spanFrom rfl (done rfl))

theorem inner_bindingProperty : Ψ.Inner g.bindingProperty g'.bindingProperty := by
  intro env s₁ s₂
  refine here (pass (atKind _) fun mayBeShorthand _ _ => pass (h.inner_key _ _ _) fun key _ _ => ?_)
  refine eaten rfl (fun _ _ => ?_) fun _ => ?_
  · exact pass (h.inner_bindingElement _ _ _) fun _ _ _ => spanFrom rfl (done rfl)
  cases key with
  | ident id =>
    refine ite Iff.rfl (fun _ => fail) fun _ => eaten rfl (fun _ _ => ?_) fun _ => ?_
    · exact pass (allowIn fun _ => h.assignment.inner _ _ _) fun _ _ _ =>
        spanFrom rfl (done rfl)
    · exact spanFrom rfl (done rfl)
  | _ => exact unexpected

theorem inner_objectPatternBody : Ψ.Inner g.objectPatternBody g'.objectPatternBody := by
  intro env s₁ s₂
  refine here (take (expectMark _) fun _ _ _ => pass ?_ fun _ _ _ => spanFrom rfl (done (by simp)))
  exact itemsWithRest (fun _ _ _ => itemAndComma (h.inner_bindingProperty _ _ _))
    inner_restProperty _ _ _

/-- The parameters of a function begin with a parenthesis, wherever it stands. -/
theorem follows_params {R : ParserState → ParserState → Prop} [Ψ.Level R] {env : Surrounding}
    {s₁ s₂ : ParserState} : Ψ.Follows .clear R true env s₁ s₂ g.params g'.params :=
  take (expectMark _) fun _ _ _ =>
    itemsWithRest (fun _ _ _ => itemAndComma (h.inner_bindingElement _ _ _)) h.inner_restBinding _ _ _

end Alike

end Grammar

end WithScope
