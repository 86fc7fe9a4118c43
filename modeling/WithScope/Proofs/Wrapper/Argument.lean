import WithScope.Proofs.Grammar.AlikeStatement
import WithScope.Proofs.Grammar.Bracketed
import WithScope.Proofs.Token.Footing
import WithScope.Proofs.Tree.Placeless

/-!
# What is returned, in parentheses

An argument of a `return` is an expression, with commas or without. Handed on, it stands in
parentheses, where the same text is read as items separated by commas: there they could still be the
parameters of an arrow function. `Grammar.Alike.outcome_parenItems` says that the items are those of
the expression, and that they end at the closing parenthesis.
-/

namespace WithScope

open Relation (ReflTransGen TransGen)
open Stretch (Abreast Border Near)
open WithScope.Parser (Outcome)

variable {Ψ : Stretch} {env : Surrounding} {s₁ s₂ s₁' : ParserState}

/-! ## The end of the stretch -/

/-- A reader that is right after the stretch has left it. -/
theorem Stretch.Near.border (h : Ψ.Near s₁ s₂) (hclosed : Ψ.IsClosed) (hend : Ψ.AtEnd s₁) :
    Ψ.Border s₁ s₂ := by
  refine h.resolve_left fun hsame => ?_
  obtain ⟨cs, hcs⟩ := hclosed
  obtain ⟨x, hx, hx₂⟩ := hsame.abreast.rest
  obtain ⟨before, text, hstands, -⟩ := hsame.abreast.steady₁.exists_before
  obtain ⟨before₂, text₂, hstands₂, -⟩ := hsame.abreast.steady₂.exists_before
  rcases hstands.eof with ⟨heof, -⟩ | ⟨-, htext⟩
  · rcases hstands₂.eof with ⟨-, -, hnil⟩ | ⟨hne, -⟩
    · rw [hx₂, hcs, List.append_eq_nil_iff] at hnil
      cases hnil.2
    · exact hne (hsame.abreast.kind.trans heof)
  · have hlastEnd := hsame.abreast.steady₁.sound.lastEnd_le
    have hstop := hsame.abreast.steady₁.stop_add
    have hpos := Lexer.byteLength_pos htext
    rw [hstands.span] at hlastEnd
    rw [hstands.span, hx, byteLength_append] at hstop
    simp only [Stretch.AtEnd, placeAfter, byteLength_append] at hend hlastEnd hstop
    omega

/-- No digit follows what ends with the last token, without its semicolon or before it. -/
theorem ParserState.Tight.exists_end {source : List Char} {s : ParserState} (h : s.Tight source)
    (hend : s.token.kind = .punctuator .semicolon ∨ s.token.kind = .punctuator .rightBrace ∨
      s.token.kind = .eof ∨ s.token.newlineBefore = true) :
    ∃ before rest, source = before ++ rest ∧ s.lastEnd = placeAfter before ∧
      rest.head?.any Char.isDigit = false := by
  obtain ⟨before, gap, hs⟩ := h.stands
  refine ⟨before, _, hs.source_eq.trans (List.append_assoc ..), hs.lastEnd, ?_⟩
  cases gap with
  | cons c gap => exact GapAfter.isDigit_eq_false hs.gapAfter
  | nil =>
    have hmark {mark : Punctuator} {c : Char} (hk : s.token.kind = .punctuator mark)
        (hmem : ([c], mark) ∈ Punctuator.allSpellings) : s.token.spelling.toList = [c] :=
      Punctuator.eq_spelling hmem (hk ▸ h.spelled)
    rcases hend with hk | hk | hk | hline
    · rw [hmark hk (show ([';'], .semicolon) ∈ Punctuator.allSpellings by decide)]
      rfl
    · rw [hmark hk (show (['}'], .rightBrace) ∈ Punctuator.allSpellings by decide)]
      rfl
    · rcases hs.token.eof with ⟨-, htext, hrest⟩ | ⟨hne, -⟩
      · rw [htext, hrest]
        rfl
      · exact absurd hk hne
    · rw [hs.newlineBefore] at hline
      cases hline

namespace Parser

variable {α : Type}

/-- Further items, round by round. -/
theorem iterate_afterCommas (item : Parser α) (c : Char) (budget : List Char) (items : List α) :
    iterate (fun items => do
        if ← eatMark .comma then return .inl ((← item) :: items) else return .inr items.reverse)
      (c :: budget) items = (do
        if ← atMark .comma then
          discard bump
          let x ← item
          iterate (fun items => do
              if ← eatMark .comma then return .inl ((← item) :: items)
              else return .inr items.reverse)
            budget (x :: items)
        else return items.reverse) := by
  rw [iterate, eatMark, eatKind_ite, bind_assoc]
  refine congrArg (_ >>= ·) (funext fun b => ?_)
  cases b <;> simp

/-- After a comma there are further items. -/
theorem leaves_afterCommas {s : ParserState} (item : Parser α) (hk : s.token.kind = .punctuator .comma) :
    Leaves env s (afterCommas item) fun items _ => items ≠ [] := by
  rw [afterCommas_eq]
  refine .repeatFrom (P := fun items s => items = [] → s.token.kind = .punctuator .comma)
    (fun items s hitems => ?_) fun _ => hk
  rw [eatMark, eatKind_ite]
  refine .look (leaves_atKind _) fun b hb => .ite (fun _ => ?_) fun hnot => .pure ?_
  · exact .after fun _ _ => .after fun x s => .pure fun hnil => (List.cons_ne_nil _ _ hnil).elim
  · exact fun hnil => hnot (hb.2 (hitems (List.reverse_eq_nil_iff.1 hnil)))

end Parser

namespace Grammar

/-- What comes after an item in parentheses. -/
def parenItemsAfter (items : List Expr) : Parser (List Expr ⊕ ParenItems) := do
  if ← Parser.atMark .rightParen then return .inr ⟨items.reverse, none, false⟩
  else
    Parser.expectMark .comma
    if ← Parser.atMark .rightParen then return .inr ⟨items.reverse, none, true⟩
    else return .inl items

namespace Alike

variable {n m : Nat} (h : Alike Ψ (nest n) (nest m))
include h

/-- The next item is read on both sides, and then what comes after it. -/
theorem outcome_parenItemsStep {R : List Expr ⊕ ParenItems → ParserState → Prop} {item : Expr}
    (before : List Expr) (hs : s₁.Steady Ψ.source)
    (hrun : (nest n).assignment env s₁ = .ok (item, s₁')) (habreast : Ψ.Abreast s₁ s₂)
    (hw : Ψ.Within s₁')
    (hafter : ∀ s₂', Ψ.Near s₁' s₂' → s₁'.opened = s₁.opened →
      Outcome SyntaxError.Scarce env s₂' (parenItemsAfter (Ψ.moved item :: before)) R) :
    Outcome SyntaxError.Scarce env s₂ ((nest m).parenItemsStep before) R := by
  have hne {mark : Punctuator} (hmark : mark = .rightParen ∨ mark = .dotDotDot) :
      s₂.token.kind ≠ .punctuator mark := by
    rw [habreast.kind]
    intro hk
    refine assignment_ne_ok n ?_ _ hrun
    rcases hmark with rfl | rfl
    · exact .inl hk
    · exact .inr hk
  refine .ifKind_ne (hne (.inl rfl)) (.ifKind_ne (hne (.inr rfl)) ?_)
  refine ((h.assignment env s₁ s₂ hs item s₁' hrun).2 habreast hw).bind ?_
  rintro _ s₂' ⟨rfl, hnear, hopened⟩
  exact hafter s₂' hnear (hopened.trans (Int.add_zero _))

/-- The items that are left are those of the expression. -/
theorem outcome_parenItemsAfter (hclosed : Ψ.IsClosed) (first : Expr) (budget : List Char) :
    ∀ (budget' : List Char) (items others : List Expr) s₁ s₂ s₁', s₁.Steady Ψ.source →
      Parser.iterate (fun items => do
        if ← Parser.eatMark .comma then return .inl ((← (nest n).assignment) :: items)
        else return .inr items.reverse) budget items env s₁ = .ok (others, s₁') →
      ReflTransGen ParserState.Pass s₁ s₁' ∧ (Ψ.Near s₁ s₂ → Ψ.AtEnd s₁' →
        Outcome SyntaxError.Scarce env s₂ (parenItemsAfter (Ψ.moved (items ++ [first])))
          fun r m₂ => Outcome SyntaxError.Scarce env m₂
            (match r with
              | .inl before => Parser.iterate (nest m).parenItemsStep budget' before
              | .inr list => pure list)
            fun list s₂' => list = ⟨Ψ.moved (first :: others), none, false⟩ ∧
              Ψ.Border s₁' s₂' ∧ s₁'.opened = s₁.opened) := by
  induction budget with
  | nil => exact fun _ _ _ _ _ _ _ hrun => by cases hrun
  | cons c budget ih =>
    intro budget' items others s₁ s₂ s₁' hs hrun
    rw [Parser.iterate_afterCommas] at hrun
    by_cases hk : s₁.token.kind = .punctuator .comma
    · rw [Parser.atMark, Parser.run_atKind_of_eq hk] at hrun
      obtain ⟨⟨_, m₁⟩, hbump, hrun⟩ := exists_of_bind_eq_ok
        (show (_ >>= fun x => _) = Except.ok (others, s₁') from hrun)
      obtain ⟨⟨item, k₁⟩, hitem, hrun⟩ := exists_of_bind_eq_ok
        (show (_ >>= fun x => _) = Except.ok (others, s₁') from hrun)
      have hpast := Parser.leaves_discardBump.of_run hbump
      have hpass : s₁.Pass m₁ := .token (by simp [hk]) hpast
      have hm := hs.past hpast
      have htrail := (h.assignment env m₁ s₂ hm item k₁ hitem).1
      have hk₁ := hm.path htrail.path
      have hnext (budget' : List Char) (k₂ : ParserState) :=
        ih budget' (item :: items) others k₁ k₂ s₁' hk₁ hrun
      have hpath := (hnext [] s₂).1
      refine ⟨.head hpass (htrail.path.trans hpath), fun hnear hend => ?_⟩
      have hw : Ψ.Within k₁ := Stretch.Within.of_path (.inr ⟨hclosed, hend⟩) hk₁ hpath
      have hin := Stretch.Within.inside hw hm (htrail.passed rfl)
      have hsame := hnear.same (hin.of_path hs (.single hpass))
      obtain ⟨m₂, hpast₂, hsame'⟩ := hsame.abreast.past_inside hpast hin
      have hk₂ := hsame.abreast.kind.trans hk
      refine .ifKind_ne (by simp [hk₂]) (.expectMark hpast₂ hk₂ (.ifKind_ne ?_ ?_))
      · rw [hsame'.abreast.kind]
        exact fun hparen => assignment_ne_ok n (.inl hparen) _ hitem
      cases budget' with
      | nil => exact .inr rfl
      | cons c budget' =>
        refine Outcome.bind (h.outcome_parenItemsStep _ hm hitem hsame'.abreast hw
          fun k₂ hnear hopened => ?_) fun r k hr => hr
        refine ((hnext budget' k₂).2 hnear hend).mono fun r k hr => ?_
        have hopened' : k₁.opened = s₁.opened :=
          hopened.trans (ParserState.Past.opened_eq hpast (by rw [hk]; rfl))
        rw [← hopened']
        cases r <;> exact hr
    · rw [Parser.atMark, Parser.run_atKind_of_ne hk] at hrun
      cases hrun
      refine ⟨.refl, fun hnear hend => ?_⟩
      have hborder := hnear.border hclosed hend
      have hitems : (Ψ.moved (items ++ [first])).reverse = Ψ.moved (first :: items.reverse) := by
        rw [show first :: items.reverse = (items ++ [first]).reverse by simp]
        exact List.map_reverse.symm
      exact .ifKind_eq hborder.kind.1 ⟨congrArg (ParenItems.mk · none false) hitems, hborder, rfl⟩

omit h in
/-- An expression is its first item, and the others after commas. -/
theorem exists_items {e : Expr} (hrun : (nest n).expression env s₁ = .ok (e, s₁')) :
    ∃ first k₁ others, (nest n).assignment env s₁ = .ok (first, k₁) ∧
      Parser.afterCommas (nest n).assignment env k₁ = .ok (others, s₁') ∧
      placeless (joined first others) = placeless e := by
  obtain ⟨⟨first, k₁⟩, hfirst, hrun⟩ := exists_of_bind_eq_ok
    (show ((nest n).assignment env s₁ >>= fun x => _) = Except.ok (e, s₁') from hrun)
  by_cases hk : k₁.token.kind = .punctuator .comma
  · rw [Parser.atMark, Parser.run_atKind_of_eq hk] at hrun
    obtain ⟨⟨others, m₁⟩, hothers, hrun⟩ := exists_of_bind_eq_ok
      (show (_ >>= fun x => _) = Except.ok (e, s₁') from hrun)
    cases hrun
    refine ⟨first, k₁, others, hfirst, hothers, ?_⟩
    obtain ⟨second, others, rfl⟩ := List.exists_cons_of_ne_nil
      ((Parser.leaves_afterCommas _ hk).of_run hothers)
    rfl
  · rw [Parser.atMark, Parser.run_atKind_of_ne hk] at hrun
    cases hrun
    refine ⟨first, s₁', [], hfirst, ?_, rfl⟩
    rw [Parser.afterCommas_eq]
    refine Parser.run_repeatFrom ?_
    rw [Parser.eatMark, Parser.eatKind_ite, Parser.run_atKind_of_ne hk]
    rfl

/-- The items in parentheses are those of the expression that the stretch is. -/
theorem outcome_parenItems {e : Expr} (hs : s₁.Steady Ψ.source)
    (hrun : (nest n).expression env s₁ = .ok (e, s₁')) (habreast : Ψ.Abreast s₁ s₂)
    (hclosed : Ψ.IsClosed) (hend : Ψ.AtEnd s₁') :
    Outcome SyntaxError.Scarce env s₂ (Parser.repeatFrom [] (nest m).parenItemsStep)
      fun list s₂' => ∃ first others, list = ⟨first :: others, none, false⟩ ∧
        placeless (joined first others) = placeless e ∧ Ψ.Border s₁' s₂' ∧
        s₁'.opened = s₁.opened := by
  obtain ⟨first, k₁, others, hfirst, hothers, hjoined⟩ := exists_items hrun
  have hk₁ := hs.path (h.assignment env s₁ s₂ hs first k₁ hfirst).1.path
  have hafter (budget' : List Char) (k₂ : ParserState) :=
    h.outcome_parenItemsAfter hclosed first _ budget' [] others k₁ k₂ s₁' hk₁
      (show Parser.iterate _ ('\x00' :: '\x00' :: k₁.lexer.rest) [] env k₁ = _ by
        rw [Parser.afterCommas_eq] at hothers; exact hothers)
  have hw : Ψ.Within k₁ := Stretch.Within.of_path (.inr ⟨hclosed, hend⟩) hk₁ (hafter [] s₂).1
  show Outcome _ env s₂ (Parser.iterate _ ('\x00' :: '\x00' :: s₂.lexer.rest) []) _
  refine Outcome.bind (h.outcome_parenItemsStep [] hs hfirst habreast hw fun k₂ hnear hopened =>
    ((hafter ('\x00' :: s₂.lexer.rest) k₂).2 hnear hend).mono fun r k hr => ?_) fun r k hr => hr
  rw [hopened] at hr
  have hlist (list : ParenItems) (s₂' : ParserState) : (list = ⟨Ψ.moved (first :: others), none, false⟩ ∧
      Ψ.Border s₁' s₂' ∧ s₁'.opened = s₁.opened) → ∃ first others,
      list = ⟨first :: others, none, false⟩ ∧ placeless (joined first others) = placeless e ∧
        Ψ.Border s₁' s₂' ∧ s₁'.opened = s₁.opened := by
    rintro ⟨rfl, hborder⟩
    refine ⟨Ψ.moved first, Ψ.moved others, rfl, ?_, hborder⟩
    rw [joined_moved]
    exact (placeless_relocated _ _).trans hjoined
  cases r <;> exact Outcome.mono hr hlist

end Alike

end Grammar

end WithScope
