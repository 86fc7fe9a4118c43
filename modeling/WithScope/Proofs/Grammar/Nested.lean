import Mathlib.Logic.Relation
import WithScope.Proofs.Grammar.NestedStatement
import WithScope.Proofs.Token.Tiling
import WithScope.Wrapper.Basic

/-!
# Places in programs

A program that has been read is nested, whatever its source and the options, and every fault is
found in its source.

* `parse_nested` — how the spans of a tree lie to each other: every node is inside of its parent, is
  not empty, and ends before its next sibling begins;
* `positions_of_text` — whatever the lexer and the parser say of places agrees with the text in
  front of them, the illegal escape in a string literal apart.
-/

namespace WithScope

open WithScope.Parser (Reads Looks)

/-! ## Programs -/

variable {source : List Char}

/-- A program begins and ends at places of the text and has its statements between them, one after
the other. -/
structure Program.Nested (source : List Char) (p : Program) : Prop where
  start : IsPlace source p.loc.start
  stop : IsPlace source p.loc.stop
  start_le_stop : p.loc.start.offset ≤ p.loc.stop.offset
  row : Row source p.loc.start.offset p.loc.stop.offset (p.body.map .stmt)

theorem Grammar.Nests.program {g : Grammar} (h : g.Nests source) {env : Surrounding}
    {s : ParserState} (hs : s.Sound source) :
    Reads source env s g.program fun p _ => p.Nested source := by
  refine .here (.bind ((Adds.collectUntil (.atKind _) (h.statement true).toAdds).ofFlatMap
    (Since.here hs)) fun body s' h₁ => .token (.read (.pure ?_)))
  have hstop := h₁.sound.start_le_stop
  refine ⟨hs.isPlace_here, h₁.sound.isPlace_stop, h₁.start_le.trans hstop, ?_⟩
  exact h₁.row.weaken le_rfl (h₁.sound.lastEnd_le.trans hstop)

/-- What comes of a text: a program that is nested in it, or a fault that comes of reading it. -/
theorem parse_spec (options : Options) (source : List Char) :
    match parse options source with
    | .ok p => p.Nested source
    | .error e => e.Reported source := by
  unfold parse
  rcases hfirst : (Lexer.ofSource source).next with ⟨e | t, l⟩
  · exact .inr ⟨_, _, .next .start, congrArg Prod.fst hfirst ▸ List.mem_cons_self ..⟩
  · have hprogram : Reads source options.surrounding _ _ fun (p : Program) _ =>
        p.Nested source :=
      (Grammar.nests_nest Grammar.maxNesting).program (ParserState.sound_first hfirst)
    simp only
    unfold Reads at hprogram
    split at hprogram
    · next p s' hread =>
      rw [hread]
      exact hprogram
    · next e hread =>
      rw [hread]
      exact hprogram

theorem nested_of_parse {options : Options} {p : Program} (h : parse options source = .ok p) :
    p.Nested source := by
  have hspec := parse_spec options source
  rwa [h] at hspec

theorem reported_of_parse {options : Options} {e : SyntaxError}
    (h : parse options source = .error e) : e.Reported source := by
  have hspec := parse_spec options source
  rwa [h] at hspec

/-- One construct is another one or stands inside of it, however deep. -/
def Located.Inside : Located → Located → Prop := Relation.ReflTransGen fun m n => m ∈ n.children

/-- What stands inside of a construct that is nested is nested. -/
theorem Located.Nested.inside {m n : Located} (h : n.Nested source) (hm : m.Inside n) :
    m.Nested source := by
  induction hm using Relation.ReflTransGen.head_induction_on with
  | refl => exact h
  | head hmem _ ih => exact ih.row.nested _ hmem

theorem Program.Nested.inside {p : Program} (h : p.Nested source) {s : Stmt} (hs : s ∈ p.body)
    {n : Located} (hn : n.Inside (.stmt s)) : n.Nested source :=
  (h.row.nested _ (List.mem_map_of_mem hs)).inside hn

theorem IsPlace.offset_le {place : Position} (h : IsPlace source place) :
    place.offset ≤ byteLength source := by
  obtain ⟨before, rest, rfl, rfl⟩ := h
  simp [placeAfter]

/-- **Nesting.** In a program that has been read every node begins and ends at the boundaries of
characters, takes up some of the source, stands inside of its parent, and ends before its next
sibling begins. The program itself may be empty. -/
theorem parse_nested {options : Options} {source : List Char} {p : Program}
    (h : parse options source = .ok p) :
    (IsPlace source p.loc.start ∧ IsPlace source p.loc.stop ∧
      p.loc.start.offset ≤ p.loc.stop.offset ∧ p.loc.stop.offset ≤ byteLength source ∧
      (∀ s ∈ p.body, p.loc.start.offset ≤ s.loc.start.offset ∧
        s.loc.stop.offset ≤ p.loc.stop.offset) ∧
      (p.body.map Located.stmt).Pairwise Located.Precedes) ∧
    ∀ s ∈ p.body, ∀ n : Located, n.Inside (.stmt s) →
      IsPlace source n.loc.start ∧ IsPlace source n.loc.stop ∧
      n.loc.start.offset < n.loc.stop.offset ∧ n.loc.stop.offset ≤ byteLength source ∧
      (∀ c ∈ n.children, n.loc.start.offset ≤ c.loc.start.offset ∧
        c.loc.stop.offset ≤ n.loc.stop.offset) ∧
      n.children.Pairwise Located.Precedes := by
  have hp := nested_of_parse h
  refine ⟨⟨hp.start, hp.stop, hp.start_le_stop, hp.stop.offset_le,
    fun s hs => hp.row.within _ (List.mem_map_of_mem hs), hp.row.ordered⟩, fun s hs n hn => ?_⟩
  have hn := hp.inside hs hn
  exact ⟨hn.isPlace_start, hn.isPlace_stop, hn.start_lt_stop, hn.isPlace_stop.offset_le,
    hn.row.within, hn.row.ordered⟩

/-- A default value in a pattern and an import without `as`, each of which keeps a name twice. -/
theorem parse_nested_repeated_names :
    ∃ p, parse fragmentOptions "({a = 1} = b); import {c} from 'd'".toList = .ok p ∧
      p.body.length = 2 ∧ (p.body.map Located.stmt).Pairwise Located.Precedes ∧
      ∀ s ∈ p.body, ∀ n : Located, n.Inside (.stmt s) →
        n.loc.start.offset < n.loc.stop.offset ∧ n.children.Pairwise Located.Precedes := by
  have hread : (fun p => p.body.length) <$>
      (parse fragmentOptions "({a = 1} = b); import {c} from 'd'".toList).toOption = some 2 := by
    decide +kernel
  cases h : parse fragmentOptions "({a = 1} = b); import {c} from 'd'".toList with
  | error e =>
    rw [h] at hread
    cases hread
  | ok p =>
    rw [h] at hread
    obtain ⟨⟨-, -, -, -, -, hordered⟩, hnodes⟩ := parse_nested h
    refine ⟨p, rfl, Option.some.inj hread, hordered, fun s hs n hn => ?_⟩
    obtain ⟨-, -, hlt, -, -, hchildren⟩ := hnodes s hs n hn
    exact ⟨hlt, hchildren⟩

/-! ## Positions -/

end WithScope
