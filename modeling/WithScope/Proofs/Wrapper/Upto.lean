import WithScope.Proofs.Grammar.Stretch
import WithScope.Proofs.Token.Footing
import WithScope.Proofs.Wrapper.Unwrapped

/-!
# From one return to the next

Between two of the returns that are replaced, the text and the changed one are the same. So they fall
into stretches, each of which ends with the word `return` (`Stretch.Upto`), and the last one with
the text. A new stretch begins where a return ends: `exists_stretch`.

`ParserState.Before rs s` says that a parser which goes on from the state `s` comes to the first of
the returns `rs`, if there is one. So nothing that it passes on the way lies after the stretch.
-/

namespace WithScope

open Relation (ReflTransGen TransGen)

/-! ## Returns in the text -/

/-- What makes a return hand its value on. -/
def Return.edit (source : List Char) (r : Return) : Edit := ⟨r.loc, r.rewritten source⟩

/-- What a return becomes begins with its word, and a space. -/
theorem Return.exists_rewritten (source : List Char) (r : Return) :
    ∃ y, r.rewritten source = "return".toList ++ ' ' :: y := by
  unfold Return.rewritten
  split
  · exact ⟨_, rfl⟩
  · exact ⟨_, rfl⟩

namespace ParserState

variable {source : List Char} {s s' : ParserState} {rs : List Return}

/-- The parser has the first of the returns before it, if there is one. -/
def Before (rs : List Return) (s : ParserState) : Prop :=
  ∀ r ∈ rs.head?, ∃ m, ReflTransGen Pass s m ∧ m.token.kind = .keyword .return ∧
    m.here = r.loc.start

theorem Before.of_path (h : Before rs s') (hpath : ReflTransGen Pass s s') : Before rs s := by
  intro r hr
  obtain ⟨m, hm, hk, hhere⟩ := h r hr
  exact ⟨m, hpath.trans hm, hk, hhere⟩

/-- The current token has been given by a lexer that stood where the last one ends. -/
def Fresh (s : ParserState) : Prop :=
  ∃ l : Lexer, l.Sound ∧ l.next = (.ok s.token, s.lexer) ∧ l.position = s.lastEnd ∧
    l.source = s.lexer.source

theorem Steady.fresh_past (h : s.Steady source) (hpast : s.Past s') : s'.Fresh := by
  obtain ⟨t, l, hnext, rfl⟩ := hpast
  obtain ⟨-, -, -, -, hposition⟩ := h.exists_before
  have hsource := Lexer.next_source s.lexer
  rw [hnext] at hsource
  exact ⟨s.lexer, h.lexer, hnext, hposition, hsource.symm⟩

theorem Steady.fresh_pass (h : s.Steady source) (hpass : s.Pass s') : s'.Fresh := by
  cases hpass with
  | token _ hpast => exact h.fresh_past hpast
  | regExp _ hreread hpast => exact (h.reread hreread).fresh_past hpast

theorem Steady.fresh_passed (h : s.Steady source) (hpassed : TransGen Pass s s') : s'.Fresh := by
  obtain ⟨m, hpath, hpass⟩ := TransGen.tail'_iff.1 hpassed
  exact (h.path hpath).fresh_pass hpass

namespace Steady

variable (h : s.Steady source)
include h

/-- Where a reserved word ends, no name goes on. -/
theorem keyword_ends {word : Keyword} (hk : s.token.kind = .keyword word) :
    ∀ c ∈ s.lexer.rest.head?, isIdContinue c = false := by
  obtain ⟨given, hsession, hgiven⟩ := h.sound.session
  obtain ⟨before, text, rest, hsource, hstands, hends⟩ := hsession.keyword_ends _ hgiven word hk
  obtain ⟨before', text', hstands', hsource', -⟩ := h.exists_before
  have hstop : placeAfter (before ++ text) = placeAfter (before' ++ text') := by
    have := hstands.span.symm.trans hstands'.span
    exact congrArg Span.stop this
  rwa [(eq_of_placeAfter_eq (hsource.symm.trans hsource') hstop).2] at hends

/-- The text at the word `return`. -/
theorem source_of_return (hk : s.token.kind = .keyword .return) : ∃ before,
    source = before ++ "return".toList ++ s.lexer.rest ∧ s.here = placeAfter before := by
  obtain ⟨before, rest, hsource, hstart, hstop⟩ :=
    h.tight.word hk (show ("return", .return) ∈ Keyword.spellings by decide)
  obtain ⟨before', text', hstands', hsource', -⟩ := h.exists_before
  have hplace : placeAfter (before ++ "return".toList) = placeAfter (before' ++ text') := by
    rw [← hstop, hstands'.span]
  obtain ⟨-, rfl⟩ := eq_of_placeAfter_eq (hsource.symm.trans hsource') hplace
  exact ⟨before, hsource, hstart⟩

end Steady

end ParserState

/-! ## Stretches that end with returns -/

namespace Stretch

open ParserState (Before)

/-- The stretch ends with the word of the first of the returns, or with the text if there is none.
From there on the copy goes on with what becomes of that return, and then with the text in which
the others are replaced. -/
def Upto (Ψ : Stretch) : List Return → Prop
  | [] => Ψ.IsOpen
  | r :: rs =>
    (∃ before, Ψ.source = before ++ "return".toList ++ Ψ.tail ∧ r.loc.start = placeAfter before) ∧
    ∃ before rest result, Ψ.source = before ++ rest ∧ r.loc.stop = placeAfter before ∧
      Replaced before rest (rs.map (Return.edit Ψ.source)) result ∧
      "return".toList ++ Ψ.copyTail = r.rewritten Ψ.source ++ result

variable {Ψ : Stretch} {s : ParserState} {r : Return} {rs : List Return}

/-- The stretch ends where the lexer stands that has given the word. -/
theorem Upto.rest (h : Ψ.Upto (r :: rs)) (hs : s.Steady Ψ.source)
    (hk : s.token.kind = .keyword .return) (hhere : s.here = r.loc.start) :
    s.lexer.rest = Ψ.tail := by
  obtain ⟨⟨before, hsource, hstart⟩, -⟩ := h
  obtain ⟨before', hsource', hstart'⟩ := hs.source_of_return hk
  rw [List.append_assoc] at hsource hsource'
  obtain ⟨-, heq⟩ := eq_of_placeAfter_eq (hsource'.symm.trans hsource)
    (hstart'.symm.trans (hhere.trans hstart))
  exact List.append_cancel_left heq

/-- A parser that has the first of the returns before it is in the stretch. -/
theorem Upto.clear (h : Ψ.Upto rs) (hbefore : Before rs s) (hs : s.Steady Ψ.source) : Ψ.Clear s := by
  cases rs with
  | nil => exact ⟨.inl h, fun _ _ _ => .inl h⟩
  | cons r rs =>
    obtain ⟨m, hpath, hk, hhere⟩ := hbefore r rfl
    have hrest := h.rest (hs.path hpath) hk hhere
    have hin : Ψ.Inside m := inside_of_suffix (by rw [hk]; nofun) (hrest ▸ List.suffix_rfl)
    exact Clear.of_path ⟨hin, fun hpeeks => by rw [hk] at hpeeks; cases hpeeks⟩ hs hpath

end Stretch

open ParserState (Before)

/-- Up to the word of the first return, the text and the one with replaced returns are the same. -/
theorem Replaced.exists_return {source before rest result : List Char} {s : ParserState} {r : Return}
    {rs : List Return} (hsource : source = before ++ rest)
    (hreplaced : Replaced before rest ((r :: rs).map (Return.edit source)) result)
    (hs : s.Steady source) (hbefore : Before (r :: rs) s) :
    ∃ m kept tail, ReflTransGen ParserState.Pass s m ∧ m.token.kind = .keyword .return ∧
      rest = kept ++ "return".toList ++ m.lexer.rest ∧
      result = kept ++ "return".toList ++ ' ' :: tail ∧
      (∃ before, source = before ++ "return".toList ++ m.lexer.rest ∧
        r.loc.start = placeAfter before) ∧
      ∃ before rest result, source = before ++ rest ∧ r.loc.stop = placeAfter before ∧
        Replaced before rest (rs.map (Return.edit source)) result ∧
        "return".toList ++ ' ' :: tail = r.rewritten source ++ result := by
  obtain ⟨m, hpath, hk, hhere⟩ := hbefore r rfl
  obtain ⟨upto, hupto, hplace⟩ := (hs.path hpath).source_of_return hk
  obtain ⟨kept, covered, rest, result, rfl, rfl, hstart, hstop, hreplaced⟩ :=
    hreplaced.exists_of_cons
  obtain ⟨y, hy⟩ := r.exists_rewritten source
  -- what is kept ends where the word begins
  obtain ⟨rfl, hword⟩ : before ++ kept = upto ∧ covered ++ rest = "return".toList ++ m.lexer.rest := by
    refine eq_of_placeAfter_eq ?_ (hstart.symm.trans (hhere.symm.trans hplace))
    rw [← List.append_assoc upto, ← hupto, hsource]
    simp only [List.append_assoc]
  have hcopy : "return".toList ++ ' ' :: (y ++ result) = r.rewritten source ++ result := by
    rw [hy, List.append_assoc]
    rfl
  refine ⟨m, kept, y ++ result, hpath, hk, ?_, ?_, ⟨_, hupto, hstart⟩, before ++ kept ++ covered,
    rest, result, ?_, hstop, hreplaced, hcopy⟩
  · rw [List.append_assoc, hword, List.append_assoc]
  · rw [List.append_assoc kept "return".toList, hcopy, ← List.append_assoc]
    rfl
  · rw [hsource]
    simp only [List.append_assoc]

/-- A stretch begins where two lexers stand at matching places of a text and of the same text with
replaced returns. -/
theorem exists_stretch {source before rest result : List Char} (copy : List Char) {places : Alignment}
    {l₁ l₂ : Lexer} {s : ParserState} {rs : List Return} (h₁ : l₁.Sound) (h₂ : l₂.Sound)
    (hmatch : places.Match l₁.rest l₁.position l₂.position) (hsubs₁ : l₁.substitutions = [])
    (hsubs₂ : l₂.substitutions = []) (hrest₁ : l₁.rest = rest) (hrest₂ : l₂.rest = result)
    (hsource : source = before ++ rest)
    (hreplaced : Replaced before rest (rs.map (Return.edit source)) result)
    (hs : s.Steady source) (hnext : l₁.next = (.ok s.token, s.lexer)) (hbefore : Before rs s) :
    ∃ Ψ : Stretch, Ψ.source = source ∧ Ψ.copy = copy ∧ Ψ.places = places ∧ Ψ.Upto rs ∧
      ∃ l₂', l₂.next = (.ok (Ψ.moved s.token), l₂') ∧
        ∀ s₂, s₂.Steady copy → s₂.token = Ψ.moved s.token → s₂.lexer = l₂' → Ψ.Abreast s s₂ := by
  have haligned : Lexer.Aligned places l₁ l₂ :=
    ⟨hmatch, by rw [Lexer.enclosed, Lexer.enclosed, hsubs₁, hsubs₂]; rfl⟩
  subst hrest₁ hrest₂
  cases rs with
  | nil =>
    have hsame := hreplaced.eq_of_nil
    let Ψ : Stretch := ⟨source, copy, places, [], [], List.nil_suffix,
      ⟨[], [], [], rfl, rfl, .inr ⟨fun c hc => (by cases hc), rfl⟩⟩, id⟩
    exact ⟨Ψ, rfl, rfl, rfl, rfl, Stretch.next_inside (Ψ := Ψ) h₁ h₂ haligned
      ⟨l₁.rest, (List.append_nil _).symm, hsame.trans (List.append_nil _).symm⟩ hnext hs (.inl rfl)⟩
  | cons r rs =>
    obtain ⟨m, kept, tail, hpath, hk, hkept, hresult, hstart, hstop⟩ :=
      hreplaced.exists_return hsource hs hbefore
    have hm := hs.path hpath
    have hdigit : m.lexer.rest.head?.any Char.isDigit = false := by
      rw [Option.any_eq_false]
      intro c hc
      have hends := hm.keyword_ends hk c hc
      by_contra hdigit
      rw [isIdContinue_of_isDigit (by simpa using hdigit)] at hends
      cases hends
    let Ψ : Stretch := ⟨source, copy, places, m.lexer.rest, ' ' :: tail, hm.rest_suffix,
      ⟨[], _, _, rfl, rfl, .inr ⟨by rintro _ ⟨⟩; rfl, hdigit⟩⟩, fun h => (List.cons_ne_nil _ _ h).elim⟩
    have hin : Ψ.Inside m := Stretch.inside_of_suffix (by simp [hk]) List.suffix_rfl
    exact ⟨Ψ, rfl, rfl, rfl, ⟨hstart, hstop⟩, Stretch.next_inside (Ψ := Ψ) h₁ h₂ haligned
      ⟨kept ++ "return".toList, hkept, hresult⟩ hnext hs (hin.of_path hs hpath)⟩

end WithScope
