import WithScope.Proofs.Grammar.Reads
import WithScope.Proofs.Grammar.Tells
import WithScope.Proofs.Token.Adjoining
import WithScope.Proofs.Token.RegExp
import WithScope.Proofs.Token.Spelled

/-!
# How the current token stands in the text

A state of a parser knows its current token and where the one before it ends. `ParserState.Tight`
says how the text looks from there: a gap and nothing else stands between the two, it is known
whether a line ends in it, and the token is spelled as its kind says. Every move keeps this, so it
holds of all states that the first one of a text leads to, wherever the grammar has come.

* `ParserState.Tight.move`, `ParserState.tight_first` — the step and the beginning;
* `ParserState.Tight.word`, `ParserState.Tight.mark`, `ParserState.Tight.name` — the text of the
  current token;
* `ParserState.Tight.adjoins`, `ParserState.Tight.ended` — the gap in front of it;
* `ParserState.From` — the states that come after a place.
-/

namespace WithScope

namespace ParserState

variable {source before gap : List Char} {s s' : ParserState} {start p : Position}

/-- The current token stands after `before` and a gap, and the last one ended where the gap begins.
-/
structure StandsAfter (source before gap : List Char) (s : ParserState) : Prop where
  source_eq : source = before ++ gap ++ (s.token.spelling.toList ++ s.lexer.rest)
  lastEnd : s.lastEnd = placeAfter before
  gapAfter : GapAfter before (s.token.spelling.toList ++ s.lexer.rest) gap
  newlineBefore : s.token.newlineBefore = gap.any isLineTerminator
  /-- the gap has taken all line comments -/
  ne_comment : ∀ v, s.token.spelling.toList ++ s.lexer.rest ≠ '/' :: '/' :: v
  token : s.token.Stands (before ++ gap) s.token.spelling.toList s.lexer.rest
  lexer : s.lexer.Stands (before ++ gap ++ s.token.spelling.toList)

/-- The current token stands in the text after a gap, and is spelled as its kind says. -/
structure Tight (source : List Char) (s : ParserState) : Prop where
  sound : s.Sound source
  spelled : s.token.kind.Spelled s.token.value s.token.spelling.toList s.lexer.rest
  stands : ∃ before gap, s.StandsAfter source before gap

/-! ## Moves -/

/-- The token that is read after a part of the text. -/
theorem tight_next {l l' : Lexer} {t : Token} (hl : l.Stands before) (hsource : l.source = source)
    (hnext : l.next = (.ok t, l'))
    (hsound : (⟨l', t, placeAfter before⟩ : ParserState).Sound source) :
    (⟨l', t, placeAfter before⟩ : ParserState).Tight source := by
  have ht : l.next.1 = .ok t := congrArg Prod.fst hnext
  have hspelled := Lexer.next_spelled ht
  have hkept := Lexer.next_source l
  obtain ⟨gap, text, hgap, hline, hstands, hl'⟩ := Lexer.next_token hl ht
  rw [hnext] at hspelled hkept hgap hstands hl'
  obtain rfl : text = t.spelling.toList := by rw [hstands.spelling, String.toList_ofList]
  have hwhole : source = before ++ gap ++ (t.spelling.toList ++ l'.rest) := by
    rw [← hsource, ← hkept, hl'.source, List.append_assoc (before ++ gap)]
  exact ⟨hsound, hspelled, before, gap, hwhole, rfl, hgap, hline, Lexer.next_ne_comment hnext,
    hstands, hl'⟩

/-- What is read again stands where it stood, and the text from there on is the same. -/
theorem StandsAfter.reread (hs : s.StandsAfter source before gap) (h : s.Reread s') :
    s'.StandsAfter source before gap ∧
      s'.token.spelling.toList ++ s'.lexer.rest = s.token.spelling.toList ++ s.lexer.rest := by
  obtain ⟨t, l, hrescan, rfl⟩ := h
  have ht : (s.lexer.rescanRegExp s.token).1 = .ok t := congrArg Prod.fst hrescan
  have hsource := hs.lexer.source
  have hkept := Lexer.rescanRegExp_source hs.token hsource
  have hline := Lexer.rescanRegExp_newlineBefore ht
  obtain ⟨text, hstands, hl, -⟩ := Lexer.rescanRegExp_token hs.token hsource ht
  rw [hrescan] at hstands hl hkept
  obtain rfl : text = t.spelling.toList := by rw [hstands.spelling, String.toList_ofList]
  have hrest : t.spelling.toList ++ l.rest = s.token.spelling.toList ++ s.lexer.rest := by
    have hsame := hl.source.symm.trans (hkept.trans hsource)
    rw [List.append_assoc (before ++ gap), List.append_assoc (before ++ gap)] at hsame
    exact List.append_cancel_left hsame
  refine ⟨⟨?_, hs.lastEnd, ?_, ?_, ?_, hstands, hl⟩, hrest⟩
  · rw [hrest]
    exact hs.source_eq
  · rw [hrest]
    exact hs.gapAfter
  · rw [hline]
    exact hs.newlineBefore
  · rw [hrest]
    exact hs.ne_comment

theorem Tight.reread (h : s.Tight source) (hreread : s.Reread s') : s'.Tight source := by
  obtain ⟨before, gap, hs⟩ := h.stands
  have hs' := (hs.reread hreread).1
  obtain ⟨t, l, hrescan, rfl⟩ := hreread
  have hspelled := Lexer.rescanRegExp_spelled (congrArg Prod.fst hrescan)
  rw [hrescan] at hspelled
  exact ⟨(h.sound.rescan hrescan).1, hspelled, before, gap, hs'⟩

theorem Tight.move (h : s.Tight source) (hmove : s.Move s') : s'.Tight source := by
  cases hmove with
  | next hnext =>
    obtain ⟨before, gap, hs⟩ := h.stands
    have hstop : s.token.span.stop = placeAfter (before ++ gap ++ s.token.spelling.toList) := by
      rw [hs.token.span]
    have hsource : s.lexer.source = source := by
      rw [hs.lexer.source, hs.source_eq, List.append_assoc (before ++ gap)]
    have hsound := h.sound.next hnext
    rw [hstop] at hsound ⊢
    exact tight_next hs.lexer hsource hnext hsound
  | rescan hrescan => exact h.reread ⟨_, _, hrescan, rfl⟩

/-- The state in which a text begins to be read. -/
theorem tight_first {t : Token} {l : Lexer} (h : (Lexer.ofSource source).next = (.ok t, l)) :
    (⟨l, t, .origin⟩ : ParserState).Tight source :=
  tight_next (Lexer.ofSource_stands source) rfl h (sound_first h)

/-! ## The text of the current token -/

namespace Tight

section

variable (h : s.Tight source)
include h

theorem textBetween : TextBetween source s.here s.token.span.stop s.token.spelling.toList := by
  obtain ⟨before, gap, hs⟩ := h.stands
  refine ⟨before ++ gap, s.lexer.rest, ?_, ?_, ?_⟩
  · rw [hs.source_eq, List.append_assoc (before ++ gap)]
  · rw [here, hs.token.span]
  · rw [hs.token.span]

/-- A reserved word has one spelling. -/
theorem word {word : Keyword} {spelling : String} (hk : s.token.kind = .keyword word)
    (hword : (spelling, word) ∈ Keyword.spellings) :
    TextBetween source s.here s.token.span.stop spelling.toList := by
  have hspelled := h.spelled
  rw [hk] at hspelled
  exact Keyword.eq_spelling hword hspelled ▸ h.textBetween

/-- A punctuator has one spelling. -/
theorem mark {mark : Punctuator} {spelling : List Char} (hk : s.token.kind = .punctuator mark)
    (hmark : (spelling, mark) ∈ Punctuator.allSpellings) :
    TextBetween source s.here s.token.span.stop spelling := by
  have hspelled := h.spelled
  rw [hk] at hspelled
  exact Punctuator.eq_spelling hmark hspelled ▸ h.textBetween

/-- An identifier stands for its name, however it is spelled. -/
theorem name {name : String} (hname : s.token.isIdentifier name) :
    NameBetween source s.here s.token.span.stop name := by
  obtain ⟨hk, htext⟩ := Bool.and_eq_true_iff.1 hname
  replace hk := eq_of_beq hk
  replace htext := eq_of_beq htext
  obtain ⟨before, gap, hs⟩ := h.stands
  have hspelled := h.spelled
  rw [hk] at hspelled
  obtain ⟨text, hvalue⟩ := exists_text_of_readIdentifier hspelled
  rw [Token.text, hvalue] at htext
  refine ⟨before ++ gap, s.token.spelling.toList, s.lexer.rest, ?_, ?_, ?_, ?_⟩
  · rw [hs.source_eq, List.append_assoc (before ++ gap)]
  · rw [here, hs.token.span]
  · rw [hs.token.span]
  · rw [← htext, ← hvalue]
    exact hspelled

/-- A slash, alone or in `/=`, that is read again is the beginning of a regular expression. -/
theorem regExp (hk : s.token.kind.isSlash) (hreread : s.Reread s') : ∃ body flags,
    s'.token.text.toList = '/' :: body ++ '/' :: flags ∧
      RegExpBetween source s'.here s'.token.span.stop body flags := by
  obtain ⟨before, gap, hs⟩ := h.stands
  obtain ⟨hs', hsame⟩ := hs.reread hreread
  obtain ⟨text, htext⟩ : ∃ text, s.token.spelling.toList = '/' :: text := by
    have hspelled := h.spelled
    obtain hk | hk : s.token.kind = .punctuator .slash ∨ s.token.kind = .punctuator .slashEqual := by
      simpa [TokenKind.isSlash] using hk
    · exact ⟨[], Punctuator.eq_spelling (by decide) (hk ▸ hspelled)⟩
    · exact ⟨['='], Punctuator.eq_spelling (by decide) (hk ▸ hspelled)⟩
  obtain ⟨t, l, hrescan, rfl⟩ := hreread
  obtain ⟨opening, body, flags, hspelling, hvalue, hparts⟩ := Lexer.rescanRegExp_parts hrescan
  obtain ⟨hsource, -, -, -, hcomment, hstands, -⟩ := hs'
  simp only [hspelling, htext] at hsource hcomment hstands hsame
  obtain rfl : opening = '/' := (List.cons.inj hsame).1
  refine ⟨body, flags, by rw [hvalue, hspelling], before ++ gap, l.rest, ?_, ?_, ?_, ?_, hparts⟩
  · rw [hsource, List.append_assoc (before ++ gap)]
  · rw [here, hstands.span]
  · rw [hstands.span]
  · rintro rfl
    exact hcomment (flags ++ l.rest) rfl

/-! ## The gap in front of it -/

theorem gapBetween : ∃ gap, GapBetween source s.lastEnd s.here gap ∧
    s.token.newlineBefore = gap.any isLineTerminator := by
  obtain ⟨before, gap, hs⟩ := h.stands
  refine ⟨gap, ⟨before, _, hs.source_eq, hs.lastEnd, ?_, hs.gapAfter⟩, hs.newlineBefore⟩
  rw [here, hs.token.span]

/-- The current token is on the line of the last one. -/
theorem adjoins (hline : s.token.newlineBefore = false) : Adjoins source s.lastEnd s.here := by
  obtain ⟨gap, hgap, hnewline⟩ := h.gapBetween
  refine ⟨gap, hgap, fun c hc => ?_⟩
  rw [hline] at hnewline
  simpa using List.any_eq_false.1 hnewline.symm c hc

/-- What ends with the last token may do without its semicolon. -/
theorem ended (start : Position) (hbreak : s.token.kind = .punctuator .rightBrace ∨
    s.token.kind = .eof ∨ s.token.newlineBefore = true) : Ended source ⟨start, s.lastEnd⟩ := by
  obtain ⟨before, gap, hs⟩ := h.stands
  refine .inr ⟨before, gap, _, hs.source_eq, hs.lastEnd, hs.gapAfter, ?_⟩
  rcases hbreak with hbrace | heof | hline
  · have hspelled := h.spelled
    rw [hbrace] at hspelled
    have htext : s.token.spelling.toList = ['}'] := Punctuator.eq_spelling (by decide) hspelled
    rw [htext]
    exact .inl rfl
  · rcases hs.token.eof with ⟨-, htext, hrest⟩ | ⟨hne, -⟩
    · exact .inr (.inl (by rw [htext, hrest, List.append_nil]))
    · exact absurd heof hne
  · rw [hs.newlineBefore, List.any_eq_true] at hline
    exact .inr (.inr hline)

end

/-! ## Two tokens on a line -/

variable (h : s.Tight source) (h' : s'.Tight source)
include h h'

/-- A reserved word, and the token after it on the same line. -/
theorem afterWord {word : Keyword} {spelling : String} (hlast : s'.lastEnd = s.token.span.stop)
    (hline : s'.token.newlineBefore = false) (hk : s.token.kind = .keyword word)
    (hword : (spelling, word) ∈ Keyword.spellings) : AfterWord source s.here spelling s'.here :=
  ⟨s.token.span.stop, h.word hk hword, hlast ▸ h'.adjoins hline⟩

/-- A name, and the token after it on the same line. -/
theorem afterName {name : String} (hlast : s'.lastEnd = s.token.span.stop)
    (hline : s'.token.newlineBefore = false) (hname : s.token.isIdentifier name) :
    AfterName source s.here name s'.here :=
  ⟨s.token.span.stop, h.name hname, hlast ▸ h'.adjoins hline⟩

end Tight

/-! ## States after a place -/

/-- The current token does not stand in front of `start`, a place of the text. -/
structure From (source : List Char) (start : Position) (s : ParserState) : Prop where
  tight : s.Tight source
  isPlace_start : IsPlace source start
  start_le : start.offset ≤ s.here.offset

theorem Tight.fromHere (h : s.Tight source) : s.From source s.here :=
  ⟨h, h.sound.isPlace_here, le_rfl⟩

theorem Tight.fromLastEnd (h : s.Tight source) : s.From source s.lastEnd :=
  ⟨h, h.sound.isPlace_lastEnd, h.sound.lastEnd_le⟩

namespace From

theorem move (h : s.From source start) (hmove : s.Move s') : s'.From source start := by
  have htight := h.tight.move hmove
  refine ⟨htight, h.isPlace_start, h.start_le.trans ?_⟩
  cases hmove with
  | next => exact h.tight.sound.start_le_stop.trans htight.sound.lastEnd_le
  | rescan hrescan => exact (congrArg Position.offset (h.tight.sound.rescan hrescan).2.1).ge

instance : Kept (From source start) := ⟨From.move⟩

/-- What comes after a token comes after all that the token comes after. -/
theorem trans (h : s.From source start) (h' : s'.From source s.here) : s'.From source start :=
  ⟨h'.tight, h.isPlace_start, h.start_le.trans h'.start_le⟩

/-- From the start on, the text up to the current token and the token. -/
theorem upTo (h : s.From source start) {text : List Char}
    (htext : TextBetween source s.here p text) :
    ∃ before, TextBetween source start p (before ++ text) :=
  htext.extend h.isPlace_start h.start_le

end From

end ParserState

end WithScope
