import WithScope.Proofs.Token.Extent
import WithScope.Proofs.Token.Gaps
import WithScope.Token.Lexer

/-!
# Where a lexer stands

A lexer has read a part of its text, and its position is the place after that part (`Lexer.Stands`).
It goes on in two steps: past a gap, and past what it reads there, be that a token or a fault.

* `Lexer.next_stands`, `Lexer.rescanRegExp_stands` — the lexer moves on to the place after what it
  has read;
* `Lexer.next_token`, `Lexer.rescanRegExp_token` — a token that it gives stands between the two
  places;
* `Lexer.next_error`, `Lexer.rescanRegExp_error` — a fault that it gives shows between them, the
  illegal escape in a string literal apart.
-/

namespace WithScope

open Position (Joint)

/-! ## Gaps -/

/-- White space, line ends and comments, in front of the text `rest`. A line comment goes on to the
end of its line, a block comment to its first `*/`. -/
inductive Gap (rest : List Char) : List Char → Prop
  | nil : Gap rest []
  | blank {c : Char} {gap : List Char} (hc : isBlank c) (hgap : Gap rest gap) : Gap rest (c :: gap)
  | lineEnd {c : Char} {gap : List Char} (hc : isLineTerminator c) (hgap : Gap rest gap) :
      Gap rest (c :: gap)
  | lineComment {text gap : List Char} (htext : ∀ c ∈ text, isLineTerminator c = false)
      (hend : ∀ c ∈ (gap ++ rest).head?, isLineTerminator c) (hgap : Gap rest gap) :
      Gap rest ('/' :: '/' :: text ++ gap)
  | blockComment {text gap : List Char} (htext : ¬ ['*', '/'] <:+: text ++ ['*'])
      (hgap : Gap rest gap) : Gap rest ('/' :: '*' :: text ++ '*' :: '/' :: gap)

/-- A gap that may begin with a `#!` line, if nothing stands before it. -/
def GapAfter (before rest gap : List Char) : Prop :=
  Gap rest gap ∨ before = [] ∧ ∃ line gap', gap = '#' :: '!' :: line ++ gap' ∧
    (∀ c ∈ line, isLineTerminator c = false) ∧
    (∀ c ∈ (gap' ++ rest).head?, isLineTerminator c) ∧ Gap rest gap'

/-- A line has no line end in it, and stops at one or at the end of the text. -/
theorem splitLine_spec (cs : List Char) : (∀ c ∈ (splitLine cs).1, isLineTerminator c = false) ∧
    ∀ c ∈ (splitLine cs).2.head?, isLineTerminator c :=
  ⟨fun c hc => by simpa using List.mem_takeWhile_imp hc,
    fun c hc => by simpa using head_dropWhile cs c hc⟩

/-- The comment ends at the first `*/`. -/
theorem splitAfterCommentEnd?_spec {cs comment rest : List Char}
    (h : splitAfterCommentEnd? cs = some (comment, rest)) :
    ∃ text, comment = text ++ ['*', '/'] ∧ ¬ ['*', '/'] <:+: text ++ ['*'] := by
  fun_induction splitAfterCommentEnd? cs generalizing comment with
  | case1 => cases h
  | case2 cs =>
    cases h
    exact ⟨[], rfl, by decide⟩
  | case3 c cs hc ih =>
    obtain ⟨⟨comment, rest⟩, hcomment, heq⟩ := Option.map_eq_some_iff.1 h
    cases heq
    have happend := splitAfterCommentEnd?_append hcomment
    obtain ⟨text, rfl, htext⟩ := ih hcomment
    refine ⟨c :: text, rfl, fun hinfix => ?_⟩
    rcases List.infix_cons_iff.1 hinfix with ⟨tail, htail⟩ | hinfix
    · obtain rfl : '*' = c := (List.cons.inj htail).1
      -- the text would go on with a slash after this star
      cases text with
      | nil => cases (List.cons.inj htail).2
      | cons d text =>
        obtain ⟨rfl, -⟩ := List.cons.inj (List.cons.inj htail).2
        exact hc _ rfl happend.symm
    · exact htext hinfix

/-- Blanks and line ends are a gap, and stop at what is neither. -/
theorem splitBlanks_gap (cs : List Char) : Gap (splitBlanks cs).2 (splitBlanks cs).1 := by
  fun_induction splitBlanks cs with
  | case1 => exact .nil
  | case2 cs _ ih =>
    obtain ⟨htext, hend⟩ := splitLine_spec cs
    refine .lineComment htext ?_ ih
    simpa only [prepend, splitBlanks_append] using hend
  | case3 cs comment h _ ih =>
    obtain ⟨text, hcomment, htext⟩ := splitAfterCommentEnd?_spec h
    simp only [prepend, hcomment, List.cons_append, List.append_assoc, List.nil_append]
    exact .blockComment htext ih
  | case4 => exact .nil
  | case5 c cs _ _ hc ih =>
    rcases Bool.or_eq_true_iff.1 hc with hc | hc
    · exact .blank hc ih
    · exact .lineEnd hc ih
  | case6 => exact .nil

/-- A gap is as long as it can be: neither white space nor a line end follows it. -/
theorem head_splitBlanks (cs : List Char) :
    ∀ c ∈ (splitBlanks cs).2.head?, (isBlank c || isLineTerminator c) = false := by
  fun_induction splitBlanks cs with
  | case1 => simp
  | case2 cs _ ih => exact ih
  | case3 cs comment h _ ih => exact ih
  | case4 =>
    intro c hc
    cases hc
    rfl
  | case5 c cs _ _ _ ih => exact ih
  | case6 c cs _ _ hc =>
    intro d hd
    cases hd
    simpa using hc

/-- What is skipped and what is left are the whole text. -/
theorem splitTrivia_append (atOrigin : Bool) (cs : List Char) :
    (splitTrivia atOrigin cs).1 ++ (splitTrivia atOrigin cs).2 = cs := by
  unfold splitTrivia
  split
  · rw [prepend_fst_append_snd, splitBlanks_append, splitLine_append]
  · exact splitBlanks_append cs

/-- What is left after skipping starts with no blank and no line end. -/
theorem head_splitTrivia (atOrigin : Bool) (cs : List Char) :
    ∀ c ∈ (splitTrivia atOrigin cs).2.head?, (isBlank c || isLineTerminator c) = false := by
  unfold splitTrivia
  split
  · exact head_splitBlanks _
  · exact head_splitBlanks cs

/-- What is skipped is a gap, and a first line only at the beginning of the text. -/
theorem splitTrivia_gap {atOrigin : Bool} {before : List Char} (horigin : atOrigin → before = [])
    (cs : List Char) :
    GapAfter before (splitTrivia atOrigin cs).2 (splitTrivia atOrigin cs).1 := by
  unfold splitTrivia
  split
  · next tail =>
    obtain ⟨hline, hend⟩ := splitLine_spec ('#' :: '!' :: tail)
    refine .inr ⟨horigin rfl, (splitLine tail).1, _, rfl, fun c hc => hline c ?_, ?_,
      splitBlanks_gap _⟩
    · exact List.mem_cons_of_mem _ (List.mem_cons_of_mem _ hc)
    · simpa only [prepend, splitBlanks_append] using hend
  · exact .inl (splitBlanks_gap cs)

/-! ## Faults -/

/-- The fault of a string literal that stands after `before` and has an illegal escape after the
part `text` of its body: at the offset of the backslash, but in the line and column of the opening
quote. -/
def SyntaxError.inLiteral (before : List Char) (cause : EscapeCause) (text : List Char) :
    SyntaxError :=
  ⟨.lexical (.escape cause), ⟨byteLength before + 1 + byteLength text, (placeAfter before).line,
    (placeAfter before).column⟩⟩

/-- Where an error shows: at a place of the text, unless it is an illegal escape in a string
literal. -/
def SyntaxError.Placed (source : List Char) (e : SyntaxError) : Prop :=
  IsPlace source e.position ∨ ∃ before cs cause text, source = before ++ cs ∧
    EscapeInLiteral cs cause text ∧ e = .inLiteral before cause text

/-- The place after two texts is reached by the second one from the place after the first. -/
theorem placeAfter_append {before text : List Char} (h : Joint before text) :
    (placeAfter before).after text = placeAfter (before ++ text) := by
  rw [← after_origin, ← after_origin, Position.after_append _ h]

/-- A text that is not cut in a line end is not cut in one by any beginning of what follows. -/
theorem Position.Joint.left {before text rest : List Char} (h : Joint before (text ++ rest)) :
    Joint before text := by
  intro hlast hhead
  refine h hlast ?_
  rw [List.head?_append, hhead]
  rfl

/-- A gap keeps CR and LF together. -/
theorem Position.Joint.of_head_not_lineTerminator {before rest : List Char}
    (h : ∀ c ∈ rest.head?, (isBlank c || isLineTerminator c) = false) : Joint before rest :=
  .of_head fun hhead => by cases h '\n' hhead

/-- A token stands in a text: it is spelled `text`, after `before` and in front of `rest`. -/
structure Token.Stands (t : Token) (before text rest : List Char) : Prop where
  /-- its span goes from the place before it to the place after it -/
  span : t.span = ⟨placeAfter before, placeAfter (before ++ text)⟩
  /-- its spelling -/
  spelling : t.spelling = String.ofList text
  /-- only the last token is empty, and it is at the end of the text -/
  eof : t.kind = .eof ∧ text = [] ∧ rest = [] ∨ t.kind ≠ .eof ∧ text ≠ []
  /-- the gap before it is over -/
  head : ∀ c ∈ (text ++ rest).head?, (isBlank c || isLineTerminator c) = false

namespace Lexer

/-! ## The places of a lexer -/

/-- A lexer stands after the part `before` of its text. -/
structure Stands (l : Lexer) (before : List Char) : Prop where
  /-- the rest has not been read -/
  source : l.source = before ++ l.rest
  /-- the position is that of the part read -/
  position : l.position = placeAfter before
  /-- not between CR and LF -/
  joint : Joint before l.rest

/-- At the start nothing has been read. -/
theorem ofSource_stands (source : List Char) : (ofSource source).Stands [] :=
  ⟨rfl, rfl, .of_not_mem (by simp)⟩

/-- The depths that are tracked leave the text as it is. -/
@[simp] theorem track_source (l : Lexer) (k : TokenKind) : (l.track k).source = l.source := by
  unfold track; split <;> rfl

/-- The depths that are tracked leave the rest as it is. -/
@[simp] theorem track_rest (l : Lexer) (k : TokenKind) : (l.track k).rest = l.rest := by
  unfold track; split <;> rfl

/-- The depths that are tracked leave the place as it is. -/
@[simp] theorem track_position (l : Lexer) (k : TokenKind) :
    (l.track k).position = l.position := by
  unfold track; split <;> rfl

/-- What a lexer reads at the end of a gap, and the substitutions that are open after it: at the
brace that ends the innermost substitution the rest of its template, and a token elsewhere. -/
def upcoming (l : Lexer) (rest : List Char) : List Nat × Reading :=
  if rest.head? = some '}' ∧ l.substitutions.head? = some l.depth then
    (l.substitutions.tail, readTemplate true '}' rest.tail)
  else (l.substitutions, readToken rest)

/-- The gap in front of a lexer and the text after it. -/
def gapAhead (l : Lexer) : List Char × List Char := splitTrivia (l.position.offset == 0) l.rest

/-- The lexer with the substitutions that are open after the gap in front of it. -/
def afterGap (l : Lexer) : Lexer := { l with substitutions := (l.upcoming l.gapAhead.2).1 }

/-- A token is read after the gap that is ahead, and is told whether the gap has a line end. -/
theorem next_eq (l : Lexer) :
    l.next = advance l.afterGap (l.position.after l.gapAhead.1)
      (l.gapAhead.1.any isLineTerminator) (l.upcoming l.gapAhead.2).2 := by
  unfold next afterGap upcoming gapAhead
  rw [skipTrivia_eq]
  obtain ⟨gap, rest⟩ := splitTrivia (l.position.offset == 0) l.rest
  simp only [Skipped.of, Bool.false_or]
  by_cases hend : rest.head? = some '}' ∧ l.substitutions.head? = some l.depth
  · obtain ⟨cs, rfl⟩ := List.head?_eq_some_iff.1 hend.1
    obtain ⟨outer, hsubs⟩ := List.head?_eq_some_iff.1 hend.2
    rw [if_pos hend, hsubs]
    simp
  · rw [if_neg hend]
    split
    · next hsubs =>
      split
      · next hdepth => exact absurd ⟨rfl, by rw [hsubs, hdepth]; rfl⟩ hend
      · rfl
    · rfl

/-- Whatever is upcoming, its text and its rest are what was ahead. -/
theorem reads_upcoming (l : Lexer) (cs : List Char) : (l.upcoming cs).2.Splits cs := by
  unfold upcoming
  split
  · next h =>
    obtain ⟨tail, rfl⟩ := List.head?_eq_some_iff.1 h.1
    exact reads_readTemplate true tail
  · exact reads_readToken cs

/-- Only at the end of the text is nothing read. -/
theorem upcoming_ne_nil {l : Lexer} {cs w x : List Char} {k : TokenKind × TokenValue}
    (h : (l.upcoming cs).2 = ⟨w, x, .ok k⟩) : cs = [] ∧ k.1 = .eof ∨ w ≠ [] ∧ k.1 ≠ .eof := by
  unfold upcoming at h
  split at h
  · obtain ⟨-, w', rfl, -⟩ := localReader_readTemplate _ _ h
    refine .inr ⟨by simp, ?_⟩
    unfold readTemplate at h
    simp only at h
    split at h <;> cases h <;> exact TokenKind.noConfusion
  · cases cs with
    | nil =>
      cases h
      exact .inl ⟨rfl, rfl⟩
    | cons c cs =>
      exact .inr ⟨(readToken_exchange (List.cons_ne_nil _ _) h).2.1, ne_eof_of_reading h⟩

section Advance

variable {l : Lexer} {before cs : List Char} {r : Reading} {newlineBefore : Bool}

/-- After a reading, the lexer stands behind the text that was read. -/
theorem advance_stands (hsource : l.source = before ++ cs) (hjoint : Joint before cs)
    (hr : r.Splits cs) {start : Position} (hstart : start = placeAfter before) :
    (advance l start newlineBefore r).2.Stands (before ++ r.text) := by
  subst hstart
  have happend := hr.append
  have hplace : (placeAfter before).after r.text = placeAfter (before ++ r.text) :=
    placeAfter_append (.left (show Joint before (r.text ++ r.rest) by rwa [happend]))
  -- an empty reading leaves the lexer where it was, and any other ends where it splits the text
  have hjoint' : Joint (before ++ r.text) r.rest := by
    cases htext : r.text with
    | nil => rwa [List.append_nil, show r.rest = cs by rw [← happend, htext]; rfl]
    | cons c text => exact .append_left before (by simp) (htext ▸ hr.joint)
  have hsource' : l.source = before ++ r.text ++ r.rest := by
    rw [hsource, List.append_assoc, happend]
  unfold advance
  split
  · exact ⟨by simpa using hsource', by simpa using hplace, by simpa using hjoint'⟩
  · exact ⟨hsource', hplace, hjoint'⟩

/-- A token is made of the reading with the places around its text. -/
theorem advance_token (hjoint : Joint before cs) (hr : r.Splits cs) {start : Position}
    (hstart : start = placeAfter before) {t : Token}
    (h : (advance l start newlineBefore r).1 = .ok t) :
    r = ⟨r.text, r.rest, .ok (t.kind, t.value)⟩ ∧
      t = ⟨t.kind, t.value, ⟨placeAfter before, placeAfter (before ++ r.text)⟩,
        String.ofList r.text, newlineBefore⟩ := by
  subst hstart
  have hplace : (placeAfter before).after r.text = placeAfter (before ++ r.text) :=
    placeAfter_append (.left (show Joint before (r.text ++ r.rest) by rwa [hr.append]))
  unfold advance at h
  split at h
  · next kind value houtcome =>
    cases h
    simp only
    rw [hplace, ← houtcome]
    exact ⟨rfl, rfl⟩
  · cases h

/-- A fault of a reading is at a place of the text. -/
theorem advance_error (hsource : l.source = before ++ cs) (hjoint : Joint before cs)
    (hr : r.Splits cs) {start : Position} (hstart : start = placeAfter before) {e : SyntaxError}
    (h : (advance l start newlineBefore r).1 = .error e) :
    IsPlace l.source e.position ∨
      ∃ cause text, EscapeInLiteral cs cause text ∧ e = .inLiteral before cause text := by
  subst hstart
  unfold advance at h
  split at h
  · cases h
  · next fault houtcome =>
    cases h
    rcases hr.fault _ houtcome with ⟨text, rest, hplace, rfl, -⟩ | ⟨cause, text, hcause, hescape, hplace⟩
    · refine .inl ⟨before ++ text, rest, by rw [hsource, List.append_assoc], ?_⟩
      rw [hplace]
      exact placeAfter_append hjoint.left
    · refine .inr ⟨cause, text, hescape, ?_⟩
      rw [hplace, hcause, SyntaxError.inLiteral]
      simp only [FaultPlace.position, placeAfter, Nat.add_assoc]

/-- A reading leaves the text as it is. -/
theorem advance_source (l : Lexer) (start : Position) (newlineBefore : Bool) (r : Reading) :
    (advance l start newlineBefore r).2.source = l.source := by
  unfold advance
  split <;> simp

/-- After a token the lexer has its rest ahead. -/
theorem advance_rest (l : Lexer) (start : Position) (newlineBefore : Bool) (r : Reading) :
    (advance l start newlineBefore r).2.rest = r.rest := by
  unfold advance
  split <;> simp

end Advance

/-! ## The next token -/

section Next

variable {l : Lexer} {before : List Char}

/-- The gap ahead begins where the lexer stands. -/
theorem Stands.gap (h : l.Stands before) :
    GapAfter before l.gapAhead.2 l.gapAhead.1 ∧ l.gapAhead.1 ++ l.gapAhead.2 = l.rest ∧
      l.position.after l.gapAhead.1 = placeAfter (before ++ l.gapAhead.1) ∧
      ∀ c ∈ l.gapAhead.2.head?, (isBlank c || isLineTerminator c) = false := by
  have happend : l.gapAhead.1 ++ l.gapAhead.2 = l.rest := splitTrivia_append _ _
  refine ⟨splitTrivia_gap (fun hzero => ?_) _, happend, ?_, head_splitTrivia _ _⟩
  · rw [h.position] at hzero
    cases before with
    | nil => rfl
    | cons c before =>
      have := c.utf8Size_pos
      simp [placeAfter] at hzero
      omega
  · rw [h.position]
    have hjoint : Joint before (l.gapAhead.1 ++ l.gapAhead.2) := happend ▸ h.joint
    exact placeAfter_append hjoint.left

/-- What the lexer reads stands after the gap. -/
theorem Stands.source_gap (h : l.Stands before) :
    l.source = before ++ l.gapAhead.1 ++ l.gapAhead.2 := by
  rw [h.source, List.append_assoc, h.gap.2.1]

/-- The next token leaves the text as it is. -/
theorem next_source (l : Lexer) : l.next.2.source = l.source := by
  rw [next_eq, advance_source]
  rfl

/-- After a token, the lexer stands behind the gap and the token's text. -/
theorem next_stands (h : l.Stands before) : ∃ text,
    l.next.2.Stands (before ++ l.gapAhead.1 ++ text) := by
  obtain ⟨-, -, hstart, hhead⟩ := h.gap
  rw [next_eq]
  exact ⟨_, advance_stands (l := l.afterGap) h.source_gap
    (.of_head_not_lineTerminator hhead) (reads_upcoming l _) hstart⟩

/-- A fault shows at a place of the text, unless the text after the gap begins with a string literal
that has an illegal escape. -/
theorem next_error (h : l.Stands before) {e : SyntaxError} (herror : l.next.1 = .error e) :
    IsPlace l.source e.position ∨ ∃ cause text, EscapeInLiteral l.gapAhead.2 cause text ∧
      e = .inLiteral (before ++ l.gapAhead.1) cause text := by
  obtain ⟨-, -, hstart, hhead⟩ := h.gap
  rw [next_eq] at herror
  exact advance_error (l := l.afterGap) h.source_gap
    (.of_head_not_lineTerminator hhead) (reads_upcoming l _) hstart herror

/-- A token that the lexer gives stands after a gap. -/
theorem next_token (h : l.Stands before) {t : Token} (htoken : l.next.1 = .ok t) :
    ∃ gap text, GapAfter before (text ++ l.next.2.rest) gap ∧
      t.newlineBefore = gap.any isLineTerminator ∧
      t.Stands (before ++ gap) text l.next.2.rest ∧
      l.next.2.Stands (before ++ gap ++ text) := by
  obtain ⟨hgap, -, hstart, hhead⟩ := h.gap
  have hjoint : Joint (before ++ l.gapAhead.1) l.gapAhead.2 := .of_head_not_lineTerminator hhead
  have hreads := reads_upcoming l l.gapAhead.2
  have happend := hreads.append
  rw [next_eq] at htoken ⊢
  obtain ⟨hread, ht⟩ := advance_token hjoint hreads hstart htoken
  rw [advance_rest]
  refine ⟨l.gapAhead.1, (l.upcoming l.gapAhead.2).2.text, by rwa [happend], by rw [ht],
    ⟨by rw [ht], by rw [ht], ?_, by rwa [happend]⟩,
    advance_stands (l := l.afterGap) h.source_gap hjoint hreads hstart⟩
  rcases upcoming_ne_nil hread with ⟨hend, heof⟩ | hne
  · exact .inl ⟨heof, List.append_eq_nil_iff.1 (happend.trans hend)⟩
  · exact .inr hne.symm

end Next

/-! ## A regular expression in place of a token -/

section Rescan

variable {l : Lexer} {t : Token} {before text rest : List Char}

/-- Reading a slash again starts at the slash, with the token's own flag. -/
theorem rescanRegExp_eq (ht : t.Stands before text rest)
    (hsource : l.source = before ++ text ++ rest) :
    l.rescanRegExp t = advance l (placeAfter before) t.newlineBefore (readRegExp (text ++ rest)) := by
  rw [rescanRegExp, ht.span, hsource, List.append_assoc]
  exact congrArg (fun cs => advance l _ _ (readRegExp cs)) (dropBytes_byteLength_append _ _)

/-- What is read for the slash is a text and a rest. -/
theorem reads_rescanned {cs : List Char}
    (hhead : ∀ c ∈ cs.head?, (isBlank c || isLineTerminator c) = false) :
    (readRegExp cs).Splits cs := by
  cases cs with
  | nil => exact reads_fault rfl (.nil_right _) (Fault.within_start _ _)
  | cons c cs =>
    refine reads_readRegExp ?_ cs
    rintro rfl
    cases hhead '\r' rfl

/-- A regular expression is not empty. -/
theorem readRegExp_ne_nil {cs w x : List Char} {k : TokenKind × TokenValue}
    (h : readRegExp cs = ⟨w, x, .ok k⟩) : k.1 ≠ .eof ∧ w ≠ [] := by
  unfold readRegExp at h
  split at h
  · cases h
  · simp only at h
    split at h <;> cases h
    exact ⟨TokenKind.noConfusion, by simp [prepend]⟩

/-- A regular expression without an end is a fault at its beginning. -/
theorem readRegExp_place {cs : List Char} {f : Fault} (h : (readRegExp cs).outcome = .error f) :
    f.place = .after [] := by
  unfold readRegExp at h
  split at h
  · cases h
    rfl
  · simp only at h
    split at h <;> cases h
    rfl

/-- Reading a slash again leaves the text as it is. -/
theorem rescanRegExp_source (ht : t.Stands before text rest)
    (hsource : l.source = before ++ text ++ rest) : (l.rescanRegExp t).2.source = l.source := by
  rw [rescanRegExp_eq ht hsource, advance_source]

/-- After reading a slash again, the lexer stands behind what was read. -/
theorem rescanRegExp_stands (ht : t.Stands before text rest)
    (hsource : l.source = before ++ text ++ rest) :
    ∃ text', (l.rescanRegExp t).2.Stands (before ++ text') := by
  rw [rescanRegExp_eq ht hsource]
  exact ⟨_, advance_stands (by rw [hsource, List.append_assoc])
    (.of_head_not_lineTerminator ht.head) (reads_rescanned ht.head) rfl⟩

/-- A fault of reading a slash again is at a place of the text. -/
theorem rescanRegExp_error (ht : t.Stands before text rest)
    (hsource : l.source = before ++ text ++ rest) {e : SyntaxError}
    (herror : (l.rescanRegExp t).1 = .error e) : IsPlace l.source e.position := by
  rw [rescanRegExp_eq ht hsource] at herror
  unfold advance at herror
  split at herror
  · cases herror
  · next fault houtcome =>
    cases herror
    refine ⟨before, text ++ rest, by rw [hsource, List.append_assoc], ?_⟩
    rw [readRegExp_place houtcome]
    rfl

/-- A regular expression stands where the token in its place stood. -/
theorem rescanRegExp_token (ht : t.Stands before text rest)
    (hsource : l.source = before ++ text ++ rest) {t' : Token}
    (htoken : (l.rescanRegExp t).1 = .ok t') :
    ∃ text', t'.Stands before text' (l.rescanRegExp t).2.rest ∧
      (l.rescanRegExp t).2.Stands (before ++ text') ∧ t'.kind ≠ .eof := by
  have hjoint : Joint before (text ++ rest) := .of_head_not_lineTerminator ht.head
  have hreads := reads_rescanned ht.head
  have happend := hreads.append
  rw [rescanRegExp_eq ht hsource] at htoken ⊢
  obtain ⟨hread, ht'⟩ := advance_token hjoint hreads rfl htoken
  rw [advance_rest]
  have hne := readRegExp_ne_nil hread
  exact ⟨_, ⟨by rw [ht'], by rw [ht'], .inr hne, by rw [happend]; exact ht.head⟩,
    advance_stands (by rw [hsource, List.append_assoc]) hjoint hreads rfl, hne.1⟩

end Rescan

end Lexer

end WithScope
