import WithScope.Proofs.Token.Gaps
import WithScope.Proofs.Token.Session
import WithScope.Proofs.Token.Stability

/-!
# Lexers move on

A token other than the last has characters, so a lexer that gives one moves on by at least one byte,
and at the end of the text it gives the last token again and again. Going back to a slash to read a
regular expression is no step back in the end: a regular expression is longer than the mark that it
was taken for.

* `Lexer.next_forward`, `Lexer.next_shorter` — a token is passed;
* `Lexer.next_of_eof` — the last token is given again;
* `Lexer.rescan_forward` — a regular expression ends past the mark it was taken for.
-/

namespace WithScope

/-- The token at the end of a text, at the given place. -/
def Token.last (place : Position) : Token := ⟨.eof, .none, ⟨place, place⟩, "", false⟩

namespace Lexer

variable {l l' : Lexer} {t r : Token} {e : SyntaxError}

/-! ## The next token -/

/-- What a lexer does to give a token: it skips the gap ahead and reads a stretch of text, which is
empty only at the end. -/
theorem next_split (h : l.next = (.ok t, l')) : ∃ gap text, l.rest = gap ++ text ++ l'.rest ∧
    l'.position = (l.position.after gap).after text ∧
    (t.kind = .eof ∧ text = [] ∧ l'.rest = [] ∨ t.kind ≠ .eof ∧ text ≠ []) := by
  rw [next_eq] at h
  obtain ⟨text, rest, k, hread, rfl, rfl⟩ := advance_inv h
  have happend := (reads_upcoming l l.gapAhead.2).append
  rw [hread] at happend
  have hgap : l.gapAhead.1 ++ l.gapAhead.2 = l.rest := splitTrivia_append _ _
  refine ⟨l.gapAhead.1, text, ?_, track_position _ _, ?_⟩
  · rw [track_rest, List.append_assoc, ← hgap, ← happend]
  · rw [track_rest]
    rcases upcoming_ne_nil hread with ⟨hend, heof⟩ | ⟨hne, hk⟩
    · exact .inl ⟨heof, List.append_eq_nil_iff.1 (happend.trans hend)⟩
    · exact .inr ⟨hk, hne⟩

/-- A token other than the last moves the lexer forward. -/
theorem next_forward (h : l.next = (.ok t, l')) (ht : t.kind ≠ .eof) :
    l.position.offset < l'.position.offset := by
  obtain ⟨gap, text, -, hposition, ⟨heof, -⟩ | ⟨-, hne⟩⟩ := next_split h
  · exact absurd heof ht
  · have := byteLength_pos hne
    rw [hposition, Position.offset_after, Position.offset_after]
    omega

/-- There is less to read after a token other than the last. -/
theorem next_shorter (h : l.next = (.ok t, l')) (ht : t.kind ≠ .eof) :
    l'.rest.length < l.rest.length := by
  obtain ⟨gap, text, hrest, -, ⟨heof, -⟩ | ⟨-, hne⟩⟩ := next_split h
  · exact absurd heof ht
  · have := List.length_pos_iff.2 hne
    rw [hrest, List.length_append, List.length_append]
    omega

/-- Where nothing is left, the lexer gives the last token and stays as it is. -/
theorem next_of_rest_nil (h : l.rest = []) : l.next = (.ok (.last l.position), l) := by
  obtain ⟨source, rest, position, depth, substitutions⟩ := l
  obtain rfl : rest = [] := h
  have hgap : gapAhead ⟨source, [], position, depth, substitutions⟩ = ([], []) := by
    unfold gapAhead
    cases position.offset == 0 <;> exact splitBlanks_nil
  rw [next_eq, afterGap, hgap]
  rfl

/-- After the last token the lexer gives it again, and stays as it is. -/
theorem next_of_eof (h : l.next = (.ok t, l')) (ht : t.kind = .eof) :
    l'.next = (.ok (.last l'.position), l') := by
  obtain ⟨gap, text, -, -, ⟨-, -, hrest⟩ | ⟨hne, -⟩⟩ := next_split h
  · exact next_of_rest_nil hrest
  · exact absurd ht hne

/-- The faults of a lexer are those of tokens. -/
theorem advance_lexical {start : Position} {newlineBefore : Bool} {reading : Reading}
    (h : (l.advance start newlineBefore reading).1 = .error e) :
    ∃ cause, e.cause = .lexical cause := by
  unfold advance at h
  split at h
  · cases h
  · cases h
    exact ⟨_, rfl⟩

theorem next_lexical (h : l.next.1 = .error e) : ∃ cause, e.cause = .lexical cause := by
  rw [next_eq] at h
  exact advance_lexical h

theorem Session.lexical {source : List Char} {given : List (Except SyntaxError Token)}
    (h : Session source l given) (he : .error e ∈ given) : ∃ cause, e.cause = .lexical cause := by
  induction h with
  | start => cases he
  | next _ ih =>
    rcases List.mem_cons.1 he with heq | he
    · exact next_lexical heq.symm
    · exact ih he
  | rescan _ _ ih =>
    rcases List.mem_cons.1 he with heq | he
    · exact advance_lexical heq.symm
    · exact ih he

/-! ## Regular expressions -/

/-- How the marks that a regular expression may be taken for are spelled. -/
theorem readToken_slash {cs w x : List Char} {k : TokenKind × TokenValue}
    (h : readToken cs = ⟨w, x, .ok k⟩) (hk : k.1.isSlash) : w = ['/'] ∨ w = ['/', '='] := by
  have hspellings : ∀ entry ∈ (['{'], .leftBrace) :: (['}'], .rightBrace) ::
      (['?', '.'], .questionDot) :: Punctuator.spellings,
      entry.2 = .slash ∨ entry.2 = .slashEqual → entry.1 = ['/'] ∨ entry.1 = ['/', '='] := by decide
  obtain hk | hk : k.1 = .punctuator .slash ∨ k.1 = .punctuator .slashEqual := by
    simpa [TokenKind.isSlash] using hk
  · exact hspellings _ (readToken_punctuator h hk).1 (.inl rfl)
  · exact hspellings _ (readToken_punctuator h hk).1 (.inr rfl)

/-- A part of a template is no slash. -/
theorem readTemplate_not_slash {resumes : Bool} {opening : Char} {cs w x : List Char}
    {k : TokenKind × TokenValue} (h : readTemplate resumes opening cs = ⟨w, x, .ok k⟩) :
    k.1.isSlash = false := by
  unfold readTemplate at h
  simp only at h
  split at h
  · cases h
    split <;> rfl
  · cases h
    split <;> rfl
  · cases h

theorem readRegExp_not_slash {cs w x : List Char} {k : TokenKind × TokenValue}
    (h : readRegExp cs = ⟨w, x, .ok k⟩) : k.1.isSlash = false := by
  unfold readRegExp at h
  split at h
  · cases h
  · simp only at h
    split at h <;> cases h
    rfl

/-- A regular expression goes on past the mark it was taken for. -/
theorem readRegExp_slash {text rest w x : List Char} {k : TokenKind × TokenValue}
    (htext : text = ['/'] ∨ text = ['/', '=']) (h : readRegExp (text ++ rest) = ⟨w, x, .ok k⟩) :
    ∃ v, v ≠ [] ∧ w = text ++ v ∧ rest = v ++ x := by
  obtain ⟨happend, -⟩ := localReader_readRegExp _ _ _ _ h
  obtain ⟨v, hne, rfl⟩ : ∃ v, v ≠ [] ∧ w = text ++ v := by
    have hbody :
        splitRegExpBody false ('=' :: rest) = prepend ['='] (splitRegExpBody false rest) := by
      rw [splitRegExpBody]
      · rfl
      · intro _ _ h
        cases h
    unfold readRegExp at h
    rcases htext with rfl | rfl
    · simp only [List.cons_append, List.nil_append] at h
      split at h <;> cases h
      exact ⟨(splitRegExpBody false rest).1 ++ '/' :: _, by simp, by simp [prepend]; rfl⟩
    · simp only [List.cons_append, List.nil_append, hbody] at h
      split at h <;> cases h
      exact ⟨(splitRegExpBody false rest).1 ++ '/' :: _, by simp, by simp [prepend]; rfl⟩
  refine ⟨v, hne, rfl, ?_⟩
  rw [List.append_assoc] at happend
  exact List.append_cancel_left happend

/-- A slash that a lexer of the text has given is spelled as one. -/
theorem Session.spelling_slash {source : List Char} {given : List (Except SyntaxError Token)}
    (h : Session source l given) (ht : .ok t ∈ given) (hk : t.kind.isSlash) :
    t.spelling = "/" ∨ t.spelling = "/=" := by
  induction h with
  | start => cases ht
  | @next l given _ ih =>
    rcases List.mem_cons.1 ht with heq | ht
    · have hnext : l.next = (.ok t, l.next.2) := by rw [heq]
      rw [next_eq] at hnext
      obtain ⟨w, x, k, hread, rfl, -⟩ := advance_inv hnext
      unfold upcoming at hread
      split at hread
      · rw [readTemplate_not_slash hread] at hk
        cases hk
      · exact (readToken_slash hread hk).imp (congrArg String.ofList) (congrArg String.ofList)
    · exact ih ht
  | @rescan l given t' _ ht' ih =>
    rcases List.mem_cons.1 ht with heq | ht
    · have hrescan : l.rescanRegExp t' = (.ok t, (l.rescanRegExp t').2) := by rw [heq]
      obtain ⟨w, x, k, hread, rfl, -⟩ := advance_inv hrescan
      rw [readRegExp_not_slash hread] at hk
      cases hk
    · exact ih ht

/-- A regular expression in place of a slash goes on past it, over some of the text after it. -/
theorem rescan_split {source before text rest : List Char}
    {given : List (Except SyntaxError Token)} (h : Session source l given) (ht : .ok t ∈ given)
    (hk : t.kind.isSlash) (hstands : t.Stands before text rest)
    (hsource : l.source = before ++ text ++ rest) (hrescan : l.rescanRegExp t = (.ok r, l')) :
    ∃ v, v ≠ [] ∧ rest = v ++ l'.rest ∧
      r.span = ⟨t.span.start, t.span.start.after (text ++ v)⟩ ∧ l'.position = r.span.stop := by
  have htext : text = ['/'] ∨ text = ['/', '='] := by
    have hspelling := h.spelling_slash ht hk
    rw [hstands.spelling] at hspelling
    exact hspelling.imp String.ofList_injective String.ofList_injective
  rw [rescanRegExp_eq hstands hsource] at hrescan
  obtain ⟨w, x, k, hread, rfl, rfl⟩ := advance_inv hrescan
  obtain ⟨v, hne, rfl, hrest⟩ := readRegExp_slash htext hread
  refine ⟨v, hne, by rw [track_rest, hrest], ?_, track_position _ _⟩
  rw [hstands.span]

/-- A regular expression ends past the slash it was taken for, and begins where the slash does. -/
theorem rescan_forward {source : List Char} {given : List (Except SyntaxError Token)}
    (h : Session source l given) (ht : .ok t ∈ given) (hk : t.kind.isSlash)
    (hrescan : l.rescanRegExp t = (.ok r, l')) :
    r.span.start = t.span.start ∧ t.span.stop.offset < r.span.stop.offset ∧
      l'.position = r.span.stop := by
  obtain ⟨hsource, -, hgiven⟩ := h.spec
  obtain ⟨before, text, rest, hsplit, hstands⟩ := hgiven _ ht
  obtain ⟨v, hne, -, hspan, hposition⟩ :=
    rescan_split h ht hk hstands (hsource.trans hsplit) hrescan
  have := byteLength_pos hne
  refine ⟨by rw [hspan], ?_, hposition⟩
  rw [hspan, hstands.span]
  simp only [Position.offset_after, placeAfter, byteLength_append]
  omega

end Lexer

end WithScope
