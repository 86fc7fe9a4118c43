import WithScope.Proofs.Token.Gaps
import WithScope.Proofs.Token.Standing

/-!
# A name is one token

A character that begins a name begins nothing else: no gap, no literal, no punctuator. So a text
that is a name, read from its beginning, gives a token that covers all of it. The token is an
identifier unless the name is a reserved word, and the end of the text follows.

* `readName_of_isName`, `readIdentifier_of_isName` — the readers of names;
* `readToken_of_isName`, `splitTrivia_of_isName` — nothing else is tried;
* `Lexer.next_of_isName`, `Lexer.next_atEnd` — the two tokens.
-/

namespace WithScope

/-! ## First characters -/

section

variable {c : Char} (h : isIdStart c)

include h

/-- Names begin with no character that is known to begin something else. -/
theorem ne_of_isIdStart {d : Char} (hd : isIdStart d = false) : c ≠ d := by
  rintro rfl
  rw [hd] at h
  cases h

theorem beq_of_isIdStart {d : Char} (hd : isIdStart d = false) : (c == d) = false :=
  beq_false_of_ne (ne_of_isIdStart h hd)

/-- Names begin outside of each range of characters that begin none. -/
theorem not_mem_range'_of_isIdStart (first length : Nat)
    (hrange : ∀ n ∈ List.range' first length, isIdStart (Char.ofNat n) = false) :
    c.toNat ∉ List.range' first length := fun hc =>
  ne_of_isIdStart h (hrange c.toNat hc) c.ofNat_toNat.symm

theorem isDigit_of_isIdStart : c.isDigit = false := by
  have hdigits := not_mem_range'_of_isIdStart h 48 10 (by decide)
  by_contra hdigit
  have hbounds : 48 ≤ c.toNat ∧ c.toNat ≤ 57 := by
    simpa [Char.isDigit, UInt32.le_iff_toNat_le] using hdigit
  exact hdigits (by simp; omega)

theorem isBlank_of_isIdStart : isBlank c = false := by
  have hspaces := not_mem_range'_of_isIdStart h 0x2000 11 (by decide +kernel)
  have hrange : ('\u2000' ≤ c && c ≤ '\u200A') = false := by
    by_contra hrange
    have hbounds : 0x2000 ≤ c.toNat ∧ c.toNat ≤ 0x200A := by
      simpa [Char.le_def, UInt32.le_iff_toNat_le] using hrange
    exact hspaces (by simp; omega)
  simp (disch := decide +kernel) only [isBlank, beq_of_isIdStart h, hrange, Bool.or_false]

theorem isLineTerminator_of_isIdStart : isLineTerminator c = false := by
  simp (disch := decide +kernel) only [isLineTerminator, beq_of_isIdStart h, Bool.or_false]

end

/-! ## Readers -/

theorem readName_of_all {cs : List Char} (h : cs.all isIdContinue) :
    readName isIdContinue cs = ⟨cs, false, (cs, []), none⟩ := by
  induction cs with
  | nil => exact readName.eq_1 _
  | cons c cs ih =>
    obtain ⟨hc, hcs⟩ := List.all_cons.symm.trans h |> Bool.and_eq_true_iff.1
    have hne : c ≠ '\\' := by
      rintro rfl
      cases hc
    rw [readName.eq_3 _ _ _ hne, if_pos hc, ih hcs]
    rfl

/-- The reader of names takes all of a name. -/
theorem readName_of_isName {cs : List Char} (h : isName cs) :
    readName isIdStart cs = ⟨cs, false, (cs, []), none⟩ := by
  cases cs with
  | nil => cases h
  | cons c cs =>
    obtain ⟨hc, hcs⟩ := Bool.and_eq_true_iff.1 h
    rw [readName.eq_3 _ _ _ (ne_of_isIdStart hc (by decide)), if_pos hc, readName_of_all hcs]
    rfl

/-- A name that is not reserved is an identifier. -/
theorem readIdentifier_of_isName {cs : List Char} (h : isName cs)
    (hfree : Keyword.ofSpelling? (String.ofList cs) = none) :
    readIdentifier cs = .token (cs, []) .identifier (.text (String.ofList cs)) := by
  unfold readIdentifier
  rw [readName_of_isName h]
  simp only [hfree]

/-- What begins like a name is read as one. -/
theorem readToken_of_isIdStart {c : Char} (h : isIdStart c) (cs : List Char) :
    readToken (c :: cs) = readIdentifier (c :: cs) := by
  have hstring : ¬(c = '"' ∨ c = '\'') :=
    not_or.2 ⟨ne_of_isIdStart h (by decide), ne_of_isIdStart h (by decide)⟩
  have hnumeral : ¬(c.isDigit || (c == '.' && cs.head?.any Char.isDigit)) = true := by
    simp [isDigit_of_isIdStart h, ne_of_isIdStart h (d := '.') (by decide)]
  rw [readToken, if_neg hstring, if_neg (ne_of_isIdStart h (by decide)), if_neg hnumeral,
    if_neg (ne_of_isIdStart h (by decide)), if_pos (by simp [h])]

/-- No gap stands before a name. -/
theorem splitTrivia_of_isIdStart {c : Char} (h : isIdStart c) (atOrigin : Bool) (cs : List Char) :
    splitTrivia atOrigin (c :: cs) = ([], c :: cs) := by
  have hblanks : splitBlanks (c :: cs) = ([], c :: cs) :=
    splitBlanks_stop (by simp [isBlank_of_isIdStart h, isLineTerminator_of_isIdStart h])
      fun hslash => absurd hslash (ne_of_isIdStart h (by decide))
  unfold splitTrivia
  split
  · next hcs =>
    obtain ⟨rfl, -⟩ := List.cons.inj hcs
    exact absurd rfl (ne_of_isIdStart h (d := '#') (by decide))
  · exact hblanks

/-! ## Tokens -/

namespace Lexer

/-- The identifier that is all of a text. -/
def wholeName (cs : List Char) : Token :=
  ⟨.identifier, .text (String.ofList cs), ⟨.origin, Position.origin.after cs⟩,
    String.ofList cs, false⟩

/-- The end of a text, read where nothing is left of it. -/
def endOfText (place : Position) : Token := ⟨.eof, .none, ⟨place, place⟩, "", false⟩

/-- A lexer at the end of its text. -/
def atEnd (cs : List Char) : Lexer := ⟨cs, [], Position.origin.after cs, 0, []⟩

/-- The token that is all of a text. -/
def whole (cs : List Char) (kind : TokenKind) (value : TokenValue) : Token :=
  ⟨kind, value, ⟨.origin, Position.origin.after cs⟩, String.ofList cs, false⟩

/-- If all of a text is read as a token that opens and closes nothing, then it is the first token,
and nothing is left after it. -/
theorem next_of_readToken {cs : List Char} {kind : TokenKind} {value : TokenValue}
    (hgap : splitTrivia true cs = ([], cs)) (hread : readToken cs = .token (cs, []) kind value)
    (htrack : ∀ l : Lexer, l.track kind = l) :
    (Lexer.ofSource cs).next = (.ok (whole cs kind value), atEnd cs) := by
  have hahead : (ofSource cs).gapAhead = ([], cs) := hgap
  have hupcoming : (ofSource cs).upcoming cs = ([], .token (cs, []) kind value) := by
    rw [← hread]
    exact if_neg fun hbrace => by cases hbrace.2
  rw [next_eq, afterGap, hahead, hupcoming, advance]
  simp only [Reading.token, htrack]
  rfl

/-- The first token of a text that is a name, but not a reserved word, is an identifier, and nothing
is left after it. -/
theorem next_of_isName {cs : List Char} (h : isName cs)
    (hfree : Keyword.ofSpelling? (String.ofList cs) = none) :
    (Lexer.ofSource cs).next = (.ok (wholeName cs), atEnd cs) := by
  cases cs with
  | nil => cases h
  | cons c cs =>
    obtain ⟨hc, -⟩ := Bool.and_eq_true_iff.1 h
    refine next_of_readToken (splitTrivia_of_isIdStart hc _ _) ?_ fun _ => rfl
    rw [readToken_of_isIdStart hc, readIdentifier_of_isName h hfree]

/-- At the end of a text there is one more token, which can be read again and again. -/
theorem next_atEnd (cs : List Char) :
    (atEnd cs).next = (.ok (endOfText (Position.origin.after cs)), atEnd cs) := by
  have hgap : (atEnd cs).gapAhead = ([], []) := by
    show splitTrivia _ [] = ([], [])
    unfold splitTrivia
    split
    · next hcs => cases hcs
    · exact splitBlanks_nil
  rw [next_eq, afterGap, hgap]
  rfl

end Lexer

/-- A token with nothing after it is the only one of its text. -/
theorem tokens_of_next {cs : List Char} {t : Token} (hne : cs ≠ []) (hkind : t.kind ≠ .eof)
    (h : (Lexer.ofSource cs).next = (.ok t, Lexer.atEnd cs)) : tokens cs = .ok [t] := by
  obtain ⟨c, cs, rfl⟩ := List.exists_cons_of_ne_nil hne
  rw [tokens, Lexer.tokensWithin, h]
  simp only [if_neg hkind]
  rw [Lexer.tokensWithin, Lexer.next_atEnd]
  rfl

end WithScope
