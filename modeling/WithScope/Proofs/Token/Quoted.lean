import WithScope.Proofs.Text.Spelling
import WithScope.Proofs.Token.Names
import WithScope.Text.Quoted

/-!
# A quoted text is one string literal

The quotation of a text is read in two passes: one looks for the closing quote, the other decodes
the escapes. Neither is misled by what the text itself contains, since each of its characters is
quoted on its own and both passes take the quotation of a character as a whole, whatever follows it.

* `splitStringBody_jsonEscaped`, `decode_jsonEscaped` — the two passes, one character at a time;
* `readString_quoted` — both over a whole text;
* `tokens_jsonQuoted` — the only token of a quoted text is a string literal, and its value is the
  text.
-/

namespace WithScope

/-! ## One character -/

/-- The digits that the quotation of a control character ends with write its number. -/
theorem writes_control {n : Nat} (h : n < 0x20) :
    Writes ['0', '0', Nat.digitChar (n / 16), Nat.digitChar (n % 16)] n := by
  have hdigit {value : Nat} (hlt : value < 16) : IsDigit (Nat.digitChar value) value :=
    ⟨hlt, .inl rfl⟩
  have hzero : IsDigit '0' 0 := hdigit (by decide)
  have hwrites := Writes.nil |>.concat hzero |>.concat hzero
    |>.concat (hdigit (show n / 16 < 16 by omega)) |>.concat (hdigit (Nat.mod_lt n (by decide)))
  have hvalue : 16 * (16 * (16 * (16 * 0 + 0) + 0) + n / 16) + n % 16 = n := by omega
  rwa [hvalue] at hwrites

/-- Quotes and backslashes apart, characters are quoted as one may spell them. -/
theorem spelling_jsonEscaped {c : Char} (hquote : c ≠ '"') (hslash : c ≠ '\\') :
    Spelling c (jsonEscaped c) [] := by
  unfold jsonEscaped
  rw [if_neg hquote, if_neg hslash]
  split_ifs with hbackspace hfeed hline hreturn htab hcontrol
  · exact hbackspace ▸ .letter (by decide)
  · exact hfeed ▸ .letter (by decide)
  · exact hline ▸ .letter (by decide)
  · exact hreturn ▸ .letter (by decide)
  · exact htab ▸ .letter (by decide)
  · exact .unit rfl (writes_control hcontrol)
  · exact .raw hslash hreturn

/-- The quotation of a character stands for the character. -/
theorem decode_jsonEscaped (c : Char) (rest : List Char) :
    decode (jsonEscaped c ++ rest) = (c :: ·) <$> decode rest := by
  by_cases hquote : c = '"'
  · subst hquote
    exact decode_escape_of (show readEscape ('"' :: rest) = .ok (['"'], rest) from rfl)
  by_cases hslash : c = '\\'
  · subst hslash
    exact decode_escape_of (show readEscape ('\\' :: rest) = .ok (['\\'], rest) from rfl)
  exact (spelling_jsonEscaped hquote hslash).decode_append (List.forall_mem_nil _) rest

theorem splitStringBody_cons {quote c : Char} (hslash : c ≠ '\\')
    (hstop : ¬(c = quote ∨ c = '\n' ∨ c = '\r')) (cs : List Char) :
    splitStringBody quote (c :: cs) = prepend [c] (splitStringBody quote cs) := by
  rw [splitStringBody.eq_4, if_neg hstop]
  · exact fun _ h _ => hslash h
  · exact fun _ _ h _ => hslash h

/-- Hexadecimal digits do not end a string literal. -/
theorem splitStringBody_digits {digits : List Char} (h : ∀ d ∈ digits, isHexDigit d)
    (rest : List Char) :
    splitStringBody '"' (digits ++ rest) = prepend digits (splitStringBody '"' rest) := by
  induction digits with
  | nil => rfl
  | cons d digits ih =>
    obtain ⟨hd, hdigits⟩ := List.forall_mem_cons.1 h
    have hne {c : Char} (hc : isHexDigit c = false) : d ≠ c := by
      rintro rfl
      exact Bool.noConfusion (hd.symm.trans hc)
    rw [List.cons_append, splitStringBody_cons (hne (by decide)), ih hdigits]
    · rfl
    · exact not_or.2 ⟨hne (by decide), not_or.2 ⟨hne (by decide), hne (by decide)⟩⟩

/-- A literal does not end inside of the quotation of a character. -/
theorem splitStringBody_jsonEscaped (c : Char) (rest : List Char) :
    splitStringBody '"' (jsonEscaped c ++ rest)
      = prepend (jsonEscaped c) (splitStringBody '"' rest) := by
  unfold jsonEscaped
  split_ifs with hquote hslash hbackspace hfeed hline hreturn htab hcontrol
  -- a backslash takes the next character with it, so only the digits are left to be passed
  iterate 7 rfl
  · exact congrArg (prepend ['\\', 'u'])
      (splitStringBody_digits (writes_iff.1 (writes_control hcontrol)).1 rest)
  · exact splitStringBody_cons hslash (by simp [hquote, hline, hreturn]) rest

/-! ## Whole texts -/

theorem decode_flatMap_jsonEscaped (text : List Char) :
    decode (text.flatMap jsonEscaped) = .ok text := by
  induction text with
  | nil => rw [List.flatMap_nil, decode]
  | cons c text ih =>
    rw [List.flatMap_cons, decode_jsonEscaped, ih]
    rfl

theorem splitStringBody_flatMap_jsonEscaped (text rest : List Char) :
    splitStringBody '"' (text.flatMap jsonEscaped ++ '"' :: rest)
      = (text.flatMap jsonEscaped, '"' :: rest) := by
  induction text with
  | nil => rfl
  | cons c text ih =>
    rw [List.flatMap_cons, List.append_assoc, splitStringBody_jsonEscaped, ih]
    rfl

/-- The reader of string literals takes all of a quotation, and finds the text in it. -/
theorem readString_quoted (text rest : List Char) :
    readString '"' (text.flatMap jsonEscaped ++ '"' :: rest)
      = .token (jsonQuoted text, rest) .stringLiteral (.text (String.ofList text)) := by
  have htext : unescape (text.flatMap jsonEscaped) = .ok text := by
    rw [unescape, decode_flatMap_jsonEscaped]
  unfold readString
  rw [splitStringBody_flatMap_jsonEscaped]
  simp only [List.head?_cons, htext]
  rfl

/-- **Quoting and reading.** Whatever characters a text contains, its quotation has a single token:
a string literal that covers all of it and stands for the text. -/
theorem tokens_jsonQuoted (s : String) : tokens (jsonQuoted s.toList) =
    .ok [⟨.stringLiteral, .text s, ⟨.origin, Position.origin.after (jsonQuoted s.toList)⟩,
      String.ofList (jsonQuoted s.toList), false⟩] := by
  have hgap : splitTrivia true (jsonQuoted s.toList) = ([], jsonQuoted s.toList) :=
    splitBlanks_stop (by decide) fun hslash => absurd hslash (by decide)
  have hread := readString_quoted s.toList []
  rw [String.ofList_toList] at hread
  exact tokens_of_next (by simp [jsonQuoted]) TokenKind.noConfusion
    (Lexer.next_of_readToken hgap hread fun _ => rfl)

/-- A text that consists of what a quotation could stumble over. -/
example : jsonQuoted "\"\\\n\x01\\\"\u2028".toList
    = "\"\\\"\\\\\\n\\u0001\\\\\\\"\u2028\"".toList := by decide

end WithScope
