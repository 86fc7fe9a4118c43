import WithScope.Proofs.Text.CodePoint

/-!
# Every spelling is read back

A text can be spelled in many ways: each of its characters stands for itself or is written as one of
several escapes, and lines may be continued between them. `Spells raw text` says that `raw` is one of
these spellings of `text`.

* `Spelling.decode_append` — how a character is spelled decides what is read there, whatever follows;
* `unescape_of_spells` — a text is read back from each of its spellings, unless there are too many
  digits between braces to be counted.
-/

namespace WithScope

/-- The characters that have a letter of their own, each with its letter. -/
def namedCharacters : List (Char × Char) :=
  [('n', '\n'), ('t', '\t'), ('r', '\r'), ('b', '\x08'), ('f', '\x0c'), ('v', '\x0b')]

/-- How a character may be spelled: as it is, by its letter, or by hexadecimal digits. Characters that
are no single UTF-16 unit may be spelled as the two that they are. The list is of how many digits there
are between braces. -/
inductive Spelling (c : Char) : List Char → List Nat → Prop
  | raw (hslash : c ≠ '\\') (hreturn : c ≠ '\r') : Spelling c [c] []
  | letter {letter : Char} (h : (letter, c) ∈ namedCharacters) : Spelling c ['\\', letter] []
  | byte {digits : List Char} (hlength : digits.length = 2) (h : Writes digits c.toNat) :
      Spelling c ('\\' :: 'x' :: digits) []
  | unit {digits : List Char} (hlength : digits.length = 4) (h : Writes digits c.toNat) :
      Spelling c ('\\' :: 'u' :: digits) []
  | pair {high low : List Char} (hhigh : high.length = 4) (hlow : low.length = 4)
      (hc : 0x10000 ≤ c.toNat) (h : Writes high (0xD800 + (c.toNat - 0x10000) / 0x400))
      (h' : Writes low (0xDC00 + (c.toNat - 0x10000) % 0x400)) :
      Spelling c ('\\' :: 'u' :: (high ++ '\\' :: 'u' :: low)) []
  | braced {digits : List Char} (hne : digits ≠ []) (h : Writes digits c.toNat) :
      Spelling c ('\\' :: 'u' :: '{' :: (digits ++ ['}'])) [digits.length]

/-- A text is spelled by spellings of its characters, with lines continued anywhere between them. The
list is of how many digits there are between braces. -/
inductive Spells : List Char → List Char → List Nat → Prop
  | nil : Spells [] [] []
  | character {c : Char} {piece raw text : List Char} {counts counts' : List Nat}
      (hc : Spelling c piece counts) (h : Spells raw text counts') :
      Spells (piece ++ raw) (c :: text) (counts ++ counts')
  | lineContinuation {ending : Char} {raw text : List Char} {counts : List Nat}
      (hending : ending ∈ ['\n', '\u2028', '\u2029']) (h : Spells raw text counts) :
      Spells ('\\' :: ending :: raw) text counts

/-! ## One piece -/

theorem decode_escape_of {cs text rest : List Char} (h : readEscape cs = .ok (text, rest)) :
    decode ('\\' :: cs) = (text ++ ·) <$> decode rest := by
  rw [decode]
  split
  · next h' => cases h.symm.trans h'
  · next h' =>
    cases h.symm.trans h'
    rfl

theorem decode_cons_of {c : Char} (hslash : c ≠ '\\') (hreturn : c ≠ '\r') (cs : List Char) :
    decode (c :: cs) = (c :: ·) <$> decode cs := by
  rw [decode]
  · exact hslash
  · exact fun _ h _ => hreturn h
  · exact hreturn

theorem readEscape_x (cs : List Char) : readEscape ('x' :: cs) = readHexadecimal cs := rfl

theorem readEscape_u (cs : List Char) : readEscape ('u' :: cs) = readUnicode cs := rfl

theorem charOrReplacement_toNat (c : Char) : charOrReplacement c.toNat = c := by
  rw [charOrReplacement, if_pos (show c.toNat.isValidChar from c.valid), Char.ofNat_toNat]

/-- A character is no surrogate. -/
theorem pairedWith?_toNat (c : Char) (cs : List Char) : pairedWith? c.toNat cs = none := by
  have hvalid : c.toNat < 0xD800 ∨ 0xDFFF < c.toNat ∧ c.toNat < 0x110000 := c.valid
  unfold pairedWith?
  exact if_neg (by omega)

/-- A code point that is a character is read as the character. -/
theorem readEscape_of_codePoint {c : Char} {cs rest : List Char}
    (h : CodePoint Counted cs c.toNat rest) :
    readEscape ('u' :: cs) = .ok ([c], rest) := by
  rw [readEscape_u, readUnicode, readCodePoint?_eq_some_iff.2 h]
  simp only [pairedWith?_toNat, charOrReplacement_toNat]

/-- Two surrogates are read as the character that they make. -/
theorem readEscape_of_surrogates {c : Char} {high low rest : List Char} {quotient remainder : Nat}
    (hhigh : CodePoint Counted high (0xD800 + quotient) ('\\' :: 'u' :: low))
    (hlow : CodePoint Counted low (0xDC00 + remainder) rest) (hquotient : quotient < 0x400)
    (hremainder : remainder < 0x400) (hc : 0x10000 + quotient * 0x400 + remainder = c.toNat) :
    readEscape ('u' :: high) = .ok ([c], rest) := by
  have hpair : pairedWith? (0xD800 + quotient) ('\\' :: 'u' :: low) = some (c, rest) := by
    unfold pairedWith?
    rw [if_pos (by omega)]
    simp only [readCodePoint?_eq_some_iff.2 hlow]
    rw [if_pos (by omega), Nat.add_sub_cancel_left, Nat.add_sub_cancel_left, hc, Char.ofNat_toNat]
  rw [readEscape_u, readUnicode, readCodePoint?_eq_some_iff.2 hhigh]
  simp only [hpair]

theorem readEscape_of_byte {c : Char} {digits rest : List Char} (hlength : digits.length = 2)
    (h : Writes digits c.toNat) : readEscape ('x' :: (digits ++ rest)) = .ok ([c], rest) := by
  obtain ⟨a, b, rfl⟩ := List.length_eq_two.1 hlength
  obtain ⟨hdigits, hvalue⟩ := writes_iff.1 h
  simp only [List.cons_append, List.nil_append]
  rw [readEscape_x, readHexadecimal, hdigits a (by simp), hdigits b (by simp), hvalue,
    charOrReplacement_toNat]
  rfl

theorem readEscape_of_letter {letter c : Char} (h : (letter, c) ∈ namedCharacters)
    (rest : List Char) : readEscape (letter :: rest) = .ok ([c], rest) := by
  simp only [namedCharacters, List.mem_cons, Prod.mk.injEq, List.not_mem_nil, or_false] at h
  rcases h with ⟨rfl, rfl⟩ | ⟨rfl, rfl⟩ | ⟨rfl, rfl⟩ | ⟨rfl, rfl⟩ | ⟨rfl, rfl⟩ | ⟨rfl, rfl⟩ <;> rfl

theorem readEscape_of_lineContinuation {ending : Char}
    (h : ending ∈ ['\n', '\u2028', '\u2029']) (rest : List Char) :
    readEscape (ending :: rest) = .ok ([], rest) := by
  simp only [List.mem_cons, List.not_mem_nil, or_false] at h
  rcases h with rfl | rfl | rfl <;> rfl

/-- The reader takes all of a spelling for the character and nothing of what follows. -/
theorem Spelling.decode_append {c : Char} {piece : List Char} {counts : List Nat}
    (h : Spelling c piece counts) (hcounts : ∀ n ∈ counts, Counted n) (rest : List Char) :
    decode (piece ++ rest) = (c :: ·) <$> decode rest := by
  cases h with
  | raw hslash hreturn => exact decode_cons_of hslash hreturn rest
  | letter h => exact decode_escape_of (readEscape_of_letter h rest)
  | byte hlength h => exact decode_escape_of (readEscape_of_byte hlength h)
  | unit hlength h => exact decode_escape_of (readEscape_of_codePoint (.unit hlength h))
  | pair hhigh hlow hc h h' =>
    have hvalid : c.toNat < 0xD800 ∨ 0xDFFF < c.toNat ∧ c.toNat < 0x110000 := c.valid
    simp only [List.cons_append, List.append_assoc]
    exact decode_escape_of (readEscape_of_surrogates (.unit hhigh h) (.unit hlow h') (by omega)
      (by omega) (by omega))
  | braced hne h =>
    have hvalid : c.toNat < 0xD800 ∨ 0xDFFF < c.toNat ∧ c.toNat < 0x110000 := c.valid
    have hcount := hcounts _ (List.mem_singleton_self _)
    simp only [List.cons_append, List.append_assoc, List.nil_append]
    exact decode_escape_of (readEscape_of_codePoint (.braced hcount h (by omega)))

theorem Spells.decode {raw text : List Char} {counts : List Nat} (h : Spells raw text counts)
    (hcounts : ∀ n ∈ counts, Counted n) : WithScope.decode raw = .ok text := by
  induction h with
  | nil => rw [WithScope.decode]
  | character hc _ ih =>
    obtain ⟨hpiece, hraw⟩ := List.forall_mem_append.1 hcounts
    rw [hc.decode_append hpiece, ih hraw]
    rfl
  | lineContinuation hending _ ih =>
    rw [decode_escape_of (readEscape_of_lineContinuation hending _), ih hcounts]
    rfl

end WithScope
