import WithScope.Proofs.Text.IllegalEscape
import WithScope.Proofs.Text.Place
import WithScope.Proofs.Token.Locality

/-!
# What readers take

A reader splits the text that it looks at: what it has read and what it leaves make up the whole,
whether it ends in a token or in a fault, and no reader stops between CR and LF. A fault shows at a
place inside of the text, with one exception: an illegal escape in a string literal.

* `reads_readToken`, `reads_readTemplate`, `reads_readRegExp` — for the readers that a lexer uses.
-/

namespace WithScope

open Position (Joint)

/-- The text `cs` begins with a string literal that has an illegal escape: the body of the literal is
`before` up to the backslash, and what the body stands for is not known from there on. -/
def EscapeInLiteral (cs : List Char) (cause : EscapeCause) (before : List Char) : Prop :=
  ∃ quote after rest, (quote = '"' ∨ quote = '\'') ∧
    cs = quote :: (before ++ '\\' :: after ++ quote :: rest) ∧
    splitStringBody quote cs.tail = (before ++ '\\' :: after, quote :: rest) ∧
    unescape (before ++ '\\' :: after) = .error ⟨byteLength before, cause⟩

/-- Where the fault of a reading shows in the text that was read. -/
def Fault.Within (cs : List Char) (f : Fault) : Prop :=
  (∃ text rest, f.place = .after text ∧ cs = text ++ rest ∧ Joint text rest) ∨
  ∃ cause before, f.cause = .escape cause ∧ EscapeInLiteral cs cause before ∧
    f.place = .inLiteral (1 + byteLength before)

/-- A reading splits the text `cs`. -/
structure Reading.Splits (cs : List Char) (r : Reading) : Prop where
  /-- nothing is lost -/
  append : r.text ++ r.rest = cs
  /-- the reader does not stop between CR and LF -/
  joint : Joint r.text r.rest
  /-- a fault shows in the text -/
  fault : ∀ f, r.outcome = .error f → f.Within cs

/-! ## Texts without CR -/

/-- A text without a carriage return cannot end in the middle of a line end. -/
theorem Position.Joint.of_not_mem {before rest : List Char} (h : '\r' ∉ before) :
    Joint before rest := .of_getLast fun hlast => h (List.mem_of_getLast? hlast)

/-- The first character is within the text that is read. -/
theorem Fault.within_start (cs : List Char) (cause : LexicalCause) :
    (⟨cause, .after []⟩ : Fault).Within cs :=
  .inl ⟨[], cs, rfl, rfl, .of_not_mem (by simp)⟩

/-- A token whose text and rest are what was ahead is a split of it. -/
theorem reads_token {cs w x : List Char} (happend : w ++ x = cs) (hjoint : Joint w x)
    (kind : TokenKind) (value : TokenValue) : (Reading.token (w, x) kind value).Splits cs :=
  ⟨happend, hjoint, fun _ h => by cases h⟩

/-- As `reads_token`, for a fault whose place is within. -/
theorem reads_fault {cs w x : List Char} {cause : LexicalCause} {place : FaultPlace}
    (happend : w ++ x = cs) (hjoint : Joint w x) (hfault : (⟨cause, place⟩ : Fault).Within cs) :
    (Reading.fault (w, x) cause place).Splits cs :=
  ⟨happend, hjoint, fun _ h => by cases h; exact hfault⟩

/-! ## String literals -/

/-- The body of a string and what follows it are what was ahead. -/
theorem splitStringBody_append (quote : Char) (cs : List Char) :
    (splitStringBody quote cs).1 ++ (splitStringBody quote cs).2 = cs := by
  fun_induction splitStringBody quote cs with
  | case1 => rfl
  | case2 cs ih => simp [ih]
  | case3 c cs _ ih => simp [ih]
  | case4 => rfl
  | case5 c cs _ _ _ ih => simp [ih]

/-- CR LF after a backslash is taken as a whole. -/
theorem splitStringBody_joint (quote : Char) (cs : List Char) :
    Joint (splitStringBody quote cs).1 (splitStringBody quote cs).2 := by
  fun_induction splitStringBody quote cs with
  | case1 => exact .nil_right _
  | case2 cs ih =>
    rcases hbody : splitStringBody quote cs with ⟨_ | ⟨d, body⟩, rest⟩
    · exact .of_getLast (by simp [prepend])
    · exact (hbody ▸ ih).append_left _ (by simp)
  | case3 c cs hcrlf ih =>
    have happend := splitStringBody_append quote cs
    rcases hbody : splitStringBody quote cs with ⟨_ | ⟨d, body⟩, rest⟩
    · rw [hbody] at happend
      obtain rfl : rest = cs := happend
      intro hlast hhead
      obtain ⟨tail, rfl⟩ := List.head?_eq_some_iff.1 hhead
      exact hcrlf tail (by simpa [prepend] using hlast) rfl
    · exact (hbody ▸ ih).append_left _ (by simp)
  | case4 => exact .of_not_mem (by simp)
  | case5 c cs _ _ hc ih =>
    rcases hbody : splitStringBody quote cs with ⟨_ | ⟨d, body⟩, rest⟩
    · refine .of_getLast ?_
      simp only [prepend, List.append_nil, List.getLast?_singleton, Option.some.injEq, ne_eq]
      exact fun h => hc (.inr (.inr h))
    · exact (hbody ▸ ih).append_left _ (by simp)

/-- A string is read from quote to quote, or is a fault within. -/
theorem reads_readString {quote : Char} (hquote : quote = '"' ∨ quote = '\'') (cs : List Char) :
    (readString quote cs).Splits (quote :: cs) := by
  have happend := splitStringBody_append quote cs
  have hjoint := splitStringBody_joint quote cs
  obtain ⟨body, rest, hsplit⟩ : ∃ body rest, splitStringBody quote cs = (body, rest) := ⟨_, _, rfl⟩
  rw [hsplit] at happend hjoint
  obtain rfl : body ++ rest = cs := happend
  simp only [readString, hsplit]
  split
  · next hclose =>
    obtain ⟨rest, rfl⟩ := List.head?_eq_some_iff.1 hclose
    have hlast : Joint (quote :: body ++ [quote]) rest :=
      .append_left _ (by simp) (.of_getLast (by rcases hquote with rfl | rfl <;> simp))
    cases hbody : unescape body with
    | ok text => exact reads_token (by simp) hlast _ _
    | error e =>
      obtain ⟨before, after, rfl, hoffset, -⟩ := unescape_error_split hbody
      refine reads_fault (by simp) hlast (.inr ⟨e.cause, before, rfl, ?_, ?_⟩)
      · exact ⟨quote, after, rest, hquote, by simp, hsplit, by rw [hbody, ← hoffset]⟩
      · rw [hoffset]
        rcases hquote with rfl | rfl <;> rfl
  · refine reads_fault rfl ?_ (Fault.within_start _ _)
    cases body with
    | nil => exact .of_not_mem (by rcases hquote with rfl | rfl <;> simp)
    | cons c body => exact Joint.append_left [quote] (by simp) hjoint

/-! ## Templates -/

/-- A part of a template and what follows it are what was ahead. -/
theorem splitTemplatePart_append (cs : List Char) :
    (splitTemplatePart cs).1 ++ (splitTemplatePart cs).2 = cs := by
  fun_induction splitTemplatePart cs with
  | case1 => rfl
  | case2 c cs ih => simp [ih]
  | case3 => rfl
  | case4 => rfl
  | case5 c cs _ _ _ ih => simp [ih]

/-- A part of a template is read to its end, or is a fault within. -/
theorem reads_readTemplate (resumes : Bool) {opening : Char} (cs : List Char) :
    (readTemplate resumes opening cs).Splits (opening :: cs) := by
  have happend := splitTemplatePart_append cs
  have hclose := splitTemplatePart_close cs
  rcases hsplit : splitTemplatePart cs with ⟨body, rest⟩
  rw [hsplit] at happend hclose
  obtain rfl : body ++ rest = cs := happend
  simp only [readTemplate, hsplit]
  rcases hclose with h | ⟨x, h | h⟩ <;> obtain rfl : rest = _ := h
  · exact reads_fault (by simp) (.nil_right _) (Fault.within_start _ _)
  · exact reads_token (by simp) (.append_left _ (by simp) (.of_getLast (by simp))) _ _
  · exact reads_token (by simp) (.append_left _ (by simp) (.of_getLast (by simp))) _ _

/-! ## Numerals -/

/-- No digit is a carriage return. -/
theorem not_mem_splitDigits (base : Nat) (cs : List Char) : '\r' ∉ (splitDigits base cs).1 := by
  intro h
  have := List.mem_takeWhile_imp h
  simp [isDigitIn, hexDigit?] at this

/-- No exponent has a carriage return in it. -/
theorem not_mem_splitExponent (cs : List Char) : '\r' ∉ (splitExponent cs).1 := by
  have hdigits (cs : List Char) : '\r' ∉ (splitExponentDigits cs).1 := by
    unfold splitExponentDigits
    split <;> simp [prepend, not_mem_splitDigits]
  unfold splitExponent
  split <;> simp [prepend, hdigits]

/-- No decimal has a carriage return in it. -/
theorem not_mem_splitDecimal (cs : List Char) : '\r' ∉ (splitDecimal cs).1 := by
  have hfraction (cs : List Char) : '\r' ∉ (splitFraction cs).1 := by
    unfold splitFraction
    split <;> simp [prepend, not_mem_splitDigits, not_mem_splitExponent]
  simp [splitDecimal, prepend, not_mem_splitDigits, hfraction]

/-- No numeral has a carriage return in it. -/
theorem not_mem_splitNumeral (cs : List Char) : '\r' ∉ (splitNumeral cs).1 := by
  unfold splitNumeral
  split
  · next c cs =>
    split
    · next base hbase =>
      have hc : '\r' ≠ c := by
        rintro rfl
        cases hbase
      simp [prepend, not_mem_splitDigits, hc]
    · exact not_mem_splitDecimal _
  · exact not_mem_splitDecimal _

/-- A numeral is read to its end, or is a fault within. -/
theorem reads_readNumeral (cs : List Char) : (readNumeral cs).Splits cs := by
  have happend := local_splitNumeral.append cs
  have hmem := not_mem_splitNumeral cs
  obtain ⟨numeral, rest, hsplit⟩ : ∃ numeral rest, splitNumeral cs = (numeral, rest) := ⟨_, _, rfl⟩
  rw [hsplit] at happend hmem
  obtain rfl : numeral ++ rest = cs := happend
  simp only [readNumeral, hsplit]
  by_cases hbig : rest.head? = some 'n'
  · obtain ⟨rest, rfl⟩ := List.head?_eq_some_iff.1 hbig
    have hmem' : '\r' ∉ numeral ++ ['n'] := by simpa using hmem
    simp only [List.head?_cons, if_true, List.tail_cons]
    split
    · exact reads_fault (by simp) (.of_not_mem hmem')
        (.inl ⟨numeral ++ ['n'], rest, rfl, by simp, .of_not_mem hmem'⟩)
    · exact reads_token (by simp) (.of_not_mem hmem') _ _
  · simp only [hbig, if_false]
    split
    · exact reads_fault rfl (.of_not_mem hmem) (.inl ⟨numeral, rest, rfl, rfl, .of_not_mem hmem⟩)
    · exact reads_token rfl (.of_not_mem hmem) _ _

/-! ## Names -/

/-- An escape in a name takes at least its backslash, and does not end in a line end. -/
theorem readNameEscape_split (allowed : Char → Bool) (cs : List Char) :
    (readNameEscape allowed cs).parts.1 ++ (readNameEscape allowed cs).parts.2 = '\\' :: cs ∧
    (readNameEscape allowed cs).parts.1 ≠ [] ∧
    Joint (readNameEscape allowed cs).parts.1 (readNameEscape allowed cs).parts.2 ∧
    ∀ c, (readNameEscape allowed cs).outcome = .ok c → '\r' ∉ (readNameEscape allowed cs).parts.1 := by
  unfold readNameEscape
  split
  · exact ⟨rfl, by simp, .nil_right _, fun _ h => by cases h⟩
  · next cs =>
    split
    · exact ⟨rfl, by simp, .of_not_mem (by simp), fun _ h => by cases h⟩
    · next value rest hvalue =>
      obtain ⟨digits, rfl, hdigits, -⟩ := (readCodePoint?_eq_some_iff.1 hvalue).split
      have htake : (digits ++ rest).take ((digits ++ rest).length - rest.length) = digits := by
        rw [List.length_append, Nat.add_sub_cancel, List.take_left]
      simp only [htake]
      have hmem : '\r' ∉ '\\' :: 'u' :: digits := by
        simpa using fun hr => absurd (hdigits '\r' hr) (by decide)
      split
      · exact ⟨rfl, by simp, .of_not_mem hmem, fun _ _ => hmem⟩
      · exact ⟨rfl, by simp, .of_not_mem hmem, fun _ h => by cases h⟩
  · exact ⟨rfl, by simp, .of_getLast (by simp), fun _ h => by cases h⟩
  · next c cs _ hcrlf =>
    refine ⟨rfl, by simp, fun hlast hhead => ?_, fun _ h => by cases h⟩
    obtain ⟨tail, rfl⟩ := List.head?_eq_some_iff.1 hhead
    exact hcrlf tail (by simpa using hlast) rfl

/-- What has been read when a name ends or a fault stops it. -/
theorem readName_split {allowed : Char → Bool} (hallowed : allowed '\r' = false) (cs : List Char) :
    '\r' ∉ (readName allowed cs).parts.1 ∧
    match (readName allowed cs).fault with
    | none => (readName allowed cs).parts.1 ++ (readName allowed cs).parts.2 = cs
    | some (_, extra) =>
      (readName allowed cs).parts.1 ++ extra ++ (readName allowed cs).parts.2 = cs ∧ extra ≠ [] ∧
        Joint extra (readName allowed cs).parts.2 := by
  have hcontinue : isIdContinue '\r' = false := by decide +kernel
  fun_induction readName allowed cs with
  | case1 => simp [NameReading.stop]
  | case2 allowed cs c hc _ ih =>
    obtain ⟨happend, -, -, hmem⟩ := readNameEscape_split allowed cs
    obtain ⟨hmem', hrest⟩ := ih hcontinue
    refine ⟨by simp [NameReading.cons, prepend, hmem c hc, hmem'], ?_⟩
    simp only [NameReading.cons, prepend]
    split at hrest
    · simp [hrest, happend]
    · obtain ⟨hrest, hne, hjoint⟩ := hrest
      rw [List.append_assoc] at hrest
      simp [hrest, happend, hne, hjoint]
  | case3 allowed cs cause hc =>
    obtain ⟨happend, hne, hjoint, -⟩ := readNameEscape_split allowed cs
    exact ⟨by simp, happend, hne, hjoint⟩
  | case4 allowed c cs hne hc ih =>
    have hcr : '\r' ≠ c := by
      rintro rfl
      rw [hallowed] at hc
      cases hc
    obtain ⟨hmem', hrest⟩ := ih hcontinue
    refine ⟨by simp [NameReading.cons, prepend, hcr, hmem'], ?_⟩
    simp only [NameReading.cons, prepend]
    split at hrest
    · simp [hrest]
    · obtain ⟨hrest, hne, hjoint⟩ := hrest
      rw [List.append_assoc] at hrest
      simp [hrest, hne, hjoint]
  | case5 => simp [NameReading.stop]

/-- An identifier is read to its end, or is a fault within. -/
theorem reads_readIdentifier (cs : List Char) : (readIdentifier cs).Splits cs := by
  obtain ⟨hmem, hrest⟩ := readName_split (show isIdStart '\r' = false by decide +kernel) cs
  unfold readIdentifier
  simp only
  split
  · next cause extra hfault =>
    simp only [hfault] at hrest
    obtain ⟨happend, hne, hjoint⟩ := hrest
    rw [List.append_assoc] at happend
    exact reads_fault (by rw [← List.append_assoc] at happend; exact happend)
      (hjoint.append_left _ hne) (.inl ⟨_, _, rfl, happend.symm, .of_not_mem hmem⟩)
  · next hfault =>
    simp only [hfault] at hrest
    split <;> exact reads_token hrest (.of_not_mem hmem) _ _

/-- A private name is read with its `#`, or is a fault within. -/
theorem reads_readPrivateName (cs : List Char) : (readPrivateName cs).Splits ('#' :: cs) := by
  obtain ⟨hmem, hrest⟩ := readName_split (show isIdStart '\r' = false by decide +kernel) cs
  have hmem' : '\r' ∉ '#' :: (readName isIdStart cs).parts.1 := by simpa using hmem
  unfold readPrivateName
  simp only
  split
  · next cause extra hfault =>
    simp only [hfault] at hrest
    obtain ⟨happend, hne, hjoint⟩ := hrest
    refine reads_fault (by simpa using happend) (hjoint.append_left _ hne)
      (.inl ⟨_, extra ++ (readName isIdStart cs).parts.2, rfl, ?_, .of_not_mem hmem'⟩)
    simpa using happend.symm
  · next hfault =>
    simp only [hfault] at hrest
    split
    · exact reads_fault rfl (.of_not_mem (by simp)) (Fault.within_start _ _)
    · exact reads_token (by simpa [prepend] using hrest)
        (.of_not_mem (by simpa [prepend] using hmem)) _ _

/-! ## Regular expressions -/

/-- The body of a regular expression and what follows it are what was ahead. -/
theorem splitRegExpBody_append (inClass : Bool) (cs : List Char) :
    (splitRegExpBody inClass cs).1 ++ (splitRegExpBody inClass cs).2 = cs := by
  fun_induction splitRegExpBody inClass cs with
  | case1 => rfl
  | case2 => rfl
  | case3 inClass c cs _ ih => simp [ih]
  | case4 => rfl
  | case5 inClass c cs _ _ ih => simp [ih]

/-- No line ends in the body of a regular expression. -/
theorem not_isLineTerminator_splitRegExpBody (inClass : Bool) (cs : List Char) :
    ∀ c ∈ (splitRegExpBody inClass cs).1, isLineTerminator c = false := by
  fun_induction splitRegExpBody inClass cs with
  | case1 => exact List.forall_mem_nil _
  | case2 => exact List.forall_mem_singleton.2 rfl
  | case3 inClass c cs hc ih =>
    exact List.forall_mem_cons.2 ⟨rfl, List.forall_mem_cons.2 ⟨by simpa using hc, ih⟩⟩
  | case4 => exact List.forall_mem_nil _
  | case5 inClass c cs _ hc ih =>
    exact List.forall_mem_cons.2 ⟨Bool.eq_false_iff.2 fun h => hc (by simp [h]), ih⟩

/-- A regular expression is read with its flags, or is a fault within. -/
theorem reads_readRegExp {opening : Char} (hopening : opening ≠ '\r') (cs : List Char) :
    (readRegExp (opening :: cs)).Splits (opening :: cs) := by
  have happend := splitRegExpBody_append false cs
  have hmem : '\r' ∉ (splitRegExpBody false cs).1 := fun h => by
    cases not_isLineTerminator_splitRegExpBody false cs _ h
  rcases hsplit : splitRegExpBody false cs with ⟨body, rest⟩
  rw [hsplit] at happend hmem
  obtain rfl : body ++ rest = cs := happend
  simp only [readRegExp, hsplit]
  split
  · next hslash =>
    obtain ⟨rest, rfl⟩ := List.head?_eq_some_iff.1 hslash
    have hcontinue : isIdContinue '\r' = false := by decide +kernel
    refine reads_token (by simp) (.of_not_mem ?_) _ _
    simp only [List.mem_append, List.mem_cons, List.not_mem_nil, or_false, not_or]
    refine ⟨⟨⟨hopening.symm, hmem⟩, by decide⟩, fun h => ?_⟩
    rw [List.mem_takeWhile_imp h] at hcontinue
    cases hcontinue
  · exact reads_fault rfl (.of_not_mem (by simp [hopening.symm, hmem])) (Fault.within_start _ _)

/-! ## Punctuators -/

/-- A mark is read, or its first character is the fault. -/
theorem reads_readPunctuator {c : Char} (cs : List Char) :
    (readPunctuator (c :: cs)).Splits (c :: cs) := by
  have hspellings : ∀ entry ∈ Punctuator.spellings, '\r' ∉ entry.1 := by decide
  unfold readPunctuator
  split
  · next h =>
    obtain ⟨rfl, rfl⟩ := List.cons.inj h
    exact reads_token (by simp) (.of_getLast (by simp)) _ _
  · next h =>
    obtain ⟨rfl, rfl⟩ := List.cons.inj h
    exact reads_token (by simp) (.of_getLast (by simp)) _ _
  · split
    · next hquestion =>
      obtain ⟨tail, htail⟩ := List.isPrefixOf_iff_prefix.1 (Bool.and_eq_true_iff.1 hquestion).1
      rw [← htail]
      exact reads_token rfl (.of_not_mem (by simp)) _ _
    · split
      · next spelling mark hlongest =>
        obtain ⟨tail, htail, -⟩ := longest?_exchange hlongest
        rw [htail, List.drop_left]
        exact reads_token rfl
          (.of_not_mem (hspellings _ (List.mem_of_find?_eq_some hlongest))) _ _
      · exact reads_fault rfl (.of_not_mem (by simp)) (Fault.within_start _ _)

/-! ## All tokens -/

/-- Whatever the first character starts is a split of what was ahead. -/
theorem reads_readToken (cs : List Char) : (readToken cs).Splits cs := by
  cases cs with
  | nil => exact reads_token (List.append_nil _) (.nil_right []) .eof .none
  | cons c cs =>
    unfold readToken
    simp only
    split
    · next hquote => exact reads_readString hquote cs
    split
    · exact reads_readTemplate false cs
    split
    · exact reads_readNumeral _
    split
    · next hhash =>
      subst hhash
      exact reads_readPrivateName cs
    split
    · exact reads_readIdentifier _
    split
    · exact reads_fault (by simp) (.nil_right _) (Fault.within_start _ _)
    · exact reads_readPunctuator cs

end WithScope
