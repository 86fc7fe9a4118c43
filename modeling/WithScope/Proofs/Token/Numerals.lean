import WithScope.Proofs.Text.CodePoint
import WithScope.Proofs.Token.Splitting

/-!
# Numerals and their values

The reader of numerals takes digits and separators as they come: a separator may stand anywhere
behind the first digit, and digits may be missing behind the letter of a base and behind the mark of
an exponent. `NumeralForm text valueless` says which texts are read, and under which condition a
text of each form has no value: if digits are missing, and in base 2, 8 or 16 also if the number
does not fit 128 bits.

* `NumeralForm.of_splitNumeral` — what is read has one of the forms;
* `NumeralForm.value_eq_nan_iff` — its value is NaN just if it has none.
-/

namespace WithScope

/-! ## How numerals are written -/

/-- Digits of a base and separators, in any order. -/
def DigitRun (base : Nat) (text : List Char) : Prop :=
  ∀ c ∈ text, (isDigitIn base c || c == '_') = true

/-- A text without its separators. -/
def stripped (text : List Char) : List Char := text.filter (· != '_')

/-- The fraction of a numeral, if it has one. -/
inductive FractionText : List Char → Prop
  | none : FractionText []
  | point {digits : List Char} (hdigits : DigitRun 10 digits) : FractionText ('.' :: digits)

/-- The sign of an exponent, if it has one. -/
def IsSign (sign : List Char) : Prop := sign = [] ∨ sign = ['+'] ∨ sign = ['-']

/-- What stands in front of the exponent of a decimal numeral: digits, and perhaps a fraction. -/
inductive MantissaText : List Char → Prop
  | intro {whole fraction : List Char} (hwhole : DigitRun 10 whole)
      (hfraction : FractionText fraction)
      (hdigit : ∃ c ∈ whole ++ fraction, c.isDigit = true) : MantissaText (whole ++ fraction)

/-- The texts that are read as numerals, and what it takes for them to have no value. -/
inductive NumeralForm : List Char → Prop → Prop
  | based {base : Nat} {letter : Char} {digits : List Char}
      (hbase : baseOfLetter? letter = some base) (hdigits : DigitRun base digits) :
      NumeralForm ('0' :: letter :: digits)
        (stripped digits = [] ∨ Nat.pow 2 128 ≤ digitsValue base (stripped digits))
  | plain {text : List Char} (htext : MantissaText text) :
      NumeralForm text (∃ octal, stripped text = '0' :: octal ∧ (∀ c ∈ octal, isOctalDigit c) ∧
        Nat.pow 2 128 ≤ digitsValue 8 octal)
  | exponent {text sign digits : List Char} {mark : Char} (htext : MantissaText text)
      (hmark : mark = 'e' ∨ mark = 'E') (hsign : IsSign sign) (hdigits : DigitRun 10 digits) :
      NumeralForm (text ++ mark :: (sign ++ digits)) (stripped digits = [])

variable {base : Nat} {text whole fraction digits sign rest cs : List Char} {c letter mark : Char}

/-! ## What is read -/

theorem digitRun_splitDigits (base : Nat) (cs : List Char) :
    DigitRun base (splitDigits base cs).1 :=
  fun _ => List.mem_takeWhile_imp

theorem isDigitIn_ten (c : Char) : isDigitIn 10 c = c.isDigit := by
  by_cases hc : c.toNat < 128
  · have hall : ∀ n < 128, isDigitIn 10 (Char.ofNat n) = (Char.ofNat n).isDigit := by decide
    rw [← c.ofNat_toNat]
    exact hall c.toNat hc
  · have hhex : hexDigit? c = none := by
      by_contra h
      obtain ⟨value, hvalue⟩ := Option.ne_none_iff_exists'.1 h
      exact hc (toNat_lt_of_hexDigit? hvalue)
    have hdigit : c.isDigit = false := by
      by_contra h
      have hbounds : 48 ≤ c.toNat ∧ c.toNat ≤ 57 := by
        simpa [Char.isDigit, UInt32.le_iff_toNat_le] using h
      omega
    rw [hdigit, isDigitIn, hhex]

theorem splitExponentDigits_eq (cs : List Char) :
    ∃ sign digits, (splitExponentDigits cs).1 = sign ++ digits ∧
      IsSign sign ∧ DigitRun 10 digits := by
  unfold splitExponentDigits
  split
  · exact ⟨['+'], _, rfl, .inr (.inl rfl), digitRun_splitDigits 10 _⟩
  · exact ⟨['-'], _, rfl, .inr (.inr rfl), digitRun_splitDigits 10 _⟩
  · exact ⟨[], _, rfl, .inl rfl, digitRun_splitDigits 10 cs⟩

/-- A mantissa and what is read of an exponent behind it. -/
theorem exists_form_of_splitExponent (htext : MantissaText text) (cs : List Char) :
    ∃ valueless, NumeralForm (text ++ (splitExponent cs).1) valueless := by
  unfold splitExponent
  split
  · obtain ⟨sign, digits, heq, hsign, hdigits⟩ := splitExponentDigits_eq ‹List Char›
    exact ⟨_, by simpa [prepend, heq] using NumeralForm.exponent htext (.inl rfl) hsign hdigits⟩
  · obtain ⟨sign, digits, heq, hsign, hdigits⟩ := splitExponentDigits_eq ‹List Char›
    exact ⟨_, by simpa [prepend, heq] using NumeralForm.exponent htext (.inr rfl) hsign hdigits⟩
  · exact ⟨_, by simpa using NumeralForm.plain htext⟩

/-- How a decimal numeral begins: with a digit, or with a point and a digit. -/
def BeginsDecimal (cs : List Char) : Prop :=
  ∃ c tail, (cs = c :: tail ∨ cs = '.' :: c :: tail) ∧ c.isDigit = true

theorem splitDigits_cons (hc : c.isDigit = true) (cs : List Char) :
    splitDigits 10 (c :: cs) = (c :: (splitDigits 10 cs).1, (splitDigits 10 cs).2) := by
  simp [splitDigits, splitWhile, isDigitIn_ten, hc]

theorem exists_form_of_splitDecimal (hcs : BeginsDecimal cs) :
    ∃ valueless, NumeralForm (splitDecimal cs).1 valueless := by
  obtain ⟨c, tail, rfl | rfl, hc⟩ := hcs
  · have hwhole := digitRun_splitDigits 10 (c :: tail)
    rw [splitDecimal]
    rw [splitDigits_cons hc] at hwhole ⊢
    unfold splitFraction
    split
    · next _ ds _ =>
      have htext := MantissaText.intro hwhole (.point (digitRun_splitDigits 10 ds))
        ⟨c, List.mem_cons_self .., hc⟩
      simpa [prepend] using exists_form_of_splitExponent htext _
    · have htext := MantissaText.intro hwhole .none ⟨c, List.mem_cons_self .., hc⟩
      simpa [prepend] using exists_form_of_splitExponent htext _
  · have hfraction := digitRun_splitDigits 10 (c :: tail)
    have htext := MantissaText.intro (List.forall_mem_nil _) (.point hfraction)
      ⟨c, by simp [splitDigits_cons hc], hc⟩
    exact exists_form_of_splitExponent htext _

/-- What is read as a numeral has one of the forms. -/
theorem NumeralForm.of_splitNumeral (hcs : BeginsDecimal cs) :
    ∃ valueless, NumeralForm (splitNumeral cs).1 valueless := by
  unfold splitNumeral
  split
  · split
    · next base hbase => exact ⟨_, .based hbase (digitRun_splitDigits base _)⟩
    · exact exists_form_of_splitDecimal hcs
  · exact exists_form_of_splitDecimal hcs

/-! ## Texts without separators -/

@[simp] theorem stripped_append (a b : List Char) : stripped (a ++ b) = stripped a ++ stripped b :=
  List.filter_append ..

theorem stripped_cons (hc : c ≠ '_') (cs : List Char) : stripped (c :: cs) = c :: stripped cs :=
  List.filter_cons_of_pos (bne_iff_ne.2 hc)

theorem mem_stripped : c ∈ stripped text ↔ c ∈ text ∧ c ≠ '_' := by simp [stripped]

theorem DigitRun.isDigit (h : DigitRun 10 text) : ∀ c ∈ stripped text, c.isDigit = true := by
  intro c hc
  obtain ⟨hmem, hne⟩ := mem_stripped.1 hc
  rw [← isDigitIn_ten]
  simpa [hne] using h c hmem

theorem ne_underscore_of_isDigit (hc : c.isDigit = true) : c ≠ '_' := by
  rintro rfl
  cases hc

theorem stripped_sign (hsign : IsSign sign) : stripped sign = sign := by
  rcases hsign with rfl | rfl | rfl <;> rfl

/-! ## Values -/

theorem ofRatio_ne_nan (num den : Nat) : Double.ofRatio num den ≠ .nan := by
  unfold Double.ofRatio Double.zero
  dsimp only
  repeat' split
  all_goals exact Double.noConfusion

theorem ofDecimal_ne_nan (digits count : Nat) (exponent : Int) :
    Double.ofDecimal digits count exponent ≠ .nan := by
  unfold Double.ofDecimal
  split
  · exact Double.noConfusion
  split
  · exact Double.noConfusion
  split
  · exact Double.noConfusion
  · exact ofRatio_ne_nan _ _

theorem integerNumeral_eq_nan_iff (base : Nat) (digits : List Char) :
    integerNumeral base digits = .nan ↔ digits = [] ∨ Nat.pow 2 128 ≤ digitsValue base digits := by
  unfold integerNumeral
  dsimp only
  split
  · next h => exact iff_of_true rfl h
  · next h => exact iff_of_false (ofRatio_ne_nan _ _) h

/-- An exponent without a sign: its digits do not begin as one. -/
theorem exponent?_unsigned (hdigits : ∀ c ∈ digits, c.isDigit = true) :
    exponent? (mark :: digits) =
      if (mark = 'e' ∨ mark = 'E') ∧ digits ≠ [] ∧ digits.all Char.isDigit then
        some (exponentDigits digits : Int) else none := by
  cases digits with
  | nil => rfl
  | cons d digits =>
    have hd := hdigits d (List.mem_cons_self ..)
    rw [exponent?]
    · rfl
    · rintro _ ⟨⟩
      cases hd
    · rintro _ ⟨⟩
      cases hd

/-- An exponent has a value if it has digits. -/
theorem exponent?_eq_none_iff (hmark : mark = 'e' ∨ mark = 'E') (hsign : IsSign sign)
    (hdigits : ∀ c ∈ digits, c.isDigit = true) :
    exponent? (mark :: (sign ++ digits)) = none ↔ digits = [] := by
  have hall : digits.all Char.isDigit = true := List.all_eq_true.2 hdigits
  rcases hsign with rfl | rfl | rfl
  · rw [List.nil_append, exponent?_unsigned hdigits]
    simp [hmark, hall]
  · simp [exponent?, hmark, hall]
  · simp [exponent?, hmark, hall]

/-- A decimal numeral without a point. -/
theorem decimalNumeral?_whole (hwhole : ∀ c ∈ whole, c.isDigit = true) (hne : whole ≠ [])
    (hrest : ∀ c ∈ rest.head?, c = 'e' ∨ c = 'E') :
    decimalNumeral? (whole ++ rest) = (exponent? rest).map fun exponent =>
      .ofDecimal (digitsValue 10 (whole.dropWhile (· == '0')))
        (whole.dropWhile (· == '0')).length exponent := by
  obtain ⟨htake, hdrop⟩ := Prod.mk.inj (splitWhile_append_of hwhole fun c hc => by
    rcases hrest c hc with rfl | rfl <;> rfl)
  unfold decimalNumeral?
  simp only [htake, hdrop]
  split
  · cases hrest '.' rfl <;> contradiction
  · simp [hne]

/-- A decimal numeral with a point. -/
theorem decimalNumeral?_point (hwhole : ∀ c ∈ whole, c.isDigit = true)
    (hdigits : ∀ c ∈ digits, c.isDigit = true) (hne : whole ++ digits ≠ [])
    (hrest : ∀ c ∈ rest.head?, c = 'e' ∨ c = 'E') :
    decimalNumeral? (whole ++ '.' :: (digits ++ rest)) = (exponent? rest).map fun exponent =>
      .ofDecimal (digitsValue 10 ((whole ++ digits).dropWhile (· == '0')))
        ((whole ++ digits).dropWhile (· == '0')).length (exponent - digits.length) := by
  have hpoint : ∀ c ∈ ('.' :: (digits ++ rest)).head?, c.isDigit = false := by
    rintro c ⟨⟩
    rfl
  obtain ⟨htake, hdrop⟩ := Prod.mk.inj (splitWhile_append_of hwhole hpoint)
  obtain ⟨htake', hdrop'⟩ := Prod.mk.inj (splitWhile_append_of hdigits fun c hc => by
    rcases hrest c hc with rfl | rfl <;> rfl)
  unfold decimalNumeral?
  simp only [htake, hdrop, htake', hdrop', if_neg hne]

/-- Only an exponent without a value takes the value from a decimal numeral. -/
theorem decimalNumeral?_eq_nan_iff (htext : MantissaText text)
    (hrest : ∀ c ∈ rest.head?, c = 'e' ∨ c = 'E') :
    (decimalNumeral? (stripped text ++ rest)).getD .nan = .nan ↔ exponent? rest = none := by
  have hmap (value : Int → Double) (hvalue : ∀ e, value e ≠ .nan) :
      ((exponent? rest).map value).getD .nan = .nan ↔ exponent? rest = none := by
    cases exponent? rest <;> simp [hvalue]
  obtain @⟨whole, _, hwhole, hfraction, d, hd, hdigit⟩ := htext
  have hne := ne_underscore_of_isDigit hdigit
  cases hfraction with
  | none =>
    rw [List.append_nil] at hd ⊢
    rw [decimalNumeral?_whole hwhole.isDigit (List.ne_nil_of_mem (mem_stripped.2 ⟨hd, hne⟩)) hrest]
    exact hmap _ fun _ => ofDecimal_ne_nan _ _ _
  | @point digits hdigits =>
    have hmem : d ∈ whole ++ digits := by
      have hpoint : d ≠ '.' := by
        rintro rfl
        cases hdigit
      simpa [hpoint] using hd
    have hstripped := List.ne_nil_of_mem (mem_stripped.2 ⟨hmem, hne⟩)
    rw [stripped_append] at hstripped
    rw [stripped_append, stripped_cons (by decide), List.append_assoc, List.cons_append,
      decimalNumeral?_point hwhole.isDigit hdigits.isDigit hstripped hrest]
    exact hmap _ fun _ => ofDecimal_ne_nan _ _ _

/-! ## Which numerals have a value -/

theorem baseOfLetter?_of_isDigit (hc : c.isDigit = true) : baseOfLetter? c = none := by
  unfold baseOfLetter?
  repeat' split
  · next h => rcases h with rfl | rfl <;> cases hc
  · next h => rcases h with rfl | rfl <;> cases hc
  · next h => rcases h with rfl | rfl <;> cases hc
  · rfl

/-- A mantissa is made of digits, a point and separators. -/
theorem MantissaText.baseOfLetter?_eq_none (htext : MantissaText text) :
    ∀ c ∈ stripped text, baseOfLetter? c = none := by
  obtain ⟨hwhole, hfraction, -⟩ := htext
  rw [stripped_append, List.forall_mem_append]
  refine ⟨fun c hc => baseOfLetter?_of_isDigit (hwhole.isDigit c hc), ?_⟩
  cases hfraction with
  | none => exact List.forall_mem_nil _
  | point hdigits =>
    rw [stripped_cons (by decide)]
    exact List.forall_mem_cons.2
      ⟨rfl, fun c hc => baseOfLetter?_of_isDigit (hdigits.isDigit c hc)⟩

/-- The letters of bases occur in no decimal numeral. -/
theorem numeralValue_of_forall (htext : ∀ c ∈ text, baseOfLetter? c = none) :
    numeralValue text = plainNumeral text := by
  unfold numeralValue
  split
  · next c _ => rw [htext c (by simp)]
  · rfl

/-- A mark that no octal digit is makes a numeral decimal. -/
theorem plainNumeral_of_mem (hc : c ∈ text) (hoctal : isOctalDigit c = false)
    (hzero : c ≠ '0') : plainNumeral text = (decimalNumeral? text).getD .nan := by
  unfold plainNumeral
  split
  · refine if_neg fun hall => ?_
    have := List.all_eq_true.1 hall c (List.mem_of_ne_of_mem hzero hc)
    rw [hoctal] at this
    cases this
  · rfl

/-- If a numeral has a value as a decimal one, then only its size can take it away. -/
theorem plainNumeral_eq_nan_iff (hdecimal : (decimalNumeral? text).getD .nan ≠ .nan) :
    plainNumeral text = .nan ↔ ∃ octal, text = '0' :: octal ∧ (∀ c ∈ octal, isOctalDigit c) ∧
      Nat.pow 2 128 ≤ digitsValue 8 octal := by
  unfold plainNumeral
  split
  · next c cs =>
    split
    · next hall =>
      rw [integerNumeral_eq_nan_iff]
      refine ⟨fun h => ⟨_, rfl, List.all_eq_true.1 hall, ?_⟩, ?_⟩
      · exact h.resolve_left (List.cons_ne_nil _ _)
      · rintro ⟨_, ⟨⟩, -, hsize⟩
        exact .inr hsize
    · next hall =>
      refine iff_of_false hdecimal ?_
      rintro ⟨_, ⟨⟩, hoctal, -⟩
      exact hall (List.all_eq_true.2 hoctal)
  · next hshort =>
    refine iff_of_false hdecimal ?_
    rintro ⟨octal, rfl, -, hsize⟩
    cases octal with
    | nil => simp [digitsValue] at hsize
    | cons c cs => exact hshort c cs rfl

/-- The value of a numeral is NaN just if it has none. -/
theorem NumeralForm.value_eq_nan_iff {valueless : Prop} (h : NumeralForm text valueless) :
    numeralValue (stripped text) = .nan ↔ valueless := by
  cases h with
  | @based base letter digits hbase hdigits =>
    have hletter : letter ≠ '_' := by
      rintro rfl
      cases hbase
    rw [stripped_cons (by decide), stripped_cons hletter, numeralValue, hbase]
    exact integerNumeral_eq_nan_iff base _
  | plain htext =>
    rw [numeralValue_of_forall htext.baseOfLetter?_eq_none, plainNumeral_eq_nan_iff]
    have hdecimal : (decimalNumeral? (stripped text ++ [])).getD .nan ≠ .nan := by
      rw [ne_eq, decimalNumeral?_eq_nan_iff htext (by simp)]
      exact Option.some_ne_none 0
    rwa [List.append_nil] at hdecimal
  | @exponent text sign digits mark htext hmark hsign hdigits =>
    have hdigits := hdigits.isDigit
    have hstripped : stripped (text ++ mark :: (sign ++ digits)) =
        stripped text ++ mark :: (sign ++ stripped digits) := by
      have hne : mark ≠ '_' := by rcases hmark with rfl | rfl <;> decide
      rw [stripped_append, stripped_cons hne, stripped_append, stripped_sign hsign]
    have hbase : ∀ c ∈ stripped text ++ mark :: (sign ++ stripped digits),
        baseOfLetter? c = none := by
      simp only [List.forall_mem_append, List.forall_mem_cons]
      refine ⟨htext.baseOfLetter?_eq_none, ?_, ?_, fun c hc => ?_⟩
      · rcases hmark with rfl | rfl <;> rfl
      · rcases hsign with rfl | rfl | rfl <;> simp [baseOfLetter?]
      · exact baseOfLetter?_of_isDigit (hdigits c hc)
    have hoctal : isOctalDigit mark = false ∧ mark ≠ '0' := by
      rcases hmark with rfl | rfl <;> decide
    rw [hstripped, numeralValue_of_forall hbase,
      plainNumeral_of_mem (List.mem_append_right _ (List.mem_cons_self ..)) hoctal.1 hoctal.2,
      decimalNumeral?_eq_nan_iff htext (by rintro c ⟨⟩; exact hmark),
      exponent?_eq_none_iff hmark hsign hdigits]

/-- The double nearest to `2 ^ 128` is the value of a decimal numeral, but of none in base 16. -/
example : numeralValue ('0' :: 'x' :: '1' :: List.replicate 32 '0') = .nan ∧
    numeralValue "340282366920938463463374607431768211456".toList = .finite (Nat.pow 2 52) 76 := by
  decide +kernel

end WithScope
