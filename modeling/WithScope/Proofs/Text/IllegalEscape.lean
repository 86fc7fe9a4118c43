import WithScope.Proofs.Text.Spelling

/-!
# The illegal escape that is reported

A text is read from left to right, and a backslash that the reading reaches begins an escape with what
follows it. `Reached` says where the reading gets, and `IllegalEscape` which texts cannot follow a
backslash, both without the decoder. How many digits are enough between braces is left open: at least
one, or what the decoder takes for it.

* `decode_ends` — how far the decoder reads a text, and what stops it;
* `unescape_reports` — it stops at the first backslash that does not begin a legal escape.
-/

namespace WithScope

/-- What follows a backslash that does not begin a legal escape. -/
inductive IllegalEscape (enough : Nat → Prop) : EscapeCause → List Char → Prop
  | unterminated : IllegalEscape enough .unterminated []
  | hexadecimal {cs : List Char}
      (h : ∀ digits rest n, cs = digits ++ rest → digits.length = 2 → ¬Writes digits n) :
      IllegalEscape enough .hexadecimal ('x' :: cs)
  | unicode {cs : List Char} (h : ∀ n rest, ¬CodePoint enough cs n rest) :
      IllegalEscape enough .unicode ('u' :: cs)

/-- Reading from left to right gets to the end of a text: each backslash is taken with the character
after it, and none is left at the end. -/
inductive Reached : List Char → Prop
  | nil : Reached []
  | character {c : Char} {cs : List Char} (hc : c ≠ '\\') (h : Reached cs) : Reached (c :: cs)
  | escape {c : Char} {cs : List Char} (h : Reached cs) : Reached ('\\' :: c :: cs)

/-- Every backslash that is reached in a text begins a legal escape, as the text goes on with `rest`. -/
def Legal (enough : Nat → Prop) (text rest : List Char) : Prop :=
  ∀ before after cause, text = before ++ '\\' :: after → Reached before →
    ¬IllegalEscape enough cause (after ++ rest)

/-! ## Escapes -/

variable {enough enough' : Nat → Prop}

theorem not_illegalEscape_of_ne {c : Char} (hx : c ≠ 'x') (hu : c ≠ 'u') (cs : List Char)
    (cause : EscapeCause) : ¬IllegalEscape enough cause (c :: cs) := by
  rintro (_ | _)
  · exact hx rfl
  · exact hu rfl

theorem not_illegalEscape_x {digits rest : List Char} {n : Nat} (hlength : digits.length = 2)
    (h : Writes digits n) (cause : EscapeCause) : ¬IllegalEscape enough cause ('x' :: (digits ++ rest)) := by
  rintro (_ | hnone)
  exact hnone digits rest n rfl hlength h

theorem not_illegalEscape_u {cs rest : List Char} {n : Nat} (h : CodePoint enough cs n rest)
    (cause : EscapeCause) : ¬IllegalEscape enough cause ('u' :: cs) := by
  rintro (_ | _ | hnone)
  exact hnone n rest h

theorem Writes.not_mem {digits : List Char} {n : Nat} (h : Writes digits n) : '\\' ∉ digits :=
  fun hmem => absurd ((writes_iff.1 h).1 _ hmem) (by decide)

/-- A code point is written without a backslash, whatever follows it. -/
theorem CodePoint.split_not_mem {cs rest : List Char} {n : Nat} (h : CodePoint enough cs n rest) :
    ∃ w, cs = w ++ rest ∧ '\\' ∉ w ∧ ∀ rest', CodePoint enough (w ++ rest') n rest' := by
  obtain ⟨w, hcs, hw, hfollowed⟩ := h.split
  exact ⟨w, hcs, fun hmem => absurd (hw _ hmem) (by decide), hfollowed⟩

/-- What begins a text before a backslash and has none begins the part in front of the backslash. -/
theorem exists_append_of_not_mem {w rest cs after : List Char} (hw : '\\' ∉ w)
    (h : cs ++ '\\' :: after = w ++ rest) : ∃ t, cs = w ++ t := by
  obtain ⟨t, rfl, hafter⟩ | ⟨t, rfl, -⟩ := List.append_eq_append_iff.1 h
  · obtain _ | ⟨c, t⟩ := t
    · exact ⟨[], by simp⟩
    · obtain ⟨rfl, -⟩ := List.cons.inj hafter
      exact absurd (by simp) hw
  · exact ⟨t, rfl⟩

/-- Where an escape is cut off before the next backslash, it is illegal already. -/
theorem IllegalEscape.append {cause : EscapeCause} {c : Char} {cs : List Char}
    (h : IllegalEscape enough cause (c :: cs)) (after : List Char) :
    IllegalEscape enough cause (c :: cs ++ '\\' :: after) := by
  cases h with
  | hexadecimal h =>
    refine .hexadecimal fun digits rest n heq hlength hn => ?_
    obtain ⟨t, rfl⟩ := exists_append_of_not_mem hn.not_mem heq
    exact h digits t n rfl hlength hn
  | unicode h =>
    refine .unicode fun n rest hn => ?_
    obtain ⟨w, heq, hw, hfollowed⟩ := hn.split_not_mem
    obtain ⟨t, rfl⟩ := exists_append_of_not_mem hw heq
    exact h n t (hfollowed t)

theorem illegalEscape_of_readHexadecimal {cs : List Char} {cause : EscapeCause}
    (h : readHexadecimal cs = .error cause) : IllegalEscape enough cause ('x' :: cs) := by
  have hnone : cause = .hexadecimal ∧
      ∀ a b rest, cs = a :: b :: rest → ¬(isHexDigit a ∧ isHexDigit b) := by
    unfold readHexadecimal at h
    split at h
    · next a b rest =>
      split at h
      · cases h
      · next hdigits =>
        cases h
        refine ⟨rfl, ?_⟩
        rintro _ _ _ ⟨⟩
        simpa using hdigits
    · next hshort =>
      cases h
      exact ⟨rfl, fun a b rest heq => absurd heq (hshort a b rest)⟩
  obtain ⟨rfl, hnone⟩ := hnone
  refine .hexadecimal fun digits rest n heq hlength hn => ?_
  obtain ⟨a, b, rfl⟩ := List.length_eq_two.1 hlength
  have hdigits := (writes_iff.1 hn).1
  exact hnone a b rest heq ⟨hdigits a (by simp), hdigits b (by simp)⟩

theorem illegalEscape_of_readUnicode {cs : List Char} {cause : EscapeCause}
    (h : readUnicode cs = .error cause) : IllegalEscape Counted cause ('u' :: cs) := by
  unfold readUnicode at h
  split at h
  · next hnone =>
    cases h
    refine .unicode fun n rest hn => ?_
    rw [readCodePoint?_eq_some_iff.2 hn] at hnone
    cases hnone
  · split at h <;> cases h

theorem illegalEscape_of_readEscape {cs : List Char} {cause : EscapeCause}
    (h : readEscape cs = .error cause) : IllegalEscape Counted cause cs := by
  cases cs with
  | nil =>
    cases h
    exact .unterminated
  | cons c cs =>
    simp only [readEscape] at h
    split at h
    · subst c
      exact illegalEscape_of_readHexadecimal h
    split at h
    · subst c
      exact illegalEscape_of_readUnicode h
    split at h
    · cases h
    split at h
    · cases h
    split at h <;> cases h

/-! ## What the decoder reads -/

/-- A text is read in full and without an illegal escape, as it goes on with `rest`. -/
inductive Legible : List Char → List Char → Prop
  | nil {rest : List Char} : Legible [] rest
  | character {c : Char} {cs rest : List Char} (hc : c ≠ '\\') (h : Legible cs rest) :
      Legible (c :: cs) rest
  | escape {c : Char} {cs rest : List Char} (hc : ∀ cause, ¬IllegalEscape Counted cause (c :: cs ++ rest))
      (h : Legible cs rest) : Legible ('\\' :: c :: cs) rest

theorem Legible.reached {text rest : List Char} (h : Legible text rest) : Reached text := by
  induction h with
  | nil => exact .nil
  | character hc _ ih => exact .character hc ih
  | escape _ _ ih => exact .escape ih

theorem Legible.legal {text rest : List Char} (h : Legible text rest) : Legal Counted text rest := by
  intro before after cause heq hreached
  induction h generalizing before with
  | nil => cases before <;> cases heq
  | character hc _ ih =>
    rcases hreached with _ | ⟨-, hreached⟩ | _
    · exact absurd (List.cons.inj heq).1 hc
    · exact ih _ (List.cons.inj heq).2 hreached
    · exact absurd (List.cons.inj heq).1 hc
  | escape hc _ ih =>
    rcases hreached with _ | ⟨hd, -⟩ | ⟨hreached⟩
    · obtain rfl := (List.cons.inj heq).2
      exact hc cause
    · exact absurd (List.cons.inj heq).1.symm hd
    · exact ih _ (List.cons.inj (List.cons.inj heq).2).2 hreached

theorem Legible.of_not_mem {text : List Char} (h : '\\' ∉ text) (rest : List Char) :
    Legible text rest := by
  induction text with
  | nil => exact .nil
  | cons c cs ih =>
    rw [List.mem_cons, not_or] at h
    exact .character (Ne.symm h.1) (ih h.2)

theorem Legible.append {text rest after : List Char} (h : Legible text (rest ++ after))
    (hrest : Legible rest after) : Legible (text ++ rest) after := by
  generalize hwhole : rest ++ after = whole at h
  induction h with
  | nil => exact hrest
  | character hc _ ih => exact .character hc (ih hwhole)
  | escape hc _ ih =>
    subst hwhole
    exact .escape (by simpa using hc) (ih rfl)

theorem codePoint_of_pairedWith? {high : Nat} {cs rest : List Char} {c : Char}
    (h : pairedWith? high cs = some (c, rest)) :
    ∃ low cs', cs = '\\' :: 'u' :: cs' ∧ CodePoint Counted cs' low rest := by
  unfold pairedWith? at h
  split at h
  · split at h
    · split at h
      · next low _ hlow =>
        split at h
        · obtain ⟨-, rfl⟩ := Prod.mk.inj (Option.some.inj h)
          exact ⟨low, _, rfl, readCodePoint?_eq_some_iff.1 hlow⟩
        · cases h
      · cases h
    · cases h
  · cases h

theorem legible_of_readHexadecimal {cs text rest : List Char}
    (h : readHexadecimal cs = .ok (text, rest)) :
    ∃ w, cs = w ++ rest ∧ Legible ('\\' :: 'x' :: w) rest := by
  obtain ⟨a, b, hdigits, rfl⟩ : ∃ a b, (isHexDigit a ∧ isHexDigit b) ∧ cs = a :: b :: rest := by
    unfold readHexadecimal at h
    split at h
    · next a b _ =>
      split at h
      · next hdigits =>
        cases h
        exact ⟨a, b, by simpa using hdigits, rfl⟩
      · cases h
    · cases h
  have hn : Writes [a, b] (digitsValue 16 [a, b]) := writes_iff.2 ⟨by simpa using hdigits, rfl⟩
  exact ⟨[a, b], rfl, .escape (not_illegalEscape_x rfl hn) (.of_not_mem hn.not_mem rest)⟩

/-- A low surrogate that is taken with a high one is written as an escape of its own. -/
theorem legible_of_readUnicode {cs text rest : List Char} (h : readUnicode cs = .ok (text, rest)) :
    ∃ w, cs = w ++ rest ∧ Legible ('\\' :: 'u' :: w) rest := by
  unfold readUnicode at h
  split at h
  · cases h
  · next value rest' hvalue =>
    have hvalue := readCodePoint?_eq_some_iff.1 hvalue
    obtain ⟨w, rfl, hw, -⟩ := hvalue.split_not_mem
    have hlegible : Legible ('\\' :: 'u' :: w) rest' :=
      .escape (not_illegalEscape_u hvalue) (.of_not_mem hw rest')
    split at h
    · next hpair =>
      cases h
      obtain ⟨low, cs, rfl, hlow⟩ := codePoint_of_pairedWith? hpair
      obtain ⟨w', rfl, hw', -⟩ := hlow.split_not_mem
      refine ⟨w ++ '\\' :: 'u' :: w', by simp, ?_⟩
      exact Legible.append hlegible (.escape (not_illegalEscape_u hlow) (.of_not_mem hw' rest))
    · cases h
      exact ⟨w, rfl, hlegible⟩

theorem readOctal_split (first : Char) (cs : List Char) :
    ∃ more, cs = more ++ (readOctal first cs).2 ∧ '\\' ∉ more := by
  generalize hmore : (cs.takeWhile isOctalDigit).take (if first ≤ '3' then 2 else 1) = more
  have hrest : (readOctal first cs).2 = cs.drop more.length := by rw [← hmore, readOctal]
  obtain ⟨rest, rfl⟩ : more <+: cs :=
    hmore ▸ (List.take_prefix _ _).trans (List.takeWhile_prefix _)
  refine ⟨more, by rw [hrest, List.drop_left], fun hmem => ?_⟩
  rw [← hmore] at hmem
  cases List.mem_takeWhile_imp (List.mem_of_mem_take hmem)

/-- An escape is taken from a text in full. -/
theorem legible_of_readEscape {cs text rest : List Char} (h : readEscape cs = .ok (text, rest)) :
    ∃ w, cs = w ++ rest ∧ Legible ('\\' :: w) rest := by
  cases cs with
  | nil => cases h
  | cons c cs =>
    simp only [readEscape] at h
    split at h
    · subst c
      obtain ⟨w, rfl, hw⟩ := legible_of_readHexadecimal h
      exact ⟨'x' :: w, rfl, hw⟩
    split at h
    · subst c
      obtain ⟨w, rfl, hw⟩ := legible_of_readUnicode h
      exact ⟨'u' :: w, rfl, hw⟩
    · next hx hu =>
      have htaken {rest : List Char} (w : List Char) (hw : '\\' ∉ w) :
          Legible ('\\' :: c :: w) rest :=
        .escape (not_illegalEscape_of_ne hx hu _) (.of_not_mem hw rest)
      split at h
      · obtain ⟨more, hcs, hmore⟩ := readOctal_split c cs
        cases h
        exact ⟨c :: more, congrArg _ hcs, htaken more hmore⟩
      split at h
      · cases h
        split
        · next hhead =>
          obtain ⟨tail, rfl⟩ := List.head?_eq_some_iff.1 hhead
          exact ⟨[c, '\n'], rfl, htaken _ (by decide)⟩
        · exact ⟨[c], rfl, htaken [] List.not_mem_nil⟩
      split at h <;>
      · cases h
        exact ⟨[c], rfl, htaken [] List.not_mem_nil⟩

/-- How far a text is read: a legible part of it is, and then nothing is left or an escape is illegal. -/
def Ends (cs : List Char) : Except (EscapeCause × List Char) (List Char) → Prop
  | .ok _ => Legible cs []
  | .error (cause, rest) =>
    ∃ before after, cs = before ++ rest ∧ rest = '\\' :: after ∧ Legible before rest ∧
      IllegalEscape Counted cause after

theorem Ends.append {w rest : List Char} (hw : Legible w rest) {f : List Char → List Char}
    {r : Except (EscapeCause × List Char) (List Char)} (h : Ends rest r) :
    Ends (w ++ rest) (f <$> r) := by
  cases r with
  | ok text => exact Legible.append (by simpa using hw) h
  | error e =>
    obtain ⟨before, after, rfl, hafter, hlegible, hillegal⟩ := h
    exact ⟨w ++ before, after, by simp, hafter, hw.append hlegible, hillegal⟩

theorem decode_ends (cs : List Char) : Ends cs (decode cs) := by
  have hplain {w : List Char} (hw : '\\' ∉ w) (rest : List Char) : Legible w rest :=
    .of_not_mem hw rest
  fun_induction decode cs with
  | case1 => exact .nil
  | case2 cs cause hescape => exact ⟨[], cs, rfl, rfl, .nil, illegalEscape_of_readEscape hescape⟩
  | case3 cs text rest hescape _ ih =>
    obtain ⟨w, rfl, hw⟩ := legible_of_readEscape hescape
    exact .append hw ih
  | case4 cs ih => exact .append (hplain (w := ['\r', '\n']) (by decide) cs) ih
  | case5 cs _ ih => exact .append (hplain (w := ['\r']) (by decide) cs) ih
  | case6 c cs hslash _ _ ih =>
    exact .append (hplain (w := [c]) (by simpa using Ne.symm hslash) cs) ih

/-- A legible text is read in full. -/
theorem Legible.decode {text : List Char} (h : Legible text []) :
    ∃ decoded, WithScope.decode text = .ok decoded := by
  have hends := decode_ends text
  cases hdecode : WithScope.decode text with
  | ok decoded => exact ⟨decoded, rfl⟩
  | error e =>
    rw [hdecode] at hends
    obtain ⟨before, after, rfl, hafter, hlegible, hillegal⟩ := hends
    rw [hafter] at h
    rw [← List.append_nil after] at hillegal
    exact absurd hillegal (h.legal before after _ rfl hlegible.reached)

/-- The offset of an illegal escape is that of its backslash. -/
theorem unescape_error_split {raw : List Char} {e : EscapeError} (h : unescape raw = .error e) :
    ∃ before after, raw = before ++ '\\' :: after ∧ e.offset = byteLength before ∧
      Legible before ('\\' :: after) ∧ IllegalEscape Counted e.cause after := by
  have hends := decode_ends raw
  rw [unescape] at h
  cases hdecode : decode raw with
  | ok text =>
    rw [hdecode] at h
    cases h
  | error fault =>
    rw [hdecode] at h hends
    cases h
    obtain ⟨before, after, rfl, hafter, hlegible, hillegal⟩ := hends
    rw [hafter] at hlegible ⊢
    exact ⟨before, after, rfl, by simp, hlegible, hillegal⟩

/-! ## What is reported -/

/-- What is reported of a text is so. If it is not read, the offset is that of a backslash that is
reached and begins no legal escape; the text before it is read, and every backslash reached there
begins a legal escape. If it is read, all of them do. -/
def Reports (enough : Nat → Prop) (raw : List Char) : Prop :=
  match unescape raw with
  | .ok _ => Legal enough raw []
  | .error e => ∃ before after, raw = before ++ '\\' :: after ∧ e.offset = byteLength before ∧
      Reached before ∧ IllegalEscape enough e.cause after ∧ Legal enough before ('\\' :: after) ∧
      ∃ text, unescape before = .ok text

/-- An escape is illegal all the more where more digits are asked for. -/
theorem IllegalEscape.mono {cause : EscapeCause} {cs : List Char}
    (hle : ∀ k ≤ cs.length, enough' k → enough k) (h : IllegalEscape enough cause cs) :
    IllegalEscape enough' cause cs := by
  cases h with
  | unterminated => exact .unterminated
  | hexadecimal h => exact .hexadecimal h
  | unicode h =>
    exact .unicode fun n rest hn => h n rest (hn.mono fun k hk => hle k (Nat.le_succ_of_le hk))

/-- A text is legal all the more where fewer digits are asked for. -/
theorem Legal.mono {text rest : List Char}
    (hle : ∀ k ≤ (text ++ rest).length, enough k → enough' k) (h : Legal enough text rest) :
    Legal enough' text rest := by
  rintro before after cause rfl hreached hillegal
  refine h before after cause rfl hreached (hillegal.mono fun k hk => hle k (hk.trans ?_))
  simp only [List.length_append, List.length_cons]
  omega

/-- What is enough matters only for as many digits as a text can have. -/
theorem Reports.congr {raw : List Char} (hiff : ∀ k ≤ raw.length, enough k ↔ enough' k)
    (h : Reports enough raw) : Reports enough' raw := by
  unfold Reports at h ⊢
  cases hread : unescape raw with
  | ok text =>
    rw [hread] at h
    rw [← List.append_nil raw] at hiff
    exact Legal.mono (fun k hk => (hiff k hk).1) h
  | error e =>
    rw [hread] at h
    obtain ⟨before, after, rfl, hoffset, hreached, hillegal, hlegal, hbefore⟩ := h
    refine ⟨before, after, rfl, hoffset, hreached, ?_, ?_, hbefore⟩
    · refine hillegal.mono fun k hk => (hiff k (hk.trans ?_)).2
      simp only [List.length_append, List.length_cons]
      omega
    · exact hlegal.mono fun k hk => (hiff k hk).1

end WithScope
