import WithScope.Proofs.Text.CodePoint

/-!
# Readers of tokens look one character ahead

Once a reader has read a token, the text after the token may be exchanged for one that begins with
the same character or with a calm one, and the reader reads the same token. This holds of all
readers but the one of punctuators, since `...` and `?.5` are told from `.` and `?` only by the
second character; `Edge` is the condition that allows for it.

* `localReader_readRegExp`, `localReader_readTemplate` — for regular expressions and templates;
* `exchange_readToken` — for all other tokens.
-/

namespace WithScope

/-- A reader that gives back what it has not read, and that reads the same token if what it has not
read is exchanged for a text that begins alike. -/
def LocalReader (read : List Char → Reading) : Prop :=
  ∀ cs w x k, read cs = ⟨w, x, .ok k⟩ →
    cs = w ++ x ∧ ∀ y, HeadLike x y → read (w ++ y) = ⟨w, y, .ok k⟩

/-! ## String literals and templates -/

/-- The body of a string literal ends at its closing quote, whatever follows. -/
theorem splitStringBody_exchange {quote : Char} (hquote : quote = '"' ∨ quote = '\'')
    {cs body x : List Char} (h : splitStringBody quote cs = (body, quote :: x)) :
    cs = body ++ quote :: x ∧
      ∀ y, splitStringBody quote (body ++ quote :: y) = (body, quote :: y) := by
  fun_induction splitStringBody quote cs generalizing body with
  | case1 => cases h
  | case2 cs ih =>
    obtain ⟨body, hb, rfl⟩ := exists_of_prepend_eq h
    obtain ⟨rfl, hexchange⟩ := ih hb
    refine ⟨rfl, fun y => ?_⟩
    simp only [List.cons_append, List.nil_append, splitStringBody, hexchange, prepend]
  | case3 c cs hc ih =>
    obtain ⟨body, hb, rfl⟩ := exists_of_prepend_eq h
    obtain ⟨rfl, hexchange⟩ := ih hb
    refine ⟨rfl, fun y => ?_⟩
    simp only [List.cons_append, List.nil_append]
    rw [splitStringBody.eq_3, hexchange, prepend]
    · rfl
    -- no line feed follows a carriage return that none has followed before
    · intro tail hr htail
      cases body with
      | nil =>
        obtain ⟨rfl, -⟩ := List.cons.inj htail
        rcases hquote with h | h <;> cases h
      | cons d body =>
        obtain ⟨rfl, -⟩ := List.cons.inj htail
        exact hc _ hr rfl
  | case4 c cs _ _ hc =>
    obtain ⟨rfl, hrest⟩ := Prod.mk.inj h
    obtain ⟨rfl, rfl⟩ := List.cons.inj hrest
    refine ⟨rfl, fun y => ?_⟩
    rcases hquote with rfl | rfl <;> simp [splitStringBody]
  | case5 c cs _ hslash hc ih =>
    obtain ⟨body, hb, rfl⟩ := exists_of_prepend_eq h
    obtain ⟨rfl, hexchange⟩ := ih hb
    refine ⟨rfl, fun y => ?_⟩
    -- the body goes on or the quote closes it, so a backslash would have been an escape
    have hne : c ≠ '\\' := by
      rintro rfl
      cases body with
      | nil => exact hslash _ _ rfl rfl
      | cons d body => exact hslash _ _ rfl rfl
    simp only [List.cons_append, List.nil_append]
    rw [splitStringBody.eq_4 _ _ _ (fun _ h => absurd h hne) (fun _ _ h => absurd h hne), if_neg hc,
      hexchange, prepend]
    rfl

theorem localReader_readString {quote : Char} (hquote : quote = '"' ∨ quote = '\'') {cs : List Char}
    {w x : List Char} {k : TokenKind × TokenValue} (h : readString quote cs = ⟨w, x, .ok k⟩) :
    quote :: cs = w ++ x ∧ ∃ w', w = quote :: w' ∧
      ∀ y, readString quote (w' ++ y) = ⟨w, y, .ok k⟩ := by
  unfold readString at h
  generalize hsplit : splitStringBody quote cs = parts at h
  obtain ⟨body, rest⟩ := parts
  cases rest with
  | nil => cases h
  | cons c rest =>
    by_cases hc : c = quote
    · subst hc
      obtain ⟨rfl, hexchange⟩ := splitStringBody_exchange hquote hsplit
      simp only [List.head?_cons, if_true] at h
      cases hbody : unescape body with
      | error e =>
        rw [hbody] at h
        cases h
      | ok text =>
        rw [hbody] at h
        cases h
        refine ⟨by simp, body ++ [c], rfl, fun y => ?_⟩
        rw [readString, List.append_assoc, List.singleton_append, hexchange y]
        simp [hbody, Reading.token]
    · simp only [List.head?_cons, Option.some.injEq, if_neg hc] at h
      cases h

/-- A part of a template ends at the quote or at the beginning of a substitution. -/
theorem splitTemplatePart_exchange (close : List Char) {cs body x : List Char}
    (hclose : close = ['\x60'] ∨ close = ['$', '{'])
    (h : splitTemplatePart cs = (body, close ++ x)) :
    cs = body ++ (close ++ x) ∧ ∀ y, splitTemplatePart (body ++ (close ++ y)) = (body, close ++ y) := by
  fun_induction splitTemplatePart cs generalizing body with
  | case1 =>
    have := (Prod.mk.inj h).2
    rcases hclose with rfl | rfl <;> cases this
  | case2 c cs ih =>
    obtain ⟨body, hb, rfl⟩ := exists_of_prepend_eq h
    obtain ⟨rfl, hexchange⟩ := ih hb
    refine ⟨rfl, fun y => ?_⟩
    simp only [List.cons_append, List.nil_append, splitTemplatePart, hexchange, prepend]
  | case3 cs =>
    obtain ⟨rfl, hrest⟩ := Prod.mk.inj h
    rcases hclose with rfl | rfl
    · cases hrest
    · exact ⟨hrest, fun y => rfl⟩
  | case4 cs _ hsubst =>
    obtain ⟨rfl, hrest⟩ := Prod.mk.inj h
    rcases hclose with rfl | rfl
    · exact ⟨hrest, fun y => by simp [splitTemplatePart]⟩
    · cases hrest
  | case5 c cs hslash hsubst hc ih =>
    obtain ⟨body, hb, rfl⟩ := exists_of_prepend_eq h
    obtain ⟨rfl, hexchange⟩ := ih hb
    refine ⟨rfl, fun y => ?_⟩
    simp only [List.cons_append, List.nil_append]
    rw [splitTemplatePart.eq_4, if_neg hc, hexchange, prepend]
    · rfl
    -- no escape and no substitution begins at `c`, since none has begun there before
    · intro d tail hc' htail
      cases body with
      | nil => rcases hclose with rfl | rfl <;> exact hslash _ _ hc' rfl
      | cons e body => exact hslash _ _ hc' rfl
    · intro tail hc' htail
      cases body with
      | nil => rcases hclose with rfl | rfl <;> cases htail
      | cons e body =>
        obtain ⟨rfl, -⟩ := List.cons.inj htail
        exact hsubst _ hc' rfl

/-- What stops a part of a template. -/
theorem splitTemplatePart_close (cs : List Char) : (splitTemplatePart cs).2 = [] ∨
    ∃ x, (splitTemplatePart cs).2 = '\x60' :: x ∨ (splitTemplatePart cs).2 = '$' :: '{' :: x := by
  fun_induction splitTemplatePart cs with
  | case1 => exact .inl rfl
  | case2 c cs ih => exact ih
  | case3 cs => exact .inr ⟨cs, .inr rfl⟩
  | case4 cs => exact .inr ⟨cs, .inl rfl⟩
  | case5 c cs _ _ _ ih => exact ih

theorem localReader_readTemplate (resumes : Bool) (opening : Char) {cs w x : List Char}
    {k : TokenKind × TokenValue} (h : readTemplate resumes opening cs = ⟨w, x, .ok k⟩) :
    opening :: cs = w ++ x ∧ ∃ w', w = opening :: w' ∧
      ∀ y, readTemplate resumes opening (w' ++ y) = ⟨w, y, .ok k⟩ := by
  unfold readTemplate at h
  have hclose := splitTemplatePart_close cs
  generalize hsplit : splitTemplatePart cs = parts at h hclose
  obtain ⟨body, rest⟩ := parts
  rcases hclose with rfl | ⟨x', rfl | rfl⟩
  · cases h
  · obtain ⟨rfl, hexchange⟩ := splitTemplatePart_exchange ['\x60'] (.inl rfl) hsplit
    cases h
    refine ⟨by simp, body ++ ['\x60'], rfl, fun y => ?_⟩
    rw [readTemplate, List.append_assoc, hexchange y]
    rfl
  · obtain ⟨rfl, hexchange⟩ := splitTemplatePart_exchange ['$', '{'] (.inr rfl) hsplit
    cases h
    refine ⟨by simp, body ++ ['$', '{'], rfl, fun y => ?_⟩
    rw [readTemplate, List.append_assoc, hexchange y]
    rfl

/-! ## Regular expressions -/

/-- The body of a regular expression ends at its closing slash, whatever follows. -/
theorem splitRegExpBody_exchange {inClass : Bool} {cs body x : List Char}
    (h : splitRegExpBody inClass cs = (body, '/' :: x)) :
    cs = body ++ '/' :: x ∧
      ∀ y, splitRegExpBody inClass (body ++ '/' :: y) = (body, '/' :: y) := by
  fun_induction splitRegExpBody inClass cs generalizing body with
  | case1 => cases h
  | case2 _ c cs hc =>
    obtain ⟨rfl, hrest⟩ := Prod.mk.inj h
    obtain ⟨rfl, rfl⟩ := List.cons.inj hrest
    cases hc
  | case3 _ c cs hc ih =>
    obtain ⟨body, hb, rfl⟩ := exists_of_prepend_eq h
    obtain ⟨rfl, hexchange⟩ := ih hb
    refine ⟨rfl, fun y => ?_⟩
    simp only [List.cons_append, List.nil_append, splitRegExpBody, if_neg hc, hexchange, prepend]
  | case4 inClass c cs hslash hc =>
    obtain ⟨rfl, hrest⟩ := Prod.mk.inj h
    obtain ⟨rfl, rfl⟩ := List.cons.inj hrest
    refine ⟨rfl, fun y => ?_⟩
    rw [List.nil_append, splitRegExpBody.eq_3 _ _ _ (fun _ _ h => by cases h), if_pos hc]
  | case5 inClass c cs hslash hc ih =>
    obtain ⟨body, hb, rfl⟩ := exists_of_prepend_eq h
    obtain ⟨rfl, hexchange⟩ := ih hb
    refine ⟨rfl, fun y => ?_⟩
    have hne : c ≠ '\\' := by
      rintro rfl
      cases body with
      | nil => exact hslash _ _ rfl rfl
      | cons d body => exact hslash _ _ rfl rfl
    simp only [List.cons_append, List.nil_append]
    rw [splitRegExpBody.eq_3 _ _ _ (fun _ _ h => absurd h hne), if_neg hc, hexchange, prepend]
    rfl

theorem isIdStart_of_isCalm {c : Char} (h : isCalm c) : isIdStart c = false := by
  rcases isCalm_iff.1 h with rfl | rfl | rfl | rfl <;> decide +kernel

theorem isIdContinue_of_isCalm {c : Char} (h : isCalm c) : isIdContinue c = false := by
  rcases isCalm_iff.1 h with rfl | rfl | rfl | rfl <;> decide +kernel

theorem localReader_readRegExp : LocalReader readRegExp := by
  intro cs w x k h
  cases cs with
  | nil => cases h
  | cons opening cs =>
    obtain ⟨body, rest, hsplit⟩ : ∃ body rest, splitRegExpBody false cs = (body, rest) :=
      ⟨_, _, rfl⟩
    simp only [readRegExp, hsplit] at h
    split at h
    · next hslash =>
      obtain ⟨tail, rfl⟩ := List.head?_eq_some_iff.1 hslash
      obtain ⟨rfl, hexchange⟩ := splitRegExpBody_exchange hsplit
      cases h
      -- after the closing slash only the flags depend on what follows
      have hflags : Local (splitWhile isIdContinue) :=
        local_splitWhile fun _ => isIdContinue_of_isCalm
      refine ⟨by simp [prepend, List.append_assoc], fun y hy => ?_⟩
      simp only [prepend, List.cons_append, List.append_assoc, List.nil_append, readRegExp,
        hexchange, List.head?_cons, if_true, List.tail_cons]
      rw [hflags.exchange tail hy]
      rfl
    · cases h

/-! ## Numerals -/

theorem localReader_readNumeral : LocalReader readNumeral := by
  intro cs w x k h
  obtain ⟨numeral, rest, hsplit⟩ : ∃ numeral rest, splitNumeral cs = (numeral, rest) := ⟨_, _, rfl⟩
  have happend : numeral ++ rest = cs := by simpa [hsplit] using local_splitNumeral.append cs
  have hexchange {y : List Char} (hy : HeadLike rest y) :
      splitNumeral (numeral ++ y) = (numeral, y) := by
    simpa [hsplit] using local_splitNumeral.exchange cs (by rwa [hsplit])
  -- what follows is no name and no digit, so that nothing in its place is one either
  have hfollow {x y : List Char} (hx : x.head?.any (fun c => isIdStart c || c.isDigit) = false)
      (hy : HeadLike x y) : y.head?.any (fun c => isIdStart c || c.isDigit) = false := by
    have := hy.forall_head (p := fun c => (isIdStart c || c.isDigit) = false) (fun c hc => ?_)
      (by simpa [Option.any_eq_false] using hx)
    · simpa [Option.any_eq_false] using this
    · rw [isIdStart_of_isCalm hc]
      rcases isCalm_iff.1 hc with rfl | rfl | rfl | rfl <;> rfl
  simp only [readNumeral, hsplit] at h
  by_cases hbig : rest.head? = some 'n'
  · obtain ⟨tail, rfl⟩ := List.head?_eq_some_iff.1 hbig
    simp only [List.head?_cons, if_true, List.tail_cons] at h
    split at h
    · cases h
    · next hx =>
      cases h
      refine ⟨by simp [happend], fun y hy => ?_⟩
      simp only [readNumeral, List.append_assoc, List.singleton_append, hexchange (.cons 'n' _ _),
        List.head?_cons, if_true, List.tail_cons]
      rw [if_neg (by simpa using hfollow (by simpa using hx) hy)]
      rfl
  · simp only [hbig, if_false] at h
    split at h
    · cases h
    · next hx =>
      cases h
      refine ⟨happend.symm, fun y hy => ?_⟩
      have hy' := hfollow (by simpa using hx) hy
      have hnotBig : y.head? ≠ some 'n' := by
        intro hn
        exact hbig (hy.head_eq hn (by decide))
      simp only [readNumeral, hexchange hy, hnotBig, Bool.false_eq_true, if_false, hy']
      rfl

/-! ## Names -/

/-- A code point is read from its digits alone. -/
theorem readCodePoint?_exchange {cs rest : List Char} {value : Nat}
    (h : readCodePoint? cs = some (value, rest)) :
    ∃ digits, cs = digits ++ rest ∧ ∀ y, readCodePoint? (digits ++ y) = some (value, y) := by
  obtain ⟨digits, rfl, -, hfollowed⟩ := (readCodePoint?_eq_some_iff.1 h).split
  exact ⟨digits, rfl, fun y => readCodePoint?_eq_some_iff.2 (hfollowed y)⟩

/-- An escape in a name is read on its own. -/
theorem readNameEscape_exchange {allowed : Char → Bool} {cs w x : List Char} {c : Char}
    (h : readNameEscape allowed cs = ⟨(w, x), .ok c⟩) :
    '\\' :: cs = w ++ x ∧ ∃ w', w = '\\' :: w' ∧
      ∀ y, readNameEscape allowed (w' ++ y) = ⟨(w, y), .ok c⟩ := by
  unfold readNameEscape at h
  split at h
  · cases h
  · next cs =>
    split at h
    · cases h
    · next value rest hvalue =>
      obtain ⟨digits, rfl, hexchange⟩ := readCodePoint?_exchange hvalue
      have htake (y : List Char) :
          (digits ++ y).take ((digits ++ y).length - y.length) = digits := by
        rw [List.length_append, Nat.add_sub_cancel, List.take_left]
      simp only [htake] at h
      split at h
      · next hallowed =>
        cases h
        refine ⟨by simp, 'u' :: digits, rfl, fun y => ?_⟩
        simp only [List.cons_append, readNameEscape, hexchange, htake, if_pos hallowed]
      · cases h
  · cases h
  · cases h

/-- What a name goes on with after its first character. -/
theorem NameReading.exists_of_cons_eq {c : Char} {isEscape escaped : Bool} {text name w x : List Char}
    {r : NameReading} (h : r.cons c isEscape text = ⟨name, escaped, (w, x), none⟩) :
    ∃ name' escaped' w', r = ⟨name', escaped', (w', x), none⟩ ∧ name = c :: name'
      ∧ escaped = (isEscape || escaped') ∧ w = text ++ w' := by
  obtain ⟨name', escaped', ⟨w', x'⟩, fault⟩ := r
  cases h
  exact ⟨name', escaped', w', rfl, rfl, rfl, rfl⟩

/-- A name that begins with an escape. -/
theorem readName_escape {allowed : Char → Bool} {cs w x : List Char} {c : Char}
    (h : readNameEscape allowed cs = ⟨(w, x), .ok c⟩) :
    readName allowed ('\\' :: cs) = (readName isIdContinue x).cons c true w := by
  rw [readName.eq_2]
  split
  · next c' hc =>
    simp only [h] at hc ⊢
    cases hc
    rfl
  · next cause hc =>
    rw [h] at hc
    cases hc

/-- A name ends before a character that does not go on with it, whatever follows. -/
theorem readName_exchange {allowed : Char → Bool} (hcalm : ∀ c, isCalm c → allowed c = false)
    {cs name w x : List Char} {escaped : Bool}
    (h : readName allowed cs = ⟨name, escaped, (w, x), none⟩) :
    cs = w ++ x ∧ ∀ y, HeadLike x y → readName allowed (w ++ y) = ⟨name, escaped, (w, y), none⟩ := by
  -- where the name ends, it also ends before a text that may stand there
  have hstop {allowed : Char → Bool} (hcalm : ∀ c, isCalm c → allowed c = false) {x y : List Char}
      (hx : ∀ c ∈ x.head?, c ≠ '\\' ∧ allowed c = false) (hy : HeadLike x y) :
      readName allowed y = .stop y := by
    have := hy.forall_head (p := fun c => c ≠ '\\' ∧ allowed c = false)
      (fun c hc => ⟨by rcases isCalm_iff.1 hc with rfl | rfl | rfl | rfl <;> decide, hcalm c hc⟩) hx
    cases y with
    | nil => exact readName.eq_1 _
    | cons c y =>
      obtain ⟨hne, hc⟩ := this c rfl
      rw [readName.eq_3 _ _ _ hne, if_neg (by simp [hc])]
  fun_induction readName allowed cs generalizing name w escaped with
  | case1 allowed =>
    cases h
    exact ⟨rfl, fun y hy => hstop hcalm (by simp) hy⟩
  | case2 allowed cs c hc _ ih =>
    obtain ⟨name, escaped, w, hr, rfl, rfl, rfl⟩ := NameReading.exists_of_cons_eq h
    obtain ⟨hrest, hexchange⟩ := ih (fun _ => isIdContinue_of_isCalm) hr
    rcases hescape : readNameEscape allowed cs with ⟨⟨text, rest⟩, outcome⟩
    simp only [hescape] at hc hrest hr ⊢
    subst hc
    obtain ⟨hcs, text, rfl, hexchange'⟩ := readNameEscape_exchange hescape
    refine ⟨by rw [hcs, hrest, List.append_assoc], fun y hy => ?_⟩
    rw [List.append_assoc, List.cons_append, readName_escape (hexchange' _), hexchange y hy]
    simp [NameReading.cons, prepend]
  | case3 allowed cs cause hc => cases h
  | case4 allowed c cs hne hc ih =>
    obtain ⟨name, escaped, w, hr, rfl, rfl, rfl⟩ := NameReading.exists_of_cons_eq h
    obtain ⟨rfl, hexchange⟩ := ih (fun _ => isIdContinue_of_isCalm) hr
    refine ⟨rfl, fun y hy => ?_⟩
    rw [List.append_assoc, List.singleton_append, readName.eq_3 _ _ _ hne, if_pos hc,
      hexchange y hy]
    rfl
  | case5 allowed c cs hne hc =>
    cases h
    exact ⟨rfl, fun y hy => hstop hcalm (by simpa using ⟨hne, by simpa using hc⟩) hy⟩

theorem localReader_readIdentifier : LocalReader readIdentifier := by
  intro cs w x k h
  rcases hname : readName isIdStart cs with ⟨name, escaped, ⟨w', x'⟩, fault⟩
  unfold readIdentifier at h
  simp only [hname] at h
  cases fault with
  | some fault => cases h
  | none =>
    obtain ⟨hcs, hexchange⟩ := readName_exchange (fun _ => isIdStart_of_isCalm) hname
    have hparts : w' = w ∧ x' = x := by
      simp only at h
      split at h <;> cases h <;> exact ⟨rfl, rfl⟩
    obtain ⟨rfl, rfl⟩ := hparts
    refine ⟨hcs, fun y hy => ?_⟩
    unfold readIdentifier
    rw [hexchange y hy]
    simp only at h ⊢
    split at h <;> cases h <;> simp_all [Reading.token]

theorem localReader_readPrivateName {cs w x : List Char} {k : TokenKind × TokenValue}
    (h : readPrivateName cs = ⟨w, x, .ok k⟩) :
    '#' :: cs = w ++ x ∧ ∃ w', w = '#' :: w' ∧
      ∀ y, HeadLike x y → readPrivateName (w' ++ y) = ⟨w, y, .ok k⟩ := by
  rcases hname : readName isIdStart cs with ⟨name, escaped, ⟨w', x'⟩, fault⟩
  unfold readPrivateName at h
  simp only [hname] at h
  cases fault with
  | some fault => cases h
  | none =>
    obtain ⟨hcs, hexchange⟩ := readName_exchange (fun _ => isIdStart_of_isCalm) hname
    simp only at h
    split at h
    · cases h
    · next hne =>
      cases h
      refine ⟨by simp [hcs], w', rfl, fun y hy => ?_⟩
      unfold readPrivateName
      simp only [hexchange y hy, if_neg hne]
      rfl

/-! ## What may follow a token -/

/-- A text may stand in place of another after any token: both begin with the same three characters,
or with the same fewer ones after which the text in place goes on calmly and the other one with no
digit. -/
def Edge (x y : List Char) : Prop :=
  ∃ u x' y', x = u ++ x' ∧ y = u ++ y' ∧
    (3 ≤ u.length ∨ Calm y' ∧ x'.head?.any Char.isDigit = false)

theorem Edge.append (w : List Char) {x y : List Char} (h : Edge x y) : Edge (w ++ x) (w ++ y) := by
  obtain ⟨u, x', y', rfl, rfl, h⟩ := h
  refine ⟨w ++ u, x', y', by simp, by simp, h.imp (fun h => ?_) id⟩
  rw [List.length_append]
  omega

theorem Edge.headLike {x y : List Char} (h : Edge x y) : HeadLike x y := by
  obtain ⟨u, x', y', rfl, rfl, h⟩ := h
  cases u with
  | nil => exact .inr (h.resolve_left (by simp)).1
  | cons c u => exact .cons c _ _

/-! ## Punctuators -/

/-- Every punctuator has at most four characters, and none after its first is calm. -/
theorem Punctuator.spellings_calm : ∀ entry ∈ Punctuator.spellings,
    entry.1.length ≤ 4 ∧ ∀ c ∈ entry.1.tail, isCalm c = false := by
  simp [Punctuator.spellings, isCalm]

theorem Punctuator.spellings_ne_nil : ∀ entry ∈ Punctuator.spellings, entry.1 ≠ [] := by
  decide

/-- What is no beginning of a text is no beginning of it either once what stands after a token in it
has been exchanged. -/
theorem Edge.isPrefix {spelling w x y : List Char} (h : Edge x y) (hw : w ≠ [])
    (hlength : spelling.length ≤ 4) (hcalm : ∀ c ∈ spelling.tail, isCalm c = false)
    (hs : spelling <+: w ++ y) : spelling <+: w ++ x := by
  obtain ⟨u, x', y', rfl, rfl, h⟩ := h
  rw [← List.append_assoc] at hs ⊢
  have hpos := List.length_pos_iff.2 hw
  rcases Nat.lt_or_ge (w ++ u).length spelling.length with hlt | hle
  · exfalso
    rw [List.length_append] at hlt
    obtain ⟨hy, -⟩ := h.resolve_left (by omega)
    -- the spelling goes on beyond what both texts begin with, and so with a calm character
    obtain ⟨tail, htail⟩ := hs
    obtain ⟨rest, rfl⟩ : (w ++ u) <+: spelling :=
      List.prefix_of_prefix_length_le (List.prefix_append _ y') ⟨tail, htail⟩ (by simp; omega)
    rw [List.append_assoc, List.append_cancel_left_eq] at htail
    obtain ⟨c, rest, rfl⟩ : ∃ c rest', rest = c :: rest' := by
      cases rest with
      | nil =>
        simp only [List.append_nil, List.length_append] at hlt
        omega
      | cons c rest => exact ⟨c, rest, rfl⟩
    have hc : c ∈ y'.head? := by rw [← htail]; rfl
    obtain ⟨d, w, rfl⟩ := List.exists_cons_of_ne_nil hw
    have := hcalm c (by simp)
    rw [hy c hc] at this
    cases this
  · have := List.prefix_of_prefix_length_le hs (List.prefix_append (w ++ u) y') hle
    exact this.trans (List.prefix_append _ _)

theorem longest?_exchange {cs w : List Char} {mark : Punctuator}
    (h : Punctuator.longest? cs = some (w, mark)) : ∃ x, cs = w ++ x ∧ w ≠ [] ∧
      ∀ y, Edge x y → Punctuator.longest? (w ++ y) = some (w, mark) := by
  obtain ⟨hpre, before, after, hspellings, hbefore⟩ := List.find?_eq_some_iff_append.1 h
  obtain ⟨x, rfl⟩ := List.isPrefixOf_iff_prefix.1 hpre
  have hmem : (w, mark) ∈ Punctuator.spellings := by rw [hspellings]; simp
  have hw := Punctuator.spellings_ne_nil _ hmem
  refine ⟨x, rfl, hw, fun y hy => List.find?_eq_some_iff_append.2
    ⟨by simp, before, after, hspellings, fun entry hentry => ?_⟩⟩
  have hcalm := Punctuator.spellings_calm entry (by rw [hspellings]; simp [hentry])
  have := hbefore entry hentry
  simp only [Bool.not_eq_true', Bool.eq_false_iff, ne_eq, List.isPrefixOf_iff_prefix] at this ⊢
  exact fun hs => this (hy.isPrefix hw hcalm.1 hcalm.2 hs)

/-- A digit that comes second stays a digit. -/
theorem Edge.digit_second {c : Char} {x y : List Char} (h : Edge (c :: x) (c :: y))
    (hc : isCalm c = false) (hx : x.head?.any Char.isDigit) : y.head?.any Char.isDigit := by
  obtain ⟨u, x', y', hxu, hyu, h⟩ := h
  rcases u with _ | ⟨d, _ | ⟨d', u⟩⟩
  · obtain ⟨hcalm, -⟩ := h.resolve_left (by simp)
    have : isCalm c := hcalm c (by rw [← List.nil_append y', ← hyu]; rfl)
    rw [hc] at this
    cases this
  · obtain ⟨-, hdigit⟩ := h.resolve_left (by simp)
    obtain ⟨-, rfl⟩ := List.cons.inj hxu
    rw [hdigit] at hx
    cases hx
  · obtain ⟨-, rfl⟩ := List.cons.inj hxu
    obtain ⟨-, rfl⟩ := List.cons.inj hyu
    exact hx

theorem Punctuator.spellings_questionDot :
    ∀ entry ∈ Punctuator.spellings, ¬ ['?', '.'] <+: entry.1 := by
  decide

/-- `?.` is not read where `?` was, since the digit after the point stays where it is. -/
theorem not_questionDot {w x y : List Char} {mark : Punctuator} (hmem : (w, mark) ∈ Punctuator.spellings)
    (hxy : Edge x y)
    (hx : ¬(['?', '.'].isPrefixOf (w ++ x) && !((w ++ x).drop 2).head?.any Char.isDigit) = true) :
    ¬(['?', '.'].isPrefixOf (w ++ y) && !((w ++ y).drop 2).head?.any Char.isDigit) = true := by
  have hw := Punctuator.spellings_ne_nil _ hmem
  have hpre := Punctuator.spellings_questionDot _ hmem
  rcases w with _ | ⟨c, _ | ⟨d, w⟩⟩
  · exact absurd rfl hw
  · rintro hy
    simp only [List.cons_append, List.nil_append, List.isPrefixOf_cons_cons, Bool.and_eq_true, beq_iff_eq,
      List.drop_succ_cons, Bool.not_eq_true'] at hx hy
    obtain ⟨⟨rfl, hy⟩, hdigit⟩ := hy
    obtain ⟨y, rfl⟩ := List.isPrefixOf_iff_prefix.1 hy
    obtain ⟨x, rfl⟩ := List.head?_eq_some_iff.1 (hxy.headLike.head_eq (c := '.') rfl (by decide))
    refine hx ⟨⟨rfl, by simp⟩, ?_⟩
    cases hdigit' : (List.drop 1 ('.' :: x)).head?.any Char.isDigit with
    | false => rfl
    | true => exact absurd (hxy.digit_second (by decide) hdigit') (by simpa using hdigit)
  · rintro hy
    simp only [List.cons_append, List.isPrefixOf_cons_cons, List.isPrefixOf, Bool.and_eq_true,
      beq_iff_eq] at hy
    obtain ⟨⟨rfl, rfl, -⟩, -⟩ := hy
    exact hpre ⟨w, rfl⟩

theorem readPunctuator_exchange {cs w x : List Char} {k : TokenKind × TokenValue}
    (h : readPunctuator cs = ⟨w, x, .ok k⟩) :
    cs = w ++ x ∧ w ≠ [] ∧ ∀ y, Edge x y → readPunctuator (w ++ y) = ⟨w, y, .ok k⟩ := by
  unfold readPunctuator at h
  split at h
  · cases h
    exact ⟨rfl, by simp, fun y _ => rfl⟩
  · cases h
    exact ⟨rfl, by simp, fun y _ => rfl⟩
  · next hopen hclose =>
    split at h
    · next hquestion =>
      obtain ⟨hpre, hdigit⟩ := Bool.and_eq_true_iff.1 hquestion
      obtain ⟨tail, rfl⟩ := List.isPrefixOf_iff_prefix.1 hpre
      cases h
      refine ⟨rfl, by simp, fun y hy => ?_⟩
      have hy' : y.head?.any Char.isDigit = false := by
        have := hy.headLike.forall_head (p := fun c => c.isDigit = false)
          (fun c hc => by rcases isCalm_iff.1 hc with rfl | rfl | rfl | rfl <;> rfl)
          (by simpa [Option.any_eq_false] using hdigit)
        simpa [Option.any_eq_false] using this
      simp [readPunctuator, hy', Reading.token]
    · next hquestion =>
      split at h
      · next spelling mark hlongest =>
        obtain ⟨tail, rfl, hw, hexchange⟩ := longest?_exchange hlongest
        rw [List.drop_left] at h
        cases h
        have hmem : (spelling, mark) ∈ Punctuator.spellings := List.mem_of_find?_eq_some hlongest
        refine ⟨rfl, hw, fun y hy => ?_⟩
        obtain ⟨c, w, rfl⟩ := List.exists_cons_of_ne_nil hw
        rw [readPunctuator.eq_3]
        · rw [if_neg (not_questionDot hmem hy hquestion), hexchange y hy]
          simp [Reading.token]
        · exact fun _ h => hopen _ (by rw [List.cons_append, (List.cons.inj h).1])
        · exact fun _ h => hclose _ (by rw [List.cons_append, (List.cons.inj h).1])
      · cases h

/-! ## All tokens -/

/-- No reader but the one at the end of a text says that the text has ended. -/
theorem ne_eof_of_reading {cs w x : List Char} {c : Char} {k : TokenKind × TokenValue}
    (h : readToken (c :: cs) = ⟨w, x, .ok k⟩) : k.1 ≠ .eof := by
  unfold readToken at h
  simp only at h
  repeat' split at h
  all_goals
    first
    | (unfold readString at h; simp only at h; repeat' split at h)
    | (unfold readTemplate at h; simp only at h; repeat' split at h)
    | (unfold readNumeral at h; simp only at h; repeat' split at h)
    | (unfold readPrivateName at h; simp only at h; repeat' split at h)
    | (unfold readIdentifier at h; simp only at h; repeat' split at h)
    | (unfold readPunctuator at h; repeat' split at h)
    | skip
  all_goals cases h
  all_goals exact TokenKind.noConfusion

/-- A numeral that begins with a digit or a point is not empty, and no digit follows it. -/
theorem numeral_ne_nil {cs w x : List Char} {c : Char} {k : TokenKind × TokenValue}
    (h : readNumeral (c :: cs) = ⟨w, x, .ok k⟩) (hc : c.isDigit ∨ c = '.') :
    w ≠ [] ∧ x.head?.any Char.isDigit = false := by
  obtain ⟨hcs, -⟩ := localReader_readNumeral _ _ _ _ h
  have hx : x.head?.any (fun c => isIdStart c || c.isDigit) = false := by
    unfold readNumeral at h
    simp only at h
    split at h <;> split at h
    · cases h
    · next hx =>
      cases h
      simpa using hx
    · cases h
    · next hx =>
      cases h
      simpa using hx
  have hdigit : x.head?.any Char.isDigit = false := by
    cases x with
    | nil => rfl
    | cons d x =>
      simp only [List.head?_cons, Option.any_some, Bool.or_eq_false_iff] at hx
      exact hx.2
  refine ⟨?_, hdigit⟩
  rintro rfl
  rw [List.nil_append] at hcs
  subst hcs
  obtain rfl : c = '.' := hc.resolve_left (by simpa using hdigit)
  have hw : (splitNumeral ('.' :: cs)).1 ≠ [] := by
    simp [splitNumeral, splitDecimal, splitFraction, splitDigits, splitWhile, isDigitIn, hexDigit?,
      prepend]
  unfold readNumeral at h
  simp only at h
  split at h <;> split at h
  · cases h
  · have := congrArg Reading.text h
    simp [Reading.token] at this
  · cases h
  · exact hw (congrArg Reading.text h)

/-- A name is not empty. -/
theorem name_ne_nil {cs w x : List Char} {c : Char} {k : TokenKind × TokenValue}
    (h : readIdentifier (c :: cs) = ⟨w, x, .ok k⟩) (hc : isIdStart c ∨ c = '\\') : w ≠ [] := by
  rintro rfl
  rcases hname : readName isIdStart (c :: cs) with ⟨name, escaped, ⟨w, x'⟩, fault⟩
  unfold readIdentifier at h
  simp only [hname] at h
  cases fault with
  | some fault => cases congrArg Reading.outcome h
  | none =>
    obtain rfl : w = [] := by
      simp only at h
      split at h <;> exact congrArg Reading.text h
    by_cases hslash : c = '\\'
    · subst hslash
      rw [readName.eq_2] at hname
      split at hname
      · next d hd =>
        have hw := congrArg (fun r => r.parts.1) hname
        rcases hescape : readNameEscape isIdStart cs with ⟨⟨text, rest⟩, outcome⟩
        simp only [hescape] at hd
        subst hd
        obtain ⟨-, text, rfl, -⟩ := readNameEscape_exchange hescape
        simp [NameReading.cons, prepend, hescape] at hw
      · cases hname
    · rw [readName.eq_3 _ _ _ hslash, if_pos (hc.resolve_right hslash)] at hname
      have hw := congrArg (fun r => r.parts.1) hname
      simp [NameReading.cons, prepend] at hw

/-- A token is read again when the text after it has been exchanged. -/
theorem readToken_exchange {cs w x : List Char} {k : TokenKind × TokenValue} (hne : cs ≠ [])
    (h : readToken cs = ⟨w, x, .ok k⟩) :
    cs = w ++ x ∧ w ≠ [] ∧ ∀ y, Edge x y → readToken (w ++ y) = ⟨w, y, .ok k⟩ := by
  obtain ⟨c, cs, rfl⟩ := List.exists_cons_of_ne_nil hne
  unfold readToken at h
  simp only at h
  split at h
  · next hquote =>
    obtain ⟨hcs, w, rfl, hexchange⟩ := localReader_readString hquote h
    refine ⟨hcs, by simp, fun y _ => ?_⟩
    simp only [List.cons_append, readToken, if_pos hquote, hexchange y]
  · next hquote =>
  split at h
  · next htick =>
    obtain ⟨hcs, w, rfl, hexchange⟩ := localReader_readTemplate _ _ h
    refine ⟨hcs, by simp, fun y _ => ?_⟩
    simp only [List.cons_append, readToken, if_neg hquote, if_pos htick, hexchange y]
  · next htick =>
  split at h
  · next hdigit =>
    obtain ⟨hcs, hexchange⟩ := localReader_readNumeral _ _ _ _ h
    have hc : c.isDigit ∨ c = '.' := by
      simp only [Bool.or_eq_true, Bool.and_eq_true, beq_iff_eq] at hdigit
      exact hdigit.imp_right And.left
    obtain ⟨hw, hx⟩ := numeral_ne_nil h hc
    obtain ⟨c', w, rfl⟩ := List.exists_cons_of_ne_nil hw
    obtain ⟨rfl, rfl⟩ := List.cons.inj hcs
    refine ⟨rfl, hw, fun y hy => ?_⟩
    have hdigit' : (c.isDigit || c == '.' && (w ++ y).head?.any Char.isDigit) = true := by
      cases w with
      | nil => simp_all
      | cons d w => exact hdigit
    have hread := hexchange y hy.headLike
    rw [List.cons_append] at hread
    simp only [List.cons_append, readToken, if_neg hquote, if_neg htick, if_pos hdigit', hread]
  · next hdigit =>
  split at h
  · next hhash =>
    subst hhash
    obtain ⟨hcs, w, rfl, hexchange⟩ := localReader_readPrivateName h
    refine ⟨hcs, by simp, fun y hy => ?_⟩
    have hdigit' : ¬ (Char.isDigit '#' || '#' == '.' && (w ++ y).head?.any Char.isDigit) = true := by
      simp
    simp only [List.cons_append, readToken, if_neg hquote, if_neg htick, if_neg hdigit', if_true,
      hexchange y hy.headLike]
  · next hhash =>
  -- what is no digit after a point, and no star after a slash, stays none
  have hdigit' {w x y : List Char} (hcs : cs = w ++ x) (hy : HeadLike x y) :
      ¬(c.isDigit || c == '.' && (w ++ y).head?.any Char.isDigit) = true := by
    subst hcs
    intro hdigit'
    simp only [Bool.or_eq_true, Bool.and_eq_true, beq_iff_eq, not_or, not_and,
      Bool.not_eq_true] at hdigit hdigit'
    obtain ⟨rfl, hd⟩ := hdigit'.resolve_left (by simp [hdigit.1])
    have := (hy.append w).forall_head (p := fun d => d.isDigit = false)
      (fun d hd => by rcases isCalm_iff.1 hd with rfl | rfl | rfl | rfl <;> rfl)
      (by simpa [Option.any_eq_false] using hdigit.2 rfl)
    obtain ⟨d, hmem, hd⟩ := (Option.any_eq_true _ _).1 hd
    rw [this d hmem] at hd
    cases hd
  split at h
  · next hname =>
    obtain ⟨hcs, hexchange⟩ := localReader_readIdentifier _ _ _ _ h
    have hw := name_ne_nil h (by simpa using hname)
    obtain ⟨c', w, rfl⟩ := List.exists_cons_of_ne_nil hw
    obtain ⟨rfl, rfl⟩ := List.cons.inj hcs
    refine ⟨rfl, hw, fun y hy => ?_⟩
    have hread := hexchange y hy.headLike
    rw [List.cons_append] at hread
    simp only [List.cons_append, readToken, if_neg hquote, if_neg htick,
      if_neg (hdigit' rfl hy.headLike), if_neg hhash, if_pos hname, hread]
  · next hname =>
  split at h
  · cases h
  · next hcomment =>
    obtain ⟨hcs, hw, hexchange⟩ := readPunctuator_exchange h
    obtain ⟨c', w, rfl⟩ := List.exists_cons_of_ne_nil hw
    obtain ⟨rfl, rfl⟩ := List.cons.inj hcs
    refine ⟨rfl, hw, fun y hy => ?_⟩
    have hcomment' : ¬(c = '/' ∧ (w ++ y).head? = some '*') := by
      rintro ⟨hc, hstar⟩
      exact hcomment ⟨hc, (hy.headLike.append w).head_eq hstar (by decide)⟩
    have hread := hexchange y hy
    rw [List.cons_append] at hread
    simp only [List.cons_append, readToken, if_neg hquote, if_neg htick,
      if_neg (hdigit' rfl hy.headLike), if_neg hhash, if_neg hname, if_neg hcomment', hread]

/-- The marks that are read at the beginning of a text, and how they are spelled. -/
theorem readToken_punctuator {cs w x : List Char} {k : TokenKind × TokenValue} {mark : Punctuator}
    (h : readToken cs = ⟨w, x, .ok k⟩) (hk : k.1 = .punctuator mark) :
    (w, mark) ∈ (['{'], .leftBrace) :: (['}'], .rightBrace) :: (['?', '.'], .questionDot) ::
      Punctuator.spellings ∧ cs = w ++ x := by
  cases cs with
  | nil =>
    cases h
    cases hk
  | cons c cs =>
    refine ⟨?_, (readToken_exchange (List.cons_ne_nil _ _) h).1⟩
    unfold readToken at h
    simp only at h
    repeat' split at h
    all_goals
      first
      | (unfold readString at h; simp only at h; repeat' split at h)
      | (unfold readTemplate at h; simp only at h; repeat' split at h)
      | (unfold readNumeral at h; simp only at h; repeat' split at h)
      | (unfold readPrivateName at h; simp only at h; repeat' split at h)
      | (unfold readIdentifier at h; simp only at h; repeat' split at h)
      | (unfold readPunctuator at h; repeat' split at h)
      | skip
    all_goals cases h
    all_goals try cases hk
    · exact List.mem_cons_self ..
    · exact List.mem_cons_of_mem _ (List.mem_cons_self ..)
    · exact List.mem_cons_of_mem _ (List.mem_cons_of_mem _ (List.mem_cons_self ..))
    · next hlongest =>
      have hmem := List.mem_of_find?_eq_some hlongest
      exact List.mem_cons_of_mem _ (List.mem_cons_of_mem _ (List.mem_cons_of_mem _ hmem))

theorem readToken_rightBrace {cs w x : List Char} {k : TokenKind × TokenValue}
    (h : readToken cs = ⟨w, x, .ok k⟩) (hk : k.1 = .punctuator .rightBrace) :
    cs.head? = some '}' := by
  obtain ⟨hmem, rfl⟩ := readToken_punctuator h hk
  have hspellings : ∀ entry ∈ (['{'], .leftBrace) :: (['}'], .rightBrace) ::
      (['?', '.'], .questionDot) :: Punctuator.spellings, entry.2 = .rightBrace →
        entry.1 = ['}'] := by decide
  rw [show w = ['}'] from hspellings _ hmem rfl]
  rfl

end WithScope
