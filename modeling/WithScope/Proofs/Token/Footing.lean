import WithScope.Proofs.Token.Copies
import WithScope.Proofs.Token.Names
import WithScope.Proofs.Token.Spelled

/-!
# Where a copy may begin and end

A copy of a text begins where a lexer stands and ends where a token does.

* `Lexer.Sound.exists_after_gap`, `Lexer.exists_after_shebang` — the lexer that gives a token may as
  well stand right before the token, or after the `#!` line;
* `Lexer.Session.keyword_ends` — a reserved word ends where no name goes on;
* `Lexer.Sound.next_name`, `Lexer.Sound.next_rightBrace` — tokens that are known, besides the marks.
-/

namespace WithScope

/-! ## Where words end -/

/-- A name goes on as long as it can. -/
theorem readName_ends (allowed : Char → Bool) (cs : List Char)
    (h : (readName allowed cs).fault = none) : ∀ c ∈ (readName allowed cs).parts.2.head?,
      (if (readName allowed cs).name = [] then allowed c else isIdContinue c) = false := by
  fun_induction readName allowed cs with
  | case1 allowed => exact fun c hc => by cases hc
  | case2 allowed cs c hc _ ih =>
    intro d hd
    have := ih h d hd
    split at this <;> simpa [NameReading.cons] using this
  | case3 allowed cs cause hc => cases h
  | case4 allowed c cs hne hc ih =>
    intro d hd
    have := ih h d hd
    split at this <;> simpa [NameReading.cons] using this
  | case5 allowed c cs hne hc =>
    rintro d ⟨⟩
    simpa [NameReading.stop] using hc

/-- Only the reader of identifiers makes reserved words. -/
theorem readIdentifier_of_keyword {cs w x : List Char} {word : Keyword} {value : TokenValue}
    (h : readToken cs = ⟨w, x, .ok (.keyword word, value)⟩) :
    readIdentifier cs = ⟨w, x, .ok (.keyword word, value)⟩ := by
  cases cs with
  | nil => cases h
  | cons c cs =>
    unfold readToken at h
    simp only at h
    split at h
    · unfold readString at h
      simp only at h
      repeat' split at h
      all_goals cases h
    split at h
    · unfold readTemplate at h
      simp only at h
      repeat' split at h
      all_goals cases h
    split at h
    · unfold readNumeral at h
      simp only at h
      repeat' split at h
      all_goals cases h
    split at h
    · unfold readPrivateName at h
      simp only at h
      repeat' split at h
      all_goals cases h
    split at h
    · exact h
    split at h
    · cases h
    · unfold readPunctuator at h
      repeat' split at h
      all_goals cases h

/-- A reserved word ends where no name goes on. -/
theorem readToken_keyword_ends {cs w x : List Char} {word : Keyword} {value : TokenValue}
    (h : readToken cs = ⟨w, x, .ok (.keyword word, value)⟩) :
    ∀ c ∈ x.head?, isIdContinue c = false := by
  replace h := readIdentifier_of_keyword h
  have hends := readName_ends isIdStart cs
  unfold readIdentifier at h
  simp only at h
  split at h
  · cases h
  · next hfault =>
    replace hends := hends hfault
    split at h
    · next hword hescaped =>
      cases h
      have hname : (readName isIdStart cs).name ≠ [] := by
        intro hname
        rw [hname] at hword
        cases hword
      intro c hc
      simpa [hname] using hends c hc
    · cases h

/-- A name that something else follows is read up to there. -/
theorem readName_before {w x : List Char} (hw : isName w)
    (hx : ∀ c ∈ x.head?, c ≠ '\\' ∧ isIdContinue c = false) :
    readName isIdStart (w ++ x) = ⟨w, false, (w, x), none⟩ := by
  have hcontinue {w : List Char} (hw : w.all isIdContinue) :
      readName isIdContinue (w ++ x) = ⟨w, false, (w, x), none⟩ := by
    induction w with
    | nil =>
      cases x with
      | nil => exact readName.eq_1 _
      | cons c x =>
        obtain ⟨hne, hc⟩ := hx c rfl
        rw [List.nil_append, readName.eq_3 _ _ _ hne, if_neg (by simp [hc])]
        rfl
    | cons c w ih =>
      obtain ⟨hc, hw⟩ := List.all_cons.symm.trans hw |> Bool.and_eq_true_iff.1
      have hne : c ≠ '\\' := by
        rintro rfl
        cases hc
      rw [List.cons_append, readName.eq_3 _ _ _ hne, if_pos hc, ih hw]
      rfl
  cases w with
  | nil => cases hw
  | cons c w =>
    obtain ⟨hc, hw⟩ := Bool.and_eq_true_iff.1 hw
    rw [List.cons_append, readName.eq_3 _ _ _ (ne_of_isIdStart hc (by decide)), if_pos hc,
      hcontinue hw]
    rfl

/-- What is true of the ten digits. -/
theorem forall_isDigit {p : Char → Bool} (h : ∀ n ∈ List.range' 48 10, p (Char.ofNat n)) {c : Char}
    (hc : c.isDigit) : p c := by
  have hbounds : 48 ≤ c.toNat ∧ c.toNat ≤ 57 := by
    simpa [Char.isDigit, UInt32.le_iff_toNat_le] using hc
  have hp := h c.toNat (by simp; omega)
  rwa [c.ofNat_toNat] at hp

theorem isIdContinue_of_isDigit {c : Char} (h : c.isDigit) : isIdContinue c :=
  forall_isDigit (by decide +kernel) h

/-- A gap begins with no digit. -/
theorem GapAfter.isDigit_eq_false {before rest gap : List Char} {c : Char}
    (h : GapAfter before rest (c :: gap)) : c.isDigit = false := by
  have hblank : c.isDigit → !(isBlank c || isLineTerminator c) :=
    forall_isDigit (p := fun c => !(isBlank c || isLineTerminator c)) (by decide +kernel)
  refine Bool.eq_false_iff.2 fun hdigit => ?_
  have hnone : isBlank c = false ∧ isLineTerminator c = false := by simpa using hblank hdigit
  rcases h with hgap | ⟨-, line, gap', hgap, -⟩
  · cases hgap with
    | blank hc => exact Bool.false_ne_true (hnone.1.symm.trans hc)
    | lineEnd hc => exact Bool.false_ne_true (hnone.2.symm.trans hc)
    | lineComment | blockComment => cases hdigit
  · cases hgap
    cases hdigit

/-- After a gap there is no other. -/
theorem splitBlanks_splitBlanks (cs : List Char) :
    splitBlanks (splitBlanks cs).2 = ([], (splitBlanks cs).2) := by
  fun_induction splitBlanks cs with
  | case1 => exact splitBlanks_nil
  | case2 cs _ ih => exact ih
  | case3 cs comment h _ ih => exact ih
  | case4 cs h =>
    rw [splitBlanks.eq_def]
    simp only
    split
    · next hsome =>
      rw [h] at hsome
      cases hsome
    · rfl
  | case5 c cs _ _ _ ih => exact ih
  | case6 c cs hline hcomment hc =>
    refine splitBlanks_stop (by simpa using hc) fun hslash d hd => ?_
    obtain ⟨cs, rfl⟩ := List.head?_eq_some_iff.1 hd
    exact ⟨fun hd => hline cs hslash (hd ▸ rfl), fun hd => hcomment cs hslash (hd ▸ rfl)⟩

namespace Lexer

variable {source : List Char} {l l' : Lexer} {t : Token}

theorem next_keyword_ends {word : Keyword} (h : l.next.1 = .ok t) (hk : t.kind = .keyword word) :
    ∀ c ∈ l.next.2.rest.head?, isIdContinue c = false := by
  rw [next_eq] at h ⊢
  obtain ⟨w, x, k, hread, rfl, hl⟩ := advance_inv (Prod.ext h rfl)
  rw [advance_rest, hread]
  unfold upcoming at hread
  split at hread
  · rcases readTemplate_resumed hread with htemplate | htemplate <;> rw [htemplate] at hk <;> cases hk
  · obtain ⟨kind, value⟩ := k
    obtain rfl : kind = .keyword word := hk
    exact readToken_keyword_ends hread

/-- Where a lexer of a text has given a reserved word, no name goes on. -/
theorem Session.keyword_ends {given : List (Except SyntaxError Token)}
    (h : Session source l given) : ∀ t, .ok t ∈ given → ∀ word, t.kind = .keyword word →
      ∃ before text rest, source = before ++ text ++ rest ∧ t.Stands before text rest ∧
        ∀ c ∈ rest.head?, isIdContinue c = false := by
  induction h with
  | start => exact fun _ ht => absurd ht List.not_mem_nil
  | @next l given hsession ih =>
    intro t ht word hk
    rcases List.mem_cons.1 ht with hnext | ht
    · obtain ⟨hsource, ⟨before, hl⟩, -⟩ := hsession.spec
      obtain ⟨gap, text, -, -, hstands, hl'⟩ := next_token hl hnext.symm
      refine ⟨_, text, _, ?_, hstands, next_keyword_ends hnext.symm hk⟩
      rw [← hsource, ← next_source l, hl'.source]
    · exact ih t ht word hk
  | @rescan l given slash hsession hslash ih =>
    intro t ht word hk
    rcases List.mem_cons.1 ht with hrescan | ht
    · obtain ⟨-, -, hkind⟩ := substitutions_rescanRegExp (Prod.ext hrescan.symm rfl)
      rw [hk] at hkind
      cases hkind
    · exact ih t ht word hk

/-! ## Where lexers may begin -/

/-- A token begins nowhere before the place of the lexer that gives it. -/
theorem position_le (h : l.next = (.ok t, l')) : l.position.offset ≤ t.span.start.offset := by
  rw [next_eq] at h
  obtain ⟨w, x, k, -, rfl, -⟩ := advance_inv h
  show _ ≤ (l.position.after _).offset
  rw [Position.offset_after]
  exact Nat.le_add_right _ _

/-- A lexer that gives a token on its line may as well stand right before the token. -/
theorem Sound.exists_after_gap (h : l.Sound) (hnext : l.next = (.ok t, l'))
    (hline : t.newlineBefore = false) (hpos : l.position.offset ≠ 0) :
    ∃ l₁ : Lexer, l₁.Sound ∧ l₁.next = (.ok t, l') ∧ l₁.position = t.span.start ∧
      l₁.source = l.source ∧ l₁.substitutions = l.substitutions := by
  rcases hgap : splitBlanks l.rest with ⟨gap, r⟩
  have hr : splitBlanks r = ([], r) := by
    have := splitBlanks_splitBlanks l.rest
    rwa [hgap] at this
  let l₁ : Lexer := { l with rest := r, position := l.position.after gap }
  have hl₁ : l₁.Sound := by
    obtain ⟨x, hsource, hoffset⟩ := h.source
    refine ⟨⟨x ++ gap, ?_, ?_⟩, fun hzero => ?_, h.nested⟩
    · rw [hsource, List.append_assoc, ← splitBlanks_append l.rest, hgap]
    · rw [Position.offset_after, hoffset, byteLength_append]
    · rw [Position.offset_after] at hzero
      omega
  have hnext₁ := h.next_eq
  rw [hgap, hnext] at hnext₁
  obtain ⟨w, x, k, hread, rfl, rfl⟩ := advance_inv hnext₁.symm
  refine ⟨l₁, hl₁, ?_, rfl, rfl, rfl⟩
  rw [hl₁.next_eq]
  simp only [l₁, hr, Position.after_nil, List.any_nil]
  have hupcoming : ({ l with rest := r, position := l.position.after gap } : Lexer).upcoming r =
      l.upcoming r := rfl
  rw [hupcoming, hread, advance_ok, ← hline]

end Lexer

/-- Cuts a text after its `#!` line, if it begins with one. -/
def splitShebang : List Char → List Char × List Char
  | '#' :: '!' :: cs => splitLine ('#' :: '!' :: cs)
  | cs => ([], cs)

theorem splitTrivia_true (cs : List Char) :
    splitTrivia true cs = prepend (splitShebang cs).1 (splitBlanks (splitShebang cs).2) := by
  unfold splitTrivia splitShebang
  split
  · rfl
  · next hne =>
    split
    · next cs => exact absurd rfl (hne cs rfl)
    · rfl

theorem splitShebang_append (cs : List Char) : (splitShebang cs).1 ++ (splitShebang cs).2 = cs := by
  unfold splitShebang
  split
  · exact splitLine_append _
  · rfl

/-- There is no line end in a `#!` line. -/
theorem splitShebang_line (cs : List Char) :
    ∀ c ∈ (splitShebang cs).1, isLineTerminator c = false := by
  unfold splitShebang
  split
  · exact (splitLine_spec _).1
  · nofun

/-- Without a `#!` line nothing is cut off. -/
theorem splitShebang_of_none {cs : List Char} (h : ¬ ['#', '!'] <+: cs) :
    splitShebang cs = ([], cs) := by
  unfold splitShebang
  split
  · next cs => exact absurd ⟨cs, rfl⟩ h
  · rfl

/-- A `#!` line goes up to the end of the line. -/
theorem splitShebang_of_line {cs : List Char} (h : ['#', '!'] <+: cs) :
    splitShebang cs = splitLine cs ∧ ∃ line, (splitShebang cs).1 = '#' :: '!' :: line := by
  obtain ⟨cs, rfl⟩ := h
  exact ⟨rfl, (splitLine cs).1, rfl⟩

/-- Where a `#!` line ends depends on no more than how the text goes on. -/
theorem splitShebang_exchange {line x y : List Char} (h : splitShebang (line ++ x) = (line, x))
    (hy : y.take 2 = x.take 2) : splitShebang (line ++ y) = (line, y) := by
  by_cases hshebang : ['#', '!'] <+: line ++ x
  · obtain ⟨hsplit, tail, hline⟩ := splitShebang_of_line hshebang
    obtain rfl : line = '#' :: '!' :: tail := by rw [← hline, h]
    obtain ⟨hends, hhead⟩ := splitLine_spec ('#' :: '!' :: tail ++ x)
    rw [← hsplit, h] at hends hhead
    have hheads : y.head? = x.head? := by cases x <;> cases y <;> simp_all
    have hprefix : ['#', '!'] <+: '#' :: '!' :: tail ++ y := ⟨tail ++ y, rfl⟩
    rw [(splitShebang_of_line hprefix).1]
    refine splitWhile_append_of (fun c hc => ?_) fun c hc => ?_
    · simp [hends c hc]
    · simp [hhead c (hheads ▸ hc)]
  · obtain rfl : [] = line := congrArg Prod.fst ((splitShebang_of_none hshebang).symm.trans h)
    refine splitShebang_of_none fun hprefix => hshebang ?_
    rw [List.prefix_iff_eq_take] at hprefix ⊢
    exact hprefix.trans hy

namespace Lexer

/-- The lexer that stands after the `#!` line of a text. -/
def footing (source : List Char) : Lexer :=
  ⟨source, (splitShebang source).2, Position.origin.after (splitShebang source).1, 0, []⟩

theorem sound_footing (source : List Char) : (footing source).Sound := by
  have hoffset : (footing source).position.offset = byteLength (splitShebang source).1 := by
    simp [footing, Position.offset_after, Position.origin]
  refine ⟨⟨_, (splitShebang_append source).symm, hoffset⟩, fun hzero hprefix => ?_,
    List.pairwise_singleton _ _⟩
  obtain hnil : (splitShebang source).1 = [] := by
    by_contra hne
    have := byteLength_pos hne
    omega
  have hrest := splitShebang_append source
  rw [hnil, List.nil_append] at hrest
  have hprefix : ['#', '!'] <+: source := hrest ▸ hprefix
  obtain ⟨-, line, hline⟩ := splitShebang_of_line hprefix
  rw [hline] at hnil
  cases hnil

/-- The first token of a text is what comes after its `#!` line. -/
theorem next_footing (source : List Char) : (footing source).next = (ofSource source).next := by
  have hline := splitShebang_line source
  have hgap : (ofSource source).gapAhead = prepend (splitShebang source).1
    (splitBlanks (splitShebang source).2) := splitTrivia_true source
  have hnewline (gap : List Char) : ((splitShebang source).1 ++ gap).any isLineTerminator =
      gap.any isLineTerminator := by
    rw [List.any_append, List.any_eq_false.2 fun c hc => by simp [hline c hc], Bool.false_or]
  have hplace (gap : List Char) : Position.origin.after ((splitShebang source).1 ++ gap) =
      (Position.origin.after (splitShebang source).1).after gap := by
    refine Position.after_append _ (.of_getLast fun hlast => ?_)
    have := hline _ (List.mem_of_getLast? hlast)
    cases this
  rw [(sound_footing source).next_eq, next_eq, afterGap, hgap]
  simp only [prepend, hnewline]
  rw [show (ofSource source).position = Position.origin from rfl, hplace]
  rfl

/-! ## Tokens that are known -/

variable {l : Lexer}

/-- A closing brace right where the lexer stands, outside of any substitution. -/
theorem Sound.next_rightBrace {cs : List Char} (h : l.Sound) (hsubs : l.substitutions = [])
    (hrest : l.rest = '}' :: cs) : ∃ t,
      l.next = (.ok t, track { l with rest := cs, position := t.span.stop } (.punctuator .rightBrace)) ∧
        t.kind = .punctuator .rightBrace := by
  have hstart : isIdStart '}' = false := by decide +kernel
  have hsplit : splitBlanks l.rest = ([], ['}'] ++ cs) := by
    rw [hrest]
    exact splitBlanks_stop rfl nofun
  have hread : readToken (['}'] ++ cs) = ⟨['}'], cs, .ok (.punctuator .rightBrace, .none)⟩ := by
    simp [readToken, hstart, readPunctuator, Reading.token]
  exact ⟨_, h.next_of [] ['}'] hsplit hread fun _ => hsubs, rfl⟩

/-- A name right where the lexer stands, before something else. -/
theorem Sound.next_name {name cs : List Char} (h : l.Sound) (hname : isName name)
    (hfree : Keyword.ofSpelling? (String.ofList name) = none) (hrest : l.rest = name ++ cs)
    (hcs : ∀ c ∈ cs.head?, c ≠ '\\' ∧ isIdContinue c = false) : ∃ t,
      l.next = (.ok t, { l with rest := cs, position := t.span.stop }) ∧ t.kind = .identifier ∧
        t.value = .text (String.ofList name) := by
  cases name with
  | nil => cases hname
  | cons c name =>
    obtain ⟨hc, -⟩ := Bool.and_eq_true_iff.1 hname
    have hne {d : Char} (hd : isIdStart d = false) : c ≠ d := ne_of_isIdStart hc hd
    have hsplit : splitBlanks l.rest = ([], c :: name ++ cs) := by
      rw [hrest]
      refine splitBlanks_stop ?_ fun hslash => absurd hslash (hne (by decide))
      simp [isBlank_of_isIdStart hc, isLineTerminator_of_isIdStart hc]
    have hread : readToken (c :: name ++ cs) =
        ⟨c :: name, cs, .ok (.identifier, .text (String.ofList (c :: name)))⟩ := by
      rw [List.cons_append, readToken_of_isIdStart hc, readIdentifier, ← List.cons_append,
        readName_before hname hcs]
      simp only [hfree]
      rfl
    refine ⟨_, h.next_of [] (c :: name) hsplit hread fun hhead => ?_, rfl, rfl⟩
    exact absurd (Option.some.inj hhead) (hne (by decide +kernel))

end Lexer

end WithScope
