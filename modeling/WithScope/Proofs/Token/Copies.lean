import WithScope.Proofs.Token.Delimiters
import WithScope.Proofs.Token.Progress

/-!
# Copies of a text

A lexer that stands before a copy of a text gives the tokens of the text. `Lexer.next_exchange` says
so of a token that is not the last one; this module adds the end of the text
(`Lexer.next_exchange_eof`), a regular expression in place of a slash
(`Lexer.rescanRegExp_exchange`), and what a token does to the number of open substitutions
(`Lexer.substitutions_next`).
-/

namespace WithScope

/-- By how many a token raises the number of open substitutions. -/
def TokenKind.opened : TokenKind → Int
  | .templateHead => 1
  | .templateTail => -1
  | _ => 0

namespace Lexer

variable {Φ : Alignment} {l l' l₁ l₁' l₂ : Lexer} {t r : Token}

/-! ## Open substitutions -/

theorem substitutions_track (l : Lexer) {k : TokenKind}
    (hk : k ≠ .templateMiddle ∧ k ≠ .templateTail) :
    ((l.track k).substitutions.length : Int) = l.substitutions.length + k.opened := by
  cases k
  case templateMiddle => exact absurd rfl hk.1
  case templateTail => exact absurd rfl hk.2
  case punctuator mark => cases mark <;> simp [track, TokenKind.opened]
  all_goals simp [track, TokenKind.opened]

/-- A token opens a substitution, or closes one, or does nothing to them. -/
theorem substitutions_next (h : l.next = (.ok t, l')) :
    (l'.substitutions.length : Int) = l.substitutions.length + t.kind.opened := by
  rw [next_eq] at h
  obtain ⟨w, x, k, hread, rfl, rfl⟩ := advance_inv h
  unfold upcoming at hread
  unfold afterGap upcoming
  split at hread
  · next hresumes =>
    obtain ⟨outer, hsubs⟩ := List.head?_eq_some_iff.1 hresumes.2
    rw [if_pos hresumes, hsubs]
    rcases readTemplate_resumed hread with hk | hk
    · simp [hk, track, TokenKind.opened]
    · simp only [hk, track, TokenKind.opened, List.tail_cons, List.length_cons]
      omega
  · next hresumes =>
    rw [if_neg hresumes]
    exact substitutions_track _ (fresh_readToken _ _ (congrArg Reading.outcome hread))

/-! ## The end of the text -/

/-- A lexer that has given a token is as sound as before. -/
theorem Sound.next (h : l.Sound) (hnext : l.next = (.ok t, l')) : l'.Sound := by
  by_cases ht : t.kind = .eof
  · obtain ⟨gap, text, hrest, hposition, ⟨-, rfl, hnil⟩ | ⟨hne, -⟩⟩ := next_split hnext
    · obtain ⟨x, hsource, hoffset⟩ := h.source
      have heq : l'.source = l.source := by
        have heq := next_source l
        rwa [hnext] at heq
      rw [List.append_nil, hnil, List.append_nil] at hrest
      refine ⟨⟨x ++ gap, ?_, ?_⟩, fun _ => ?_, ?_⟩
      · rw [heq, hsource, hrest, hnil, List.append_nil]
      · rw [hposition, Position.offset_after, Position.offset_after, hoffset, byteLength_append]
        rfl
      · simp [hnil]
      · rw [h.next_eq] at hnext
        obtain ⟨w, x, k, hread, rfl, rfl⟩ := advance_inv hnext
        exact nested_track (nested_upcoming h _) fun hk => upcoming_rightBrace hread hk
    · exact absurd ht hne
  · obtain ⟨-, -, -, -, -, h'⟩ := next_sound h hnext ht
    exact h'

/-- At the end of the text its copy has an end, too. -/
theorem next_exchange_eof (h₁ : l₁.Sound) (h₂ : l₂.Sound) (h : Aligned Φ l₁ l₂)
    (hrest : l₂.rest = l₁.rest) (hnext : l₁.next = (.ok t, l₁')) (ht : t.kind = .eof) :
    ∃ l₂', l₂.next = (.ok (Φ.moved t), l₂') ∧ l₂'.rest = [] ∧ Aligned Φ l₁' l₂' ∧
      ∃ w, t.spelling = String.ofList w ∧ Φ.Ahead (w ++ l₁'.rest) t.span.start := by
  rcases hgap : splitBlanks l₁.rest with ⟨gap, x⟩
  have hgap₂ : splitBlanks l₂.rest = (gap, x) := hrest ▸ hgap
  have hnext₁ := h₁.next_eq
  have hnext₂ := h₂.next_eq
  rw [hgap, hnext] at hnext₁
  rw [hgap₂] at hnext₂
  obtain ⟨w, y, k, hread, rfl, rfl⟩ := advance_inv hnext₁.symm
  obtain ⟨hx, -⟩ := (upcoming_ne_nil hread).resolve_right fun hk => hk.2 ht
  subst hx
  obtain ⟨rfl, rfl, rfl⟩ : w = [] ∧ y = [] ∧ k = (.eof, .none) := by
    cases hread
    exact ⟨rfl, rfl, rfl⟩
  have hsplit : gap ++ ([] ++ []) = l₁.rest := by rw [← splitBlanks_append l₁.rest, hgap]; rfl
  have hstart : Φ.Match ([] ++ []) (l₁.position.after gap) (l₂.position.after gap) :=
    (hsplit ▸ h.position).after
  refine ⟨⟨l₂.source, [], l₂.position.after gap, l₂.depth, l₂.substitutions⟩, ?_, rfl,
    ⟨hstart, h.enclosed⟩, [], rfl, hstart.ahead⟩
  rw [moved_token hstart]
  exact hnext₂

/-! ## A token that is known -/

/-- What a lexer gives where a token is written after a gap. A brace has to be outside of any
substitution. -/
theorem Sound.next_of (h : l.Sound) (gap w : List Char) {y : List Char}
    {k : TokenKind × TokenValue} (hgap : splitBlanks l.rest = (gap, w ++ y))
    (hread : readToken (w ++ y) = ⟨w, y, .ok k⟩)
    (hbrace : (w ++ y).head? = some '}' → l.substitutions = []) :
    l.next = (.ok ⟨k.1, k.2, ⟨l.position.after gap, (l.position.after gap).after w⟩,
        String.ofList w, gap.any isLineTerminator⟩,
      track { l with rest := y, position := (l.position.after gap).after w } k.1) := by
  have hupcoming : l.upcoming (w ++ y) = (l.substitutions, ⟨w, y, .ok k⟩) := by
    rw [upcoming, if_neg, hread]
    rintro ⟨hhead, hsubs⟩
    rw [hbrace hhead] at hsubs
    cases hsubs
  rw [h.next_eq, hgap]
  simp only [hupcoming, advance_ok]

/-- The marks with which a value is handed on. They are the whole token wherever they stand. -/
def handingMarks : List (Char × Punctuator) :=
  [('{', .leftBrace), (':', .colon), ('(', .leftParen), (')', .rightParen), (';', .semicolon)]

theorem readToken_handingMark {c : Char} {mark : Punctuator} (h : (c, mark) ∈ handingMarks)
    (cs : List Char) : readToken (c :: cs) = .token ([c], cs) (.punctuator mark) .none := by
  have hstart : ∀ entry ∈ handingMarks, isIdStart entry.1 = false := by decide +kernel
  have hstart := hstart _ h
  simp only [handingMarks, List.mem_cons, Prod.mk.injEq, List.not_mem_nil, or_false] at h
  rcases h with ⟨rfl, rfl⟩ | ⟨rfl, rfl⟩ | ⟨rfl, rfl⟩ | ⟨rfl, rfl⟩ | ⟨rfl, rfl⟩ <;>
    simp [readToken, hstart, readPunctuator, Punctuator.longest?, Punctuator.spellings,
      List.isPrefixOf]

/-- A mark right where the lexer stands, or after a space. -/
theorem Sound.next_mark {c : Char} {mark : Punctuator} {cs : List Char} (h : l.Sound)
    (gap : List Char) (hmark : (c, mark) ∈ handingMarks) (hgap : gap = [] ∨ gap = [' '])
    (hrest : l.rest = gap ++ c :: cs) :
    ∃ t, l.next = (.ok t, track { l with rest := cs, position := t.span.stop } (.punctuator mark)) ∧
      t.kind = .punctuator mark ∧ t.newlineBefore = false := by
  have hc : ∀ entry ∈ handingMarks, entry.1 ≠ '/' ∧ entry.1 ≠ '}' ∧
      (isBlank entry.1 || isLineTerminator entry.1) = false := by decide
  obtain ⟨hslash, hbrace, hblank⟩ := hc _ hmark
  have hsplit : splitBlanks l.rest = (gap, [c] ++ cs) := by
    rw [hrest]
    rcases hgap with rfl | rfl
    · exact splitBlanks_stop hblank fun heq => absurd heq hslash
    · rw [List.cons_append, splitBlanks_blank rfl, List.nil_append,
        splitBlanks_stop hblank fun heq => absurd heq hslash]
      rfl
  have hnewline : gap.any isLineTerminator = false := by rcases hgap with rfl | rfl <;> rfl
  have hread : readToken ([c] ++ cs) = ⟨[c], cs, .ok (.punctuator mark, .none)⟩ :=
    readToken_handingMark hmark cs
  have hopen : ([c] ++ cs).head? = some '}' → l.substitutions = [] := fun hhead =>
    absurd (Option.some.inj hhead) hbrace
  exact ⟨_, h.next_of gap [c] hsplit hread hopen, rfl, hnewline⟩

/-! ## Regular expressions -/

/-- A regular expression is read again in a copy of its text. -/
theorem rescanRegExp_exchange {before before₂ text c y : List Char}
    (hstands : t.Stands before text l₁.rest) (hsource : l₁.source = before ++ text ++ l₁.rest)
    (hstands₂ : (Φ.moved t).Stands before₂ text l₂.rest)
    (hsource₂ : l₂.source = before₂ ++ text ++ l₂.rest)
    (hstart : Φ.Match (text ++ l₁.rest) t.span.start (Φ.moved t).span.start)
    (henclosed : l₂.enclosed = l₁.enclosed)
    (hrescan : l₁.rescanRegExp t = (.ok r, l₁')) (hrest : text ++ l₁.rest = c ++ l₁'.rest)
    (hrest₂ : text ++ l₂.rest = c ++ y) (hy : Edge l₁'.rest y) :
    ∃ l₂', l₂.rescanRegExp (Φ.moved t) = (.ok (Φ.moved r), l₂') ∧ l₂'.rest = y ∧
      Aligned Φ l₁' l₂' ∧ r.spelling = String.ofList c := by
  rw [rescanRegExp_eq hstands hsource] at hrescan
  obtain ⟨w, x, k, hread, rfl, rfl⟩ := advance_inv hrescan
  obtain ⟨happend, hexchange⟩ := localReader_readRegExp _ _ _ _ hread
  rw [track_rest] at hrest hy
  obtain rfl : c = w := List.append_cancel_right (hrest.symm.trans happend)
  have hstart₁ : t.span.start = placeAfter before := by rw [hstands.span]
  have hstart₂ : (Φ.moved t).span.start = placeAfter before₂ := by rw [hstands₂.span]
  rw [hstart₁, hstart₂, hrest] at hstart
  have hk : k.1 = .regExpLiteral := readRegExp_kind hread
  refine ⟨{ l₂ with rest := y, position := (placeAfter before₂).after c }, ?_, rfl, ⟨?_, ?_⟩, rfl⟩
  · rw [rescanRegExp_eq hstands₂ hsource₂, hrest₂, hexchange y hy.headLike, advance_ok,
      moved_token hstart, hk]
    rfl
  · rw [hk]
    exact hstart.after
  · rw [hk]
    exact henclosed

/-- A regular expression does nothing to the open substitutions. -/
theorem substitutions_rescanRegExp (h : l.rescanRegExp t = (.ok r, l')) :
    l'.substitutions = l.substitutions ∧ l'.depth = l.depth ∧ r.kind = .regExpLiteral := by
  obtain ⟨w, x, k, hread, rfl, rfl⟩ := advance_inv h
  have hk := readRegExp_kind hread
  rw [hk]
  exact ⟨rfl, rfl, rfl⟩

end Lexer

end WithScope
