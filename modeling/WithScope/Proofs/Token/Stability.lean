import WithScope.Proofs.Text.Alignment
import WithScope.Proofs.Token.Standing
import WithScope.Proofs.Tree.Relocated

/-!
# Tokens are read alike at two places

What follows a token may be exchanged, so a lexer that stands before the same characters at another
place gives the same token (`Lexer.next_exchange`). It need not be inside of as many braces, as long
as the open substitutions began at the same depth seen from where it stands.
-/

namespace WithScope

namespace Lexer

/-! ## Where a lexer may stand -/

/-- A lexer stands where it says in the text, not before a `#!` line, and no substitution that is
still open began inside of more braces than one after it. -/
structure Sound (l : Lexer) : Prop where
  /-- the unread text is what follows the position -/
  source : ∃ x, l.source = x ++ l.rest ∧ l.position.offset = byteLength x
  /-- no `#!` line is ahead -/
  noShebang : l.position.offset = 0 → ¬ ['#', '!'] <+: l.rest
  /-- the inner substitutions are inside of no fewer braces than the outer ones -/
  nested : (l.depth :: l.substitutions).Pairwise (· ≥ ·)

/-- How many braces are open inside of each open substitution, the innermost first. -/
def enclosed (l : Lexer) : List Nat := l.substitutions.map (l.depth - ·)

/-- Two lexers stand at matching places, and as many braces are open inside of the substitutions of
one as inside of those of the other. -/
structure Aligned (Φ : Alignment) (l l' : Lexer) : Prop where
  /-- the places match -/
  position : Φ.Match l.rest l.position l'.position
  /-- the open substitutions are alike -/
  enclosed : l'.enclosed = l.enclosed

/-- Where no `#!` line can be, what is skipped is white space, line ends and comments. -/
theorem Sound.gapAhead_eq {l : Lexer} (h : l.Sound) : l.gapAhead = splitBlanks l.rest := by
  unfold gapAhead splitTrivia
  split
  · next horigin hrest =>
    exact absurd (hrest ▸ ⟨_, rfl⟩) (h.noShebang (by simpa using horigin))
  · rfl

theorem Sound.next_eq {l : Lexer} (h : l.Sound) :
    l.next = advance { l with substitutions := (l.upcoming (splitBlanks l.rest).2).1 }
      (l.position.after (splitBlanks l.rest).1) ((splitBlanks l.rest).1.any isLineTerminator)
      (l.upcoming (splitBlanks l.rest).2).2 := by
  rw [Lexer.next_eq, afterGap, h.gapAhead_eq]

/-- The brace that does not end a substitution is inside of more braces than the substitution. -/
theorem upcoming_rightBrace {l : Lexer} {cs w x : List Char} {k : TokenKind × TokenValue}
    (h : (l.upcoming cs).2 = ⟨w, x, .ok k⟩) (hk : k.1 = .punctuator .rightBrace) :
    (l.upcoming cs).1.head? ≠ some l.depth := by
  intro hsubs
  unfold upcoming at h hsubs
  split at h
  · next hend =>
    unfold readTemplate at h
    simp only at h
    split at h
    · cases h
      cases hk
    · cases h
      cases hk
    · cases h
  · next hend =>
    rw [if_neg hend] at hsubs
    exact hend ⟨readToken_rightBrace h hk, hsubs⟩

/-- The innermost substitution ends at a brace if no brace is open inside of it. -/
theorem head?_enclosed {l : Lexer} (h : (l.depth :: l.substitutions).Pairwise (· ≥ ·)) :
    l.enclosed.head? = some 0 ↔ l.substitutions.head? = some l.depth := by
  obtain ⟨hle, -⟩ := List.pairwise_cons.1 h
  cases hsubs : l.substitutions with
  | nil => simp [enclosed, hsubs]
  | cons d outer =>
    have hd : d ≤ l.depth := hle d (hsubs ▸ List.mem_cons_self ..)
    simp only [enclosed, hsubs, List.map_cons, List.head?_cons, Option.some.injEq]
    omega

/-- What is upcoming is read at another place as it is read here, and it ends a substitution there
if it does so here. -/
theorem upcoming_exchange {l l' : Lexer} (hl : (l.depth :: l.substitutions).Pairwise (· ≥ ·))
    (hl' : (l'.depth :: l'.substitutions).Pairwise (· ≥ ·)) (henclosed : l'.enclosed = l.enclosed)
    {cs w x : List Char} {k : TokenKind × TokenValue} (hcs : cs ≠ [])
    (h : (l.upcoming cs).2 = ⟨w, x, .ok k⟩) :
    cs = w ++ x ∧ w ≠ [] ∧ ∀ y, Edge x y → (l'.upcoming (w ++ y)).2 = ⟨w, y, .ok k⟩ ∧
      { l' with substitutions := (l'.upcoming (w ++ y)).1 }.enclosed =
        { l with substitutions := (l.upcoming cs).1 }.enclosed := by
  -- a substitution ends on both sides or on none
  have hend : l'.substitutions.head? = some l'.depth ↔ l.substitutions.head? = some l.depth := by
    rw [← head?_enclosed hl', ← head?_enclosed hl, henclosed]
  unfold upcoming at h ⊢
  split at h
  · next hopen =>
    obtain ⟨tail, rfl⟩ := List.head?_eq_some_iff.1 hopen.1
    obtain ⟨happend, w, rfl, hexchange⟩ := localReader_readTemplate _ _ h
    refine ⟨happend, List.cons_ne_nil _ _, fun y _ => ?_⟩
    rw [if_pos ⟨rfl, hend.2 hopen.2⟩, if_pos hopen]
    refine ⟨hexchange y, ?_⟩
    simpa only [enclosed, List.map_tail] using congrArg List.tail henclosed
  · next hopen =>
    obtain ⟨rfl, hw, hexchange⟩ := readToken_exchange hcs h
    refine ⟨rfl, hw, fun y hy => ?_⟩
    rw [if_neg, if_neg hopen]
    · exact ⟨hexchange y hy, henclosed⟩
    · obtain ⟨c, w, rfl⟩ := List.exists_cons_of_ne_nil hw
      exact fun ⟨hc, hsubs'⟩ => hopen ⟨hc, hend.1 hsubs'⟩

/-! ## Open braces -/

/-- Inside of a substitution, a brace that does not end it is inside of more braces than it. -/
theorem lt_depth_of_head_ne {l : Lexer} (h : (l.depth :: l.substitutions).Pairwise (· ≥ ·))
    (hne : l.substitutions.head? ≠ some l.depth) : ∀ d ∈ l.substitutions, d < l.depth := by
  obtain ⟨hle, hsubs⟩ := List.pairwise_cons.1 h
  intro d hd
  cases hl : l.substitutions with
  | nil =>
    rw [hl] at hd
    cases hd
  | cons d' outer =>
    have hd' : d' < l.depth :=
      Nat.lt_of_le_of_ne (hle d' (hl ▸ List.mem_cons_self ..)) fun h => hne (by rw [hl, h]; rfl)
    rw [hl] at hsubs hd
    rcases List.mem_cons.1 hd with rfl | hd
    · exact hd'
    · exact Nat.lt_of_le_of_lt ((List.pairwise_cons.1 hsubs).1 d hd) hd'

theorem nested_track {l : Lexer} {k : TokenKind}
    (h : (l.depth :: l.substitutions).Pairwise (· ≥ ·))
    (hk : k = .punctuator .rightBrace → l.substitutions.head? ≠ some l.depth) :
    ((l.track k).depth :: (l.track k).substitutions).Pairwise (· ≥ ·) := by
  obtain ⟨hle, hsubs⟩ := List.pairwise_cons.1 h
  unfold track
  split
  · exact List.pairwise_cons.2 ⟨fun d hd => Nat.le_succ_of_le (hle d hd), hsubs⟩
  · refine List.pairwise_cons.2 ⟨fun d hd => ?_, hsubs⟩
    exact Nat.le_sub_one_of_lt (lt_depth_of_head_ne h (hk rfl) d hd)
  · exact List.pairwise_cons.2 ⟨by simpa using hle, h⟩
  · exact List.pairwise_cons.2 ⟨by simpa using hle, h⟩
  · exact h

/-- Braces are opened and closed on both sides alike. -/
theorem enclosed_track {l l' : Lexer} (hl : (l.depth :: l.substitutions).Pairwise (· ≥ ·))
    (hl' : (l'.depth :: l'.substitutions).Pairwise (· ≥ ·)) (henclosed : l'.enclosed = l.enclosed)
    (k : TokenKind) : (l'.track k).enclosed = (l.track k).enclosed := by
  have hopened {l : Lexer} (hl : (l.depth :: l.substitutions).Pairwise (· ≥ ·)) :
      { l with depth := l.depth + 1 }.enclosed = l.enclosed.map (· + 1) := by
    rw [enclosed, enclosed, List.map_map]
    refine List.map_congr_left fun d hd => ?_
    have hle := (List.pairwise_cons.1 hl).1 d hd
    simp only [Function.comp_apply]
    omega
  have hclosed (l : Lexer) :
      { l with depth := l.depth - 1 }.enclosed = l.enclosed.map (· - 1) := by
    rw [enclosed, enclosed, List.map_map]
    refine List.map_congr_left fun d _ => ?_
    simp only [Function.comp_apply]
    omega
  unfold track
  split
  · rw [hopened hl, hopened hl', henclosed]
  · rw [hclosed, hclosed, henclosed]
  · simpa [enclosed] using henclosed
  · simpa [enclosed] using henclosed
  · exact henclosed

/-! ## The next token -/

/-- The token that a reading gives, and the lexer after it. -/
theorem advance_ok (l : Lexer) (start : Position) (newline : Bool) (w x : List Char)
    (k : TokenKind × TokenValue) :
    l.advance start newline ⟨w, x, .ok k⟩ =
      (.ok ⟨k.1, k.2, ⟨start, start.after w⟩, String.ofList w, newline⟩,
        track { l with rest := x, position := start.after w } k.1) := rfl

theorem advance_inv {l l' : Lexer} {start : Position} {newline : Bool} {r : Reading} {t : Token}
    (h : l.advance start newline r = (.ok t, l')) : ∃ w x k, r = ⟨w, x, .ok k⟩ ∧
      t = ⟨k.1, k.2, ⟨start, start.after w⟩, String.ofList w, newline⟩ ∧
      l' = track { l with rest := x, position := start.after w } k.1 := by
  obtain ⟨w, x, outcome⟩ := r
  cases outcome with
  | error e => cases h
  | ok k =>
    cases h
    exact ⟨w, x, k, rfl, rfl, rfl⟩

/-- What a lexer does to give a token other than the last: it skips a gap, and reads what is
upcoming after it. -/
theorem next_inv {l l' : Lexer} {t : Token} (h : l.Sound) (hnext : l.next = (.ok t, l'))
    (ht : t.kind ≠ .eof) :
    ∃ gap w x k, splitBlanks l.rest = (gap, w ++ x) ∧ w ≠ [] ∧
      (l.upcoming (w ++ x)).2 = ⟨w, x, .ok k⟩ ∧
      t = ⟨k.1, k.2, ⟨l.position.after gap, (l.position.after gap).after w⟩, String.ofList w,
        gap.any isLineTerminator⟩ ∧
      l' = track ⟨l.source, x, (l.position.after gap).after w, l.depth,
        (l.upcoming (w ++ x)).1⟩ k.1 := by
  rcases hparts : splitBlanks l.rest with ⟨gap, r⟩
  rw [h.next_eq, hparts] at hnext
  obtain ⟨w, x, k, hr, rfl, rfl⟩ := advance_inv hnext
  have hne : r ≠ [] := by
    rintro rfl
    cases hr
    exact ht rfl
  obtain ⟨rfl, hw, -⟩ := upcoming_exchange h.nested h.nested rfl hne hr
  exact ⟨gap, w, x, k, rfl, hw, hr, rfl, rfl⟩

/-- The innermost open substitution is inside of no more braces than there are. -/
theorem nested_upcoming {l : Lexer} (h : l.Sound) (cs : List Char) :
    (l.depth :: (l.upcoming cs).1).Pairwise (· ≥ ·) := by
  unfold upcoming
  split
  · exact h.nested.sublist ((List.tail_sublist _).cons_cons _)
  · exact h.nested

theorem byteLength_pos {cs : List Char} (h : cs ≠ []) : 0 < byteLength cs := by
  obtain ⟨c, cs, rfl⟩ := List.exists_cons_of_ne_nil h
  have := c.utf8Size_pos
  rw [byteLength_cons]
  omega

/-- A lexer that has given a token stands past it, as sound as before. -/
theorem next_sound {l l' : Lexer} {t : Token} (h : l.Sound) (hnext : l.next = (.ok t, l'))
    (ht : t.kind ≠ .eof) :
    ∃ c, c ≠ [] ∧ l.rest = c ++ l'.rest ∧ l'.source = l.source ∧ l'.position = t.span.stop ∧
      l'.Sound := by
  obtain ⟨gap, w, x, k, hgap, hw, hr, rfl, rfl⟩ := next_inv h hnext ht
  obtain ⟨y, hsource, hoffset⟩ := h.source
  have hrest : gap ++ (w ++ x) = l.rest := by rw [← splitBlanks_append l.rest, hgap]
  have hwpos := byteLength_pos hw
  refine ⟨gap ++ w, by simp [hw], by simp [← hrest], by simp, by simp, ⟨?_, ?_, ?_⟩⟩
  · refine ⟨y ++ gap ++ w, by simp [hsource, ← hrest], ?_⟩
    simp only [track_position, Position.offset_after, byteLength_append]
    omega
  · intro hzero
    simp only [track_position, Position.offset_after] at hzero
    omega
  · exact nested_track (nested_upcoming h _) fun hk => upcoming_rightBrace hr hk

/-- The gap before a token stays what it is when the text after the token is exchanged. -/
theorem gap_exchange {l : Lexer} {cs gap w x y : List Char} {k : TokenKind × TokenValue}
    (hgap : splitBlanks cs = (gap, w ++ x)) (hw : w ≠ [])
    (hr : (l.upcoming (w ++ x)).2 = ⟨w, x, .ok k⟩) (hy : Edge x y) :
    splitBlanks (gap ++ (w ++ y)) = (gap, w ++ y) := by
  obtain ⟨c, w, rfl⟩ := List.exists_cons_of_ne_nil hw
  refine splitBlanks_exchange hgap ⟨c, w ++ x, w ++ y, rfl, rfl, ?_⟩
  rintro rfl
  refine (hy.headLike.append w).forall_head (fun d hd => ?_) fun d hd => ⟨?_, ?_⟩
  · rcases isCalm_iff.1 hd with rfl | rfl | rfl | rfl <;> decide
  · rintro rfl
    obtain ⟨v, hv⟩ := List.head?_eq_some_iff.1 hd
    rw [List.cons_append, hv] at hgap
    exact ne_comment_of_splitBlanks hgap
  · rintro rfl
    obtain ⟨v, hv⟩ := List.head?_eq_some_iff.1 hd
    rw [List.cons_append, hv] at hr
    have hslash : isIdStart '/' = false := by decide +kernel
    simp [upcoming, readToken, Reading.fault, hslash] at hr

/-- A token stands where the gap before it ends, in both copies. -/
theorem moved_token {Φ : Alignment} {p q : Position} {w rest : List Char}
    (h : Φ.Match (w ++ rest) p q) (kind : TokenKind) (value : TokenValue) (spelling : String)
    (newline : Bool) :
    Φ.moved (⟨kind, value, ⟨p, p.after w⟩, spelling, newline⟩ : Token)
      = ⟨kind, value, ⟨q, q.after w⟩, spelling, newline⟩ := by
  simp [← h.eq, ← h.after.eq]

/-- A lexer that stands before the same characters at another place gives the same token, whatever
follows it there. -/
theorem next_exchange {Φ : Alignment} {l₁ l₁' l₂ : Lexer} {t : Token} (h₁ : l₁.Sound)
    (h₂ : l₂.Sound) (h : Aligned Φ l₁ l₂) (hnext : l₁.next = (.ok t, l₁')) (ht : t.kind ≠ .eof)
    {c y : List Char} (hrest : l₁.rest = c ++ l₁'.rest) (hrest' : l₂.rest = c ++ y)
    (hy : Edge l₁'.rest y) :
    ∃ l₂', l₂.next = (.ok (Φ.moved t), l₂') ∧ l₂'.rest = y ∧ Aligned Φ l₁' l₂' ∧
      ∃ w, t.spelling = String.ofList w ∧ Φ.Ahead (w ++ l₁'.rest) t.span.start := by
  obtain ⟨gap, w, x, k, hgap, hw, hr, rfl, rfl⟩ := next_inv h₁ hnext ht
  rw [track_rest] at hrest hy
  have hsplit : gap ++ (w ++ x) = l₁.rest := by rw [← splitBlanks_append l₁.rest, hgap]
  obtain rfl : c = gap ++ w := by
    rw [hrest, ← List.append_assoc] at hsplit
    exact (List.append_cancel_right hsplit).symm
  rw [List.append_assoc] at hrest'
  have hgap' : splitBlanks l₂.rest = (gap, w ++ y) := by
    rw [hrest', gap_exchange hgap hw hr hy]
  obtain ⟨-, -, hexchange⟩ := upcoming_exchange h₁.nested h₂.nested h.enclosed (by simp [hw]) hr
  obtain ⟨hread, henclosed⟩ := hexchange y hy
  have hstart : Φ.Match (w ++ x) (l₁.position.after gap) (l₂.position.after gap) :=
    (hsplit ▸ h.position).after
  have hnext' := h₂.next_eq
  rw [hgap'] at hnext'
  simp only [hread, advance_ok] at hnext'
  refine ⟨_, (moved_token hstart ..).symm ▸ hnext', by simp, ⟨by simpa using hstart.after, ?_⟩,
    w, rfl, by simpa using hstart.ahead⟩
  refine enclosed_track ?_ ?_ ?_ k.1
  · exact nested_upcoming h₁ _
  · exact nested_upcoming h₂ _
  · exact henclosed

end Lexer

/-! ## Regular expressions -/

/-- Whether a token may turn out to begin a regular expression. -/
def TokenKind.isSlash (k : TokenKind) : Bool :=
  k == .punctuator .slash || k == .punctuator .slashEqual

end WithScope
