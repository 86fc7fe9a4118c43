import Mathlib.Logic.Relation
import WithScope.Proofs.Grammar.Advances
import WithScope.Proofs.Grammar.Moves
import WithScope.Proofs.Grammar.Tight
import WithScope.Proofs.Token.Copies

/-!
# A stretch of a text and its copy

A `Stretch` is a part of a text that also stands in another text, where something else may follow
it. Two readers, one in each text, go through the stretch token by token. As long as the current
token belongs to it, they have the same token before them, at the places of the stretch and of its
copy (`Stretch.Abreast`).

* `ParserState.Trail` — the states that come one after the other as tokens are passed, where a slash
  may be passed as the regular expression that it begins;
* `Stretch.Abreast.pass` — what one reader passes, the other passes as well; then they are abreast
  again, or both have left the stretch (`Stretch.Border`);
* `Stretch.within_of_trail` — a reader that has not left the stretch has been in it all along.
-/

namespace WithScope

/-! ## Passing tokens -/

namespace ParserState

/-- A token has been passed: the current one, or the regular expression that it begins. -/
inductive Pass : ParserState → ParserState → Prop
  | token {s s' : ParserState} (hk : s.token.kind ≠ .eof) (h : s.Past s') : Pass s s'
  | regExp {s m s' : ParserState} (hk : s.token.kind.isSlash) (h : s.Reread m) (h' : m.Past s') :
      Pass s s'

/-- The end of the text is never passed. -/
theorem Pass.kind {s s' : ParserState} (h : s.Pass s') : s.token.kind ≠ .eof := by
  cases h with
  | token hk _ => exact hk
  | regExp hk _ _ =>
    intro heof
    rw [heof] at hk
    cases hk

/-- A state that comes after another one by passing tokens, at least one of them if `taken` holds. -/
structure Trail (taken : Bool) (s s' : ParserState) : Prop where
  /-- tokens have been passed -/
  path : Relation.ReflTransGen Pass s s'
  /-- and there are some -/
  passed : taken = true → Relation.TransGen Pass s s'

namespace Trail

variable {taken more : Bool} {s s' s'' : ParserState}

/-- Before a token is passed, the trail is of length zero. -/
theorem refl (s : ParserState) : Trail false s s := ⟨.refl, nofun⟩

/-- A pass is a trail that has taken a token. -/
theorem single (h : s.Pass s') : Trail taken s s' := ⟨.single h, fun _ => .single h⟩

/-- A trail goes on with another, and has taken a token if either has. -/
theorem trans (h : Trail taken s s') (h' : Trail more s' s'') : Trail (taken || more) s s'' := by
  refine ⟨h.path.trans h'.path, fun hor => ?_⟩
  rcases Bool.or_eq_true_iff.1 hor with htaken | hmore
  · exact (h.passed htaken).trans_left h'.path
  · exact (h'.passed hmore).trans_right h.path

/-- A trail that has taken a token is also one that may have. -/
theorem mono (h : Trail taken s s') (hmore : more = true → taken = true) : Trail more s s' :=
  ⟨h.path, fun hm => h.passed (hmore hm)⟩

end Trail

/-- How many substitutions are open where the current token begins. -/
def opened (s : ParserState) : Int := s.lexer.substitutions.length - s.token.kind.opened

/-- After a token, the braces that are open are those the lexer counts. -/
theorem Past.opened {s s' : ParserState} (h : s.Past s') :
    s'.opened = s.lexer.substitutions.length := by
  obtain ⟨t, l, hnext, rfl⟩ := h
  have := Lexer.substitutions_next hnext
  simp only [ParserState.opened]
  omega

/-- A token that is no brace leaves the count as it was. -/
theorem Past.opened_eq {s s' : ParserState} (h : s.Past s') (hk : s.token.kind.opened = 0) :
    s'.opened = s.opened := by
  rw [h.opened, ParserState.opened, hk, Int.sub_zero]

/-- There is one way past a token. -/
theorem Past.unique {s s' s'' : ParserState} (h : s.Past s') (h' : s.Past s'') : s' = s'' := by
  obtain ⟨t, l, hnext, rfl⟩ := h
  obtain ⟨t', l', hnext', rfl⟩ := h'
  cases hnext.symm.trans hnext'
  rfl

/-- Reading a slash again opens and closes nothing. -/
theorem Reread.opened {s s' : ParserState} (h : s.Reread s') (hk : s.token.kind.isSlash) :
    s'.opened = s.opened := by
  obtain ⟨t, l, hrescan, rfl⟩ := h
  obtain ⟨hsubs, -, hkind⟩ := Lexer.substitutions_rescanRegExp hrescan
  have hslash : s.token.kind.opened = 0 := by
    rcases (by simpa [TokenKind.isSlash] using hk : s.token.kind = .punctuator .slash ∨
      s.token.kind = .punctuator .slashEqual) with hk | hk <;> rw [hk] <;> rfl
  simp only [ParserState.opened, hsubs, hkind, hslash]
  rfl

/-! ## Steady states -/

/-- A state of a text, in which no open substitution began inside of more braces than there are. -/
structure Steady (source : List Char) (s : ParserState) : Prop where
  /-- it is a state of the text -/
  tight : s.Tight source
  /-- the inner substitutions are inside of no fewer braces than the outer ones -/
  nested : (s.lexer.depth :: s.lexer.substitutions).Pairwise (· ≥ ·)

namespace Steady

variable {source : List Char} {s s' : ParserState} (h : s.Steady source)
include h

/-- A state that is steady is sound. -/
theorem sound : s.Sound source := h.tight.sound

/-- The text that is read stays the text of the state. -/
theorem lexer_source : s.lexer.source = source := by
  obtain ⟨given, hsession, -⟩ := h.sound.session
  exact hsession.spec.1

/-- The lexer stands where the current token ends. -/
theorem exists_before : ∃ before text, s.token.Stands before text s.lexer.rest ∧
    source = before ++ text ++ s.lexer.rest ∧ s.lexer.position = s.token.span.stop := by
  obtain ⟨before, text, ht, hl⟩ := h.sound.token
  exact ⟨before, text, ht, h.lexer_source ▸ hl.source, by rw [hl.position, ht.span]⟩

/-- The token ends where the rest begins. -/
theorem stop_add : s.token.span.stop.offset + byteLength s.lexer.rest = byteLength source := by
  obtain ⟨before, text, ht, hsource, -⟩ := h.exists_before
  simp only [hsource, ht.span, placeAfter, byteLength_append]

/-- What is left to read is the end of the text. -/
theorem rest_suffix : s.lexer.rest <:+ source := by
  obtain ⟨before, text, -, hsource, -⟩ := h.exists_before
  exact ⟨_, hsource.symm⟩

/-- The lexer of a steady state is sound. -/
theorem lexer : s.lexer.Sound := by
  obtain ⟨before, text, ht, hl⟩ := h.sound.token
  refine ⟨⟨before ++ text, hl.source, by rw [hl.position]; rfl⟩, fun hzero hprefix => ?_, h.nested⟩
  rw [hl.position] at hzero
  rcases ht.eof with ⟨-, -, hrest⟩ | ⟨-, htext⟩
  · rw [hrest] at hprefix
    cases List.prefix_nil.1 hprefix
  · have := Lexer.byteLength_pos htext
    simp only [placeAfter, byteLength_append] at hzero
    omega

/-- A steady state stays so when a token is passed. -/
theorem past (hpast : s.Past s') : s'.Steady source := by
  refine ⟨h.tight.move hpast.move, ?_⟩
  obtain ⟨t, l, hnext, rfl⟩ := hpast
  exact (h.lexer.next hnext).nested

/-- A steady state stays so when a slash is read again. -/
theorem reread (hreread : s.Reread s') : s'.Steady source := by
  refine ⟨h.tight.reread hreread, ?_⟩
  obtain ⟨t, l, hrescan, rfl⟩ := hreread
  obtain ⟨hsubs, hdepth, -⟩ := Lexer.substitutions_rescanRegExp hrescan
  rw [hsubs, hdepth]
  exact h.nested

/-- Each token that is passed makes what is left shorter, and what is left then fits in the rest. -/
theorem left_past (hk : s.token.kind ≠ .eof) (hpast : s.Past s') :
    s'.left ≤ s.lexer.rest.length ∧ s'.left < s.left := by
  obtain ⟨t, l, hnext, rfl⟩ := hpast
  exact ⟨Sound.left_next hnext, (h.sound.later_next hnext).lt (by simpa using hk)⟩

/-- A steady state stays so at a pass, with or without reading again. -/
theorem pass (hpass : s.Pass s') : s'.Steady source := by
  cases hpass with
  | token _ hpast => exact h.past hpast
  | regExp _ hreread hpast => exact (h.reread hreread).past hpast

/-- The regular expression that a slash begins is longer than the slash. -/
theorem stop_reread (hk : s.token.kind.isSlash) (hreread : s.Reread s') :
    s.token.span.stop.offset < s'.token.span.stop.offset ∧ s'.token.kind ≠ .eof ∧
      s'.left ≤ s.left := by
  obtain ⟨t, l, hrescan, rfl⟩ := hreread
  obtain ⟨given, hsession, hgiven⟩ := h.sound.session
  obtain ⟨-, hlt, -⟩ := Lexer.rescan_forward hsession hgiven hk hrescan
  exact ⟨hlt, (h.sound.rescan hrescan).2.2, (h.sound.later_rescan hk hrescan).le⟩

/-- A pass makes what is left shorter. -/
theorem left_pass (hpass : s.Pass s') : s'.left < s.left := by
  cases hpass with
  | token hk hpast => exact (h.left_past hk hpast).2
  | regExp hk hreread hpast =>
    obtain ⟨-, hkind, hle⟩ := h.stop_reread hk hreread
    exact ((h.reread hreread).left_past hkind hpast).2.trans_le hle

/-- What has been passed lies before the current token. -/
theorem stop_le_lastEnd (hpass : s.Pass s') : s.token.span.stop.offset ≤ s'.lastEnd.offset := by
  cases hpass with
  | token _ hpast => rw [hpast.lastEnd]
  | regExp hk hreread hpast =>
    rw [hpast.lastEnd]
    exact (h.stop_reread hk hreread).1.le

omit h in
/-- A steady state stays so along a path. -/
theorem path (h : s.Steady source) (hpath : Relation.ReflTransGen Pass s s') :
    s'.Steady source := by
  induction hpath with
  | refl => exact h
  | tail _ hpass ih => exact ih.pass hpass

/-- Along a path nothing is added to what is left. -/
theorem left_path (hpath : Relation.ReflTransGen Pass s s') : s'.left ≤ s.left := by
  induction hpath with
  | refl => exact le_rfl
  | tail hpath hpass ih => exact ((h.path hpath).left_pass hpass).le.trans ih

/-- Along a path the end of the last token does not go back. -/
theorem lastEnd_path (hpath : Relation.ReflTransGen Pass s s') :
    s.lastEnd.offset ≤ s'.lastEnd.offset := by
  induction hpath with
  | refl => exact le_rfl
  | tail hpath hpass ih =>
    have hsteady := h.path hpath
    exact ih.trans ((hsteady.sound.lastEnd_le.trans hsteady.sound.start_le_stop).trans
      (hsteady.stop_le_lastEnd hpass))

/-- Once a token has been passed, the last end is not before its end. -/
theorem stop_le_lastEnd_of_passed (hpassed : Relation.TransGen Pass s s') :
    s.token.span.stop.offset ≤ s'.lastEnd.offset := by
  obtain ⟨m, hpass, hpath⟩ := Relation.TransGen.head'_iff.1 hpassed
  exact (h.stop_le_lastEnd hpass).trans ((h.pass hpass).lastEnd_path hpath)

/-- Along a path the place of the next token does not go back. -/
theorem here_path (hpath : Relation.ReflTransGen Pass s s') : s.here.offset ≤ s'.here.offset := by
  rcases Relation.reflTransGen_iff_eq_or_transGen.1 hpath with rfl | hpassed
  · exact le_rfl
  · exact h.sound.start_le_stop.trans ((h.stop_le_lastEnd_of_passed hpassed).trans
      (h.path hpath).sound.lastEnd_le)

end Steady

end ParserState

/-! ## Stretches -/

/-- A part of a text that has a copy in another text. -/
structure Stretch where
  /-- the text -/
  source : List Char
  /-- the text that holds the copy -/
  copy : List Char
  /-- where the part begins, and where the copy does -/
  places : Alignment
  /-- what follows the part -/
  tail : List Char
  /-- what follows the copy -/
  copyTail : List Char
  /-- the part is followed by the rest of its text -/
  suffix : tail <:+ source
  /-- the tokens of the part do not depend on what follows -/
  edge : Edge tail copyTail
  /-- a copy that goes on to the end of its text is one of a part that goes on to the end -/
  tail_nil : copyTail = [] → tail = []

/-- What a token of a stretch is in the copy. -/
@[simp] abbrev Stretch.moved (Ψ : Stretch) {α : Type} [Relocatable α] : α → α :=
  Ψ.places.moved

/-- Whether the parser may look at what follows such a token before it passes it. -/
def TokenKind.peeks : TokenKind → Bool
  | .identifier | .privateIdentifier | .keyword .import => true
  | _ => false

namespace Stretch

variable (Ψ : Stretch)

/-- The stretch goes on to the end of both texts. -/
def IsOpen : Prop := Ψ.copyTail = []

/-- The copy ends before a closing parenthesis. -/
def IsClosed : Prop := ∃ cs, Ψ.copyTail = ')' :: cs

/-- The current token belongs to the stretch. -/
def Inside (s : ParserState) : Prop := Ψ.IsOpen ∨ Ψ.tail.length < s.left

/-- The next token belongs to the stretch, too. -/
def Ahead (s : ParserState) : Prop := ∀ s', s.Past s' → Ψ.Inside s'

/-- The current token belongs to the stretch, and what the parser may see of the text around it. -/
def Clear (s : ParserState) : Prop := Ψ.Inside s ∧ (s.token.kind.peeks → Ψ.Ahead s)

/-- The current token is the first one after the stretch. -/
def AtEnd (s : ParserState) : Prop :=
  s.lastEnd.offset + byteLength Ψ.tail = byteLength Ψ.source

/-- Nothing after the stretch has been passed. -/
def Within (s : ParserState) : Prop := Ψ.Inside s ∨ Ψ.IsClosed ∧ Ψ.AtEnd s

/-- Two readers have the same token of the stretch before them. -/
structure Abreast (s₁ s₂ : ParserState) : Prop where
  /-- the one reads the text -/
  steady₁ : s₁.Steady Ψ.source
  /-- the other reads the text with the copy -/
  steady₂ : s₂.Steady Ψ.copy
  /-- the tokens are the same -/
  token : s₂.token = Ψ.moved s₁.token
  /-- the text goes on from the one with its spelling -/
  ahead : ∃ w, s₁.token.spelling = String.ofList w ∧
    Ψ.places.Ahead (w ++ s₁.lexer.rest) s₁.here
  /-- the lexers stand at matching places -/
  lexer : Lexer.Aligned Ψ.places s₁.lexer s₂.lexer
  /-- the same is left of the stretch and of its copy -/
  rest : ∃ x, s₁.lexer.rest = x ++ Ψ.tail ∧ s₂.lexer.rest = x ++ Ψ.copyTail

/-- Two readers are abreast, and the tokens before end at matching places as well. -/
structure Same (s₁ s₂ : ParserState) : Prop where
  /-- the tokens are the same -/
  abreast : Ψ.Abreast s₁ s₂
  /-- the tokens before end at matching places -/
  lastEnd : s₂.lastEnd = Ψ.places.shift s₁.lastEnd

/-- Two readers have just left the stretch and its copy. -/
structure Border (s₁ s₂ : ParserState) : Prop where
  /-- the one reads the text -/
  steady₁ : s₁.Steady Ψ.source
  /-- the other reads the text with the copy -/
  steady₂ : s₂.Steady Ψ.copy
  /-- the copy ends before a closing parenthesis -/
  closed : Ψ.IsClosed
  /-- the stretch ends where the last token does -/
  atEnd : Ψ.AtEnd s₁
  /-- the tokens before end at matching places -/
  lastEnd : s₂.lastEnd = Ψ.places.shift s₁.lastEnd
  /-- the lexers have been where the stretch and its copy end -/
  lexer : ∃ l₁ l₂ : Lexer, l₁.Sound ∧ l₂.Sound ∧ Lexer.Aligned Ψ.places l₁ l₂ ∧
    l₁.rest = Ψ.tail ∧ l₂.rest = Ψ.copyTail ∧ l₁.position = s₁.lastEnd ∧
    l₁.next = (.ok s₁.token, s₁.lexer) ∧ l₂.next = (.ok s₂.token, s₂.lexer)

/-- Two readers are in the stretch, or have just left it. -/
def Near (s₁ s₂ : ParserState) : Prop := Ψ.Same s₁ s₂ ∨ Ψ.Border s₁ s₂

variable {Ψ}

/-! ## Where a reader has been -/

section

variable {s s' : ParserState}

/-- Of two ends of a text the one with fewer bytes is an end of the other. -/
theorem suffix_of_byteLength_le {a b c : List Char} (ha : a <:+ c) (hb : b <:+ c)
    (h : byteLength a ≤ byteLength b) : a <:+ b := by
  rcases List.suffix_or_suffix_of_suffix ha hb with hab | ⟨x, rfl⟩
  · exact hab
  · cases x with
    | nil => exact List.suffix_rfl
    | cons c x =>
      have := c.utf8Size_pos
      simp only [List.cons_append, byteLength_cons, byteLength_append] at h
      omega

/-- At the end of the text nothing is left. -/
theorem left_of_eof (h : s.Steady Ψ.source) (hk : s.token.kind = .eof) : s.left = 0 := by
  obtain ⟨before, text, ht, -⟩ := h.exists_before
  rcases ht.eof with ⟨-, -, hrest⟩ | ⟨hne, -⟩
  · rw [ParserState.left, hrest, if_pos hk]
    rfl
  · exact absurd hk hne

/-- Where a token of the stretch is current, the end of the stretch is ahead. -/
theorem Inside.suffix (hin : Ψ.Inside s) (h : s.Steady Ψ.source) : Ψ.tail <:+ s.lexer.rest := by
  rcases hin with hopen | hlt
  · rw [Ψ.tail_nil hopen]
    exact List.nil_suffix
  · refine List.suffix_of_suffix_length_le Ψ.suffix h.rest_suffix ?_
    by_cases hk : s.token.kind = .eof
    · rw [left_of_eof h hk] at hlt
      exact absurd hlt (Nat.not_lt_zero _)
    · rw [ParserState.left, if_neg hk] at hlt
      omega

/-- A token of a stretch is not the last one of the text, unless the stretch is open. -/
theorem Inside.kind (hin : Ψ.Inside s) (h : s.Steady Ψ.source) :
    Ψ.IsOpen ∨ s.token.kind ≠ .eof := by
  refine hin.imp id fun hlt hk => ?_
  rw [left_of_eof h hk] at hlt
  exact Nat.not_lt_zero _ hlt

/-- While the tail is still to be read, the state is inside of the stretch. -/
theorem inside_of_suffix (hk : s.token.kind ≠ .eof) (h : Ψ.tail <:+ s.lexer.rest) : Ψ.Inside s := by
  refine .inr ?_
  have := h.length_le
  rw [ParserState.left, if_neg hk]
  omega

/-- What has been passed before the stretch ended belongs to it. -/
theorem Within.inside (hw : Ψ.Within s') (h : s.Steady Ψ.source)
    (hpassed : Relation.TransGen ParserState.Pass s s') : Ψ.Inside s := by
  rcases hw with (hopen | hlt) | ⟨-, hend⟩
  · exact .inl hopen
  · exact .inr (hlt.trans_le (h.left_path hpassed.to_reflTransGen))
  · obtain ⟨m, hpass, -⟩ := Relation.TransGen.head'_iff.1 hpassed
    refine inside_of_suffix hpass.kind (suffix_of_byteLength_le Ψ.suffix h.rest_suffix ?_)
    have hle := h.stop_le_lastEnd_of_passed hpassed
    have hstop := h.stop_add
    unfold AtEnd at hend
    omega

/-- A reader that has not passed anything after the stretch never had before. -/
theorem Within.of_path (hw : Ψ.Within s') (h : s.Steady Ψ.source)
    (hpath : Relation.ReflTransGen ParserState.Pass s s') : Ψ.Within s := by
  rcases Relation.reflTransGen_iff_eq_or_transGen.1 hpath with rfl | hpassed
  · exact hw
  · exact .inl (hw.inside h hpassed)

/-- What leads into the stretch was inside of it before. -/
theorem Inside.of_path (hin : Ψ.Inside s') (h : s.Steady Ψ.source)
    (hpath : Relation.ReflTransGen ParserState.Pass s s') : Ψ.Inside s :=
  hin.imp id fun hlt => hlt.trans_le (h.left_path hpath)

/-- What is true of the text around the current token was true of that around each one before. -/
theorem Clear.of_path (hclear : Ψ.Clear s') (h : s.Steady Ψ.source)
    (hpath : Relation.ReflTransGen ParserState.Pass s s') : Ψ.Clear s := by
  rcases Relation.ReflTransGen.cases_head hpath with rfl | ⟨m, hpass, hpath'⟩
  · exact hclear
  · refine ⟨hclear.1.of_path h hpath, fun hk s'' hpast => ?_⟩
    cases hpass with
    | token _ hpast' =>
      obtain rfl := hpast.unique hpast'
      exact hclear.1.of_path (h.past hpast) hpath'
    | regExp hslash =>
      rcases (by simpa [TokenKind.isSlash] using hslash : s.token.kind = .punctuator .slash ∨
        s.token.kind = .punctuator .slashEqual) with hslash | hslash <;> rw [hslash] at hk <;>
          cases hk

end

/-! ## Two readers -/

section

variable {s₁ s₂ s₁' s₂' : ParserState}

/-- A closing parenthesis is one of the marks that can be handed on. -/
theorem rightParen_mem : (')', .rightParen) ∈ Lexer.handingMarks := by decide

/-- At the border the second run stands before the closing parenthesis, on the same line. -/
theorem Border.kind (h : Ψ.Border s₁ s₂) :
    s₂.token.kind = .punctuator .rightParen ∧ s₂.token.newlineBefore = false := by
  obtain ⟨cs, hcs⟩ := h.closed
  obtain ⟨l₁, l₂, -, hl₂, -, -, hrest, -, -, hnext⟩ := h.lexer
  obtain ⟨t, hnext', hkind, hnewline⟩ :=
    hl₂.next_mark [] rightParen_mem (.inl rfl) (hrest.trans hcs)
  obtain rfl : s₂.token = t := Except.ok.inj (congrArg Prod.fst (hnext.symm.trans hnext'))
  exact ⟨hkind, hnewline⟩

/-- A reader that has left the stretch is not in it. -/
theorem Border.not_inside (h : Ψ.Border s₁ s₂) : ¬ Ψ.Inside s₁ := by
  obtain ⟨cs, hcs⟩ := h.closed
  obtain ⟨l₁, l₂, -, -, -, hrest, -, -, hnext, -⟩ := h.lexer
  have hleft := ParserState.Sound.left_next (s := ⟨l₁, s₁.token, s₁.lastEnd⟩) hnext
  rintro (hopen | hlt)
  · rw [IsOpen, hcs] at hopen
    cases hopen
  · rw [← hrest] at hlt
    exact absurd hlt (Nat.not_lt.2 hleft)

/-- Of two states that are near, the last ends differ by the shift. -/
theorem Near.lastEnd (h : Ψ.Near s₁ s₂) : s₂.lastEnd = Ψ.places.shift s₁.lastEnd :=
  h.elim (·.lastEnd) (·.lastEnd)

/-- Two readers in the stretch are abreast. -/
theorem Near.same (h : Ψ.Near s₁ s₂) (hin : Ψ.Inside s₁) : Ψ.Same s₁ s₂ :=
  h.resolve_right fun hborder => hborder.not_inside hin

/-- Two lexers that stand at matching places give the same token, if it belongs to the stretch. -/
theorem next_inside {l₁ l₂ : Lexer} (h₁ : l₁.Sound) (h₂ : l₂.Sound)
    (h : Lexer.Aligned Ψ.places l₁ l₂)
    (hrest : ∃ x, l₁.rest = x ++ Ψ.tail ∧ l₂.rest = x ++ Ψ.copyTail)
    (hnext : l₁.next = (.ok s₁.token, s₁.lexer)) (hs : s₁.Steady Ψ.source) (hin : Ψ.Inside s₁) :
    ∃ l₂', l₂.next = (.ok (Ψ.moved s₁.token), l₂') ∧
      ∀ s₂, s₂.Steady Ψ.copy → s₂.token = Ψ.moved s₁.token → s₂.lexer = l₂' →
        Ψ.Abreast s₁ s₂ := by
  obtain ⟨x, hx, hx₂⟩ := hrest
  obtain ⟨l₂', hnext₂, hrest₂, haligned, hahead⟩ : ∃ l₂',
      l₂.next = (.ok (Ψ.moved s₁.token), l₂') ∧
      (∃ y, s₁.lexer.rest = y ++ Ψ.tail ∧ l₂'.rest = y ++ Ψ.copyTail) ∧
      Lexer.Aligned Ψ.places s₁.lexer l₂' ∧ ∃ w, s₁.token.spelling = String.ofList w ∧
        Ψ.places.Ahead (w ++ s₁.lexer.rest) s₁.token.span.start := by
    by_cases ht : s₁.token.kind = .eof
    · have hopen := (hin.kind hs).resolve_right (absurd ht)
      obtain ⟨l₂', hnext₂, hrest₂, haligned, hahead⟩ := Lexer.next_exchange_eof h₁ h₂ h
        (by rw [hx, hx₂, Ψ.tail_nil hopen, hopen]) hnext ht
      obtain ⟨-, -, -, -, ⟨-, -, hrest⟩ | ⟨hne, -⟩⟩ := Lexer.next_split hnext
      · exact ⟨l₂', hnext₂, ⟨[], by rw [hrest, Ψ.tail_nil hopen]; rfl, by rw [hrest₂, hopen]; rfl⟩,
          haligned, hahead⟩
      · exact absurd ht hne
    · obtain ⟨y, hy⟩ := hin.suffix hs
      obtain ⟨gap, text, hsplit, -⟩ := Lexer.next_split hnext
      obtain rfl : x = gap ++ text ++ y := by
        rw [hx, ← hy, ← List.append_assoc] at hsplit
        exact List.append_cancel_right hsplit
      obtain ⟨l₂', hnext₂, hrest₂, haligned, hahead⟩ := Lexer.next_exchange h₁ h₂ h hnext ht hsplit
        (hx₂.trans (List.append_assoc ..)) (hy ▸ Ψ.edge.append y)
      exact ⟨l₂', hnext₂, ⟨y, hy.symm, hrest₂⟩, haligned, hahead⟩
  refine ⟨l₂', hnext₂, fun s₂ hs₂ htoken hlexer => ⟨hs, hs₂, htoken, hahead, ?_, ?_⟩⟩
  · rwa [hlexer]
  · rwa [hlexer]

namespace Abreast

variable (h : Ψ.Abreast s₁ s₂)
include h

/-- In step the two tokens are of the same kind. -/
theorem kind : s₂.token.kind = s₁.token.kind := by rw [h.token]; rfl

/-- In step the two tokens start at places that differ by the shift. -/
theorem here : s₂.here = Ψ.places.shift s₁.here := by
  rw [ParserState.here, h.token]
  rfl

/-- What has been passed ends at matching places. -/
theorem stop : s₂.token.span.stop = Ψ.places.shift s₁.token.span.stop := by rw [h.token]; rfl

/-- The next token belongs to the stretch. -/
theorem past_inside (hpast : s₁.Past s₁') (hin : Ψ.Inside s₁') :
    ∃ s₂', s₂.Past s₂' ∧ Ψ.Same s₁' s₂' := by
  have hsteady := h.steady₁.past hpast
  obtain ⟨t, l, hnext, rfl⟩ := hpast
  obtain ⟨l₂, hnext₂, habreast⟩ := next_inside h.steady₁.lexer h.steady₂.lexer h.lexer h.rest hnext
    hsteady hin
  have hpast₂ : s₂.Past ⟨l₂, Ψ.moved t, s₂.token.span.stop⟩ := ⟨_, _, hnext₂, rfl⟩
  exact ⟨_, hpast₂, habreast _ (h.steady₂.past hpast₂) rfl rfl, h.stop⟩

/-- The current token is the last one of the stretch. -/
theorem past_atEnd (hpast : s₁.Past s₁') (hclosed : Ψ.IsClosed) (hend : Ψ.AtEnd s₁') :
    ∃ s₂', s₂.Past s₂' ∧ Ψ.Border s₁' s₂' := by
  have hsteady := h.steady₁.past hpast
  have hposition : s₁.lexer.position = s₁.token.span.stop := by
    obtain ⟨-, -, -, -, hposition⟩ := h.steady₁.exists_before
    exact hposition
  have hlastEnd := hpast.lastEnd
  obtain ⟨x, hx, hx₂⟩ := h.rest
  obtain rfl : x = [] := by
    have hstop := h.steady₁.stop_add
    rw [AtEnd, hlastEnd] at hend
    rw [hx, byteLength_append] at hstop
    by_contra hne
    have := Lexer.byteLength_pos hne
    omega
  obtain ⟨t, l, hnext, rfl⟩ := hpast
  obtain ⟨cs, hcs⟩ := id hclosed
  obtain ⟨t₂, hnext₂, -⟩ := h.steady₂.lexer.next_mark [] rightParen_mem (.inl rfl)
    (hx₂.trans hcs)
  have hpast₂ : s₂.Past ⟨_, t₂, s₂.token.span.stop⟩ := ⟨_, _, hnext₂, rfl⟩
  exact ⟨_, hpast₂, hsteady, h.steady₂.past hpast₂, hclosed, hend, h.stop, s₁.lexer, s₂.lexer,
    h.steady₁.lexer, h.steady₂.lexer, h.lexer, hx, hx₂, hposition, hnext, hnext₂⟩

/-- What one reader passes, the other passes as well. -/
theorem past (hpast : s₁.Past s₁') (hw : Ψ.Within s₁') : ∃ s₂', s₂.Past s₂' ∧ Ψ.Near s₁' s₂' := by
  rcases hw with hin | ⟨hclosed, hend⟩
  · obtain ⟨s₂', hpast₂, hsame⟩ := h.past_inside hpast hin
    exact ⟨s₂', hpast₂, .inl hsame⟩
  · obtain ⟨s₂', hpast₂, hborder⟩ := h.past_atEnd hpast hclosed hend
    exact ⟨s₂', hpast₂, .inr hborder⟩

/-- A regular expression that belongs to the stretch begins on both sides. -/
theorem reread (hk : s₁.token.kind.isSlash) (hreread : s₁.Reread s₁')
    (hsuffix : Ψ.tail <:+ s₁'.lexer.rest) : ∃ s₂', s₂.Reread s₂' ∧ Ψ.Abreast s₁' s₂' := by
  have hsteady := h.steady₁.reread hreread
  obtain ⟨r, l, hrescan, rfl⟩ := hreread
  obtain ⟨before, text, hstands, hsource, -⟩ := h.steady₁.exists_before
  obtain ⟨before₂, text₂, hstands₂, hsource₂, -⟩ := h.steady₂.exists_before
  obtain rfl : text₂ = text := by
    have hspelling := hstands₂.spelling
    rw [h.token, show (Ψ.moved s₁.token).spelling = s₁.token.spelling from rfl,
      hstands.spelling] at hspelling
    exact (String.ofList_injective hspelling).symm
  rw [h.token] at hstands₂
  obtain ⟨x, hx, hx₂⟩ := h.rest
  obtain ⟨y, hy⟩ := hsuffix
  obtain ⟨c, hc⟩ : ∃ c, text₂ ++ s₁.lexer.rest = c ++ l.rest := by
    obtain ⟨given, hsession, hgiven⟩ := h.steady₁.sound.session
    obtain ⟨v, -, hrest, -⟩ := Lexer.rescan_split hsession hgiven hk hstands
      (h.steady₁.lexer_source.trans hsource) hrescan
    exact ⟨text₂ ++ v, by rw [hrest, List.append_assoc]⟩
  simp only at hy
  have hcopy : text₂ ++ x = c ++ y := by
    rw [hx, ← hy, ← List.append_assoc, ← List.append_assoc] at hc
    exact List.append_cancel_right hc
  have hc₂ : text₂ ++ s₂.lexer.rest = c ++ (y ++ Ψ.copyTail) := by
    rw [hx₂, ← List.append_assoc, hcopy, List.append_assoc]
  obtain ⟨w, hw, hahead⟩ := h.ahead
  obtain rfl : text₂ = w := String.ofList_injective (hstands.spelling.symm.trans hw)
  obtain ⟨l₂, hrescan₂, hrest₂, haligned, hspelling⟩ := Lexer.rescanRegExp_exchange hstands
    (h.steady₁.lexer_source.trans hsource) hstands₂ (h.steady₂.lexer_source.trans hsource₂)
    ⟨hahead, rfl⟩ h.lexer.enclosed hrescan hc hc₂ (hy ▸ Ψ.edge.append y)
  have hreread₂ : s₂.Reread ⟨l₂, Ψ.moved r, s₂.lastEnd⟩ := ⟨_, _, h.token ▸ hrescan₂, rfl⟩
  have hstart := (h.steady₁.sound.rescan hrescan).2.1
  refine ⟨_, hreread₂, hsteady, h.steady₂.reread hreread₂, rfl, ⟨c, hspelling, ?_⟩, haligned, y,
    hy.symm, hrest₂⟩
  rw [ParserState.here, hstart, ← hc]
  exact hahead

end Abreast

end

end Stretch

end WithScope
