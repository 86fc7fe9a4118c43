import WithScope.Proofs.Token.Stability

/-!
# Open delimiters

A lexer counts the braces that are open, and notes for each open substitution of a template how many
of them were open where it began. It need not know more: which braces and substitutions are open
inside of which is a single stack (`Delimiter.after`), and number and depths are what the lexer keeps
of it (`Lexer.Tracks`).

* `Lexer.Tracks.next` — a token does to the lexer what it does to the stack;
* `Lexer.Run.tracks_delimiters` — hence a closing brace resumes a template iff the innermost open
  delimiter is a substitution, however long the lexer has been running.
-/

namespace WithScope

/-! ## The stack of open delimiters -/

/-- What is open where a token is read, until something closes it. -/
inductive Delimiter
  /-- an opening brace -/
  | brace
  /-- the beginning of a substitution in a template -/
  | substitution
deriving DecidableEq, Repr

namespace Delimiter

/-- The open delimiters after a token, the innermost first; none if the token cannot stand there. A
closing brace that closes nothing leaves them as they are. -/
def after : List Delimiter → TokenKind → Option (List Delimiter)
  | stack, .punctuator .leftBrace => some (.brace :: stack)
  | .brace :: outer, .punctuator .rightBrace => some outer
  | [], .punctuator .rightBrace => some []
  | .substitution :: _, .punctuator .rightBrace => none
  | stack, .templateHead => some (.substitution :: stack)
  | .substitution :: outer, .templateMiddle => some (.substitution :: outer)
  | _, .templateMiddle => none
  | .substitution :: outer, .templateTail => some outer
  | _, .templateTail => none
  | stack, _ => some stack

/-- The delimiters that are open after tokens, if all of them can stand where they do. -/
def afterAll (ts : List Token) : Option (List Delimiter) :=
  ts.foldlM (fun stack t => after stack t.kind) []

/-- For each open substitution, how many braces are open around it. -/
def depths : List Delimiter → List Nat
  | [] => []
  | .brace :: outer => depths outer
  | .substitution :: outer => outer.count .brace :: depths outer

@[simp] theorem count_brace (outer : List Delimiter) :
    (brace :: outer).count brace = outer.count brace + 1 :=
  List.count_cons_self

@[simp] theorem count_substitution (outer : List Delimiter) :
    (substitution :: outer).count brace = outer.count brace :=
  List.count_cons_of_ne (by decide)

theorem le_of_mem_depths {stack : List Delimiter} {n : Nat} (h : n ∈ depths stack) :
    n ≤ stack.count .brace := by
  induction stack with
  | nil => cases h
  | cons d outer ih =>
    cases d with
    | brace =>
      rw [count_brace]
      exact (ih h).trans (Nat.le_succ _)
    | substitution =>
      rw [count_substitution]
      rcases List.mem_cons.1 h with rfl | h
      · exact le_rfl
      · exact ih h

/-- The innermost open substitution is inside of all open braces iff none was opened in it. -/
theorem head?_depths {stack : List Delimiter} :
    (depths stack).head? = some (stack.count .brace) ↔ stack.head? = some .substitution := by
  rcases stack with _ | ⟨_ | _, outer⟩
  · simp [depths]
  · refine ⟨fun h => ?_, nofun⟩
    have hle : outer.count brace + 1 ≤ outer.count brace :=
      count_brace outer ▸ le_of_mem_depths (List.mem_of_mem_head? h)
    omega
  · simp [depths]

end Delimiter

/-- What a lexer keeps of the open delimiters. -/
structure Lexer.Tracks (l : Lexer) (stack : List Delimiter) : Prop where
  /-- how many braces are open -/
  depth : l.depth = stack.count .brace
  /-- how many of them are open around each open substitution -/
  substitutions : l.substitutions = Delimiter.depths stack

/-! ## What the readers give -/

theorem readTemplate_resumed {cs w x : List Char} {k : TokenKind × TokenValue}
    (h : readTemplate true '}' cs = ⟨w, x, .ok k⟩) : k.1 = .templateMiddle ∨ k.1 = .templateTail := by
  unfold readTemplate at h
  simp only at h
  split at h
  · cases h
    exact .inl rfl
  · cases h
    exact .inr rfl
  · cases h

/-- A reading that makes no token which resumes a template. -/
def Reading.Fresh (r : Reading) : Prop :=
  ∀ k, r.outcome = .ok k → k.1 ≠ .templateMiddle ∧ k.1 ≠ .templateTail

namespace Reading

theorem fresh_fault (parts : List Char × List Char) (cause : LexicalCause) (place : FaultPlace) :
    (fault parts cause place).Fresh := nofun

theorem fresh_token {parts : List Char × List Char} {kind : TokenKind} {value : TokenValue}
    (h : kind ≠ .templateMiddle ∧ kind ≠ .templateTail) : (token parts kind value).Fresh := by
  rintro _ ⟨⟩
  exact h

end Reading

open Reading (fresh_fault fresh_token)

theorem fresh_readString (quote : Char) (cs : List Char) : (readString quote cs).Fresh := by
  unfold readString
  simp only
  split
  · split
    · exact fresh_token ⟨nofun, nofun⟩
    · exact fresh_fault _ _ _
  · exact fresh_fault _ _ _

theorem fresh_readTemplate (opening : Char) (cs : List Char) :
    (readTemplate false opening cs).Fresh := by
  unfold readTemplate
  simp only
  split
  · exact fresh_token ⟨nofun, nofun⟩
  · exact fresh_token ⟨nofun, nofun⟩
  · exact fresh_fault _ _ _

theorem fresh_readNumeral (cs : List Char) : (readNumeral cs).Fresh := by
  unfold readNumeral
  simp only
  split
  · split
    · exact fresh_fault _ _ _
    · exact fresh_token ⟨nofun, nofun⟩
  · split
    · exact fresh_fault _ _ _
    · exact fresh_token ⟨nofun, nofun⟩

theorem fresh_readPrivateName (cs : List Char) : (readPrivateName cs).Fresh := by
  unfold readPrivateName
  simp only
  split
  · exact fresh_fault _ _ _
  · split
    · exact fresh_fault _ _ _
    · exact fresh_token ⟨nofun, nofun⟩

theorem fresh_readIdentifier (cs : List Char) : (readIdentifier cs).Fresh := by
  unfold readIdentifier
  simp only
  split
  · exact fresh_fault _ _ _
  · split <;> exact fresh_token ⟨nofun, nofun⟩

theorem fresh_readPunctuator (cs : List Char) : (readPunctuator cs).Fresh := by
  unfold readPunctuator
  split
  · exact fresh_token ⟨nofun, nofun⟩
  · exact fresh_token ⟨nofun, nofun⟩
  · split
    · exact fresh_token ⟨nofun, nofun⟩
    · split
      · exact fresh_token ⟨nofun, nofun⟩
      · exact fresh_fault _ _ _

/-- Templates are resumed by the lexer alone. -/
theorem fresh_readToken (cs : List Char) : (readToken cs).Fresh := by
  cases cs with
  | nil => exact fresh_token ⟨nofun, nofun⟩
  | cons c cs =>
    rw [readToken]
    split_ifs
    · exact fresh_readString _ _
    · exact fresh_readTemplate _ _
    · exact fresh_readNumeral _
    · exact fresh_readPrivateName _
    · exact fresh_readIdentifier _
    · exact fresh_fault _ _ _
    · exact fresh_readPunctuator _

theorem readRegExp_kind {cs w x : List Char} {k : TokenKind × TokenValue}
    (h : readRegExp cs = ⟨w, x, .ok k⟩) : k.1 = .regExpLiteral := by
  unfold readRegExp at h
  split at h
  · cases h
  · simp only at h
    split at h <;> cases h
    rfl

/-- A closing brace is a token by itself. -/
theorem readToken_brace (cs : List Char) :
    readToken ('}' :: cs) = .token (['}'], cs) (.punctuator .rightBrace) .none := by
  have hstart : isIdStart '}' = false := by decide +kernel
  simp [readToken, hstart, readPunctuator]

namespace Lexer

variable {source : List Char} {l l' : Lexer} {stack : List Delimiter} {t : Token}

/-! ## One step -/

namespace Tracks

theorem ofSource (source : List Char) : (ofSource source).Tracks [] := ⟨rfl, rfl⟩

/-- A closing brace resumes a template iff the innermost open delimiter is a substitution. -/
theorem resumes_iff (h : l.Tracks stack) :
    l.substitutions.head? = some l.depth ↔ stack.head? = some .substitution := by
  rw [h.depth, h.substitutions, Delimiter.head?_depths]

/-- A token that resumes no template does to the lexer what it does to the stack. -/
theorem track (h : l.Tracks stack) {k : TokenKind}
    (hresumed : k ≠ .templateMiddle ∧ k ≠ .templateTail)
    (hclose : k = .punctuator .rightBrace → stack.head? ≠ some .substitution) :
    ∃ stack', Delimiter.after stack k = some stack' ∧ (l.track k).Tracks stack' := by
  obtain ⟨hdepth, hsubstitutions⟩ := h
  cases k
  case templateMiddle => exact absurd rfl hresumed.1
  case templateTail => exact absurd rfl hresumed.2
  case templateHead =>
    exact ⟨.substitution :: stack, by cases stack <;> rfl,
      hdepth.trans (Delimiter.count_substitution stack).symm,
      congrArg₂ List.cons hdepth hsubstitutions⟩
  case punctuator mark =>
    cases mark
    case leftBrace =>
      exact ⟨.brace :: stack, by cases stack <;> rfl,
        (congrArg (· + 1) hdepth).trans (Delimiter.count_brace stack).symm, hsubstitutions⟩
    case rightBrace =>
      -- nothing open, a brace, or a substitution, which only a resumed template closes
      rcases stack with _ | ⟨_ | _, outer⟩
      · exact ⟨[], rfl, congrArg (· - 1) hdepth, hsubstitutions⟩
      · refine ⟨outer, rfl, ?_, hsubstitutions⟩
        rw [Delimiter.count_brace] at hdepth
        exact congrArg (· - 1) hdepth
      · exact absurd rfl (hclose rfl)
    all_goals exact ⟨stack, by cases stack <;> rfl, hdepth, hsubstitutions⟩
  all_goals exact ⟨stack, by cases stack <;> rfl, hdepth, hsubstitutions⟩

/-- A token that resumes a template closes a substitution, and may open another. -/
theorem track_resumed {outer : List Delimiter} (h : l.Tracks outer) {k : TokenKind}
    (hk : k = .templateMiddle ∨ k = .templateTail) :
    ∃ stack', Delimiter.after (.substitution :: outer) k = some stack' ∧
      (l.track k).Tracks stack' := by
  rcases hk with rfl | rfl
  · exact ⟨.substitution :: outer, rfl, h.depth.trans (Delimiter.count_substitution outer).symm,
      congrArg₂ List.cons h.depth h.substitutions⟩
  · exact ⟨outer, rfl, h⟩

/-- What the next token is, if a brace closes: the rest of a template where the innermost open
delimiter is a substitution, and a brace elsewhere. Nothing else is either of them. -/
theorem kind_next (h : l.Tracks stack) (ht : l.next.1 = .ok t) :
    (t.kind = .templateMiddle ∨ t.kind = .templateTail ↔
      l.gapAhead.2.head? = some '}' ∧ stack.head? = some .substitution) ∧
    (t.kind = .punctuator .rightBrace ↔
      l.gapAhead.2.head? = some '}' ∧ stack.head? ≠ some .substitution) := by
  obtain ⟨w, x, k, hread, rfl, -⟩ := advance_inv
    ((next_eq l).symm.trans (Prod.ext ht rfl : l.next = (.ok t, l.next.2)))
  rw [ne_eq, ← h.resumes_iff]
  unfold upcoming at hread
  split at hread
  · next hresumes =>
    have hk := readTemplate_resumed hread
    refine ⟨⟨fun _ => hresumes, fun _ => hk⟩, ⟨fun hbrace => ?_, fun hno => absurd hresumes.2 hno.2⟩⟩
    rcases hk with hk | hk <;> cases hk.symm.trans hbrace
  · next hresumes =>
    have hk := fresh_readToken _ _ (congrArg Reading.outcome hread)
    refine ⟨⟨fun hyes => ?_, fun hyes => absurd hyes hresumes⟩, ⟨fun hbrace => ?_, fun hno => ?_⟩⟩
    · exact (hyes.elim hk.1 hk.2).elim
    · have hhead := readToken_rightBrace hread hbrace
      exact ⟨hhead, fun hdepth => hresumes ⟨hhead, hdepth⟩⟩
    · obtain ⟨cs, hcs⟩ := List.head?_eq_some_iff.1 hno.1
      rw [hcs, readToken_brace] at hread
      cases hread
      rfl

/-- The next token does to the lexer what it does to the stack. -/
theorem next (h : l.Tracks stack) (hnext : l.next = (.ok t, l')) :
    ∃ stack', Delimiter.after stack t.kind = some stack' ∧ l'.Tracks stack' := by
  have hkind := h.kind_next (congrArg Prod.fst hnext)
  rw [next_eq] at hnext
  obtain ⟨w, x, k, hread, rfl, rfl⟩ := advance_inv hnext
  unfold upcoming at hread
  unfold afterGap upcoming
  split at hread
  · next hresumes =>
    obtain ⟨outer, rfl⟩ := List.head?_eq_some_iff.1 (h.resumes_iff.1 hresumes.2)
    rw [if_pos hresumes]
    refine track_resumed ⟨?_, ?_⟩ (readTemplate_resumed hread)
    · exact h.depth.trans (Delimiter.count_substitution outer)
    · exact congrArg List.tail h.substitutions
  · next hresumes =>
    rw [if_neg hresumes]
    exact track (l := { l with rest := x, position := _ }) ⟨h.depth, h.substitutions⟩
      (fresh_readToken _ _ (congrArg Reading.outcome hread)) fun hbrace => (hkind.2.1 hbrace).2

/-- Only a template without an end is a fault at a closing brace. -/
theorem error_next (h : l.Tracks stack) {e : SyntaxError} (he : l.next.1 = .error e)
    (hhead : l.gapAhead.2.head? = some '}') : stack.head? = some .substitution := by
  by_contra hstack
  obtain ⟨cs, hcs⟩ := List.head?_eq_some_iff.1 hhead
  rw [next_eq, upcoming, if_neg (fun hyes => hstack (h.resumes_iff.1 hyes.2)), hcs,
    readToken_brace] at he
  cases he

/-- A regular expression opens and closes nothing. -/
theorem rescan (h : l.Tracks stack) {slash : Token} (hrescan : l.rescanRegExp slash = (.ok t, l')) :
    ∃ stack', Delimiter.after stack t.kind = some stack' ∧ l'.Tracks stack' := by
  obtain ⟨w, x, k, hread, rfl, rfl⟩ := advance_inv hrescan
  have hk := readRegExp_kind hread
  refine track (l := { l with rest := x, position := _ }) ⟨h.depth, h.substitutions⟩ ?_ ?_
  · rw [hk]
    exact ⟨TokenKind.noConfusion, TokenKind.noConfusion⟩
  · rw [hk]
    exact TokenKind.noConfusion

end Tracks

/-! ## Whole runs -/

/-- A lexer that gives tokens of a text, one after the other and without a fault. It may go back to
a token that it has given, a slash above all, and read it as a regular expression. -/
inductive Run (source : List Char) : Lexer → List Token → Prop
  | start : Run source (.ofSource source) []
  | next {l l' : Lexer} {ts : List Token} {t : Token} (h : Run source l ts)
      (hnext : l.next = (.ok t, l')) : Run source l' (ts ++ [t])
  | rescan {l l' : Lexer} {ts : List Token} {slash t : Token} (h : Run source l ts)
      (hslash : slash ∈ ts) (hread : l.rescanRegExp slash = (.ok t, l')) : Run source l' (ts ++ [t])

/-- The open delimiters after one more token. -/
theorem afterAll_concat {ts : List Token} {stack : List Delimiter}
    (h : Delimiter.afterAll ts = some stack) (t : Token) :
    Delimiter.afterAll (ts ++ [t]) = Delimiter.after stack t.kind := by
  unfold Delimiter.afterAll at h ⊢
  rw [List.foldlM_append, h]
  simp

/-- All tokens of a run can stand where they do, and the lexer knows what is open after them. -/
theorem Run.tracks {ts : List Token} (h : Run source l ts) :
    ∃ stack, Delimiter.afterAll ts = some stack ∧ l.Tracks stack := by
  induction h with
  | start => exact ⟨[], rfl, .ofSource source⟩
  | next h hnext ih =>
    obtain ⟨stack, hstack, htracks⟩ := ih
    obtain ⟨stack', hafter, htracks'⟩ := htracks.next hnext
    exact ⟨stack', (afterAll_concat hstack _).trans hafter, htracks'⟩
  | rescan h _ hread ih =>
    obtain ⟨stack, hstack, htracks⟩ := ih
    obtain ⟨stack', hafter, htracks'⟩ := htracks.rescan hread
    exact ⟨stack', (afterAll_concat hstack _).trans hafter, htracks'⟩

/-- **Templates and braces.** After a run without faults, with regular expressions read in place of
slashes on the way, the counter and the depths of the lexer are those of the stack of open delimiters
that the tokens leave, each of which can stand where it does. The next token is the rest of a template
iff a brace closes and the innermost open delimiter is a substitution, and it is a closing brace iff a
brace closes and that is not so. -/
theorem Run.tracks_delimiters {ts : List Token} (h : Run source l ts) :
    ∃ stack, Delimiter.afterAll ts = some stack ∧ l.depth = stack.count .brace ∧
      l.substitutions = Delimiter.depths stack ∧
      (∀ t, l.next.1 = .ok t →
        (t.kind = .templateMiddle ∨ t.kind = .templateTail ↔
          l.gapAhead.2.head? = some '}' ∧ stack.head? = some .substitution) ∧
        (t.kind = .punctuator .rightBrace ↔
          l.gapAhead.2.head? = some '}' ∧ stack.head? ≠ some .substitution)) ∧
      ∀ e, l.next.1 = .error e → l.gapAhead.2.head? = some '}' →
        stack.head? = some .substitution := by
  obtain ⟨stack, hstack, htracks⟩ := h.tracks
  exact ⟨stack, hstack, htracks.depth, htracks.substitutions, fun _ => htracks.kind_next,
    fun _ => htracks.error_next⟩

/-- A brace inside of a regular expression in a substitution closes nothing. -/
theorem Run.tracks_delimiters_regExp :
    ∃ l ts, Run "\x60$\x7b/\x7d/\x7d\x60".toList l ts ∧
      ts.map Token.kind = [.templateHead, .punctuator .slash, .regExpLiteral] ∧
      ∃ stack, Delimiter.afterAll ts = some stack ∧ l.depth = stack.count .brace ∧
        l.substitutions = Delimiter.depths stack ∧
        (∀ t, l.next.1 = .ok t →
          (t.kind = .templateMiddle ∨ t.kind = .templateTail ↔
            l.gapAhead.2.head? = some '}' ∧ stack.head? = some .substitution) ∧
          (t.kind = .punctuator .rightBrace ↔
            l.gapAhead.2.head? = some '}' ∧ stack.head? ≠ some .substitution)) ∧
        ∀ e, l.next.1 = .error e → l.gapAhead.2.head? = some '}' →
          stack.head? = some .substitution := by
  let l₀ := ofSource "\x60$\x7b/\x7d/\x7d\x60".toList
  let head : Token := ⟨.templateHead, .text "", ⟨⟨0, 1, 1⟩, ⟨3, 1, 4⟩⟩, "\x60$\x7b", false⟩
  let slash : Token := ⟨.punctuator .slash, .none, ⟨⟨3, 1, 4⟩, ⟨4, 1, 5⟩⟩, "/", false⟩
  let regExp : Token := ⟨.regExpLiteral, .text "/\x7d/", ⟨⟨3, 1, 4⟩, ⟨6, 1, 7⟩⟩, "/\x7d/", false⟩
  have hhead : l₀.next.1.toOption = some head := by decide +kernel
  have hslash : l₀.next.2.next.1.toOption = some slash := by decide +kernel
  have hregExp : (l₀.next.2.next.2.rescanRegExp slash).1.toOption = some regExp := by
    decide +kernel
  have hok {r : Except SyntaxError Token × Lexer} {t : Token} (h : r.1.toOption = some t) :
      r = (.ok t, r.2) := by
    rcases r with ⟨e | t', l⟩ <;> cases h
    rfl
  have hrun : Run _ (l₀.next.2.next.2.rescanRegExp slash).2 [head, slash, regExp] :=
    .rescan (.next (.next .start (hok hhead)) (hok hslash)) (by simp) (hok hregExp)
  exact ⟨_, _, hrun, rfl, hrun.tracks_delimiters⟩

end Lexer

end WithScope
