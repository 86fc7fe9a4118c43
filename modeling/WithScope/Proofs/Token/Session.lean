import WithScope.Proofs.Token.Standing

/-!
# What lexers of a text give

The lexers that a text leads to are those that come of its first one by going on, and by going back
to a token that has been given and reading it as a regular expression. Whatever they give on the way
stands in the text or shows in it.

* `Lexer.Session` — a lexer of the text, and what has been given on the way to it;
* `Lexer.Session.spec` — where all that stands;
* `Lexer.Session.next_fault` — when a fault does not show at a place of the text;
* `SyntaxError.Found` — the faults of a text, those of its lexers among them;
* `SyntaxError.Reported` — those of them that there are.
-/

namespace WithScope

/-- A result of a lexer of the text: a token that stands in it, or an error that shows in it. -/
def Lexer.Given (source : List Char) : Except SyntaxError Token → Prop
  | .ok t => ∃ before text rest, source = before ++ text ++ rest ∧ t.Stands before text rest
  | .error e => e.Placed source

namespace Lexer

/-- A lexer that a text leads to, and all that has been given on the way, the last first. A lexer
goes on after a fault, and may go back to any token. -/
inductive Session (source : List Char) : Lexer → List (Except SyntaxError Token) → Prop
  | start : Session source (.ofSource source) []
  | next {l : Lexer} {given : List (Except SyntaxError Token)} (h : Session source l given) :
      Session source l.next.2 (l.next.1 :: given)
  | rescan {l : Lexer} {given : List (Except SyntaxError Token)} {t : Token}
      (h : Session source l given) (ht : .ok t ∈ given) :
      Session source (l.rescanRegExp t).2 ((l.rescanRegExp t).1 :: given)

variable {source before : List Char} {l : Lexer} {given : List (Except SyntaxError Token)}
  {t : Token} {e : SyntaxError}

theorem given_next (hsource : l.source = source) (hl : l.Stands before) :
    Given source l.next.1 := by
  subst hsource
  cases hnext : l.next.1 with
  | ok t =>
    obtain ⟨gap, text, -, -, ht, hl'⟩ := next_token hl hnext
    exact ⟨_, text, _, (next_source l).symm.trans hl'.source, ht⟩
  | error e =>
    refine (next_error hl hnext).imp id fun ⟨cause, text, hescape, he⟩ => ?_
    exact ⟨_, _, cause, text, hl.source_gap, hescape, he⟩

theorem given_rescan {text rest : List Char} (ht : t.Stands before text rest)
    (hsource : l.source = before ++ text ++ rest) : Given l.source (l.rescanRegExp t).1 := by
  cases hrescan : (l.rescanRegExp t).1 with
  | ok t' =>
    obtain ⟨text', ht', hl', -⟩ := rescanRegExp_token ht hsource hrescan
    exact ⟨before, text', _, (rescanRegExp_source ht hsource).symm.trans hl'.source, ht'⟩
  | error e => exact .inl (rescanRegExp_error ht hsource hrescan)

namespace Session

/-- A lexer of the text stands in the text, and so does what has been given. -/
theorem spec (h : Session source l given) :
    l.source = source ∧ (∃ before, l.Stands before) ∧ ∀ r ∈ given, Given source r := by
  induction h with
  | start => exact ⟨rfl, ⟨[], ofSource_stands source⟩, List.forall_mem_nil _⟩
  | @next l given _ ih =>
    obtain ⟨hsource, ⟨before, hl⟩, hgiven⟩ := ih
    obtain ⟨text, hstands⟩ := next_stands hl
    exact ⟨(next_source l).trans hsource, ⟨_, hstands⟩,
      List.forall_mem_cons.2 ⟨given_next hsource hl, hgiven⟩⟩
  | @rescan l given t _ ht ih =>
    obtain ⟨rfl, -, hgiven⟩ := ih
    obtain ⟨before, text, rest, hsource, hstands⟩ := hgiven _ ht
    obtain ⟨text', hl⟩ := rescanRegExp_stands hstands hsource
    exact ⟨rescanRegExp_source hstands hsource, ⟨_, hl⟩,
      List.forall_mem_cons.2 ⟨given_rescan hstands hsource, hgiven⟩⟩

/-- The span of a token goes from one place of the text to another. -/
theorem token (h : Session source l given) (ht : .ok t ∈ given) :
    IsPlace source t.span.start ∧ IsPlace source t.span.stop := by
  obtain ⟨before, text, rest, rfl, hstands⟩ := h.spec.2.2 _ ht
  rw [hstands.span]
  exact ⟨⟨before, text ++ rest, List.append_assoc .., rfl⟩, ⟨before ++ text, rest, rfl, rfl⟩⟩

theorem error (h : Session source l given) (he : .error e ∈ given) : e.Placed source :=
  h.spec.2.2 _ he

/-- The tokens up to the end of the text are given one after the other, and a fault if there is
one. -/
theorem tokensWithin (h : Session source l given) (budget : List Char) :
    ∃ l' given', Session source l' given' ∧ (∀ r ∈ given, r ∈ given') ∧
      (∀ ts, Lexer.tokensWithin budget l = .ok ts → ∀ t ∈ ts, .ok t ∈ given') ∧
      ∀ e, Lexer.tokensWithin budget l = .error e → .error e ∈ given' ∨ e.cause = .budgetSpent := by
  -- the session goes on whether or not the list of tokens does, so the step comes first
  induction budget generalizing l given with
  | nil =>
    refine ⟨l, given, h, fun _ => id, fun _ hread => ?_, fun e hread => ?_⟩
    · cases hread
    · cases hread
      exact .inr rfl
  | cons _ budget ih =>
    obtain ⟨l', given', hsession, hsubset, hok, herror⟩ := ih h.next
    have hfirst : l.next.1 ∈ given' := hsubset _ (List.mem_cons_self ..)
    refine ⟨l', given', hsession, fun r hr => hsubset r (List.mem_cons_of_mem _ hr), ?_⟩
    unfold Lexer.tokensWithin
    rcases hnext : l.next with ⟨e | t, m⟩
    · rw [hnext] at hfirst
      refine ⟨fun _ hread => ?_, fun e' hread => ?_⟩
      · cases hread
      · cases hread
        exact .inl hfirst
    · rw [hnext] at hfirst hok herror
      simp only at hfirst hok herror ⊢
      by_cases heof : t.kind = .eof
      · simp only [if_pos heof]
        refine ⟨fun ts hread => ?_, fun _ hread => ?_⟩
        · cases hread
          exact List.forall_mem_nil _
        · cases hread
      · simp only [if_neg heof]
        cases htail : Lexer.tokensWithin budget m with
        | error e =>
          refine ⟨fun _ hread => ?_, fun e' hread => ?_⟩
          · cases hread
          · cases hread
            exact herror e htail
        | ok ts =>
          refine ⟨fun us hread => ?_, fun _ hread => ?_⟩
          · cases hread
            exact List.forall_mem_cons.2 ⟨hfirst, hok ts htail⟩
          · cases hread

end Session

end Lexer

/-! ## Faults of a text -/

/-- A fault that is not one of a token, and shows at a place of the text. -/
structure SyntaxError.Grammatical (source : List Char) (e : SyntaxError) : Prop where
  /-- where it shows -/
  isPlace : IsPlace source e.position
  /-- it is no fault of a token -/
  notLexical : ∀ cause, e.cause ≠ .lexical cause

/-- A fault that shows in the text: one that is not one of a token, or one that a lexer of the text
gives. -/
def SyntaxError.Found (source : List Char) (e : SyntaxError) : Prop :=
  e.Grammatical source ∨ ∃ l given, Lexer.Session source l given ∧ .error e ∈ given

/-- The causes that no fault of the grammar has: those of tokens, and the one that a regular
expression would have whose token has no closing slash. -/
inductive SyntaxCause.Ungrammatical : SyntaxCause → Prop
  | lexical (cause : LexicalCause) : Ungrammatical (.lexical cause)
  | invalidRegExp : Ungrammatical .invalidRegExp

/-- A fault that a production finds in the text. -/
structure SyntaxError.Raised (source : List Char) (e : SyntaxError) : Prop where
  /-- where it shows -/
  isPlace : IsPlace source e.position
  /-- it is one of the grammar -/
  grammatical : ¬e.cause.Ungrammatical

/-- A fault that comes of reading a text: a production finds it, or a lexer of the text gives it. -/
def SyntaxError.Reported (source : List Char) (e : SyntaxError) : Prop :=
  e.Raised source ∨ ∃ l given, Lexer.Session source l given ∧ .error e ∈ given

theorem SyntaxError.Reported.found {source : List Char} {e : SyntaxError} (h : e.Reported source) :
    e.Found source :=
  h.imp_left fun hraised => ⟨hraised.isPlace, fun cause hcause =>
    hraised.grammatical (hcause ▸ .lexical cause)⟩

end WithScope
