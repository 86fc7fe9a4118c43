import WithScope.Proofs.Grammar.Outcome
import WithScope.Proofs.Token.Session

/-!
# What parsers do from a state

`Reads source env s p Q` says what comes of running the parser `p` in the surrounding `env` from the
state `s`: if it succeeds, then with a value and in a state that `Q` holds of, and if it fails, then
with a fault that comes of reading the text (`SyntaxError.Reported`).

There is a rule for each way to put parsers together, so that the proof about a production follows
the production, with a name for each state on the way. The states that occur are those that a lexer
of the text has led to (`ParserState.Sound`).
-/

namespace WithScope

/-- The current token has been read from the text, and the lexer stands right after it; the token
before it ends at a place in front of it. -/
structure ParserState.Sound (source : List Char) (s : ParserState) : Prop where
  /-- the lexer is one of the text and has given the token -/
  session : ∃ given, Lexer.Session source s.lexer given ∧ .ok s.token ∈ given
  /-- the current token and the lexer stand next to each other -/
  token : ∃ before text, s.token.Stands before text s.lexer.rest ∧ s.lexer.Stands (before ++ text)
  /-- the last token ended at a place of the text -/
  isPlace_lastEnd : IsPlace source s.lastEnd
  /-- the last token ended before the current one begins -/
  lastEnd_le : s.lastEnd.offset ≤ s.token.span.start.offset

/-- Where the current token begins. -/
def ParserState.here (s : ParserState) : Position := s.token.span.start

namespace ParserState.Sound

variable {source : List Char} {s : ParserState} (h : s.Sound source)
include h

/-- A sound state stands at a place of the text. -/
theorem isPlace_here : IsPlace source s.here := by
  obtain ⟨given, hsession, hgiven⟩ := h.session
  exact (hsession.token hgiven).1

/-- The token of a sound state ends at a place of the text. -/
theorem isPlace_stop : IsPlace source s.token.span.stop := by
  obtain ⟨given, hsession, hgiven⟩ := h.session
  exact (hsession.token hgiven).2

/-- A token does not end before it starts. -/
theorem start_le_stop : s.token.span.start.offset ≤ s.token.span.stop.offset := by
  obtain ⟨before, text, ht, -⟩ := h.token
  simp [ht.span, placeAfter]

/-- Only the end of the text is a token without characters. -/
theorem start_lt_stop (hk : s.token.kind ≠ .eof) :
    s.token.span.start.offset < s.token.span.stop.offset := by
  obtain ⟨before, text, ht, -⟩ := h.token
  rcases ht.eof with ⟨heof, -⟩ | ⟨-, hne⟩
  · exact absurd heof hk
  · obtain ⟨c, text, rfl⟩ := List.exists_cons_of_ne_nil hne
    have := c.utf8Size_pos
    simp only [ht.span, placeAfter, byteLength_append, byteLength_cons]
    omega

/-- After the next token, if it can be read. -/
theorem next {t : Token} {l : Lexer} (hnext : s.lexer.next = (.ok t, l)) :
    (⟨l, t, s.token.span.stop⟩ : ParserState).Sound source := by
  obtain ⟨before, text, ht, hl⟩ := h.token
  obtain ⟨given, hsession, -⟩ := h.session
  obtain ⟨gap, text', -, -, ht', hl'⟩ := Lexer.next_token hl (congrArg Prod.fst hnext)
  have hsession := hsession.next
  rw [hnext] at ht' hl' hsession
  refine ⟨⟨_, hsession, List.mem_cons_self ..⟩, ⟨_, _, ht', hl'⟩, h.isPlace_stop, ?_⟩
  simp [ht.span, ht'.span, placeAfter]

/-- What the lexer reports is at a place of the text. -/
theorem next_error {e : SyntaxError} (hnext : s.lexer.next.1 = .error e) : e.Reported source := by
  obtain ⟨given, hsession, -⟩ := h.session
  exact .inr ⟨_, _, hsession.next, hnext ▸ List.mem_cons_self ..⟩

/-- With a regular expression in place of the current token, if one can be read. -/
theorem rescan {t : Token} {l : Lexer} (hrescan : s.lexer.rescanRegExp s.token = (.ok t, l)) :
    (⟨l, t, s.lastEnd⟩ : ParserState).Sound source ∧ t.span.start = s.token.span.start ∧
      t.kind ≠ .eof := by
  obtain ⟨before, text, ht, hl⟩ := h.token
  obtain ⟨given, hsession, hgiven⟩ := h.session
  obtain ⟨text', ht', hl', hkind⟩ :=
    Lexer.rescanRegExp_token ht hl.source (congrArg Prod.fst hrescan)
  have hsession := hsession.rescan hgiven
  rw [hrescan] at ht' hl' hsession
  have hstart : t.span.start = s.token.span.start := by rw [ht.span, ht'.span]
  refine ⟨⟨⟨_, hsession, List.mem_cons_self ..⟩, ⟨_, _, ht', hl'⟩, h.isPlace_lastEnd, ?_⟩, hstart,
    hkind⟩
  exact hstart ▸ h.lastEnd_le

/-- As `next_error`, when a slash is read again. -/
theorem rescan_error {e : SyntaxError} (hrescan : (s.lexer.rescanRegExp s.token).1 = .error e) :
    e.Reported source := by
  obtain ⟨given, hsession, hgiven⟩ := h.session
  exact .inr ⟨_, _, hsession.rescan hgiven, hrescan ▸ List.mem_cons_self ..⟩

end ParserState.Sound

/-- The state in which a text begins to be read, if its first token can be read. -/
theorem ParserState.sound_first {source : List Char} {t : Token} {l : Lexer}
    (h : (Lexer.ofSource source).next = (.ok t, l)) :
    (⟨l, t, .origin⟩ : ParserState).Sound source := by
  obtain ⟨gap, text, -, -, ht, hl⟩ :=
    Lexer.next_token (Lexer.ofSource_stands source) (congrArg Prod.fst h)
  have hsession := (Lexer.Session.start : Lexer.Session source _ _).next
  rw [h] at ht hl hsession
  exact ⟨⟨_, hsession, List.mem_cons_self ..⟩, ⟨_, _, ht, hl⟩, ⟨[], source, rfl, rfl⟩,
    Nat.zero_le _⟩

namespace Parser

variable {source : List Char} {env : Surrounding} {s : ParserState} {α β : Type}

/-- What comes of a parser in a surrounding and from a state. -/
def Reads (source : List Char) (env : Surrounding) (s : ParserState) (p : Parser α)
    (Q : α → ParserState → Prop) : Prop :=
  match p env s with
  | .ok (a, s') => Q a s'
  | .error e => e.Reported source

namespace Reads

variable {p q : Parser α} {f : α → Parser β} {P Q : α → ParserState → Prop}
  {R : β → ParserState → Prop}

/-! ## Sequences -/

/-- What is known of a result may be weakened. -/
theorem mono (hp : Reads source env s p P) (h : ∀ a s', P a s' → Q a s') :
    Reads source env s p Q :=
  Outcome.mono (F := (·.Reported source)) hp h

/-- A value that is given reads nothing. -/
theorem pure {a : α} (h : Q a s) : Reads source env s (Pure.pure a) Q := h

/-- What comes second starts where the first has come to. -/
theorem bind (hp : Reads source env s p P) (hf : ∀ a s', P a s' → Reads source env s' (f a) R) :
    Reads source env s (p >>= f) R :=
  Outcome.bind (F := (·.Reported source)) hp hf

/-- What is made of a value is made at the same state. -/
theorem map {f : α → β} (hp : Reads source env s p fun a s' => R (f a) s') :
    Reads source env s (f <$> p) R :=
  bind hp fun _ _ h => pure h

/-! ## Faults -/

/-- A fault at a place of the text is reported there. -/
theorem fail {place : Position} {cause : SyntaxCause} (h : IsPlace source place)
    (hcause : ¬cause.Ungrammatical) :
    Reads source env s (Parser.fail place cause) Q := .inl ⟨h, hcause⟩

/-! ## Looking at the state and the surrounding -/

/-- The place of the next token is known to what follows. -/
theorem here (h : Reads source env s (g s.here) R) : Reads source env s (Parser.here >>= g) R := h

/-- The kind of the next token is known to what follows. -/
theorem kind (h : Reads source env s (g s.token.kind) R) :
    Reads source env s (Parser.kind >>= g) R := h

/-- The next token is known to what follows. -/
theorem token (h : Reads source env s (g s.token) R) :
    Reads source env s (Parser.token >>= g) R := h

/-- A span ends where the last token did. -/
theorem spanFrom {start : Position} (h : Reads source env s (g ⟨start, s.lastEnd⟩) R) :
    Reads source env s (Parser.spanFrom start >>= g) R := h

/-- The context is known to what follows. -/
theorem context (h : Reads source env s (g env.context) R) :
    Reads source env s (Parser.context >>= g) R := h

/-- The surrounding is known to what follows. -/
theorem read (h : Reads source env s (g env) R) :
    Reads source env s (MonadReader.read >>= g) R := h

/-- An unexpected token is reported where it starts. -/
theorem unexpected (hs : s.Sound source) : Reads source env s Parser.unexpected Q := by
  unfold Parser.unexpected
  refine .token ?_
  split <;> exact fail hs.isPlace_here nofun

/-! ## Moving on -/

/-- The next token takes the place of the current one. -/
theorem bump (hs : s.Sound source) {Q : Token → ParserState → Prop}
    (h : ∀ t l, (⟨l, t, s.token.span.stop⟩ : ParserState).Sound source →
      Q s.token ⟨l, t, s.token.span.stop⟩) :
    Reads source env s Parser.bump Q := by
  unfold Reads
  rw [bump_eq]
  rcases hnext : s.lexer.next with ⟨e | t, l⟩
  · exact hs.next_error (congrArg Prod.fst hnext)
  · exact h t l (hs.next hnext)

/-- A regular expression takes the place of the current token. -/
theorem rescan (hs : s.Sound source) :
    Reads source env s Parser.rescan fun _ s' => s'.Sound source ∧ s.Reread s' := by
  unfold Reads
  rw [rescan_eq]
  rcases hrescan : s.lexer.rescanRegExp s.token with ⟨e | t, l⟩
  · exact hs.rescan_error (congrArg Prod.fst hrescan)
  · exact ⟨(hs.rescan hrescan).1, t, l, hrescan, rfl⟩

/-! ## Changed surroundings -/

/-- Where `in` is an operator again, the same is read. -/
theorem allowIn (hp : ∀ env, Reads source env s p Q) : Reads source env s (Parser.allowIn p) Q :=
  hp _

/-- In a body the same is read in another context. -/
theorem inBody {context : Context} (hp : ∀ env, Reads source env s p Q) :
    Reads source env s (Parser.inBody context p) Q := hp _

/-- Under a label the same is read in another surrounding. -/
theorem withLabel {name : String} (hp : ∀ env, Reads source env s p Q) :
    Reads source env s (Parser.withLabel name p) Q := hp _

end Reads

/-! ## Repetition -/

/-- What comes of one round of a repetition: something to go on with, or a result. -/
def Round (I : α → ParserState → Prop) (Q : β → ParserState → Prop) :
    α ⊕ β → ParserState → Prop
  | .inl a => I a
  | .inr b => Q b

/-- If each round keeps what holds before it, or comes to what holds of the result. -/
theorem Reads.repeatFrom {I : α → ParserState → Prop} {Q : β → ParserState → Prop}
    {step : α → Parser (α ⊕ β)} (hsound : ∀ a s, I a s → s.Sound source)
    (hstep : ∀ a s, I a s → Reads source env s (step a) (Round I Q)) {a : α} (ha : I a s) :
    Reads source env s (Parser.repeatFrom a step) Q := by
  have hiterate (budget : List Char) : ∀ a s, I a s →
      Reads source env s (iterate step budget a) Q := by
    induction budget with
    | nil => exact fun a s ha => .here (.fail (hsound a s ha).isPlace_here nofun)
    | cons _ budget ih =>
      intro a s ha
      refine .bind (hstep a s ha) fun r s' hr => ?_
      cases r with
      | inl a' => exact ih a' s' hr
      | inr b => exact .pure hr
  exact hiterate _ a s ha

/-! ## Looking ahead -/

/-- A parser that only looks, and leaves the state as it was. -/
def Looks (source : List Char) (env : Surrounding) (s : ParserState) (p : Parser α) : Prop :=
  Reads source env s p fun _ s' => s' = s

namespace Looks

variable {p : Parser α} {f : α → Parser β} {R : β → ParserState → Prop}

/-- What only looks leaves the state to what follows. -/
theorem bind (hp : Looks source env s p) (hf : ∀ a, Reads source env s (f a) R) :
    Reads source env s (p >>= f) R :=
  Reads.bind hp fun a _ h => h ▸ hf a

/-- Looking at the token after the next one leaves the state as it is. -/
theorem peek (hs : s.Sound source) : Looks source env s Parser.peek := by
  unfold Looks Reads
  rw [peek_eq]
  cases h : s.lexer.next.1 with
  | error e => exact hs.next_error h
  | ok t => exact rfl

/-- Asking for a name looks only. -/
theorem atName (name : String) : Looks source env s (Parser.atName name) := Reads.token (.pure rfl)

/-- Asking for a line end looks only. -/
theorem afterNewline : Looks source env s Parser.afterNewline := Reads.token (.pure rfl)

/-- Asking whether a statement may end looks only. -/
theorem atStatementBreak : Looks source env s Parser.atStatementBreak := Reads.token (.pure rfl)

/-- Asking for a kind looks only. -/
theorem atKind (k : TokenKind) : Looks source env s (Parser.atKind k) := Reads.kind (.pure rfl)

/-- Asking for the end of a statement looks only. -/
theorem atStatementEnd : Looks source env s Parser.atStatementEnd := by
  refine (atKind _).bind fun isSemicolon => ?_
  split
  · exact .pure rfl
  · exact atStatementBreak

end Looks

/-! ## Decisions -/

/-- A parser that decides something: what holds afterwards if it says yes, and what if it says
no. -/
def Decides (source : List Char) (env : Surrounding) (s : ParserState) (p : Parser Bool)
    (yes no : ParserState → Prop) : Prop :=
  Reads source env s p fun b s' => match b with
    | true => yes s'
    | false => no s'

section

variable {c : Parser Bool} {p q : Parser α} {f : α → Parser β} {Q : α → ParserState → Prop}
  {R : β → ParserState → Prop} {yes no : ParserState → Prop}

/-- One of two parsers. -/
theorem Reads.ite (hc : Decides source env s c (fun s' => Reads source env s' p Q)
      fun s' => Reads source env s' q Q) :
    Reads source env s (c >>= fun b => if b = true then p else q) Q := by
  refine hc.bind fun b s' h => ?_
  cases b <;> exact h

/-- One of two parsers, and what follows either. -/
theorem Reads.join (hc : Decides source env s c (fun s' => Reads source env s' p Q)
      fun s' => Reads source env s' q Q) (hf : ∀ a s', Q a s' → Reads source env s' (f a) R) :
    Reads source env s (c >>= fun b => if b = true then p >>= f else q >>= f) R := by
  refine hc.bind fun b s' h => ?_
  cases b <;> exact .bind h hf

namespace Decides

/-- What is answered tells the kind of the token. -/
theorem atKind {k : TokenKind} (hyes : s.token.kind = k → yes s) (hno : s.token.kind ≠ k → no s) :
    Decides source env s (Parser.atKind k) yes no := by
  refine .kind (.pure ?_)
  by_cases h : s.token.kind = k
  · rw [decide_eq_true h]
    exact hyes h
  · rw [decide_eq_false h]
    exact hno h

/-- A look that decides something. -/
theorem look (hc : Looks source env s c) (hyes : yes s) (hno : no s) :
    Decides source env s c yes no := by
  refine Reads.mono hc fun b s' h => ?_
  subst h
  cases b
  · exact hno
  · exact hyes

end Decides

end

end Parser

end WithScope
