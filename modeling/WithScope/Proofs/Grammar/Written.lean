import WithScope.Proofs.Grammar.Nested
import WithScope.Proofs.Grammar.SpelledStatement
import WithScope.Proofs.Token.Progress

/-!
# Programs as they are written

In a tree that has been read every node is spelled in the text as its kind says, whatever the text
and the options (`written_of_parse`). What this comes to:

* `parse_ended_unbroken` — a semicolon is left out only where it may be, and no line ends where it
  would cut something in two;
* `parse_madeUp` — templates are made up of their stretches of text and their expressions;
* `parse_regExp` — regular expressions end where they should, and none is refused by the grammar.
-/

namespace WithScope

variable {source : List Char} {options : Options} {p : Program}

/-- The grammar of all levels is followed from the first token on. -/
theorem written_of_parse (h : parse options source = .ok p) :
    ∀ s ∈ p.body, (Node.stmt s).Written source := by
  obtain ⟨t, l, s', hfirst, hrun⟩ := Parser.exists_run_of_parse h
  have hfrom := (ParserState.tight_first hfirst).fromHere
  have hleaves := (Grammar.spells_nest Grammar.maxNesting).program options.surrounding _ hfrom
  exact (hleaves.of_run hrun).2

/-- What can be seen of a program by reading it. -/
theorem exists_parse_of_any {f : Program → Bool}
    (h : (parse options source).toOption.any f = true) :
    ∃ p, parse options source = .ok p ∧ f p = true := by
  obtain ⟨p, hp, hf⟩ := Option.any_eq_true _ _ |>.1 h
  cases hparse : parse options source with
  | error e =>
    rw [hparse] at hp
    cases hp
  | ok p' =>
    rw [hparse] at hp
    cases hp
    exact ⟨p, rfl, hf⟩

/-! ## Semicolons and line ends -/

/-- **Semicolons and line ends.** In a tree that has been read, what ends with a semicolon has one,
or is followed by a closing brace, the end of the text or the end of a line. No line ends between
`return` or `throw` and what it returns or throws, a jump and its label, an operand and the operator
behind it, parameters and their arrow, `async` and its function or parameter, or `yield` and what it
yields. -/
theorem parse_ended_unbroken (h : parse options source = .ok p) :
    ∀ s ∈ p.body, (Node.stmt s).All fun n => n.Ended source ∧ n.Unbroken source :=
  fun s hs => (written_of_parse h s hs).mono fun _ hn => ⟨hn.ended, hn.unbroken⟩

/-- Semicolons left out in front of a closing brace, after a line end in a comment and at the end of
the text. -/
theorem parse_ended_unbroken_omitted : ∃ source p,
    source =
      "async function* f() \x7b yield a++ \x7d b = async c => d/*\n*/e: for (;;) break e".toList ∧
      parse ⟨.script, false, false⟩ source = .ok p ∧ p.body.length = 3 ∧
      ∀ s ∈ p.body, (Node.stmt s).All fun n => n.Ended source ∧ n.Unbroken source := by
  have hread : (parse ⟨.script, false, false⟩
      "async function* f() \x7b yield a++ \x7d b = async c => d/*\n*/e: for (;;) break e".toList
      ).toOption.any (fun p => p.body.length = 3) = true := by decide +kernel
  obtain ⟨p, h, hlength⟩ := exists_parse_of_any hread
  exact ⟨_, p, rfl, h, of_decide_eq_true hlength, parse_ended_unbroken h⟩

/-! ## Templates -/

/-- What a template is made up of: stretches of text, a last one and one before each expression. -/
structure Template.MadeUp (source : List Char) (loc : Span) (quasis : List Quasi)
    (expressions : List Expr) : Prop where
  /-- there is a stretch of text more than there are expressions -/
  length : quasis.length = expressions.length + 1
  /-- the last stretch is the tail, and no other is -/
  tail : ∀ i q, quasis[i]? = some q → (q.tail = true ↔ i + 1 = quasis.length)
  /-- a stretch is its raw text between its delimiters -/
  text : ∀ i q, quasis[i]? = some q →
    slice source q.loc = (if i = 0 then '\x60' else '}') :: q.raw.toList ++ q.closing
  /-- it stands for what the escapes in it say, if all of them are legal, and for nothing if not -/
  cooked : ∀ q ∈ quasis, q.cooked = (unescape q.raw.toList).toOption.map String.ofList
  /-- stretches and expressions by turns, with gaps around the expressions, are the template -/
  assembled : Assembles source '\x60' quasis expressions loc.start loc.stop (slice source loc)

/-- The parts of a template say what it is made up of. -/
theorem Assembles.madeUp {loc : Span} {quasis : List Quasi} {expressions : List Expr}
    {text : List Char} (h : Assembles source '\x60' quasis expressions loc.start loc.stop text) :
    Template.MadeUp source loc quasis expressions where
  length := h.length
  tail _ _ hq := (h.quasi hq).2
  text _ _ hq := (h.quasi hq).1.text.slice_eq
  cooked q hq := by
    obtain ⟨i, hi⟩ := List.mem_iff_getElem?.1 hq
    exact (h.quasi hi).1.cooked
  assembled := h.textBetween.slice_eq ▸ h

/-- What there is to say of templates: they are made up of their parts, and without a tag all
escapes in them are legal. -/
def Node.MadeUp (source : List Char) : Node → Prop
  | .template (.mk loc quasis expressions) => Template.MadeUp source loc quasis expressions
  | .expr (.template (.mk _ quasis _)) => ∀ q ∈ quasis, q.cooked.isSome
  | _ => True

theorem Node.Assembled.madeUp {n : Node} (h : n.Assembled source) : n.MadeUp source := by
  unfold Node.Assembled at h
  split at h
  · exact h.elim fun _ h => h.madeUp
  · exact h
  · trivial
  · unfold Node.MadeUp
    split <;> simp_all

/-- **Templates.** In a tree that has been read, a template has a stretch of text more than
expressions and its tail is the last; each stretch is its raw text between its delimiters and stands
for what the escapes in it say, in a template without a tag always; and by turns with the
expressions and the gaps around these they are the whole template. -/
theorem parse_madeUp (h : parse options source = .ok p) :
    ∀ s ∈ p.body, (Node.stmt s).All (Node.MadeUp source) :=
  fun s hs => (written_of_parse h s hs).mono fun _ hn => hn.assembled.madeUp

/-- A template inside of one that has a tag and an escape that is not legal. -/
theorem parse_madeUp_tagged : ∃ source p,
    source = "f\x60\\u$\x7b \x60b$\x7bc\x7d\x60 \x7dd\x60".toList ∧
      parse ⟨.script, false, false⟩ source = .ok p ∧ p.body.length = 1 ∧
      ∀ s ∈ p.body, (Node.stmt s).All (Node.MadeUp source) := by
  have hread : (parse ⟨.script, false, false⟩
      "f\x60\\u$\x7b \x60b$\x7bc\x7d\x60 \x7dd\x60".toList
      ).toOption.any (fun p => p.body.length = 1) = true := by decide +kernel
  obtain ⟨p, h, hlength⟩ := exists_parse_of_any hread
  exact ⟨_, p, rfl, h, of_decide_eq_true hlength, parse_madeUp h⟩

/-! ## Regular expressions -/

/-- What there is to say of regular expressions: they are made up of their bodies and flags. -/
def Node.Slashed (source : List Char) : Node → Prop
  | .expr (.regExp loc body flags) =>
    RegExpBetween source loc.start loc.stop body.toList flags.toList
  | _ => True

theorem Node.Assembled.slashed {n : Node} (h : n.Assembled source) : n.Slashed source := by
  unfold Node.Slashed
  split
  · exact h
  · trivial

/-- No token is a regular expression without a closing slash. -/
theorem cause_ne_invalidRegExp {e : SyntaxError} (h : parse options source = .error e) :
    e.cause ≠ .invalidRegExp := by
  rcases reported_of_parse h with hraised | ⟨l, given, hsession, he⟩
  · exact fun hcause => hraised.grammatical (hcause ▸ .invalidRegExp)
  · obtain ⟨cause, hlexical⟩ := hsession.lexical he
    rw [hlexical]
    exact SyntaxCause.noConfusion

/-- **Regular expressions.** In a tree that has been read, a regular expression is a body and flags,
each behind a slash. The body is not empty, and the slash behind it is the first one with no odd
number of backslashes in front of it and outside of brackets. The flags are as many characters of
names as there are, and no line ends in either. The grammar refuses none of them: a fault of the
text is never that of a regular expression without its closing slash. -/
theorem parse_regExp (options : Options) (source : List Char) :
    (∀ p, parse options source = .ok p → ∀ s ∈ p.body, (Node.stmt s).All (Node.Slashed source)) ∧
      ∀ e, parse options source = .error e → e.cause ≠ .invalidRegExp :=
  ⟨fun _ h s hs => (written_of_parse h s hs).mono fun _ hn => hn.assembled.slashed,
    fun _ => cause_ne_invalidRegExp⟩

/-- A regular expression that begins as `/=` does, with a bracket and slashes that do not close, and
one without a closing slash. -/
theorem parse_regExp_class : (∃ source p,
    source = "/=[\\]/]\\//g".toList ∧ parse ⟨.script, false, false⟩ source = .ok p ∧
      (match p.body with
        | [.expr _ (.regExp _ body flags)] => body = "=[\\]/]\\/" && flags = "g"
        | _ => false) = true ∧
      ∀ s ∈ p.body, (Node.stmt s).All (Node.Slashed source)) ∧
    ∃ e, parse ⟨.script, false, false⟩ "/[/]".toList = .error e ∧ e.cause ≠ .invalidRegExp := by
  constructor
  · have hread : (parse ⟨.script, false, false⟩ "/=[\\]/]\\//g".toList).toOption.any (fun p =>
        match p.body with
        | [.expr _ (.regExp _ body flags)] => body = "=[\\]/]\\/" && flags = "g"
        | _ => false) = true := by decide +kernel
    obtain ⟨p, h, hbody⟩ := exists_parse_of_any hread
    exact ⟨_, p, rfl, h, hbody, (parse_regExp _ _).1 p h⟩
  · have hread : (parse ⟨.script, false, false⟩ "/[/]".toList).toOption.isSome = false := by
      decide +kernel
    cases h : parse ⟨.script, false, false⟩ "/[/]".toList with
    | ok p =>
      rw [h] at hread
      cases hread
    | error e => exact ⟨e, rfl, (parse_regExp _ _).2 e h⟩

end WithScope
