import WithScope.Proofs.Grammar.Termination
import WithScope.Proofs.Wrapper.HandsStatement

/-!
# The changed text is read as what it was meant to be

A program is read from a text, and the text is changed so that its returns hand their values on. Then
the changed text is read as the program with returns that hand their values on, or its nesting is too
deep: `reparsed_of_parse`.

* `exists_apace` — both texts begin with the same token, in the first of the stretches;
* `Grammar.before_statements`, `Grammar.outcome_statements` — the returns are found one after the
  other, and from stretch to stretch the changed text is read as far as its nesting allows.
-/

namespace WithScope

open HoldsReturns (returns handedOn)
open ParserState (Before)
open WithScope.Parser (Outcome Leaves)

/-! ## Where the texts begin -/

variable {source copy : List Char} {rs : List Return} {s s' : ParserState} {t : Token} {l : Lexer}

theorem ParserState.steady_first (h : (Lexer.ofSource source).next = (.ok t, l)) :
    (⟨l, t, .origin⟩ : ParserState).Steady source :=
  ⟨tight_first h, ((Lexer.sound_footing source).next ((Lexer.next_footing source).trans h)).nested⟩

/-- The `#!` line of a text stays as it is when the returns are replaced. -/
theorem Replaced.shebang (h : Replaced [] source (rs.map (Return.edit source)) copy)
    (hs : s.Steady source) (hbefore : Before rs s)
    (hfrom : byteLength (splitShebang source).1 ≤ s.here.offset) :
    (splitShebang copy).1 = (splitShebang source).1 ∧
      Replaced (splitShebang source).1 (splitShebang source).2
        (rs.map (Return.edit source)) (splitShebang copy).2 := by
  obtain ⟨line, rest, hsplit⟩ : ∃ line rest, splitShebang source = (line, rest) := ⟨_, _, rfl⟩
  obtain rfl : line ++ rest = source := by rw [← splitShebang_append source, hsplit]
  rw [hsplit] at hfrom ⊢
  obtain ⟨rest', rfl, hreplaced⟩ := h.exists_append fun e he => by
    obtain ⟨r, hr, rfl⟩ := Option.map_eq_some_iff.1 (List.head?_map .. ▸ he)
    obtain ⟨m, hpath, -, hhere⟩ := hbefore r hr
    exact hfrom.trans ((hs.here_path hpath).trans (congrArg Position.offset hhere).le)
  -- a line ends where two characters say that it does, and the word `return` is longer than that
  have htake : rest'.take 2 = rest.take 2 := by
    cases rs with
    | nil => rw [hreplaced.eq_of_nil]
    | cons r rs =>
      obtain ⟨m, kept, tail, -, -, hrest, hrest', -⟩ := hreplaced.exists_return rfl hs hbefore
      have hlength : 2 ≤ (kept ++ "return".toList).length := by simp
      rw [hrest, hrest', List.take_append_of_le_length hlength, List.take_append_of_le_length hlength]
  rw [splitShebang_exchange hsplit htake]
  exact ⟨rfl, hreplaced⟩

/-- Both texts begin with the same token, in the first of the stretches. -/
theorem exists_apace (hfirst : (Lexer.ofSource source).next = (.ok t, l))
    (hreplaced : Replaced [] source (rs.map (Return.edit source)) copy)
    (hbefore : Before rs ⟨l, t, .origin⟩)
    (hhanded : ∀ r ∈ rs, r.HandedOn source (r.edit source)) :
    ∃ (Ψ : Stretch) (t₂ : Token) (l₂ : Lexer), Ψ.source = source ∧ Ψ.copy = copy ∧
      (Lexer.ofSource copy).next = (.ok t₂, l₂) ∧ Ψ.Apace rs ⟨l, t, .origin⟩ ⟨l₂, t₂, .origin⟩ := by
  have hnext := (Lexer.next_footing source).trans hfirst
  have hs := ParserState.steady_first hfirst
  have hfrom : byteLength (splitShebang source).1 ≤ t.span.start.offset := by
    have := Lexer.position_le hnext
    simpa [Lexer.footing, Position.offset_after, Position.origin] using this
  obtain ⟨hline, hreplaced⟩ := hreplaced.shebang hs hbefore hfrom
  -- the first stretch is aligned at the beginnings of the texts, where the last token is said to end
  let places : Alignment := ⟨.origin, .origin, source⟩
  have hmatch : places.Match (Lexer.footing source).rest (Lexer.footing source).position
      (Lexer.footing copy).position := by
    rw [show (Lexer.footing copy).position = (Lexer.footing source).position from
      congrArg Position.origin.after hline]
    have hstart := places.match_start
    rw [← splitShebang_append places.text] at hstart
    exact hstart.after
  obtain ⟨Ψ, rfl, rfl, hplaces, hupto, l₂, hnext₂, habreast⟩ := exists_stretch copy
    (Lexer.sound_footing source) (Lexer.sound_footing copy) hmatch rfl rfl rfl rfl
    (splitShebang_append source).symm hreplaced hs hnext hbefore
  have hfirst₂ := (Lexer.next_footing Ψ.copy).symm.trans hnext₂
  refine ⟨Ψ, Ψ.moved t, l₂, rfl, rfl, hfirst₂, hupto, hhanded,
    ⟨habreast _ (ParserState.steady_first hfirst₂) rfl rfl, ?_⟩, ?_⟩
  · rw [hplaces]
    exact (Alignment.match_start places).eq
  · have hsubs := Lexer.substitutions_next hnext
    simp [ParserState.opened, hsubs, Lexer.footing]

/-- A text is a copy of itself. -/
def Stretch.whole (source : List Char) : Stretch :=
  ⟨source, source, ⟨.origin, .origin, source⟩, [], [], List.nil_suffix,
    ⟨[], [], [], rfl, rfl, .inr ⟨nofun, rfl⟩⟩, id⟩

/-! ## The statements of a program -/

namespace Grammar

variable {env : Surrounding} {n : Nat} {body : List Stmt}

/-- The statements of a whole text. -/
abbrev statements (g : Grammar) : Parser (List Stmt) :=
  Parser.collectUntil (Parser.atKind .eof) (g.statement true)

/-- What comes of a program is what comes of its statements. -/
theorem outcome_program {F : SyntaxError → Prop} {g : Grammar} {Q : Program → ParserState → Prop}
    (h : Outcome F env s g.statements fun body s' =>
      Q ⟨⟨s.here, s'.token.span.stop⟩, env.options.sourceType, body⟩ s') :
    Outcome F env s g.program Q :=
  .here (.bind h fun _ _ hq => .token hq)

theorem hands_statements (Ψ : Stretch) (n : Nat) (s₁ s₂ : ParserState)
    (hin : env.context.noIn = false) :
    Ψ.Hands [] env s₁ s₂ (nest n).statements (nest n).statements :=
  .collectUntil (fun _ _ _ => Stretch.Follows.atKind _)
    fun Ψ s₁ s₂ => hands_nest n Ψ env s₁ s₂ true hin

section

variable (hin : env.context.noIn = false)
  (hrun : (nest n).statements env s = .ok (body, s'))
include hin hrun

/-- A parser of statements has their returns before it. -/
theorem before_statements (hs : s.Steady source) : Before (returns body) s := by
  obtain ⟨_, rfl, -, hbefore⟩ :=
    hands_statements (.whole source) n s s hin hs body s' hrun
  exact List.append_nil (returns body) ▸ (hbefore [] nofun).1

/-- The statements of a text are read in the text with replaced returns. -/
theorem outcome_statements {Ψ : Stretch} {s₂ : ParserState} (h : Ψ.Apace (returns body) s s₂) :
    Outcome SyntaxError.Scarce env s₂ (nest n).statements fun body' _ =>
      placeless body' = placeless (handedOn body) := by
  obtain ⟨_, rfl, -, hread⟩ :=
    hands_statements Ψ n s s₂ hin h.same.abreast.steady₁ body s' hrun
  exact ((hread [] nofun).2 (by rwa [List.append_nil])).mono fun _ _ hb => hb.1

end

end Grammar

/-! ## The program -/

variable {options : Options} {p : Program}

/-- The statements of a program that has been read, from its first token on. -/
theorem exists_statements_of_parse (h : parse options source = .ok p) :
    ∃ t l s', (Lexer.ofSource source).next = (.ok t, l) ∧ p.sourceType = options.sourceType ∧
      (Grammar.nest Grammar.maxNesting).statements options.surrounding ⟨l, t, .origin⟩ =
        .ok (p.body, s') := by
  obtain ⟨t, l, s', hfirst, hrun⟩ := Parser.exists_run_of_parse h
  have hleaves : Leaves options.surrounding ⟨l, t, .origin⟩
      (Grammar.nest Grammar.maxNesting).program fun p s' => p.sourceType = options.sourceType ∧
        (Grammar.nest Grammar.maxNesting).statements options.surrounding ⟨l, t, .origin⟩ =
          .ok (p.body, s') :=
    Grammar.outcome_program (Leaves.self.mono fun _ _ hrun => ⟨rfl, hrun⟩)
  exact ⟨t, l, s', hfirst, hleaves.of_run hrun⟩

/-- What comes of a text is what comes of its program, and no repetition is too long. -/
theorem parse_of_outcome {Q : Program → Prop} (hfirst : (Lexer.ofSource source).next = (.ok t, l))
    (h : Outcome SyntaxError.Scarce options.surrounding ⟨l, t, .origin⟩
      (Grammar.nest Grammar.maxNesting).program fun p _ => Q p) :
    (∃ e, parse options source = .error e ∧ e.cause = .nestingTooDeep) ∨
      ∃ p, parse options source = .ok p ∧ Q p := by
  have hparse : parse options source = Prod.fst <$>
      (Grammar.nest Grammar.maxNesting).program options.surrounding ⟨l, t, .origin⟩ := by
    rw [parse, hfirst]
  unfold Outcome at h
  cases hrun : (Grammar.nest Grammar.maxNesting).program options.surrounding ⟨l, t, .origin⟩ with
  | error e =>
    rw [hrun] at h hparse
    exact .inl ⟨e, hparse, h.resolve_right (parse_notSpent hparse)⟩
  | ok r =>
    rw [hrun] at h hparse
    exact .inr ⟨r.1, hparse, h⟩

/-- **Unwrapping keeps the meaning.** A program has been read, and its text has been changed so that
the returns hand their values on. If the changed text is read again, with the same options, then its
nesting is too deep, or the same program is read, up to places, except that each return that is inside
of no function, arrow function or class returns an object: with the argument in parentheses as its
only property `value`, or without properties if there is no argument. -/
theorem reparsed_of_parse (h : parse options source = .ok p) :
    statementsReturns p.handedOn.body = p.leaving.map Return.handing ∧
    ((∃ e, parse options (p.unwrapped source).body = .error e ∧ e.cause = .nestingTooDeep) ∨
    ∃ p', parse options (p.unwrapped source).body = .ok p' ∧
      placeless p' = placeless p.handedOn) := by
  refine ⟨leaving_of_parse h ▸ statementsReturns_handedOn p.body, ?_⟩
  obtain ⟨t, l, s', hfirst, htype, hrun⟩ := exists_statements_of_parse h
  have hbefore := Grammar.before_statements rfl hrun (ParserState.steady_first hfirst)
  have hreturns := returns_stmts p.body
  obtain ⟨Ψ, t₂, l₂, -, -, hfirst₂, hapace⟩ := exists_apace hfirst (replaced_of_parse h)
    (hreturns ▸ hbefore) (leaving_of_parse h ▸ handedOn_of_parse h)
  refine parse_of_outcome hfirst₂ (Grammar.outcome_program ?_)
  exact (Grammar.outcome_statements rfl hrun (hreturns ▸ hapace)).mono fun body _ hbody =>
    htype ▸ Program.placeless_handedOn hbody

/-- A return that ends with its line, a return of nothing, and one in a function, which stays. -/
theorem reparsed_of_parse_shebang :
    ∃ p, parse fragmentOptions "#!sh\nif (a) return /b/g\nelse return; () => \x7b return \x7d".toList =
        .ok p ∧ ∃ p', parse fragmentOptions
          "#!sh\nif (a) return \x7bvalue: (/b/g)\x7d;\nelse return \x7b\x7d; () => \x7b return \x7d".toList =
            .ok p' ∧ placeless p' = placeless p.handedOn := by
  let source := "#!sh\nif (a) return /b/g\nelse return; () => \x7b return \x7d".toList
  let changed :=
    "#!sh\nif (a) return \x7bvalue: (/b/g)\x7d;\nelse return \x7b\x7d; () => \x7b return \x7d".toList
  have hread : (fun p => (p.unwrapped source).body) <$> (parse fragmentOptions source).toOption =
      some changed := by decide +kernel
  have hchanged : (parse fragmentOptions changed).isOk := by decide +kernel
  cases h : parse fragmentOptions source with
  | error e =>
    rw [h] at hread
    cases hread
  | ok p =>
    rw [h] at hread
    obtain ⟨-, hparse⟩ := reparsed_of_parse h
    rw [show (p.unwrapped source).body = changed from Option.some.inj hread] at hparse
    rcases hparse with ⟨e, he, -⟩ | hparse
    · rw [he] at hchanged
      cases hchanged
    · exact ⟨p, rfl, hparse⟩

end WithScope
