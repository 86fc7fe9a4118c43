import WithScope.Proofs.Grammar.NameStatement
import WithScope.Proofs.Text.Between
import WithScope.Proofs.Token.Session
import WithScope.Proofs.Token.Spelled
import WithScope.Wrapper.Basic

/-!
# Names can be spelled as they are

An identifier stands for a name, and escapes in its spelling are no part of the name. A name that
comes of an identifier is a text of its own that is a single token again: an identifier that stands
for the same name, or a reserved word, in which case the identifier was spelled with an escape.

* `readName_spec` — the names that the reader of names gives;
* `tokens_of_isName_reserved` — a reserved word as a text of its own;
* `Lexer.Session.cooked` — the identifiers that lexers give;
* `identifiers_respelled` — and what comes of their names.
-/

namespace WithScope

/-! ## What the reader of names gives -/

theorem allowed_of_readNameEscape {allowed : Char → Bool} {cs : List Char} {c : Char}
    (h : (readNameEscape allowed cs).outcome = .ok c) : allowed c := by
  unfold readNameEscape at h
  split at h
  · cases h
  · split at h
    · cases h
    · simp only at h
      split at h
      · next hallowed =>
        cases h
        exact hallowed.2
      · cases h
  · cases h
  · cases h

/-- The text of an escape begins with its backslash. -/
theorem slash_mem_readNameEscape (allowed : Char → Bool) (cs : List Char) :
    '\\' ∈ (readNameEscape allowed cs).parts.1 := by
  unfold readNameEscape
  split
  · exact List.mem_cons_self ..
  · split
    · exact List.mem_cons_self ..
    · simp only
      split <;> exact List.mem_cons_self ..
  · exact List.mem_cons_self ..
  · exact List.mem_cons_self ..

/-- A name goes on after its first character with characters that continue a name, however each of
them is spelled. A name with an escape in it has a backslash in its text. -/
theorem readName_spec {allowed : Char → Bool} {cs : List Char} {r : NameReading}
    (hr : readName allowed cs = r) (hfault : r.fault = none) :
    (r.name = [] ∧ r.parts.1 = [] ∨
      ∃ c name, r.name = c :: name ∧ allowed c ∧ ∀ d ∈ name, isIdContinue d) ∧
    (r.escaped = true → '\\' ∈ r.parts.1) := by
  -- what follows the first character is itself such a reading, of which all characters continue
  have hcontinue {r : NameReading} (h : r.name = [] ∧ r.parts.1 = [] ∨
      ∃ c name, r.name = c :: name ∧ isIdContinue c ∧ ∀ d ∈ name, isIdContinue d) :
      ∀ d ∈ r.name, isIdContinue d := by
    rcases h with ⟨hname, -⟩ | ⟨c, name, hname, hc, hall⟩ <;> rw [hname]
    · exact List.forall_mem_nil _
    · exact List.forall_mem_cons.2 ⟨hc, hall⟩
  fun_induction readName allowed cs generalizing r with
  | case1 =>
    subst hr
    exact ⟨.inl ⟨rfl, rfl⟩, fun h => absurd h Bool.false_ne_true⟩
  | case2 allowed cs c hc _ ih =>
    subst hr
    obtain ⟨hname, -⟩ := ih rfl hfault
    refine ⟨.inr ⟨c, _, rfl, allowed_of_readNameEscape hc, hcontinue hname⟩, fun _ => ?_⟩
    exact List.mem_append_left _ (slash_mem_readNameEscape allowed cs)
  | case3 =>
    subst hr
    cases hfault
  | case4 allowed c cs hne hc ih =>
    subst hr
    obtain ⟨hname, hescaped⟩ := ih rfl hfault
    exact ⟨.inr ⟨c, _, rfl, hc, hcontinue hname⟩, fun h => List.mem_cons_of_mem _ (hescaped h)⟩
  | case5 =>
    subst hr
    exact ⟨.inl ⟨rfl, rfl⟩, fun h => absurd h Bool.false_ne_true⟩

/-! ## Identifiers that lexers give -/

/-- An identifier of a text stands for a name, and for a reserved word only if there is an escape in
its spelling. -/
structure Token.Cooked (source : List Char) (t : Token) : Prop where
  /-- its value is a text -/
  value : t.value = .text t.text
  /-- the text is a name -/
  name : ∃ c name, t.text.toList = c :: name ∧ isIdStart c ∧ ∀ d ∈ name, isIdContinue d
  /-- what only an escape can spell -/
  escaped : Keyword.ofSpelling? t.text ≠ none → '\\' ∈ slice source t.span

/-- An identifier is read as a name. Its value is the name, and an escape is in it if the name is a
reserved word. -/
theorem exists_readName_of_readIdentifier {cs text rest : List Char} {value : TokenValue}
    (h : readIdentifier cs = .token (text, rest) .identifier value) :
    ∃ r, readName isIdStart cs = r ∧ r.fault = none ∧ r.parts.1 = text ∧
      value = .text (String.ofList r.name) ∧
      (Keyword.ofSpelling? (String.ofList r.name) ≠ none → r.escaped = true) := by
  unfold readIdentifier at h
  simp only at h
  split at h
  · cases congrArg Reading.outcome h
  · next hfault =>
    split at h
    · cases congrArg Reading.outcome h
    · next hword =>
      refine ⟨_, rfl, hfault, congrArg Reading.text h, ?_, fun hreserved => ?_⟩
      · injection congrArg Reading.outcome h with houtcome
        exact (Prod.mk.inj houtcome).2.symm
      · obtain ⟨word, hreserved⟩ := Option.ne_none_iff_exists'.1 hreserved
        exact Bool.of_not_eq_false (hword word hreserved)

theorem Token.Stands.cooked {t : Token} {source before text rest : List Char}
    (ht : t.Stands before text rest) (hsource : source = before ++ text ++ rest)
    (hspelled : t.kind.Spelled t.value t.spelling.toList rest) (hkind : t.kind = .identifier) :
    t.Cooked source := by
  have hslice : slice source t.span = text := by
    rw [hsource, ht.span, slice_between]
  have hne : text ≠ [] := by
    rcases ht.eof with ⟨heof, -⟩ | ⟨-, hne⟩
    · exact absurd (hkind.symm.trans heof) nofun
    · exact hne
  rw [hkind, ht.spelling, String.toList_ofList] at hspelled
  obtain ⟨r, hr, hfault, htext, hvalue, hreserved⟩ := exists_readName_of_readIdentifier hspelled
  obtain ⟨hname, hescaped⟩ := readName_spec hr hfault
  have htoken : t.text = String.ofList r.name := by rw [Token.text, hvalue]
  refine ⟨htoken ▸ hvalue, ?_, fun hword => ?_⟩
  · rw [htoken, String.toList_ofList]
    exact hname.resolve_left fun hnil => hne (htext ▸ hnil.2)
  · rw [hslice, ← htext]
    exact hescaped (hreserved (htoken ▸ hword))

/-- Whatever lexers of a text give, the identifiers among it are such. -/
theorem Lexer.Session.cooked {source : List Char} {l : Lexer}
    {given : List (Except SyntaxError Token)} (h : Lexer.Session source l given) :
    ∀ t, .ok t ∈ given → t.kind = .identifier → t.Cooked source := by
  intro t ht hkind
  obtain ⟨before, text, rest, hsource, hstands, hspelled⟩ := h.spelled t ht
  exact hstands.cooked hsource hspelled hkind

/-! ## Names as texts -/

/-- A name that is a reserved word is read as this word. -/
theorem readIdentifier_of_isName_reserved {cs : List Char} {word : Keyword} (h : isName cs)
    (hword : Keyword.ofSpelling? (String.ofList cs) = some word) :
    readIdentifier cs = .token (cs, []) (.keyword word) .none := by
  unfold readIdentifier
  rw [readName_of_isName h]
  simp only [hword]

/-- A text that is a reserved word has the word as its only token. -/
theorem tokens_of_isName_reserved {cs : List Char} {word : Keyword} (h : isName cs)
    (hword : Keyword.ofSpelling? (String.ofList cs) = some word) :
    tokens cs = .ok [Lexer.whole cs (.keyword word) .none] := by
  cases cs with
  | nil => cases h
  | cons c cs =>
    obtain ⟨hc, -⟩ := Bool.and_eq_true_iff.1 h
    refine tokens_of_next (List.cons_ne_nil _ _) TokenKind.noConfusion ?_
    refine Lexer.next_of_readToken (splitTrivia_of_isIdStart hc _ _) ?_ fun _ => rfl
    rw [readToken_of_isIdStart hc, readIdentifier_of_isName_reserved h hword]

/-- A text that is any other name has an identifier as its only token. -/
theorem tokens_of_isName {cs : List Char} (h : isName cs)
    (hfree : Keyword.ofSpelling? (String.ofList cs) = none) :
    tokens cs = .ok [Lexer.wholeName cs] := by
  have hne : cs ≠ [] := by
    rintro rfl
    cases h
  exact tokens_of_next hne TokenKind.noConfusion (Lexer.next_of_isName h hfree)

/-- **Names spelled back.** The name that an identifier stands for is not empty, begins with a
character that begins names and goes on with such as continue them. As a text of its own it is a
single token that covers all of it: an identifier with the same name, or, if the name is reserved,
the reserved word, and then there is an escape in the text of the identifier. A name that any code
can bind is read as a program of one statement, which is the name. -/
theorem identifiers_respelled :
    (∀ source ts, tokens source = .ok ts → ∀ t ∈ ts, t.kind = .identifier →
      t.value = .text t.text ∧
      (∃ c name, t.text.toList = c :: name ∧ isIdStart c ∧ ∀ d ∈ name, isIdContinue d) ∧
      match Keyword.ofSpelling? t.text with
      | none => tokens t.text.toList = .ok [⟨.identifier, .text t.text,
          ⟨.origin, Position.origin.after t.text.toList⟩, t.text, false⟩]
      | some word => '\\' ∈ slice source t.span ∧
        tokens t.text.toList = .ok [⟨.keyword word, .none,
          ⟨.origin, Position.origin.after t.text.toList⟩, t.text, false⟩]) ∧
    ∀ name, isValidIdentifier name → parse fragmentOptions name.toList =
      .ok ⟨⟨.origin, Position.origin.after name.toList⟩, .script,
        [.expr ⟨.origin, Position.origin.after name.toList⟩
          (.ident ⟨⟨.origin, Position.origin.after name.toList⟩, name⟩)]⟩ := by
  refine ⟨fun source ts hts t ht hkind => ?_, fun name hname => ?_⟩
  · obtain ⟨l, given, hsession, -, hgiven, -⟩ :=
      (Lexer.Session.start : Lexer.Session source _ _).tokensWithin ('\x00' :: source)
    have hcooked := hsession.cooked t (hgiven ts hts t ht) hkind
    have hisName : isName t.text.toList := by
      obtain ⟨c, name, htext, hc, hname⟩ := hcooked.name
      rw [htext]
      exact Bool.and_eq_true_iff.2 ⟨hc, List.all_eq_true.2 hname⟩
    have hofList : String.ofList t.text.toList = t.text := String.ofList_toList
    refine ⟨hcooked.value, hcooked.name, ?_⟩
    split
    · next hfree =>
      rw [tokens_of_isName hisName (by rwa [hofList]), Lexer.wholeName, hofList]
    · next word hword =>
      refine ⟨hcooked.escaped (by rw [hword]; exact Option.some_ne_none word), ?_⟩
      rw [tokens_of_isName_reserved hisName (by rwa [hofList]), Lexer.whole, hofList]
  · rw [parse_of_isValidIdentifier fragmentOptions hname, Grammar.nameProgram,
      Grammar.nameStatement, Ident.whole, String.ofList_toList]
    rfl

/-- A reserved word spelled with an escape, and a word that is special only in some places. -/
theorem identifiers_respelled_escaped : ∃ t, tokens "\\u0069f".toList = .ok [t] ∧
    t.kind = .identifier ∧ '\\' ∈ slice "\\u0069f".toList t.span ∧
    tokens "if".toList = .ok [⟨.keyword .if, .none, ⟨.origin, ⟨2, 1, 3⟩⟩, "if", false⟩] ∧
    isValidIdentifier "async" ∧ parse fragmentOptions "async".toList =
      .ok ⟨⟨.origin, ⟨5, 1, 6⟩⟩, .script,
        [.expr ⟨.origin, ⟨5, 1, 6⟩⟩ (.ident ⟨⟨.origin, ⟨5, 1, 6⟩⟩, "async"⟩)]⟩ := by
  obtain ⟨hidentifiers, hnames⟩ := identifiers_respelled
  have hread : tokens "\\u0069f".toList =
      .ok [⟨.identifier, .text "if", ⟨.origin, ⟨7, 1, 8⟩⟩, "\\u0069f", false⟩] := by
    decide +kernel
  obtain ⟨-, -, hslash, htokens⟩ := hidentifiers _ _ hread _ (List.mem_singleton_self _) rfl
  have hasync : isValidIdentifier "async" := by decide +kernel
  exact ⟨_, hread, rfl, hslash, htokens, hasync, hnames "async" hasync⟩

end WithScope
