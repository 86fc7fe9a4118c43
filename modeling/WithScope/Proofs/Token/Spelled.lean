import Mathlib.Data.List.Nodup
import WithScope.Proofs.Token.Numerals
import WithScope.Proofs.Token.Session

/-!
# What the kind of a token says about its text

Each reader gives tokens of a few kinds, so that the kind of a token says which reader has made it,
and how the text of the token looks. `TokenKind.Spelled` says this for the kinds that the grammar
tells apart: reserved words and punctuators have one spelling each, the parts of a template stand
between their delimiters, a numeral has one of the forms of numerals, and an identifier is what the
reader of names makes of its text.

* `spelled_of_readToken` — by cases of the readers;
* `Lexer.next_spelled`, `Lexer.rescanRegExp_spelled` — the tokens that a lexer gives;
* `Lexer.Session.spelled`, `spelled_of_mem_tokens` — the tokens of a text.
-/

namespace WithScope

/-- All punctuators with their spellings. -/
def Punctuator.allSpellings : List (List Char × Punctuator) :=
  (['{'], .leftBrace) :: (['}'], .rightBrace) :: (['?', '.'], .questionDot) :: spellings

/-- A text that `rest` follows is the text of a token of the given kind and value. -/
def TokenKind.Spelled (kind : TokenKind) (value : TokenValue) (text rest : List Char) : Prop :=
  match kind with
  | .identifier => readIdentifier (text ++ rest) = .token (text, rest) .identifier value
  | .keyword word => (String.ofList text, word) ∈ Keyword.spellings
  | .punctuator mark => (text, mark) ∈ Punctuator.allSpellings
  | .noSubstitutionTemplate =>
    ∃ raw, value = .text (String.ofList raw) ∧ text = '\x60' :: raw ++ ['\x60']
  | .templateHead =>
    ∃ raw, value = .text (String.ofList raw) ∧ text = '\x60' :: raw ++ ['$', '{']
  | .templateMiddle =>
    ∃ raw, value = .text (String.ofList raw) ∧ text = '}' :: raw ++ ['$', '{']
  | .templateTail =>
    ∃ raw, value = .text (String.ofList raw) ∧ text = '}' :: raw ++ ['\x60']
  | .numericLiteral =>
    ∃ valueless number, value = .number number ∧ NumeralForm text valueless ∧
      (number = .nan ↔ valueless)
  | .bigIntLiteral =>
    ∃ valueless numeral, value = .text (String.ofList (stripped numeral)) ∧
      NumeralForm numeral valueless ∧ text = numeral ++ ['n']
  | _ => True

variable {cs w x : List Char} {kind : TokenKind} {value : TokenValue}

/-! ## One spelling each -/

/-- An entry of a table is known by its second half, if no two entries share theirs. -/
theorem eq_of_mem_of_nodup_snd {α β : Type} {entries : List (α × β)}
    (h : (entries.map Prod.snd).Nodup) {a a' : α} {b : β} (ha : (a, b) ∈ entries)
    (ha' : (a', b) ∈ entries) : a = a' :=
  congrArg Prod.fst (List.inj_on_of_nodup_map h ha ha' rfl)

theorem Keyword.eq_spelling {word : Keyword} {spelling : String}
    (hword : (spelling, word) ∈ Keyword.spellings)
    (h : (TokenKind.keyword word).Spelled value w x) : w = spelling.toList := by
  have heq : String.ofList w = spelling := eq_of_mem_of_nodup_snd (by decide) h hword
  rw [← heq, String.toList_ofList]

theorem Punctuator.eq_spelling {mark : Punctuator} {spelling : List Char}
    (hmark : (spelling, mark) ∈ Punctuator.allSpellings)
    (h : (TokenKind.punctuator mark).Spelled value w x) : w = spelling :=
  eq_of_mem_of_nodup_snd (by decide) h hmark

/-! ## Readers -/

theorem mem_of_lookup_eq_some {α β : Type} [BEq α] [LawfulBEq α] {entries : List (α × β)} {a : α}
    {b : β} (h : entries.lookup a = some b) : (a, b) ∈ entries := by
  obtain ⟨l₁, l₂, rfl, -⟩ := List.lookup_eq_some_iff.1 h
  simp

theorem spelled_of_readString {quote : Char}
    (h : readString quote cs = ⟨w, x, .ok (kind, value)⟩) : kind.Spelled value w x := by
  unfold readString at h
  simp only at h
  repeat' split at h
  all_goals cases h
  trivial

/-- A part of a template ends with its quote or with the beginning of a substitution. -/
theorem spelled_of_readTemplate (resumes : Bool)
    (h : readTemplate resumes (if resumes then '}' else '\x60') cs = ⟨w, x, .ok (kind, value)⟩) :
    kind.Spelled value w x := by
  have hclose := splitTemplatePart_close cs
  rcases hsplit : splitTemplatePart cs with ⟨body, rest⟩
  rw [hsplit] at hclose
  unfold readTemplate at h
  simp only [hsplit] at h hclose
  split at h
  · cases resumes <;> cases h <;> exact ⟨body, rfl, rfl⟩
  · next c rest hsubstitution =>
    obtain rfl : c = '\x60' := by
      rcases hclose with hclose | ⟨tail, hclose | hclose⟩
      · cases hclose
      · exact (List.cons.inj hclose).1
      · obtain ⟨rfl, rfl⟩ := List.cons.inj hclose
        exact (hsubstitution tail rfl rfl).elim
    cases resumes <;> cases h <;> exact ⟨body, rfl, rfl⟩
  · cases h

theorem spelled_of_readNumeral (hcs : BeginsDecimal cs)
    (h : readNumeral cs = ⟨w, x, .ok (kind, value)⟩) : kind.Spelled value w x := by
  obtain ⟨valueless, hform⟩ := NumeralForm.of_splitNumeral hcs
  unfold readNumeral at h
  simp only at h
  split at h
  · split at h <;> cases h
    exact ⟨valueless, _, rfl, hform, rfl⟩
  · split at h <;> cases h
    exact ⟨valueless, _, rfl, hform, hform.value_eq_nan_iff⟩

theorem spelled_of_readPrivateName (h : readPrivateName cs = ⟨w, x, .ok (kind, value)⟩) :
    kind.Spelled value w x := by
  unfold readPrivateName at h
  simp only at h
  repeat' split at h
  all_goals cases h
  trivial

/-- A name without escapes is spelled as it is. -/
theorem parts_fst_of_not_escaped {allowed : Char → Bool} {r : NameReading}
    (hr : readName allowed cs = r) (hescaped : r.escaped = false) : r.parts.1 = r.name := by
  fun_induction readName allowed cs generalizing r with
  | case1 => exact hr ▸ rfl
  | case2 => subst hr; cases hescaped
  | case3 => exact hr ▸ rfl
  | case4 allowed c cs hne hc ih =>
    subst hr
    exact congrArg (c :: ·) (ih rfl hescaped)
  | case5 => exact hr ▸ rfl

/-- An identifier stands for a name. -/
theorem exists_text_of_readIdentifier
    (h : readIdentifier cs = ⟨w, x, .ok (.identifier, value)⟩) : ∃ name, value = .text name := by
  unfold readIdentifier at h
  simp only at h
  split at h
  · cases h
  · split at h <;> cases h
    exact ⟨_, rfl⟩

theorem spelled_of_readIdentifier (h : readIdentifier cs = ⟨w, x, .ok (kind, value)⟩) :
    kind.Spelled value w x := by
  have hread : readIdentifier (w ++ x) = ⟨w, x, .ok (kind, value)⟩ := by
    rwa [← (localReader_readIdentifier _ _ _ _ h).1]
  unfold readIdentifier at h
  simp only at h
  split at h
  · cases h
  · split at h
    · next hword hescaped =>
      cases h
      show (String.ofList (readName isIdStart cs).parts.1, _) ∈ Keyword.spellings
      rw [parts_fst_of_not_escaped rfl hescaped]
      exact mem_of_lookup_eq_some hword
    · cases h
      exact hread

/-- Only the readers of identifiers and punctuators make what the grammar decides by. -/
theorem spelled_of_readToken (h : readToken cs = ⟨w, x, .ok (kind, value)⟩) :
    kind.Spelled value w x := by
  cases cs with
  | nil =>
    cases h
    trivial
  | cons c cs =>
    have htoken := h
    unfold readToken at h
    simp only at h
    split at h
    · exact spelled_of_readString h
    split at h
    · next htick =>
      subst htick
      exact spelled_of_readTemplate _ h
    split at h
    · next hbegins =>
      refine spelled_of_readNumeral ?_ h
      rcases Bool.or_eq_true_iff.1 hbegins with hc | hpoint
      · exact ⟨c, cs, .inl rfl, hc⟩
      · obtain ⟨hc, hhead⟩ := Bool.and_eq_true_iff.1 hpoint
        obtain ⟨d, hd, hdigit⟩ := Option.any_eq_true _ _ |>.1 hhead
        obtain ⟨tail, rfl⟩ := List.head?_eq_some_iff.1 hd
        exact ⟨d, tail, .inr (by rw [eq_of_beq hc]), hdigit⟩
    split at h
    · exact spelled_of_readPrivateName h
    split at h
    · exact spelled_of_readIdentifier h
    split at h
    · cases h
    · obtain ⟨mark, rfl⟩ : ∃ mark, kind = .punctuator mark := by
        unfold readPunctuator at h
        repeat' split at h
        all_goals cases h
        all_goals exact ⟨_, rfl⟩
      exact (readToken_punctuator htoken rfl).1

/-! ## Lexers -/

namespace Lexer

variable {l : Lexer} {t : Token}

theorem spelled_of_advance {start : Position} {newlineBefore : Bool} {r : Reading}
    (hr : ∀ w x kind value, r = ⟨w, x, .ok (kind, value)⟩ → kind.Spelled value w x)
    (h : (advance l start newlineBefore r).1 = .ok t) :
    t.kind.Spelled t.value t.spelling.toList (advance l start newlineBefore r).2.rest := by
  rw [advance_rest]
  obtain ⟨w, x, outcome⟩ := r
  unfold advance at h
  split at h
  · next kind value houtcome =>
    cases h
    rw [String.toList_ofList]
    exact hr w x kind value (congrArg (Reading.mk w x) houtcome)
  · cases h

/-- The token that a lexer gives next is spelled as its kind says. -/
theorem next_spelled (h : l.next.1 = .ok t) :
    t.kind.Spelled t.value t.spelling.toList l.next.2.rest := by
  rw [next_eq] at h ⊢
  refine spelled_of_advance (fun w x kind value hread => ?_) h
  unfold upcoming at hread
  split at hread
  · exact spelled_of_readTemplate true hread
  · exact spelled_of_readToken hread

/-- Going back to a token, the gap in front of it stays the same. -/
theorem rescanRegExp_newlineBefore {slash : Token} (h : (l.rescanRegExp slash).1 = .ok t) :
    t.newlineBefore = slash.newlineBefore := by
  unfold rescanRegExp advance at h
  split at h
  · cases h
    rfl
  · cases h

/-- A regular expression is not told apart any further. -/
theorem rescanRegExp_spelled {slash : Token} (h : (l.rescanRegExp slash).1 = .ok t) :
    t.kind.Spelled t.value t.spelling.toList (l.rescanRegExp slash).2.rest := by
  refine spelled_of_advance (fun w x kind value hread => ?_) h
  unfold readRegExp at hread
  simp only at hread
  repeat' split at hread
  all_goals cases hread
  trivial

/-- Whatever lexers of a text give, the tokens among it are spelled as their kinds say. -/
theorem Session.spelled {source : List Char} {given : List (Except SyntaxError Token)}
    (h : Session source l given) : ∀ t, .ok t ∈ given → ∃ before text rest,
      source = before ++ text ++ rest ∧ t.Stands before text rest ∧
        t.kind.Spelled t.value t.spelling.toList rest := by
  induction h with
  | start => exact fun _ ht => absurd ht List.not_mem_nil
  | @next l given hsession ih =>
    intro t ht
    rcases List.mem_cons.1 ht with hnext | ht
    · obtain ⟨hsource, ⟨before, hl⟩, -⟩ := hsession.spec
      obtain ⟨gap, text, -, -, hstands, hl'⟩ := next_token hl hnext.symm
      refine ⟨_, text, _, ?_, hstands, next_spelled hnext.symm⟩
      rw [← hsource, ← next_source l, hl'.source]
    · exact ih t ht
  | @rescan l given slash hsession hslash ih =>
    intro t ht
    rcases List.mem_cons.1 ht with hrescan | ht
    · obtain ⟨rfl, -, hgiven⟩ := hsession.spec
      obtain ⟨before, text, rest, hsource, hstands⟩ := hgiven _ hslash
      obtain ⟨text', hstands', hl', -⟩ := rescanRegExp_token hstands hsource hrescan.symm
      refine ⟨before, text', _, ?_, hstands', rescanRegExp_spelled hrescan.symm⟩
      rw [← rescanRegExp_source hstands hsource, hl'.source]
    · exact ih t ht

end Lexer

/-- The tokens of a text are spelled as their kinds say. -/
theorem spelled_of_mem_tokens {source : List Char} {ts : List Token} (h : tokens source = .ok ts)
    {t : Token} (ht : t ∈ ts) : ∃ before text rest, source = before ++ text ++ rest ∧
      t.Stands before text rest ∧ t.kind.Spelled t.value t.spelling.toList rest := by
  obtain ⟨l, given, hsession, -, hgiven, -⟩ :=
    (Lexer.Session.start : Lexer.Session source _ _).tokensWithin ('\x00' :: source)
  exact hsession.spelled t (hgiven ts h t ht)

end WithScope
