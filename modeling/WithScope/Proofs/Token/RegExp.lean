import WithScope.Proofs.Text.Between
import WithScope.Proofs.Token.Stability

/-!
# Where regular expressions end

The reader of regular expressions goes through a text once, and keeps in mind whether it is inside of
a bracketed class; a backslash takes the next character with it. Which slash is the closing one can
be said without it, by what stands in front of the slash: `Escaping` if a backslash would take it,
and `InClass` if it would stand in a class.

* `Escaping.concat`, `InClass.concat` — how these change with one character more;
* `ReadBehind.pair`, `ReadBehind.single` — the reader keeps track of it, step by step;
* `firstClosing_of_splitRegExpBody` — so it ends at the first slash with neither in front of it;
* `RegExpParts.of_readRegExp` — what it reads is made up of a body and flags;
* `Lexer.rescanRegExp_parts` — a token that is read again as a regular expression;
* `Lexer.next_ne_comment` — why its body is not empty.
-/

namespace WithScope

/-! ## What a text ends in -/

/-- A text ends with a backslash that takes the next character with it: the backslashes that it ends
with, of which every second one is taken by the one before, are odd in number. -/
def Escaping (text : List Char) : Prop := (text.reverse.takeWhile (· == '\\')).length % 2 = 1

/-- A text ends inside of a bracketed class: it has an opening bracket that no backslash takes, and
behind that no closing one. -/
def InClass (text : List Char) : Prop :=
  ∃ before inner, text = before ++ '[' :: inner ∧ ¬Escaping before ∧
    ∀ a b, inner = a ++ ']' :: b → Escaping (before ++ '[' :: a)

/-- A slash behind this text ends the regular expression whose body the text is. -/
def ClosesBehind (text : List Char) : Prop := ¬Escaping text ∧ ¬InClass text

variable {text body flags rest cs : List Char} {c : Char} {inClass : Bool}

theorem not_escaping_nil : ¬Escaping [] := by simp [Escaping]

theorem Escaping.concat : Escaping (text ++ [c]) ↔ c = '\\' ∧ ¬Escaping text := by
  unfold Escaping
  rw [List.reverse_append, List.reverse_singleton, List.singleton_append, List.takeWhile_cons]
  by_cases hc : c = '\\'
  · simp only [hc, beq_self_eq_true, if_true, List.length_cons, true_and]
    omega
  · simp [hc]

theorem not_inClass_nil : ¬InClass [] := by simp [InClass]

theorem InClass.concat : InClass (text ++ [c]) ↔
    c = '[' ∧ ¬Escaping text ∨ InClass text ∧ ¬(c = ']' ∧ ¬Escaping text) := by
  constructor
  · rintro ⟨before, inner, htext, hopen, hinner⟩
    rcases List.eq_nil_or_concat' inner with rfl | ⟨inner, d, rfl⟩
    · obtain ⟨rfl, hc⟩ := List.append_inj' htext rfl
      exact .inl ⟨(List.cons.inj hc).1, hopen⟩
    · rw [← List.cons_append, ← List.append_assoc] at htext
      obtain ⟨rfl, hc⟩ := List.append_inj' htext rfl
      obtain rfl := (List.cons.inj hc).1
      refine .inr ⟨⟨before, inner, rfl, hopen, fun a b hab => ?_⟩, fun ⟨hclose, hlast⟩ => ?_⟩
      · exact hinner a (b ++ [c]) (by rw [hab, List.append_assoc, List.cons_append])
      · exact hlast (hinner inner [] (by rw [hclose]))
  · rintro (⟨rfl, hopen⟩ | ⟨⟨before, inner, rfl, hopen, hinner⟩, hlast⟩)
    · exact ⟨text, [], rfl, hopen, fun a b hab => absurd hab (by simp)⟩
    · refine ⟨before, inner ++ [c], by simp, hopen, fun a b hab => ?_⟩
      rcases List.eq_nil_or_concat' b with rfl | ⟨b, d, rfl⟩
      · obtain ⟨rfl, hc⟩ := List.append_inj' hab rfl
        exact not_not.1 fun h => hlast ⟨(List.cons.inj hc).1, h⟩
      · rw [← List.cons_append, ← List.append_assoc] at hab
        exact hinner a b (List.append_inj' hab rfl).1

/-! ## The body -/

/-- What the reader of bodies knows behind a text: no backslash takes the next character with it,
and it is in a class if the text ends in one. -/
structure ReadBehind (text : List Char) (inClass : Bool) : Prop where
  not_escaping : ¬Escaping text
  inClass_iff : inClass = true ↔ InClass text

namespace ReadBehind

theorem nil : ReadBehind [] false := ⟨not_escaping_nil, iff_of_false nofun not_inClass_nil⟩

variable (h : ReadBehind text inClass)
include h

theorem closes_iff : ClosesBehind text ↔ inClass = false := by
  rw [ClosesBehind, ← h.inClass_iff, Bool.not_eq_true]
  exact and_iff_right h.not_escaping

/-- A backslash takes the next character with it, be it a backslash, a bracket or a slash. -/
theorem pair (c : Char) : ReadBehind (text ++ ['\\'] ++ [c]) inClass := by
  have hslash : Escaping (text ++ ['\\']) := Escaping.concat.2 ⟨rfl, h.not_escaping⟩
  refine ⟨fun hc => (Escaping.concat.1 hc).2 hslash, ?_⟩
  rw [InClass.concat, InClass.concat]
  simp [hslash, h.inClass_iff]

/-- Any other character is read by itself. -/
theorem single (hc : c ≠ '\\') :
    ReadBehind (text ++ [c]) (c == '[' || (inClass && c != ']')) := by
  refine ⟨fun hescaping => hc (Escaping.concat.1 hescaping).1, ?_⟩
  rw [InClass.concat, ← h.inClass_iff]
  simp [h.not_escaping]

end ReadBehind

/-- The slash behind `body`, which follows `text`, is the first one from there on that closes. -/
structure FirstClosing (text body : List Char) : Prop where
  closes : ClosesBehind (text ++ body)
  first : ∀ before after, body = before ++ '/' :: after → ¬ClosesBehind (text ++ before)

/-- One character in front of the body may be a slash if it does not close. -/
theorem FirstClosing.cons (h : FirstClosing (text ++ [c]) body)
    (hc : c = '/' → ¬ClosesBehind text) : FirstClosing text (c :: body) := by
  refine ⟨by simpa using h.closes, fun before after hsplit => ?_⟩
  cases before with
  | nil =>
    rw [List.append_nil]
    exact hc (List.cons.inj hsplit).1
  | cons d before =>
    obtain ⟨rfl, hbody⟩ := List.cons.inj hsplit
    simpa using h.first before after hbody

/-- The reader of bodies ends at the first slash that closes. -/
theorem firstClosing_of_splitRegExpBody
    (h : splitRegExpBody inClass cs = (body, '/' :: rest)) (htext : ReadBehind text inClass) :
    FirstClosing text body := by
  fun_induction splitRegExpBody inClass cs generalizing text body with
  | case1 => cases h
  | case2 _ c cs hc =>
    obtain ⟨-, hrest⟩ := Prod.mk.inj h
    obtain ⟨rfl, -⟩ := List.cons.inj hrest
    cases hc
  | case3 inClass c cs _ ih =>
    obtain ⟨body, hbody, rfl⟩ := exists_of_prepend_eq h
    have hslash : Escaping (text ++ ['\\']) := Escaping.concat.2 ⟨rfl, htext.not_escaping⟩
    refine ((ih hbody (htext.pair c)).cons fun _ hcloses => hcloses.1 hslash).cons ?_
    exact fun hc => absurd hc (by decide)
  | case4 inClass c cs _ hc =>
    obtain ⟨rfl, hrest⟩ := Prod.mk.inj h
    obtain ⟨rfl, -⟩ := List.cons.inj hrest
    have hout : inClass = false := by simpa [isLineTerminator] using hc
    refine ⟨?_, fun before after hsplit => absurd hsplit (by simp)⟩
    rw [List.append_nil]
    exact htext.closes_iff.2 hout
  | case5 inClass c cs hpair hc ih =>
    obtain ⟨body, hbody, rfl⟩ := exists_of_prepend_eq h
    have hne : c ≠ '\\' := by
      rintro rfl
      cases cs with
      | nil => cases hbody
      | cons d cs => exact hpair d cs rfl rfl
    refine (ih hbody (htext.single hne)).cons ?_
    -- a slash that is passed stands in a class
    rintro rfl
    have hin : inClass = true := by simpa [isLineTerminator] using hc
    simp [htext.closes_iff, hin]

/-! ## The whole -/

/-- `body` and `flags` are what a regular expression in front of the text `rest` is made up of: it
ends at the first slash that closes, no line ends in it, and the flags are as many characters of
names as there are. -/
structure RegExpParts (body flags rest : List Char) : Prop where
  closes : ClosesBehind body
  first : ∀ before after, body = before ++ '/' :: after → ¬ClosesBehind before
  oneLine : ∀ c ∈ body ++ flags, isLineTerminator c = false
  flags : ∀ c ∈ flags, isIdContinue c = true
  longest : ∀ c ∈ rest.head?, isIdContinue c = false

theorem not_isLineTerminator_of_isIdContinue (h : isIdContinue c = true) :
    isLineTerminator c = false := by
  by_contra hline
  simp only [isLineTerminator, Bool.not_eq_false, Bool.or_eq_true, beq_iff_eq] at hline
  rcases hline with ((rfl | rfl) | rfl) | rfl <;> revert h <;> decide +kernel

/-- What is read as a regular expression is made up of a body and flags with a slash between them,
behind the character that opens it. -/
theorem RegExpParts.of_readRegExp {w x : List Char} {k : TokenKind × TokenValue}
    (h : readRegExp cs = ⟨w, x, .ok k⟩) : ∃ opening body flags,
      w = opening :: body ++ '/' :: flags ∧ k.2 = .text (String.ofList w) ∧
      RegExpParts body flags x := by
  unfold readRegExp at h
  split at h
  · cases h
  · next opening cs =>
    rcases hsplit : splitRegExpBody false cs with ⟨body, rest⟩
    have hbody := not_isLineTerminator_splitRegExpBody false cs
    simp only [hsplit] at h hbody
    split at h
    · next hslash =>
      obtain ⟨rest, rfl⟩ := List.head?_eq_some_iff.1 hslash
      obtain ⟨hcloses, hfirst⟩ := firstClosing_of_splitRegExpBody hsplit .nil
      cases h
      have hflags : ∀ c ∈ rest.takeWhile isIdContinue, isIdContinue c = true :=
        fun _ => List.mem_takeWhile_imp
      refine ⟨opening, body, rest.takeWhile isIdContinue, by simp [prepend, splitWhile], rfl,
        hcloses, hfirst, List.forall_mem_append.2 ⟨hbody, fun c hc => ?_⟩, hflags,
        head_dropWhile rest⟩
      exact not_isLineTerminator_of_isIdContinue (hflags c hc)
    · cases h

/-- A regular expression goes from one place of a text to another: a body that is not empty and
flags, each behind a slash. -/
def RegExpBetween (source : List Char) (p q : Position) (body flags : List Char) : Prop :=
  ∃ before rest, source = before ++ ('/' :: body ++ '/' :: flags) ++ rest ∧
    p = placeAfter before ∧ q = placeAfter (before ++ ('/' :: body ++ '/' :: flags)) ∧
    body ≠ [] ∧ RegExpParts body flags rest

/-- A token that is read again as a regular expression is made up of a body and flags, whatever it
was before. -/
theorem Lexer.rescanRegExp_parts {l l' : Lexer} {t t' : Token}
    (h : l.rescanRegExp t = (.ok t', l')) : ∃ opening body flags,
      t'.spelling.toList = opening :: body ++ '/' :: flags ∧ t'.text = t'.spelling ∧
      RegExpParts body flags l'.rest := by
  obtain ⟨w, x, ⟨kind, value⟩, hread, rfl, rfl⟩ := advance_inv h
  obtain ⟨opening, body, flags, rfl, rfl, hparts⟩ := RegExpParts.of_readRegExp hread
  refine ⟨opening, body, flags, String.toList_ofList, rfl, ?_⟩
  rw [track_rest]
  exact hparts

/-- A token that comes after a gap does not begin as a line comment does. So a regular expression in
its place has a body. -/
theorem Lexer.next_ne_comment {l l' : Lexer} {t : Token} (h : l.next = (.ok t, l'))
    (v : List Char) : t.spelling.toList ++ l'.rest ≠ '/' :: '/' :: v := by
  rw [next_eq] at h
  obtain ⟨w, x, k, hread, rfl, rfl⟩ := advance_inv h
  have happend := (reads_upcoming l l.gapAhead.2).append
  rw [hread] at happend
  rw [track_rest, String.toList_ofList, happend]
  exact ne_comment_of_splitTrivia _ _ v

end WithScope
