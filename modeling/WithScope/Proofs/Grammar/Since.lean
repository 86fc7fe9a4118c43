import Mathlib.Data.List.Basic
import WithScope.Proofs.Grammar.Reads
import WithScope.Proofs.Tree.NestedCover

/-!
# What has been read since a place

A production notes where it begins, reads parts, and makes a construct of them that goes from there
to the end of the last token. `Since source moved start ns s` is what it knows on the way: in the
state `s`, the constructs `ns` have been read since `start`, one after the other, and if `moved`
holds then something has been read at all. `Made source start n s` is what it comes to: the construct
`n` goes from `start` to the end of the last token and holds what was read since.

* `Adds` — a parser adds what it reads to whatever has been read since any place;
* `Forms` — a parser reads a construct that begins with the current token.
-/

namespace WithScope

open WithScope.Parser (Reads Looks)

/-- What has been read since a place, and whether that is anything at all. -/
structure Since (source : List Char) (moved : Bool) (start : Position) (ns : List Located)
    (s : ParserState) : Prop where
  /-- the state is one of a lexer of the text -/
  sound : s.Sound source
  /-- it has all begun at a place of the text -/
  isPlace_start : IsPlace source start
  /-- the current token is not in front of that place -/
  start_le : start.offset ≤ s.here.offset
  /-- a token has been read -/
  moved : moved = true → start.offset < s.lastEnd.offset
  /-- what has been read -/
  row : Row source start.offset s.lastEnd.offset ns

/-- A construct goes from a place to the end of the last token, and holds what was read since. -/
def Made (source : List Char) (start : Position) (n : Located) (s : ParserState) : Prop :=
  n.loc = ⟨start, s.lastEnd⟩ ∧ Since source true start n.children s

/-- A parser adds what it reads, which is `located`, to what has been read since any place. -/
def Adds (source : List Char) {α : Type} (p : Parser α) (located : α → List Located) : Prop :=
  ∀ ⦃env s moved start ns⦄, Since source moved start ns s →
    Reads source env s p fun a s' => Since source moved start (ns ++ located a) s'

/-- A parser reads a construct that begins with the current token. -/
def Forms (source : List Char) {α : Type} (p : Parser α) (located : α → Located) : Prop :=
  ∀ ⦃env s⦄, s.Sound source → Reads source env s p fun a s' => Made source s.here (located a) s'

/-- A parser adds nothing to what has been read since any place. -/
def Keeps (source : List Char) {α : Type} (p : Parser α) : Prop :=
  ∀ ⦃env s moved start ns⦄, Since source moved start ns s →
    Reads source env s p fun _ s' => Since source moved start ns s'

variable {source : List Char} {env : Surrounding} {s s' : ParserState} {moved : Bool}
  {start : Position} {n : Located} {ns ms : List Located} {α β : Type}

namespace Since

/-- Nothing has been read since the current token. -/
theorem here (hs : s.Sound source) : Since source false s.here [] s :=
  ⟨hs, hs.isPlace_here, le_rfl, Bool.noConfusion, .nil _ _⟩

/-- Constructs take up some of the text. -/
theorem grown (h : Since source moved start ns s) (hne : ns ≠ []) : Since source true start ns s :=
  ⟨h.sound, h.isPlace_start, h.start_le, fun _ => h.row.lt_of_ne_nil hne, h.row⟩

/-- Where a token may have been passed, none need have been. -/
theorem relax (h : Since source true start ns s) : Since source moved start ns s :=
  { h with moved := fun _ => h.moved rfl }

/-- What is made of the constructs read holds them. -/
theorem made (h : Since source true start ns s) (hloc : n.loc = ⟨start, s.lastEnd⟩)
    (hchildren : Row source start.offset s.lastEnd.offset n.children) : Made source start n s :=
  ⟨hloc, h.sound, h.isPlace_start, h.start_le, h.moved, hchildren⟩

/-- What has been read since another place inside is made into a construct. -/
theorem add (h : Since source moved start ns s) (hmade : Made source s.here n s') :
    Since source true start (ns ++ [n]) s' := by
  obtain ⟨hloc, hsince⟩ := hmade
  have hlt := hsince.moved rfl
  have hstart := h.start_le
  have hlast := h.sound.lastEnd_le
  have hrow : Row source s.here.offset s'.lastEnd.offset [n] := by
    refine .singleton (hsince.row.nested_intro ?_ ?_ ?_ ?_ hlt) ?_ ?_ <;> rw [hloc]
    · exact hsince.isPlace_start
    · exact hsince.sound.isPlace_lastEnd
  refine ⟨hsince.sound, h.isPlace_start, hstart.trans hsince.start_le, fun _ => ?_, ?_⟩
  · omega
  · exact (h.row.weaken le_rfl hlast).append hrow hstart hlt.le

end Since

/-- Other constructs may stand in place of those read. -/
theorem Since.replace (h : Since source moved start ns s)
    (hms : Row source start.offset s.lastEnd.offset ms) : Since source moved start ms s :=
  { h with row := hms }

/-- What is read again stands in place of what was read. -/
theorem Since.convert {x : Except SyntaxError α} {located : α → List Located}
    (h : Since source moved start ns s)
    (hx : Converts source x fun a => Row source start.offset s.lastEnd.offset (located a)) :
    Reads source env s (ofExcept x) fun a s' => Since source moved start (located a) s' := by
  cases x with
  | error e => exact .inl hx
  | ok a => exact h.replace hx

/-- What is known of the nodes since a place is known of some of them. -/
theorem Since.sublist (h : Since source moved start ns s) (hsub : ms.Sublist ns) :
    Since source moved start ms s :=
  h.replace (h.row.sublist hsub)

/-- A node that has been read starts at a place of the text. -/
theorem Since.isPlace (h : Since source moved start ns s) (hn : n ∈ ns) :
    IsPlace source n.loc.start := h.row.isPlace_start hn

namespace Made

/-- A construct that has been made is all that has been read. -/
theorem since (h : Made source start n s) : Since source true start [n] s := by
  obtain ⟨hloc, hsince⟩ := h
  refine ⟨hsince.sound, hsince.isPlace_start, hsince.start_le, hsince.moved, ?_⟩
  refine .singleton (hsince.row.nested_intro ?_ ?_ ?_ ?_ (hsince.moved rfl)) ?_ ?_ <;> rw [hloc]
  · exact hsince.isPlace_start
  · exact hsince.sound.isPlace_lastEnd

/-- The same text may be another construct. -/
theorem cast {m : Located} (h : Made source start n s) (hloc : m.loc = n.loc)
    (hchildren : m.children = n.children) : Made source start m s :=
  ⟨hloc.trans h.1, hchildren ▸ h.2⟩

/-- A construct may be all that another one holds. -/
theorem wrap {m : Located} (h : Made source start n s) (hloc : m.loc = n.loc)
    (hchildren : m.children = [n]) : Made source start m s :=
  ⟨hloc.trans h.1, hchildren ▸ h.since⟩

end Made

/-! ## Moving past tokens -/

namespace Since

/-- After a token: it was the current one, and unless the text has ended something has been read. -/
theorem bump (h : Since source moved start ns s) : Reads source env s Parser.bump fun t s' =>
    t = s.token ∧ s'.lastEnd = s.token.span.stop ∧ Since source moved start ns s' ∧
      (s.token.kind ≠ .eof → Since source true start ns s') := by
  refine .bump h.sound fun t l hs' => ?_
  have hstop := h.sound.start_le_stop
  have hlast : s.lastEnd.offset ≤ s.token.span.stop.offset := h.sound.lastEnd_le.trans hstop
  have hstart : start.offset ≤ s.token.span.start.offset := h.start_le
  have hnext : s.token.span.stop.offset ≤ t.span.start.offset := hs'.lastEnd_le
  have hsince (hmoved : moved = true → start.offset < s.token.span.stop.offset) :
      Since source moved start ns ⟨l, t, s.token.span.stop⟩ :=
    ⟨hs', h.isPlace_start, hstart.trans (hstop.trans hnext), hmoved, h.row.weaken le_rfl hlast⟩
  refine ⟨rfl, rfl, hsince fun hmoved => (h.moved hmoved).trans_le hlast, fun hk => ?_⟩
  exact { hsince fun hmoved => (h.moved hmoved).trans_le hlast with
    moved := fun _ => hstart.trans_lt (h.sound.start_lt_stop hk) }

/-- A token that is thrown away adds no node. -/
theorem discardBump (h : Since source moved start ns s) :
    Reads source env s (discard Parser.bump) fun _ s' => Since source moved start ns s' :=
  .map (h.bump.mono fun _ _ h' => h'.2.2.1)

/-- Past the current token, which is not the end of the text. -/
theorem pass (h : Since source moved start ns s) (hk : s.token.kind ≠ .eof) :
    Reads source env s (discard Parser.bump) fun _ s' => Since source true start ns s' :=
  .map (h.bump.mono fun _ _ h' => h'.2.2.2 hk)

/-- Past a token that may be there. -/
theorem eatKind {k : TokenKind} (h : Since source moved start ns s) (hk : k ≠ .eof)
    {yes no : ParserState → Prop} (hyes : ∀ s', Since source true start ns s' → yes s')
    (hno : s.token.kind ≠ k → no s) : Parser.Decides source env s (Parser.eatKind k) yes no := by
  refine .ite (.atKind (fun heq => ?_) fun hne => .pure (hno hne))
  exact .bind (h.pass (heq ▸ hk)) fun _ s' h' => .pure (hyes s' h')

/-- Past a token that has to be there. -/
theorem expectKind {k : TokenKind} (h : Since source moved start ns s) (hk : k ≠ .eof) :
    Reads source env s (Parser.expectKind k) fun t s' =>
      t = s.token ∧ s'.lastEnd = s.token.span.stop ∧ Since source true start ns s' := by
  refine .ite (.atKind (fun heq => ?_) fun _ => .unexpected h.sound)
  exact h.bump.mono fun _ _ h' => ⟨h'.1, h'.2.1, h'.2.2.2 (heq ▸ hk)⟩

/-- A mark adds no node, and a token has been passed. -/
theorem expectMark {mark : Punctuator} (h : Since source moved start ns s) :
    Reads source env s (Parser.expectMark mark) fun _ s' => Since source true start ns s' :=
  .map ((h.expectKind TokenKind.noConfusion).mono fun _ _ h' => h'.2.2)

/-- A keyword adds no node, and a token has been passed. -/
theorem expectWord {word : Keyword} (h : Since source moved start ns s) :
    Reads source env s (Parser.expectWord word) fun _ s' => Since source true start ns s' :=
  .map ((h.expectKind TokenKind.noConfusion).mono fun _ _ h' => h'.2.2)

/-- A name that is expected as a word adds no node. -/
theorem expectName {name : String} (h : Since source moved start ns s) :
    Reads source env s (Parser.expectName name) fun _ s' => Since source moved start ns s' := by
  refine .ite (.look (.atName name) h.discardBump (.unexpected h.sound))

/-- A semicolon adds no node, written or not. -/
theorem semicolon (h : Since source moved start ns s) :
    Reads source env s Parser.semicolon fun _ s' => Since source moved start ns s' := by
  refine .ite (h.eatKind TokenKind.noConfusion (fun s' h' => .pure h'.relax) fun _ => ?_)
  exact .ite (.look .atStatementBreak (.pure h) (.unexpected h.sound))

end Since

/-- Asking for a kind keeps the nodes. -/
theorem Keeps.atKind (k : TokenKind) : Keeps source (Parser.atKind k) :=
  fun _ _ _ _ _ h => .mono (Looks.atKind k) fun _ _ hs => hs ▸ h

/-- A mark that may stand there keeps the nodes. -/
theorem Keeps.eatMark (mark : Punctuator) : Keeps source (Parser.eatMark mark) :=
  fun _ _ _ _ _ h => (h.eatKind TokenKind.noConfusion (fun _ h' => h'.relax) fun _ => h).mono
    fun b _ h' => by cases b <;> exact h'

/-! ## Constructs -/

/-- The current token as a construct that holds nothing. -/
theorem ParserState.Sound.leaf (hs : s.Sound source) (hk : s.token.kind ≠ .eof) :
    Reads source env s Parser.bump fun t s' =>
      ∀ n : Located, n.loc = t.span → n.children = [] → Made source s.here n s' := by
  refine (Since.here hs).bump.mono fun t s' ⟨ht, hlast, _, hsince⟩ n hloc hchildren => ?_
  refine (hsince hk).made (by rw [hloc, ht, hlast]; rfl) ?_
  rw [hchildren]
  exact .nil _ _

/-- A token by itself is a leaf at its own span. -/
theorem ParserState.Sound.leafAs {k : TokenKind} (hs : s.Sound source) (hk : s.token.kind = k)
    (hne : k ≠ .eof) {located : β → Located} (mk : Token → β)
    (hloc : ∀ t, (located (mk t)).loc = t.span) (hchildren : ∀ t, (located (mk t)).children = []) :
    Reads source env s (Parser.bump >>= fun t => pure (mk t)) fun b s' =>
      Made source s.here (located b) s' :=
  .bind (hs.leaf (hk ▸ hne)) fun t _ h => .pure (h _ (hloc t) (hchildren t))

/-- A token of a kind that is expected is a leaf at its own span. -/
theorem ParserState.Sound.expectLeaf {k : TokenKind} (hs : s.Sound source) (hk : k ≠ .eof) :
    Reads source env s (Parser.expectKind k) fun t s' =>
      ∀ n : Located, n.loc = t.span → n.children = [] → Made source s.here n s' :=
  .ite (.atKind (fun heq => hs.leaf (heq ▸ hk)) fun _ => .unexpected hs)

/-- A node that is formed is added to those before it. -/
theorem Forms.adds {p : Parser α} {located : α → Located} (hp : Forms source p located)
    (h : Since source moved start ns s) :
    Reads source env s p fun a s' => Since source true start (ns ++ [located a]) s' :=
  (hp h.sound).mono fun _ _ hmade => h.add hmade

/-- A node that is formed is the only one that is added. -/
theorem Forms.toAdds {p : Parser α} {located : α → Located} (hp : Forms source p located) :
    Adds source p fun a => [located a] :=
  fun _ _ _ _ _ h => (hp.adds h).mono fun _ _ h' => h'.relax

/-- Only the span of a node and its children matter. -/
theorem Forms.cast {p : Parser α} {located located' : α → Located} (hp : Forms source p located)
    (hloc : ∀ a, (located' a).loc = (located a).loc)
    (hchildren : ∀ a, (located' a).children = (located a).children) : Forms source p located' :=
  fun _ _ hs => (hp hs).mono fun a _ h => h.cast (hloc a) (hchildren a)

/-! ## Changed surroundings -/

/-- In another context the same is formed. -/
theorem Forms.withContext {p : Parser α} {located : α → Located} {change : Context → Context}
    (hp : Forms source p located) : Forms source (Parser.withContext change p) located :=
  fun _ _ hs => hp hs

/-- In a body the same is formed. -/
theorem Forms.inBody {p : Parser α} {located : α → Located} {context : Context}
    (hp : Forms source p located) : Forms source (Parser.inBody context p) located :=
  fun _ _ hs => hp hs

/-- In another context the same is added. -/
theorem Adds.withContext {p : Parser α} {located : α → List Located} {change : Context → Context}
    (hp : Adds source p located) : Adds source (Parser.withContext change p) located :=
  fun _ _ _ _ _ h => hp h

/-! ## Repetition -/

section Repetition

variable {p : Parser α} {located : α → List Located} {f : α → Located}

/-- One construct for each item. -/
theorem Adds.ofFlatMap {p : Parser (List α)}
    (hp : Adds source p fun items => items.flatMap fun a => [f a]) :
    Adds source p fun items => items.map f := by
  simpa only [List.map_eq_flatMap] using hp

/-- One construct for each item that is not left out. -/
theorem Adds.ofOptions {p : Parser (List α)} {f : α → Option Located}
    (hp : Adds source p fun items => items.flatMap fun a => (f a).toList) :
    Adds source p fun items => items.filterMap f := by
  simpa only [List.filterMap_eq_flatMap_toList] using hp

/-- Items one after the other add their nodes in order. -/
theorem Adds.collectUntil {stop : Parser Bool} (hstop : Keeps source stop)
    (hp : Adds source p located) :
    Adds source (Parser.collectUntil stop p) fun items => items.flatMap located := by
  intro env s moved start ns h
  refine .repeatFrom (I := fun items s =>
      Since source moved start (ns ++ items.reverse.flatMap located) s)
    (fun _ _ h => h.sound) (fun items s h => ?_) (by simpa using h)
  refine .ite ((hstop h).mono fun b s' h => ?_)
  cases b with
  | true => exact .pure h
  | false =>
    refine .bind (hp h) fun a s' h => .pure ?_
    simpa [Parser.Round] using h

/-- Items after commas add their nodes in order. -/
theorem Adds.afterCommas (hp : Adds source p located) :
    Adds source (Parser.afterCommas p) fun items => items.flatMap located :=
  .collectUntil (fun _ _ _ _ _ h => .bind (Keeps.eatMark _ h) fun _ _ h => .pure h) hp

/-- The comma after an item adds nothing. -/
theorem Adds.itemAndComma {close : Punctuator} (hp : Adds source p located) :
    Adds source (Parser.itemAndComma close p) located := by
  refine fun env s moved start ns h => .bind (hp h) fun a s h => ?_
  refine .ite (.look (.atKind _) (.pure h) ?_)
  exact .bind h.expectMark fun _ s h => .pure h.relax

/-- Items in a list add their nodes in order. -/
theorem Adds.commaSeparated {close : Punctuator} (hp : Adds source p located) :
    Adds source (Parser.commaSeparated close p) fun items => items.flatMap located :=
  .collectUntil (.eatMark _) hp.itemAndComma

/-- As `Adds.commaSeparated`, with a last item of another form. -/
theorem Adds.itemsWithRest {close : Punctuator} {rest : Parser α} (hp : Adds source p located)
    (hrest : Adds source rest located) :
    Adds source (Parser.itemsWithRest close p rest) fun items => items.flatMap located := by
  intro env s moved start ns h
  refine .repeatFrom (I := fun items s =>
      Since source moved start (ns ++ items.reverse.flatMap located) s)
    (fun _ _ h => h.sound) (fun items s h => ?_) (by simpa using h)
  refine .ite (h.eatKind TokenKind.noConfusion (fun s h => .pure h.relax) fun _ => ?_)
  refine .ite (.look (.atKind _) ?_ ?_)
  · refine .bind (hrest h) fun last s h => .bind h.expectMark fun _ s h => .pure ?_
    simpa [Parser.Round] using h.relax
  · refine .bind (hp h) fun a s h => .pure ?_
    simpa [Parser.Round] using h

end Repetition

/-! ## Names -/

/-- An identifier is a leaf. -/
theorem forms_ident : Forms source Parser.ident .ident :=
  fun _ _ hs => .bind (hs.expectLeaf TokenKind.noConfusion) fun _ _ h => .pure (h _ rfl rfl)

/-- A name may be a pattern. -/
theorem forms_name : Forms source Parser.ident fun id => .pat (.ident id) :=
  forms_ident.cast (fun _ => rfl) fun _ => rfl

/-- A name that may be a keyword is a leaf. -/
theorem forms_identName : Forms source Parser.identName .ident := by
  refine fun env s hs => .kind ?_
  split
  · next hk => exact hs.leafAs hk TokenKind.noConfusion _ (fun _ => rfl) fun _ => rfl
  · exact forms_ident hs

end WithScope
