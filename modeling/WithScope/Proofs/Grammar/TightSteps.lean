import WithScope.Grammar.Function
import WithScope.Proofs.Grammar.Since
import WithScope.Proofs.Grammar.Tight

/-!
# What is known of the text after a step

From a state that stands in a text, the parsers that look at single tokens say how the text around
their tokens is made up.

* `Parser.leaves_eatKind`, `Parser.leaves_expectKind` and the like — which token has been passed;
* `Parser.leaves_semicolon`, `Parser.Tells.ended` — where something may end without its semicolon;
* `Grammar.leaves_atArrow`, `Grammar.leaves_atAsyncFunction` — what stands on the line;
* `Parser.leaves_construct` — where a construct stands, besides what is said of it.
-/

namespace WithScope

namespace ParserState

variable {source : List Char} {start : Position} {s s' : ParserState}

theorem From.past (h : s.From source start) (hpast : s.Past s') : s'.From source start :=
  h.move hpast.move

/-- What comes after the end of a token comes after the token. -/
theorem Tight.fromHere_of_past {s₁ : ParserState} (h : s.Tight source) (hpast : s.Past s₁)
    (h' : s'.From source s₁.lastEnd) : s'.From source s.here := by
  refine ⟨h'.tight, h.sound.isPlace_here, le_trans ?_ h'.start_le⟩
  rw [hpast.lastEnd]
  exact h.sound.start_le_stop

/-- A list between two parentheses that have been passed. -/
theorem Tight.inParens {s₁ s₂ : ParserState} {locs : List Span} (h : s.Tight source)
    (hk : s.token.kind = .punctuator .leftParen) (hpast : s.Past s₁)
    (hitems : ItemsUpTo source s₁.lastEnd locs s₂.lastEnd) (h₂ : s₂.Tight source)
    (hk₂ : s₂.token.kind = .punctuator .rightParen) (hpast₂ : s₂.Past s') :
    InParens source s.here locs s'.lastEnd := by
  obtain ⟨gap, hgap, -⟩ := h₂.gapBetween
  refine ⟨s₁.lastEnd, s₂.lastEnd, s₂.here, gap, ?_, hitems, hgap, ?_⟩
  · exact hpast.lastEnd ▸ h.mark hk (by decide)
  · exact hpast₂.lastEnd ▸ h₂.mark hk₂ (by decide)

/-- A punctuator that has been passed ends the text since any place before it. -/
theorem From.endsWith {mark : Punctuator} {spelling : List Char} (h : s.From source start)
    (hpast : s.Past s') (hk : s.token.kind = .punctuator mark)
    (hmark : (spelling, mark) ∈ Punctuator.allSpellings) :
    ∃ text, TextBetween source start s'.lastEnd (text ++ spelling) := by
  rw [hpast.lastEnd]
  exact h.upTo (h.tight.mark hk hmark)

/-- The current token is the word `async`, and the next one is the word `function` on its line. -/
def AtAsyncFunction (s : ParserState) : Prop :=
  s.token.isIdentifier "async" = true ∧ ∃ t, s.lexer.next.1 = .ok t ∧
    t.kind = .keyword .function ∧ t.newlineBefore = false

end ParserState

namespace Parser

variable {source : List Char} {start : Position} {env : Surrounding} {s : ParserState} {α β : Type}
  {Q : α → Prop} {R : β → Prop}

/-! ## Looking at tokens -/

theorem leaves_atKind (k : TokenKind) :
    Leaves env s (atKind k) fun b s' => s' = s ∧ (b = true ↔ s.token.kind = k) :=
  .kind (.pure ⟨rfl, decide_eq_true_iff⟩)

theorem leaves_atName (name : String) :
    Leaves env s (atName name) fun b s' => s' = s ∧ b = s.token.isIdentifier name :=
  .token (.pure ⟨rfl, rfl⟩)

theorem leaves_afterNewline :
    Leaves env s afterNewline fun b s' => s' = s ∧ b = s.token.newlineBefore :=
  .token (.pure ⟨rfl, rfl⟩)

theorem leaves_atStatementBreak : Leaves env s atStatementBreak fun b s' => s' = s ∧
    (b = true ↔ s.token.kind = .punctuator .rightBrace ∨ s.token.kind = .eof ∨
      s.token.newlineBefore = true) := by
  refine .token (.pure ⟨rfl, ?_⟩)
  simp only [Bool.or_eq_true, decide_eq_true_eq, or_assoc]

/-- A statement that does not end here goes on in the same line. -/
theorem leaves_atStatementEnd : Leaves env s atStatementEnd fun b s' => s' = s ∧
    (b = false → s.token.newlineBefore = false) := by
  refine .look (leaves_atKind _) fun isSemicolon _ => .ite (fun _ => .pure ⟨rfl, nofun⟩) fun _ => ?_
  refine leaves_atStatementBreak.mono fun b s' ⟨hs, hbreak⟩ => ⟨hs, fun hb => ?_⟩
  refine Bool.eq_false_iff.2 fun hline => ?_
  rw [hbreak.2 (.inr (.inr hline))] at hb
  cases hb

/-! ## Passing tokens -/

theorem leaves_discardBump : Leaves env s (discard bump) fun _ s' => s.Past s' :=
  .map (leaves_bump.mono fun _ _ h => h.2)

theorem leaves_expectKind (k : TokenKind) :
    Leaves env s (expectKind k) fun t s' => t = s.token ∧ s.token.kind = k ∧ s.Past s' := by
  refine .look (leaves_atKind k) fun b hk => .ite (fun hb => ?_) fun _ => .unexpected
  exact leaves_bump.mono fun _ _ h => ⟨h.1, hk.1 hb, h.2⟩

theorem leaves_expectMark (mark : Punctuator) : Leaves env s (expectMark mark) fun _ s' =>
    s.token.kind = .punctuator mark ∧ s.Past s' :=
  .map ((leaves_expectKind _).mono fun _ _ h => h.2)

theorem leaves_expectWord (word : Keyword) : Leaves env s (expectWord word) fun _ s' =>
    s.token.kind = .keyword word ∧ s.Past s' :=
  .map ((leaves_expectKind _).mono fun _ _ h => h.2)

theorem leaves_eatKind (k : TokenKind) : Leaves env s (eatKind k) fun b s' =>
    (b = true → s.token.kind = k ∧ s.Past s') ∧ (b = false → s' = s) := by
  refine .look (leaves_atKind k) fun b hk => .ite (fun hb => ?_) fun _ =>
    .pure ⟨nofun, fun _ => rfl⟩
  exact .bind leaves_discardBump fun _ _ h => .pure ⟨fun _ => ⟨hk.1 hb, h⟩, nofun⟩

/-- Whether a token has been passed or not, the current one comes after the same places. -/
theorem leaves_eatKind_from (k : TokenKind) (hs : s.From source start) :
    Leaves env s (eatKind k) fun b s' =>
      s'.From source start ∧ (b = true → s.token.kind = k ∧ s.Past s') := by
  refine (leaves_eatKind k).mono fun b s' ⟨hyes, hno⟩ => ⟨?_, hyes⟩
  cases b with
  | true => exact hs.past (hyes rfl).2
  | false => exact hno rfl ▸ hs

/-- A name stands where its token stood. -/
theorem leaves_ident :
    Leaves env s ident fun id s' => id.loc = ⟨s.here, s'.lastEnd⟩ ∧ s.Past s' := by
  refine .bind (leaves_expectKind _) fun t s' ⟨ht, _, hpast⟩ => .pure ⟨?_, hpast⟩
  rw [hpast.lastEnd, ht]
  rfl

/-! ## The ends of statements -/

/-- After the semicolon, or where it is left out, something may have ended. -/
theorem leaves_semicolon (hs : s.From source start) : Leaves env s semicolon fun _ s' =>
    s'.From source start ∧ Ended source ⟨start, s'.lastEnd⟩ := by
  refine .bind (leaves_eatKind_from _ hs) fun b s' ⟨hs', hyes⟩ => .ite (fun hb => ?_) fun _ => ?_
  · obtain ⟨hk, hpast⟩ := hyes hb
    exact .pure ⟨hs', .inl (hs.endsWith hpast hk (by decide))⟩
  · refine .look leaves_atStatementBreak fun b hbreak => .ite (fun hb => ?_) fun _ => .unexpected
    exact .pure ⟨hs', hs'.tight.ended start (hbreak.1 hb)⟩

/-- What goes from a place to the end of its semicolon has ended. -/
theorem Tells.ended {f : Span → Parser β} (h : ∀ loc, loc.start = start → Ended source loc →
      (f loc).Tells (ParserState.From source start) R) :
    (semicolon >>= fun _ => spanFrom start >>= f).Tells (ParserState.From source start) R :=
  fun env _ hs => .bind (leaves_semicolon hs) fun _ s' ⟨hs', hended⟩ =>
    .spanFrom (h _ rfl hended env s' hs')

/-! ## Constructs -/

theorem Leaves.of_reads {p : Parser α} {P : α → ParserState → Prop}
    (h : Reads source env s p P) : Leaves env s p P := by
  unfold Leaves Outcome
  unfold Reads at h
  cases hrun : p env s with
  | error e => trivial
  | ok x =>
    rw [hrun] at h
    exact h

/-- What a construct holds may be known apart from where it stands. -/
theorem leaves_construct {p : Parser α} {located : α → Located} (hs : s.From source start)
    (hp : p.Tells (ParserState.From source start) Q) (hforms : Forms source p located) :
    Leaves env s p fun a s' => s'.From source start ∧ Q a ∧ s.here.offset < s'.lastEnd.offset ∧
      (located a).loc = ⟨s.here, s'.lastEnd⟩ :=
  ((hp env s hs).and (.of_reads (hforms hs.tight.sound))).mono fun _ _ ⟨⟨hs', ha⟩, hloc, hsince⟩ =>
    ⟨hs', ha, hsince.moved rfl, hloc⟩

/-- What is said of a parser that begins at the current token may be said from any place before. -/
theorem tells_of_here {p : Parser α} (h : ∀ env s, s.Tight source →
      Leaves env s p fun a s' => s'.From source s.here ∧ Q a) :
    p.Tells (ParserState.From source start) Q :=
  fun env s hs => (h env s hs.tight).mono fun _ _ ⟨hs', ha⟩ => ⟨hs.trans hs', ha⟩

theorem Tells.here {f : Position → Parser β}
    (h : ∀ first, (f first).Tells (ParserState.From source first) R) :
    (Parser.here >>= f).Tells (ParserState.From source start) R :=
  tells_of_here fun env s hs => h s.here env s hs.fromHere

/-- With one more item a list goes up to the end of the item, or past the comma after it. -/
theorem leaves_item {opening : Position} {p : Parser α} {located : α → Located}
    (hs : s.From source opening) (hp : p.Tells (ParserState.From source opening) Q)
    (hforms : Forms source p located) : Leaves env s p fun a s' =>
      s'.From source opening ∧ Q a ∧
        (∀ locs, ItemsUpTo source opening (locs ++ [(located a).loc]) s'.lastEnd) ∧
        ∀ locs s'', s'.token.kind = .punctuator .comma → s'.Past s'' →
          ItemsUpTo source opening (locs ++ [(located a).loc]) s''.lastEnd := by
  refine (leaves_construct hs hp hforms).mono fun a s' ⟨hs', ha, hlt, hloc⟩ => ?_
  obtain ⟨text, htext⟩ : ∃ text, TextBetween source opening s'.lastEnd text :=
    exists_textBetween hs.isPlace_start hs'.tight.sound.isPlace_lastEnd (hs.start_le.trans hlt.le)
  have hstop : s'.lastEnd = (located a).loc.stop := by rw [hloc]
  rw [hstop] at htext
  refine ⟨hs', ha, fun locs => hstop ▸ .item htext, fun locs s'' hk hpast => ?_⟩
  obtain ⟨gap, hgap, -⟩ := hs'.tight.gapBetween
  rw [hstop] at hgap
  exact .comma htext hgap (hpast.lastEnd ▸ hs'.tight.mark hk (by decide))

/-- Items up to a parenthesis that closes them. -/
theorem leaves_commaSeparated {opening : Position} {p : Parser α} {located : α → Located}
    (hs : s.From source opening) (hlast : s.lastEnd = opening)
    (hp : p.Tells (ParserState.From source opening) Q) (hforms : Forms source p located) :
    Leaves env s (commaSeparated .rightParen p) fun items s' => s'.From source opening ∧
      (∀ a ∈ items, Q a) ∧ ∃ s₂ : ParserState, s₂.Tight source ∧
        s₂.token.kind = .punctuator .rightParen ∧ s₂.Past s' ∧
        ItemsUpTo source opening (items.map fun a => (located a).loc) s₂.lastEnd := by
  refine .repeatFrom (P := fun items s => s.From source opening ∧ (∀ a ∈ items, Q a) ∧
    ItemsUpTo source opening (items.reverse.map fun a => (located a).loc) s.lastEnd)
    (fun items s ⟨hs, hitems, hupTo⟩ => ?_) ⟨hs, List.forall_mem_nil _, hlast ▸ .none⟩
  refine .bind (leaves_eatKind _) fun b s' ⟨hyes, hno⟩ => .ite (fun hb => ?_) fun hb => ?_
  · obtain ⟨hk, hpast⟩ := hyes hb
    refine .pure ⟨hs.past hpast, fun a ha => hitems a (List.mem_reverse.1 ha), s, hs.tight, hk, ?_⟩
    exact ⟨hpast, hupTo⟩
  · obtain rfl := hno (Bool.eq_false_iff.2 hb)
    refine .bind (P := fun a s' => s'.From source opening ∧ Q a ∧
      ∀ locs, ItemsUpTo source opening (locs ++ [(located a).loc]) s'.lastEnd) ?_ ?_
    · refine .bind (leaves_item hs hp hforms) fun a s₁ ⟨hs₁, ha, hitem, hcomma⟩ => ?_
      refine .look (leaves_atKind _) fun isLast _ => .ite (fun _ => .pure ⟨hs₁, ha, hitem⟩) ?_
      intro _
      refine .bind (leaves_expectMark _) fun _ s₂ ⟨hk, hpast⟩ => .pure ⟨hs₁.past hpast, ha, ?_⟩
      exact fun locs => hcomma locs s₂ hk hpast
    · intro a s₁ ⟨hs₁, ha, hone⟩
      refine .pure ⟨hs₁, List.forall_mem_cons.2 ⟨ha, hitems⟩, ?_⟩
      rw [List.reverse_cons, List.map_append]
      exact hone _

end Parser

namespace Grammar

open WithScope.Parser

variable {env : Surrounding} {s : ParserState}

/-- An arrow that follows parameters stands on their line. -/
theorem leaves_atArrow : Leaves env s atArrow fun b s' => s' = s ∧
    (b = true → s.token.newlineBefore = false) := by
  refine .look (leaves_atKind _) fun isArrow _ => .ite (fun _ => ?_) fun _ => .pure ⟨rfl, nofun⟩
  refine .look leaves_afterNewline fun isAfterNewline hline => .pure ⟨rfl, fun h => ?_⟩
  rw [← hline]
  simpa using h

theorem leaves_atAsyncFunction :
    Leaves env s atAsyncFunction fun b s' => s' = s ∧ (b = true → s.AtAsyncFunction) := by
  refine .look (leaves_atName _) fun isAsync hasync => .ite (fun h => ?_) fun _ =>
    .pure ⟨rfl, nofun⟩
  refine .look leaves_peek fun t hnext => .pure ⟨rfl, fun hfunction => ⟨hasync ▸ h, t, hnext, ?_⟩⟩
  simpa using hfunction

end Grammar

end WithScope
