import WithScope.Proofs.Grammar.NestedStatement
import WithScope.Proofs.Wrapper.Argument
import WithScope.Proofs.Wrapper.Hands
import WithScope.Proofs.Wrapper.Object

/-!
# Returns that hand their values on

Where the text has a return that is replaced, the parser of the changed text reads a return, too: one
of an object that holds what the first one returns, if it returns anything.
-/

namespace WithScope

open Relation (ReflTransGen TransGen)
open WithScope.Parser (Outcome Leaves)

/-- Past a stretch outside of any substitution comes what follows the parenthesis. -/
theorem Stretch.Border.facing {Ψ : Stretch} {s₁ s₂ : ParserState} {cs : List Char}
    (h : Ψ.Border s₁ s₂) (hopened : s₁.opened = 0) (hcs : Ψ.copyTail = ')' :: cs) :
    s₂.Facing Ψ.copy cs := by
  obtain ⟨l₁, l₂, -, hl₂, haligned, -, hrest, -, hnext₁, hnext₂⟩ := h.lexer
  obtain ⟨t, hnext, hk, -⟩ := hl₂.next_mark [] rightParen_mem (.inl rfl) (hrest.trans hcs)
  have hlexer : s₂.lexer = _ := congrArg Prod.snd (hnext₂.symm.trans hnext)
  refine ⟨h.steady₂, by rw [hlexer, Lexer.track_rest], List.eq_nil_of_length_eq_zero ?_⟩
  have henclosed := congrArg List.length haligned.enclosed
  simp only [Lexer.enclosed, List.length_map] at henclosed
  have hsubs₁ := Lexer.substitutions_next hnext₁
  have hsubs₂ := Lexer.substitutions_next hnext₂
  rw [h.kind.1, show (TokenKind.punctuator .rightParen).opened = 0 from rfl] at hsubs₂
  rw [ParserState.opened] at hopened
  omega

namespace Grammar

variable {env : Surrounding} {s m k p : ParserState}

/-! ## The return that is replaced -/

/-- A semicolon has been passed, or it has been left out. -/
def Ended (k s' : ParserState) : Prop :=
  k.token.kind = .punctuator .semicolon ∧ k.Past s' ∨ s' = k ∧
    (k.token.kind = .punctuator .rightBrace ∨ k.token.kind = .eof ∨ k.token.newlineBefore = true)

theorem leaves_semicolon_ended : Leaves env s Parser.semicolon fun _ s' => Ended s s' := by
  refine .bind (Parser.leaves_eatKind _) fun b s' ⟨hyes, hno⟩ => .ite (fun hb => .pure (.inl (hyes hb)))
    fun hb => ?_
  obtain rfl := hno (by simpa using hb)
  exact .look Parser.leaves_atStatementBreak fun b hbreak => .ite
    (fun hb => .pure (.inr ⟨rfl, hbreak.1 hb⟩)) fun _ => .unexpected

/-- A return has been read: its word, then its argument between the states `m` and `k`, and its
semicolon. -/
structure ReadReturn (g : Grammar) (env : Surrounding) (s m k s' : ParserState)
    (argument : Option Expr) : Prop where
  /-- returns may stand here -/
  allowed : (!env.context.inFunction && !env.options.returnAnywhere) = false
  /-- its word -/
  past : s.Past m
  /-- its argument, which begins on the line of the word -/
  argument : argument = none ∧ k = m ∨ ∃ e, argument = some e ∧ m.token.newlineBefore = false ∧
    g.expression env m = .ok (e, k)
  /-- its semicolon -/
  ended : Ended k s'

theorem leaves_returnStatement (g : Grammar) (start : Position) :
    Leaves env s (g.returnStatement start) fun a s' => ∃ m k argument,
      ReadReturn g env s m k s' argument ∧ a = .return ⟨start, s'.lastEnd⟩ argument := by
  refine .read (.ite (fun _ => .fail _ _) fun hallowed => ?_)
  refine .bind Parser.leaves_discardBump fun _ m hpast => ?_
  have hrest (argument : Option Expr) (k : ParserState) (hk : argument = none ∧ k = m ∨
      ∃ e, argument = some e ∧ m.token.newlineBefore = false ∧ g.expression env m = .ok (e, k)) :
      Leaves env k (Parser.semicolon >>= fun _ => do
          return .return (← Parser.spanFrom start) argument : Parser Stmt) fun a s' =>
        ∃ m k argument, ReadReturn g env s m k s' argument ∧
          a = .return ⟨start, s'.lastEnd⟩ argument :=
    .bind leaves_semicolon_ended fun _ s' hs' => .spanFrom (.pure
      ⟨m, k, argument, ⟨by simpa using hallowed, hpast, hk, hs'⟩, rfl⟩)
  refine .look Parser.leaves_atStatementEnd fun ends hends => .ite
    (fun _ => hrest none m (.inl ⟨rfl, rfl⟩)) fun hnot => ?_
  have hargument : Leaves env m (some <$> g.expression) fun argument k => argument = none ∧ k = m ∨
      ∃ e, argument = some e ∧ m.token.newlineBefore = false ∧ g.expression env m = .ok (e, k) :=
    .map (Leaves.self.mono fun e k hrun => .inr ⟨e, rfl, hends (by simpa using hnot), hrun⟩)
  exact hargument.bind hrest

theorem Ended.exists_end {source : List Char} (h : Ended s k) (hs : s.Tight source) :
    ∃ before rest, source = before ++ rest ∧ s.lastEnd = placeAfter before ∧
      rest.head?.any Char.isDigit = false :=
  hs.exists_end (h.imp And.left And.right)

theorem Ended.path (h : Ended k s) : ReflTransGen ParserState.Pass k s := by
  rcases h with ⟨hk, hpast⟩ | ⟨rfl, -⟩
  · exact .single (.token (by rw [hk]; nofun) hpast)
  · exact .refl

theorem Ended.opened (h : Ended k s) : s.opened = k.opened := by
  rcases h with ⟨hk, hpast⟩ | ⟨rfl, -⟩
  · exact hpast.opened_eq (by rw [hk]; rfl)
  · rfl

/-! ## Its argument -/

/-- An argument that stands on the line of its word is read in parentheses as well. -/
theorem exists_argument {source copy before argument rest result : List Char} {n : Nat} {e : Expr}
    {d : ParserState} (hs : s.Steady source) (hk : s.token.kind ≠ .eof)
    (hsubs : s.lexer.substitutions = []) (hpast : s.Past m) (hline : m.token.newlineBefore = false)
    (hrun : (nest n).expression env m = .ok (e, k)) (hks : k.Steady source) (hended : Ended k d)
    (hsource : source = before ++ argument ++ rest)
    (hloc : e.loc = ⟨placeAfter before, placeAfter (before ++ argument)⟩)
    (hp : p.Facing copy (argument ++ ')' :: '}' :: ';' :: result)) (j : Nat) :
    ∃ a, p.Past a ∧ Outcome SyntaxError.Scarce env a
      (Parser.repeatFrom [] (nest j).parenItemsStep) fun list b => ∃ first others,
        list = ⟨first :: others, none, false⟩ ∧ placeless (joined first others) = placeless e ∧
          b.token.kind = .punctuator .rightParen ∧ b.Facing copy ('}' :: ';' :: result) ∧
          k.opened = 0 := by
  have hm := hs.past hpast
  have hopened : m.opened = 0 := by rw [hpast.opened, hsubs]; rfl
  have hmade : e.loc = ⟨m.here, k.lastEnd⟩ := by
    have hreads : Parser.Reads source env m (nest n).expression fun e k =>
        Made source m.here (.expr e) k :=
      (nests_nest n).expression hm.sound
    rw [Parser.Reads, hrun] at hreads
    exact hreads.1
  obtain ⟨hstart, hstop⟩ := Span.mk.inj (hmade.symm.trans hloc)
  -- the one lexer stands where the argument begins, the other behind the parenthesis
  obtain ⟨t, l, hnext, rfl⟩ := hpast
  have hposition : s.lexer.position.offset ≠ 0 := by
    obtain ⟨-, -, -, -, hposition⟩ := hs.exists_before
    have := hs.sound.start_lt_stop hk
    rw [hposition]
    omega
  obtain ⟨l₁, hl₁, hnext₁, hposition₁, hsource₁, hsubs₁⟩ :=
    hs.lexer.exists_after_gap hnext hline hposition
  have hrest₁ : l₁.rest = argument ++ rest := by
    obtain ⟨x, hx, hoffset⟩ := hl₁.source
    rw [hsource₁, hs.lexer_source, hsource, List.append_assoc] at hx
    refine (eq_of_byteLength_eq hx ?_).2.symm
    rw [← hoffset, hposition₁, show t.span.start = _ from hstart]
    rfl
  have hdigit : rest.head?.any Char.isDigit = false := by
    obtain ⟨before', rest', hsource', hplace, hdigit⟩ := hended.exists_end hks.tight
    rwa [(eq_of_placeAfter_eq (hsource.symm.trans hsource') (hstop.symm.trans hplace)).2]
  let Ψ : Stretch := ⟨source, copy, ⟨l₁.position, p.lexer.position, l₁.rest⟩, rest,
    ')' :: '}' :: ';' :: result, ⟨before ++ argument, hsource.symm⟩,
    ⟨[], _, _, rfl, rfl, .inr ⟨by rintro _ ⟨⟩; rfl, hdigit⟩⟩, nofun⟩
  have hclosed : Ψ.IsClosed := ⟨_, rfl⟩
  have hend : Ψ.AtEnd k := by
    show k.lastEnd.offset + byteLength rest = byteLength source
    rw [hstop, hsource, byteLength_append]
    rfl
  have hin : Ψ.Inside _ := Stretch.Within.inside (Ψ := Ψ) (.inr ⟨hclosed, hend⟩) hm
    (((alike_nest Ψ n n).outer_expression env _ p hm e k hrun).1.passed rfl)
  obtain ⟨l₂', hnext₂, habreast⟩ := Stretch.next_inside (Ψ := Ψ) hl₁ hp.steady.lexer
    ⟨Alignment.match_start _, by rw [Lexer.enclosed, Lexer.enclosed, hsubs₁, hsubs, hp.substitutions]; rfl⟩
    ⟨argument, hrest₁, hp.rest⟩ hnext₁ hm hin
  have hpast₂ : p.Past ⟨l₂', Ψ.moved t, p.token.span.stop⟩ := ⟨_, _, hnext₂, rfl⟩
  refine ⟨_, hpast₂, ?_⟩
  refine ((alike_nest Ψ n j).outcome_parenItems hm hrun (habreast _ (hp.steady.past hpast₂) rfl rfl)
    hclosed hend).mono ?_
  rintro list b ⟨first, others, rfl, hjoined, hborder, hopened'⟩
  exact ⟨first, others, rfl, hjoined, hborder.kind.1,
    hborder.facing (hopened'.trans hopened) rfl, hopened'.trans hopened⟩

end Grammar

/-! ## The whole return -/

open ParserState (Before)

namespace Stretch

variable {Ψ : Stretch} {env : Surrounding} {s₁ s₂ : ParserState}

theorem Apace.facing {rs : List Return} (h : Ψ.Apace rs s₁ s₂) (hk : s₁.token.kind.opened = 0)
    (hrest : s₁.lexer.rest = Ψ.tail) :
    s₁.lexer.substitutions = [] ∧ s₂.Facing Ψ.copy Ψ.copyTail := by
  obtain ⟨x, hx, hx₂⟩ := h.same.abreast.rest
  obtain rfl : x = [] := List.append_cancel_right (hx.symm.trans hrest)
  have henclosed := congrArg List.length h.same.abreast.lexer.enclosed
  have hopened := h.opened
  simp only [Lexer.enclosed, List.length_map] at henclosed
  rw [ParserState.opened, hk] at hopened
  have hsubs : s₁.lexer.substitutions.length = 0 := by omega
  exact ⟨List.eq_nil_of_length_eq_zero hsubs, h.same.abreast.steady₂, hx₂,
    List.eq_nil_of_length_eq_zero (henclosed.trans hsubs)⟩

/-- Where a return ends on both sides, the next stretch begins. -/
theorem Upto.exists_next {r : Return} {post : List Return} {result : List Char} {s c : ParserState}
    (h : Ψ.Upto (r :: post)) (hs : s.Steady Ψ.source) (hfresh : s.Fresh) (hopened : s.opened = 0)
    (hstop : s.lastEnd = r.loc.stop) (hpost : Before post s)
    (hresult : "return".toList ++ Ψ.copyTail = r.rewritten Ψ.source ++ result)
    (hc : c.Facing Ψ.copy result) :
    ∃ d, c.Past d ∧ ∃ Ψ' : Stretch, Ψ'.source = Ψ.source ∧ Ψ'.copy = Ψ.copy ∧ Ψ'.Upto post ∧
      Ψ'.Same s d := by
  obtain ⟨-, before, rest, result', hsource, hplace, hreplaced, hcopy⟩ := h
  obtain rfl : result' = result := List.append_cancel_left (hcopy.symm.trans hresult)
  obtain ⟨l₁, hl₁, hnext₁, hposition₁, hsource₁⟩ := hfresh
  have hsubs₁ : l₁.substitutions = [] := by
    have hsubs := Lexer.substitutions_next hnext₁
    rw [ParserState.opened] at hopened
    exact List.eq_nil_of_length_eq_zero (by omega)
  have hrest₁ : l₁.rest = rest := by
    obtain ⟨x, hx, hoffset⟩ := hl₁.source
    rw [hsource₁, hs.lexer_source, hsource] at hx
    refine (eq_of_byteLength_eq hx ?_).2.symm
    rw [← hoffset, hposition₁, hstop, hplace]
    rfl
  obtain ⟨-, -, -, -, hposition₂⟩ := hc.steady.exists_before
  let Φ : Alignment := ⟨l₁.position, c.lexer.position, l₁.rest⟩
  obtain ⟨Ψ', hsource', hcopy', hplaces, hupto, l₂, hnext₂, habreast⟩ :=
    exists_stretch Ψ.copy hl₁ hc.steady.lexer (Alignment.match_start Φ) hsubs₁
      hc.substitutions hrest₁ hc.rest hsource hreplaced hs hnext₁ hpost
  have hpast : c.Past ⟨l₂, Ψ'.moved s.token, c.token.span.stop⟩ := ⟨_, _, hnext₂, rfl⟩
  refine ⟨_, hpast, Ψ', hsource', hcopy', hupto, habreast _ (hcopy' ▸ hc.steady.past hpast) rfl rfl, ?_⟩
  rw [hplaces, ← hposition₁]
  exact hposition₂.symm.trans (Alignment.match_start Φ).eq

/-- A return is replaced by one that hands its value on. -/
theorem hands_returnStatement (n : Nat) (hin : env.context.noIn = false)
    (hk : s₁.token.kind = .keyword .return) (start : Position) :
    Ψ.Hands [] env s₁ s₂ ((Grammar.nest n).returnStatement s₁.here)
      ((Grammar.nest n).returnStatement start) := by
  intro hs a s₁' hrun
  obtain ⟨m₁, k₁, argument, hread, rfl⟩ := (Grammar.leaves_returnStatement _ _).of_run hrun
  have hpass : s₁.Pass m₁ := .token (by rw [hk]; nofun) hread.past
  have hm₁ := hs.pass hpass
  have hargument : ReflTransGen ParserState.Pass m₁ k₁ := by
    rcases hread.argument with ⟨-, rfl⟩ | ⟨e, -, -, hrun⟩
    · exact .refl
    · exact ((Grammar.alike_nest Ψ n n).outer_expression env m₁ s₂ hm₁ e k₁ hrun).1.path
  have hpassed : TransGen ParserState.Pass s₁ s₁' := .head' hpass (hargument.trans hread.ended.path)
  refine ⟨[⟨⟨s₁.here, s₁'.lastEnd⟩, argument⟩], rfl, hpassed.to_reflTransGen, fun post hpost =>
    ⟨?_, fun hapace => ?_⟩⟩
  · rintro r ⟨⟩
    exact ⟨s₁, .refl, hk, rfl⟩
  have hs' := hs.path hpassed.to_reflTransGen
  obtain ⟨hsubs, hfacing⟩ := hapace.facing (by rw [hk]; rfl) (hapace.upto.rest hs hk rfl)
  have hfresh := hs.fresh_passed hpassed
  -- what comes after the semicolon
  have hnext (result : List Char) (hopened : k₁.opened = 0)
      (hresult : "return".toList ++ Ψ.copyTail =
        Return.rewritten Ψ.source ⟨⟨s₁.here, s₁'.lastEnd⟩, argument⟩ ++ result)
      (c : ParserState) (hc : c.Facing Ψ.copy result) : ∃ d, c.Past d ∧ ∃ Ψ' : Stretch,
        Ψ'.source = Ψ.source ∧ Ψ'.copy = Ψ.copy ∧ Ψ'.Apace post s₁' d := by
    have hopened' := hread.ended.opened.trans hopened
    obtain ⟨d, hpast, Ψ', hsource, hcopy, hupto, hsame⟩ := hapace.upto.exists_next hs' hfresh hopened'
      rfl hpost hresult hc
    refine ⟨d, hpast, Ψ', hsource, hcopy, hupto, fun r hr => ?_, hsame, hopened'⟩
    rw [hsource]
    exact hapace.handed r (List.mem_cons_of_mem _ hr)
  obtain ⟨-, hhanded⟩ := hapace.handed _ (List.mem_cons_self ..)
  obtain ⟨-, -, -, result, -, -, -, hcopy⟩ := hapace.upto
  rcases hread.argument with ⟨rfl, rfl⟩ | ⟨e, rfl, hline, hrun⟩
  · have hresult : Ψ.copyTail = [' '] ++ '{' :: '}' :: ';' :: result :=
      List.append_cancel_left (hcopy.trans (congrArg (· ++ result) hhanded))
    obtain ⟨m₂, hpast, hm₂, hk₂, hline₂⟩ := (hresult ▸ hfacing).mark [' '] (.inr rfl)
      (show ('{', Punctuator.leftBrace) ∈ Lexer.handingMarks by decide)
    refine Grammar.outcome_returnStatement hread.allowed hpast hk₂ hline₂
      ((Grammar.outcome_object_none (fun _ => .inl rfl) hin hk₂ hm₂ (fun loc c hc hck => ?_) n).mono
        fun e c he => he.2.2)
    obtain ⟨d, hpast', hd⟩ := hnext result (hread.past.opened.trans (by rw [hsubs]; rfl)) hcopy c hc
    exact ⟨hck, d, hpast', rfl, hd⟩
  · obtain ⟨before, text, rest, hsource, hloc, hreplacement⟩ := hhanded
    have hresult : Ψ.copyTail =
        [' '] ++ '{' :: ("value: (".toList ++ (text ++ ')' :: '}' :: ';' :: result)) := by
      refine List.append_cancel_left (hcopy.trans ?_)
      have hrewritten : Return.rewritten Ψ.source ⟨⟨s₁.here, s₁'.lastEnd⟩, some e⟩ = _ := hreplacement
      rw [hrewritten]
      simp only [List.append_assoc]
      rfl
    obtain ⟨m₂, hpast, hm₂, hk₂, hline₂⟩ := (hresult ▸ hfacing).mark [' '] (.inr rfl)
      (show ('{', Punctuator.leftBrace) ∈ Lexer.handingMarks by decide)
    refine Grammar.outcome_returnStatement hread.allowed hpast hk₂ hline₂
      ((Grammar.outcome_object_some (fun _ => .inl rfl) hin hk₂ hm₂
        (fun p j hp => Grammar.exists_argument hs (by rw [hk]; nofun) hsubs hread.past hline hrun
          (hm₁.path hargument) hread.ended hsource hloc hp j)
        (fun loc loc' loc'' id inner c hinner hid hopened hc hck => ?_) n).mono fun e c he => he.2.2)
    obtain ⟨d, hpast', hd⟩ := hnext result hopened hcopy c hc
    refine ⟨hck, d, hpast', ?_, hd⟩
    obtain ⟨idLoc, _⟩ := id
    cases hid
    show Stmt.return _ (some (.object _ [.value _ _ (.paren _ (placeless inner))])) = _
    rw [hinner]
    rfl

end Stretch

end WithScope
