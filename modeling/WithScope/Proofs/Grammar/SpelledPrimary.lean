import WithScope.Proofs.Grammar.NestedPrimary
import WithScope.Proofs.Grammar.OrdinaryPrimary
import WithScope.Proofs.Grammar.TightSteps
import WithScope.Proofs.Tree.Spelled

/-!
# Primary expressions are spelled as their kinds say

`Grammar.Spells source g` says that the productions through which the grammar contains itself yield
trees whose nodes are all spelled in the text as their kinds say. Then so do the ordinary
productions, which add no node of which there is anything to say, and here those of templates, arrow
functions, fields and primary expressions. These have to be followed from token to token.

* `Grammar.Underway.next` — a template is put together from its parts: whatever makes up the rest of
  it makes up, with the parts before it, the whole;
* `Grammar.Spells.arrowRest` — an arrow stands on the line where the parameters end.
-/

namespace WithScope

open WithScope.Parser (Leaves)
open WithScope.ParserState (From)

variable {source : List Char} {start : Position} {env : Surrounding} {s s' : ParserState}

/-- The productions through which a grammar contains itself yield trees that are spelled as they
should be. -/
structure Grammar.Spells (source : List Char) (g : Grammar) : Prop where
  /-- what they yield is nested -/
  nests : g.Nests source
  statement : ∀ {start} isTopLevel,
    (g.statement isTopLevel).Tells (From source start) fun s => (Node.stmt s).Written source
  assignment : ∀ {start},
    g.assignment.Tells (From source start) fun e => (Node.expr e).Written source
  operation : ∀ {start} floor,
    (g.operation floor).Tells (From source start) fun e => (Node.expr e).Written source
  unary : ∀ {start}, g.unary.Tells (From source start) fun e => (Node.expr e).Written source
  leftHandSide : ∀ {start},
    g.leftHandSide.Tells (From source start) fun e => (Node.expr e).Written source
  newExpr : ∀ {start}, g.newExpr.Tells (From source start) fun e => (Node.expr e).Written source
  arrayPattern : ∀ {start},
    g.arrayPattern.Tells (From source start) fun p => (Node.pat .binding p).Written source
  objectPattern : ∀ {start},
    g.objectPattern.Tells (From source start) fun p => (Node.pat .binding p).Written source

/-! ## Parts of templates -/

/-- A kind of token that is a stretch of text in a template, with the delimiter `opening` before
it. -/
def TokenKind.IsPart (opening : Char) : TokenKind → Prop
  | .noSubstitutionTemplate | .templateHead => opening = '\x60'
  | .templateMiddle | .templateTail => opening = '}'
  | _ => False

/-- The stretch of text that a token is. -/
def Token.quasi (t : Token) : Quasi :=
  ⟨t.span, t.text, (unescape t.text.toList).toOption.map String.ofList,
    t.kind = .noSubstitutionTemplate || t.kind = .templateTail⟩

theorem ParserState.Tight.quasi {opening : Char} (h : s.Tight source)
    (hk : s.token.kind.IsPart opening) : s.token.quasi.Spelled source opening := by
  obtain ⟨raw, hvalue, htext⟩ : ∃ raw, s.token.value = .text (String.ofList raw) ∧
      s.token.spelling.toList = opening :: raw ++ s.token.quasi.closing := by
    have hspelled := h.spelled
    unfold Quasi.closing Token.quasi
    generalize s.token.kind = kind at hk hspelled
    cases kind <;> cases hk <;> exact hspelled
  have hraw : s.token.text.toList = raw := by rw [Token.text, hvalue, String.toList_ofList]
  refine ⟨?_, rfl⟩
  show TextBetween source s.here s.token.span.stop
    (opening :: s.token.text.toList ++ s.token.quasi.closing)
  rw [hraw, ← htext]
  exact h.textBetween

namespace Grammar

/-- The current token is a part of a template, of which the parts before have been read since
`start`: whatever makes up the rest of the template makes up all of it with them. -/
structure Underway (source : List Char) (start : Position) (isTagged : Bool)
    (parts : TemplateParts) (s : ParserState) : Prop where
  fromStart : s.From source start
  written : ∀ e ∈ parts.expressions, (Node.expr e).Written source
  cooked : isTagged = false → ∀ q ∈ parts.quasis, q.cooked.isSome
  completes : ∃ opening, s.token.kind.IsPart opening ∧ ∀ quasis expressions stop text,
    Assembles source opening quasis expressions s.here stop text →
    ∃ whole, Assembles source '\x60' (parts.quasis.reverse ++ quasis)
      (parts.expressions.reverse ++ expressions) start stop whole

/-- A template has been read to its end. -/
structure Complete (source : List Char) (start : Position) (isTagged : Bool)
    (parts : TemplateParts) (s : ParserState) : Prop where
  fromStart : s.From source start
  written : ∀ e ∈ parts.expressions, (Node.expr e).Written source
  cooked : isTagged = false → ∀ q ∈ parts.quasis, q.cooked.isSome
  assembles : ∃ whole, Assembles source '\x60' parts.quasis.reverse parts.expressions.reverse start
    s.lastEnd whole

namespace Underway

variable {isTagged : Bool} {parts : TemplateParts} {s₁ s₂ : ParserState}
  (hs : Underway source start isTagged parts s) (hpast : s.Past s₁)
  (hlegal : isTagged = false → s.token.quasi.cooked.isSome)
include hs hpast hlegal

/-- The last part completes a template. -/
theorem last (htail : s.token.quasi.tail = true) :
    Complete source start isTagged ⟨s.token.quasi :: parts.quasis, parts.expressions⟩ s₁ := by
  obtain ⟨hfrom, hwritten, hcooked, opening, hpart, hcompletes⟩ := hs
  refine ⟨hfrom.past hpast, hwritten, fun htag => ?_, ?_⟩
  · exact List.forall_mem_cons.2 ⟨hlegal htag, hcooked htag⟩
  · have hwhole := hcompletes _ _ _ _ (.tail (hfrom.tight.quasi hpart) htail)
    rw [← List.reverse_cons, List.append_nil] at hwhole
    exact hpast.lastEnd ▸ hwhole

/-- With a part that is not the last and an expression after it, a template is still underway. -/
theorem next {e : Expr} (htail : s.token.quasi.tail = false) (hs₂ : s₂.From source start)
    (he : (Node.expr e).Written source) (hloc : e.loc = ⟨s₁.here, s₂.lastEnd⟩)
    (hle : s₁.here.offset ≤ s₂.lastEnd.offset) (hpart₂ : s₂.token.kind.IsPart '}') :
    Underway source start isTagged ⟨s.token.quasi :: parts.quasis, e :: parts.expressions⟩ s₂ := by
  obtain ⟨hfrom, hwritten, hcooked, opening, hpart, hcompletes⟩ := hs
  have htight₁ := (hfrom.past hpast).tight
  refine ⟨hs₂, List.forall_mem_cons.2 ⟨he, hwritten⟩,
    fun htag => List.forall_mem_cons.2 ⟨hlegal htag, hcooked htag⟩, '}', hpart₂,
    fun quasis expressions stop text hrest => ?_⟩
  obtain ⟨gap, hgap, -⟩ := htight₁.gapBetween
  obtain ⟨gap', hgap', -⟩ := hs₂.tight.gapBetween
  obtain ⟨text', htext⟩ :=
    exists_textBetween htight₁.sound.isPlace_here hs₂.tight.sound.isPlace_lastEnd hle
  rw [hpast.lastEnd] at hgap
  have hwhole := hcompletes _ _ _ _ (.expression (e := e) (hfrom.tight.quasi hpart) htail
    (by rw [hloc]; exact hgap) (by rw [hloc]; exact htext) (by rw [hloc]; exact hgap') hrest)
  simpa using hwhole

end Underway

/-- In parentheses that may hold parameters, items have been read up to the current token. -/
structure InItems (source : List Char) (opening : Position) (items : List Expr)
    (rest : Option Pat) (s : ParserState) : Prop where
  fromOpening : s.From source opening
  writtenItems : ∀ e ∈ items, (Node.expr e).Written source
  writtenRest : ∀ p ∈ rest, (Node.pat .binding p).Written source
  upTo : ItemsUpTo source opening (items.map Expr.loc ++ rest.toList.map Pat.loc) s.lastEnd

namespace Spells

variable {g : Grammar} (h : g.Spells source)
include h

/-- Ordinary productions yield trees that are spelled as they should be. -/
theorem carries : g.Carries (From source start) (Node.Spelled source) where
  off := Node.offOrdinary_spelled
  statement := h.statement
  assignment := h.assignment
  leftHandSide := h.leftHandSide
  arrayPattern := h.arrayPattern
  objectPattern := h.objectPattern

/-! ## Templates -/

theorem templateStep {isTagged : Bool} {parts : TemplateParts}
    (hs : Underway source start isTagged parts s) :
    Leaves env s (g.templateStep isTagged parts)
      (fun r s' => Sum.elim (Underway source start isTagged · s')
        (Complete source start isTagged · s') r) := by
  refine .bind Parser.leaves_bump fun t s₁ ⟨ht, hpast⟩ => ?_
  subst ht
  refine .ite (fun _ => .fail _ _) fun hpasses => ?_
  have hlegal : isTagged = false → s.token.quasi.cooked.isSome := fun htag => by
    simpa [htag, Token.quasi, Option.isSome_iff_ne_none] using hpasses
  refine .ite (fun htail => .pure (hs.last hpast hlegal htail)) fun htail => ?_
  refine .bind (Parser.leaves_construct (hs.fromStart.past hpast) h.carries.expression.allowIn
    h.nests.expression.withContext) fun e s₂ ⟨hs₂, he, hlt, hloc⟩ => .kind ?_
  have hnext := hs.next hpast hlegal (Bool.eq_false_iff.2 htail) hs₂ he hloc hlt.le
  split
  · next hk => exact .pure (hnext (by rw [hk]; rfl))
  · next hk => exact .pure (hnext (by rw [hk]; rfl))
  · exact .unexpected

/-- A template from its first part on. -/
theorem template (isTagged : Bool) (hs : s.From source start) (hk : s.token.kind.IsPart '\x60') :
    Leaves env s (g.template isTagged) fun t s' => s'.From source start ∧
      (Node.template t).Written source ∧
      (isTagged = false → (Node.expr (.template t)).Assembled source) := by
  refine .here (.bind (P := Complete source s.here isTagged) ?_ fun parts s₁ hparts => ?_)
  · exact .repeatFrom (P := Underway source s.here isTagged) (fun parts s' => h.templateStep)
      ⟨hs.tight.fromHere, List.forall_mem_nil _, fun _ => List.forall_mem_nil _, '\x60', hk,
        fun _ _ _ text hrest => ⟨text, hrest⟩⟩
  · obtain ⟨hfrom, hwritten, hcooked, hwhole⟩ := hparts
    refine .spanFrom (.pure ⟨hs.trans hfrom, .intro ⟨trivial, trivial, hwhole⟩ ?_, fun htag => ?_⟩)
    · exact List.forall_mem_map.2 fun e he => hwritten e (List.mem_reverse.1 he)
    · exact fun q hq => hcooked htag q (List.mem_reverse.1 hq)

/-! ## Functions -/

omit h in
/-- A function begins where it is said to, and is `async` if it is said to be. -/
theorem leaves_function (first : Position) (isAsync nameRequired : Bool) :
    Leaves env s (g.function first isAsync nameRequired) fun f _ =>
      f.loc.start = first ∧ f.isAsync = isAsync :=
  .after fun _ _ => .after fun _ _ => .after fun _ _ => .after fun ⟨_, _⟩ _ =>
    .spanFrom (.pure ⟨rfl, rfl⟩)

/-- A function without the word `async`. -/
theorem plainFunction (first : Position) (nameRequired : Bool) :
    (g.function first false nameRequired).Tells (From source start) fun f =>
      (Node.function f).Written source ∧ f.Unbroken source := by
  intro env s hs
  refine ((h.carries.function first false nameRequired env s hs).and
    (leaves_function first false nameRequired)).mono ?_
  rintro f s' ⟨⟨hs', hf⟩, -, hasync⟩
  exact ⟨hs', hf, fun h => absurd (hasync.symm.trans h) Bool.false_ne_true⟩

/-- A function from the word `function` on, with the word `async` before it. -/
theorem asyncFunction (hs : s.From source start) (hasync : s.AtAsyncFunction) (hpast : s.Past s')
    (nameRequired : Bool) : Leaves env s' (g.function s.here true nameRequired) fun f s'' =>
      s''.From source start ∧ (Node.function f).Written source ∧ f.Unbroken source := by
  obtain ⟨hname, t, hnext, hk, hline⟩ := hasync
  rw [← hpast.token hnext] at hk hline
  have hs' := hs.past hpast
  refine ((h.carries.function s.here true nameRequired env s' hs').and
    (leaves_function s.here true nameRequired)).mono ?_
  rintro f s'' ⟨⟨hs'', hf⟩, hstart, -⟩
  refine ⟨hs'', hf, fun _ => ⟨s'.here, s'.token.span.stop, ?_, hs'.tight.word hk (by decide)⟩⟩
  rw [hstart]
  exact hs.tight.afterName hs'.tight hpast.lastEnd hline hname

/-- An arrow function whose parameters have been read. -/
theorem arrowRest {params : List Pat} {isAsync : Bool} (hs : s.From source start)
    (hline : s.token.newlineBefore = false)
    (hhead : ArrowHead source start s.lastEnd isAsync params)
    (hparams : ∀ p ∈ params, (Node.pat .binding p).Written source) :
    Leaves env s (g.arrowRest start params isAsync) fun e s' =>
      s'.From source start ∧ (Node.expr e).Written source := by
  refine .bind (Parser.leaves_expectMark _) fun _ s₁ ⟨hk, hpast⟩ => .context ?_
  have hs₁ := hs.past hpast
  have hbody (env : Surrounding) : Leaves env s₁
      (do if ← Parser.atMark .leftBrace then return ArrowBody.block (← Parser.allowIn g.block)
          else return ArrowBody.expr (← g.assignment) : Parser ArrowBody) fun body s' =>
      s'.From source start ∧ body.node.Written source ∧
        body.located.loc = ⟨s₁.here, s'.lastEnd⟩ := by
    refine .look (Parser.leaves_atKind _) fun isBlock _ => .ite (fun _ => ?_) fun _ => ?_
    · refine .bind
        (Parser.leaves_construct hs₁ h.carries.block.allowIn h.nests.block.withContext) ?_
      exact fun body s₂ ⟨hs₂, hb, _, hloc⟩ => .pure ⟨hs₂, hb, hloc⟩
    · refine .bind (Parser.leaves_construct hs₁ h.assignment h.nests.assignment) ?_
      exact fun body s₂ ⟨hs₂, hb, _, hloc⟩ => .pure ⟨hs₂, hb, hloc⟩
  refine .bind (.inBody hbody) fun body s₂ ⟨hs₂, hb, hloc⟩ => .spanFrom (.pure ⟨hs₂, ?_⟩)
  obtain ⟨gap, hgap, -⟩ := hs₁.tight.gapBetween
  have hadjoins := hs.tight.adjoins hline
  refine .intro ⟨trivial, ⟨s.lastEnd, s.here, s₁.lastEnd, gap, hhead, hadjoins, ?_, ?_⟩, trivial⟩
    (List.forall_mem_append.2 ⟨List.forall_mem_map.2 hparams, List.forall_mem_singleton.2 hb⟩)
  · exact hpast.lastEnd ▸ hs.tight.mark hk (by decide)
  · rw [hloc]
    exact hgap

/-! ## Classes -/

theorem classField (isStatic : Bool) {key : Key} (hkey : (Node.key key).Written source) :
    (g.classField start isStatic key).Tells (From source start) fun m =>
      (Node.member m).Written source := by
  refine .after fun hasValue => .join h.assignment.inBody.some .none fun value hvalue =>
    .ended fun loc _ hended => .pure (.intro ⟨hended, trivial, trivial⟩ ?_)
  refine List.forall_mem_cons.2 ⟨hkey, forall_mem_toList fun e he => ?_⟩
  exact Node.offOrdinary_spelled.intro rfl (List.forall_mem_singleton.2 (hvalue e he))

theorem methodOrField (isStatic : Bool) :
    (g.methodOrField start isStatic).Tells (From source start) fun m =>
      (Node.member m).Written source := by
  refine .after fun m => .bind h.carries.key fun _ hkey => ?_
  refine .after fun _ => ?_
  exact .ite (h.carries.classMethod start isStatic m hkey) (.ite (h.classField isStatic hkey)
    .unexpected)

theorem member : g.member.Tells (From source start) fun m => (Node.member m).Written source := by
  refine .here fun start => .after fun isStatic => .ite ?_ (h.methodOrField false)
  refine .after fun _ => .after fun isBlock => .ite ?_ (h.methodOrField true)
  refine .bind h.carries.block.inBody fun b hb => .after fun loc => .pure ?_
  -- the block is not kept, but its statements are
  exact Node.offOrdinary_spelled.intro rfl (Node.all_iff.1 hb).2

theorem classDefinition (nameRequired : Bool) :
    (g.classDefinition nameRequired).Tells (From source start) fun c =>
      (Node.class c).Written source :=
  h.carries.classDefinition h.member nameRequired

/-! ## Names, arrows and `async` -/

omit h in
/-- A bare parameter. -/
theorem written_name (id : Ident) : ∀ p ∈ [Pat.ident id], (Node.pat .binding p).Written source :=
  List.forall_mem_singleton.2 (Node.offOrdinary_spelled.leaf rfl rfl)

theorem nameOrArrow (hs : s.Tight source) : Leaves env s (g.nameOrArrow s.here) fun e s' =>
    s'.From source s.here ∧ (Node.expr e).Written source := by
  refine .bind Parser.leaves_ident fun id s₁ ⟨hid, hpast⟩ =>
    .look leaves_atArrow fun isArrow hline => .ite (fun harrow => ?_)
    fun _ => .pure ⟨hs.fromHere.past hpast, ?_⟩
  · exact h.arrowRest (hs.fromHere.past hpast) (hline harrow) (.name hid) (written_name id)
  · exact Node.offOrdinary_spelled.leaf rfl rfl

theorem asyncArrow (hs : s.Tight source) (hname : s.token.isIdentifier "async" = true)
    {next : Token} (hnext : s.lexer.next.1 = .ok next) (hline : next.newlineBefore = false) :
    Leaves env s (g.asyncArrow s.here) fun e s' =>
      s'.From source s.here ∧ (Node.expr e).Written source := by
  refine .bind Parser.leaves_discardBump fun _ s₁ hpast => .bind Parser.leaves_ident
    fun id s₂ ⟨hid, hpast₂⟩ => .look leaves_atArrow fun isArrow harrow => .ite (fun h₂ => ?_)
    fun _ => .unexpected
  have hs₁ := hs.fromHere.past hpast
  have hasync : AfterName source s.here "async" s₁.here :=
    hs.afterName hs₁.tight hpast.lastEnd (hpast.token hnext ▸ hline) hname
  refine h.arrowRest (hs₁.past hpast₂) (harrow h₂) (.asyncName ?_ ?_) (written_name id)
  · rw [hid]
    exact hasync
  · rw [hid]

/-- Arguments stand in parentheses. -/
theorem arguments (hs : s.Tight source) : Leaves env s g.arguments fun es s' =>
    s'.From source s.here ∧ (∀ e ∈ es, (Node.expr e).Written source) ∧
      InParens source s.here (es.map Expr.loc) s'.lastEnd := by
  refine .bind (Parser.leaves_expectMark _) fun _ s₁ ⟨hk, hpast⟩ => .allowIn fun _ => ?_
  have hs₁ : s₁.From source s₁.lastEnd := (hs.fromHere.past hpast).tight.fromLastEnd
  refine (Parser.leaves_commaSeparated hs₁ rfl h.carries.spreadOrAssignment
    h.nests.spreadOrAssignment).mono ?_
  intro es s' ⟨hs', hes, s₂, hs₂, hk₂, hpast₂, hitems⟩
  exact ⟨hs.fromHere_of_past hpast hs', hes, hs.inParens hk hpast hitems hs₂ hk₂ hpast₂⟩

/-- A call of something named `async`, or an arrow function whose arguments become parameters. -/
theorem asyncCallOrArrow (hs : s.Tight source) (hname : s.token.isIdentifier "async" = true)
    {next : Token} (hnext : s.lexer.next.1 = .ok next) (hline : next.newlineBefore = false) :
    Leaves env s (g.asyncCallOrArrow s.here) fun e s' =>
      s'.From source s.here ∧ (Node.expr e).Written source := by
  refine .bind Parser.leaves_ident fun callee s₁ ⟨_, hpast⟩ => ?_
  have hs₁ := hs.fromHere.past hpast
  have hasync : AfterName source s.here "async" s₁.here :=
    hs.afterName hs₁.tight hpast.lastEnd (hpast.token hnext ▸ hline) hname
  refine .bind (h.arguments hs₁.tight) fun arguments s₂ ⟨hs₂, ha, hlist⟩ => ?_
  refine .look leaves_atArrow fun isArrow harrow => .ite (fun h₂ => ?_) fun _ => ?_
  · refine .ofExcept fun params hparams => h.arrowRest (hs₁.trans hs₂) (harrow h₂) ?_ ?_
    · exact .asyncList hasync (map_loc_of_toParams hparams ▸ hlist)
    · exact Node.offOrdinary_spelled.offPatterns.toParams ha hparams
  · refine .spanFrom (.pure ⟨hs₁.trans hs₂, .intro ⟨trivial, trivial, trivial⟩ ?_⟩)
    refine List.forall_mem_cons.2 ⟨?_, ?_⟩
    · exact Node.offOrdinary_spelled.leaf rfl rfl
    · exact List.forall_mem_map.2 ha

omit h in
/-- A function as an expression. -/
theorem written_function {f : Func} (hf : (Node.function f).Written source)
    (hunbroken : f.Unbroken source) : (Node.expr (.function f)).Written source :=
  .intro ⟨trivial, hunbroken, trivial⟩ (List.forall_mem_singleton.2 hf)

theorem identifierExpression :
    g.identifierExpression.Tells (From source start) fun e => (Node.expr e).Written source := by
  refine Parser.tells_of_here fun env s hs => .here (.look leaves_atAsyncFunction
    fun isFunction hasync => .ite (fun hf => ?_) fun _ => .look (Parser.leaves_atName _)
    fun isAsync hname => .ite (fun ha => ?_) fun _ => h.nameOrArrow hs)
  · refine .bind Parser.leaves_discardBump fun _ s₁ hpast => ?_
    refine .bind (h.asyncFunction hs.fromHere (hasync hf) hpast false) fun f s₂ ⟨hs₂, hf, hu⟩ => ?_
    exact .pure ⟨hs₂, written_function hf hu⟩
  · refine .look Parser.leaves_peek fun next hnext =>
      .ite (fun _ => h.nameOrArrow hs) fun hline => ?_
    split
    · exact h.asyncArrow hs (hname ▸ ha) hnext (Bool.eq_false_iff.2 hline)
    · exact h.asyncCallOrArrow hs (hname ▸ ha) hnext (Bool.eq_false_iff.2 hline)
    · exact h.nameOrArrow hs

/-! ## Parentheses -/

/-- One more item, or the rest, or the end. -/
theorem parenItemsStep {opening : Position} {before : List Expr}
    (hs : InItems source opening before.reverse none s) :
    Leaves env s (g.parenItemsStep before) (fun r s' => Sum.elim
      (fun before => InItems source opening before.reverse none s')
      (fun list => InItems source opening list.items list.rest s') r) := by
  refine .look (Parser.leaves_atKind _) fun isEnd _ => .ite (fun _ => .pure hs) fun _ => ?_
  refine .look (Parser.leaves_atKind _) fun isRest _ => .ite (fun _ => ?_) fun _ => ?_
  · refine .bind (Parser.leaves_item hs.fromOpening h.carries.restBinding h.nests.restBinding) ?_
    intro rest s₁ ⟨hs₁, hrest, hitem, _⟩
    exact .pure ⟨hs₁, hs.writtenItems, fun p hp => Option.mem_some.1 hp ▸ hrest, hitem _⟩
  · refine .bind (Parser.leaves_item hs.fromOpening h.assignment h.nests.assignment) ?_
    intro item s₁ ⟨hs₁, hi, hitem, hcomma⟩
    have hitems : ∀ e ∈ (item :: before).reverse, (Node.expr e).Written source := by
      rw [List.reverse_cons]
      exact List.forall_mem_append.2 ⟨hs.writtenItems, List.forall_mem_singleton.2 hi⟩
    have hnext {s' : ParserState} (hs' : s'.From source opening)
        (hupTo : ∀ locs, ItemsUpTo source opening (locs ++ [item.loc]) s'.lastEnd) :
        InItems source opening (item :: before).reverse none s' :=
      ⟨hs', hitems, nofun, by simpa using hupTo _⟩
    refine .look (Parser.leaves_atKind _) fun isLast _ =>
      .ite (fun _ => .pure (hnext hs₁ hitem)) fun _ => ?_
    refine .bind (Parser.leaves_expectMark _) fun _ s₂ ⟨hk, hpast⟩ => ?_
    have hs₂ := hnext (hs₁.past hpast) fun locs => hcomma locs s₂ hk hpast
    exact .look (Parser.leaves_atKind _) fun isEnd _ =>
      .ite (fun _ => .pure hs₂) fun _ => .pure hs₂

/-- An expression in parentheses, or an arrow function with parameters in them. -/
theorem parenOrArrow :
    g.parenOrArrow.Tells (From source start) fun e => (Node.expr e).Written source := by
  refine Parser.tells_of_here fun env s hs => .here (.bind (Parser.leaves_expectMark _)
    fun _ s₁ ⟨hk₁, hpast₁⟩ => ?_)
  have hs₁ : s₁.From source s₁.lastEnd := (hs.fromHere.past hpast₁).tight.fromLastEnd
  refine .bind (P := fun list s' => InItems source s₁.lastEnd list.items list.rest s')
    (.allowIn fun _ => .repeatFrom
      (P := fun before s' => InItems source s₁.lastEnd before.reverse none s')
      (fun _ _ hs' => h.parenItemsStep hs')
      ⟨hs₁, List.forall_mem_nil _, nofun, .none⟩) fun list s₂ ⟨hs₂, hitems, hrest, hupTo⟩ => ?_
  refine .bind (Parser.leaves_expectKind _) fun close s₃ ⟨_, hk₃, hpast₃⟩ => ?_
  have hs₃ : s₃.From source s.here := (hs.fromHere_of_past hpast₁ hs₂).past hpast₃
  refine .look leaves_atArrow fun isArrow hline => .ite (fun harrow => ?_) fun _ => ?_
  · refine .ofExcept fun params hparams => h.arrowRest hs₃ (hline harrow) (.list ?_)
      (List.forall_mem_append.2 ⟨?_, fun p hp => hrest p (Option.mem_toList.1 hp)⟩)
    · rw [List.map_append, map_loc_of_toParams hparams]
      exact hs.inParens hk₁ hpast₁ hupTo hs₂.tight hk₃ hpast₃
    · exact Node.offOrdinary_spelled.offPatterns.toParams hitems hparams
  · split
    · exact .fail _ _
    · refine .ite (fun _ => .fail _ _) fun _ => .spanFrom (.pure ⟨hs₃, ?_⟩)
      rw [‹list.items = _›] at hitems
      have hinner := Node.offOrdinary_spelled.joined hitems
      exact Node.offOrdinary_spelled.intro rfl (List.forall_mem_singleton.2 hinner)

/-! ## Regular expressions -/

omit h in
/-- What is read again in place of a slash is spelled as a regular expression. -/
theorem regExp (hs : s.From source start) (hk : s.token.kind.isSlash) :
    Leaves env s Grammar.regExp fun e s' =>
      s'.From source start ∧ Expr.Whole (Node.Spelled source) e := by
  refine .bind Parser.leaves_rescan fun _ s₁ hreread =>
    .bind Parser.leaves_bump fun t s₂ ⟨ht, hpast⟩ => ?_
  obtain ⟨body, flags, htext, hbetween⟩ := hs.tight.regExp hk hreread
  have hloc : RegExpBetween source s₁.here s₁.token.span.stop (String.ofList body).toList
      (String.ofList flags).toList := by
    rwa [String.toList_ofList, String.toList_ofList]
  obtain ⟨_, rest, _, _, _, _, hparts⟩ := hbetween
  rw [ht, htext, regExpParts?_eq '/' hparts]
  exact .pure ⟨(hs.move hreread.move).past hpast,
    .intro ⟨trivial, trivial, hloc⟩ (List.forall_mem_nil _), rfl, rfl⟩

/-! ## All of them -/

/-- A template without a tag. -/
theorem untaggedTemplate (hs : s.From source start) (hk : s.token.kind.IsPart '\x60') :
    Leaves env s (do return .template (← g.template false) : Parser Expr) fun e s' =>
      s'.From source start ∧ (Node.expr e).Written source :=
  .bind (h.template false hs hk) fun _ _ ⟨hs', ht, hlegal⟩ =>
    .pure ⟨hs', .intro ⟨trivial, trivial, hlegal rfl⟩ (List.forall_mem_singleton.2 ht)⟩

theorem primary : g.primary.Tells (From source start) fun e => (Node.expr e).Written source := by
  intro env s hs
  refine .kind ?_
  split
  · exact h.parenOrArrow env s hs
  · exact (h.carries.arrayLiteral.mono fun _ he => he.all) env s hs
  · exact (h.carries.objectLiteral.mono fun _ he => he.all) env s hs
  · refine .here (.bind (h.plainFunction _ false env s hs) fun f s' ⟨hs', hf, hu⟩ => ?_)
    exact .pure ⟨hs', written_function hf hu⟩
  · refine .bind (h.classDefinition false env s hs) fun c s' ⟨hs', hc⟩ => .pure ⟨hs', ?_⟩
    exact Node.offOrdinary_spelled.intro rfl (List.forall_mem_singleton.2 hc)
  · exact (h.carries.importExpression.mono fun _ he => he.all) env s hs
  · exact h.identifierExpression env s hs
  · next hk => exact h.untaggedTemplate hs (by rw [hk]; rfl)
  · next hk => exact h.untaggedTemplate hs (by rw [hk]; rfl)
  · exact ((h.carries.literal fun _ _ => regExp).mono fun _ he => he.all) env s hs

end Spells

end Grammar

end WithScope
