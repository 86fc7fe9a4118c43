import WithScope.Proofs.Grammar.Nested
import WithScope.Proofs.Tree.CoverRule
import WithScope.Syntax.Outline

/-!
# Reading again keeps the trace

The trace of a construct is what it does with names, in their order and in the scopes that it opens:
names are declared, variables are read or written, and `this` is written down. It does not tell what
holds an identifier, so a pattern that an expression spells can have the trace of the expression.

* `coverTrace` — an expression that is nested in a text has the trace of the pattern that it spells;
* `Expr.Built.nested` — whatever the parser builds is nested;
* `trace_toPattern` — so reading again loses no name and invents none.
-/

namespace WithScope

/-! ## Traces -/

/-- What is done where something occurs. -/
inductive Effect
  /-- a name is declared -/
  | declares (site : BindSite) (id : Ident)
  /-- a variable is read or written -/
  | uses (id : Ident)
  /-- the word `this` is written down -/
  | this (loc : Span)
  /-- a target that binds no name stands where a name should be declared -/
  | misplaced (target : Expr)

/-- What an occurrence does. Identifiers that are no values do nothing. -/
def Occurrence.effects : Occurrence → List Effect
  | .declaration site id => [.declares site id]
  | .reference id role _ => if role.isValue then [.uses id] else []
  | .this loc => [.this loc]
  | .misplaced target => [.misplaced target]

/-- What an event does, with the scopes that are open there. -/
def Event.effects (e : Event) : List (List ScopeKind × Effect) :=
  e.occurrence.effects.map fun effect => (e.scopes.map ScopeKey.kind, effect)

/-- What is done by one occurrence or in one scope. -/
inductive Trace
  | effect (e : Effect)
  | scope (kind : ScopeKind) (items : List Trace)

mutual

/-- What is done in an outline. -/
def Outline.trace : Outline → List Trace
  | .occurrence o => o.effects.map .effect
  | .scope kind items => [.scope kind (outlineTrace items)]

/-- What is done in outlines. -/
def outlineTrace : List Outline → List Trace
  | [] => []
  | o :: items => o.trace ++ outlineTrace items

end

mutual

/-- The effects in a trace, inside of the given scopes. -/
def Trace.effects (scopes : List ScopeKind) : Trace → List (List ScopeKind × Effect)
  | .effect e => [(scopes, e)]
  | .scope kind items => traceEffects (scopes ++ [kind]) items

/-- The effects in traces, inside of the given scopes. -/
def traceEffects (scopes : List ScopeKind) : List Trace → List (List ScopeKind × Effect)
  | [] => []
  | t :: items => t.effects scopes ++ traceEffects scopes items

end

@[simp] theorem outlineTrace_nil : outlineTrace [] = [] := rfl

@[simp] theorem outlineTrace_cons (o : Outline) (items : List Outline) :
    outlineTrace (o :: items) = o.trace ++ outlineTrace items := rfl

@[simp] theorem outlineTrace_append (items items' : List Outline) :
    outlineTrace (items ++ items') = outlineTrace items ++ outlineTrace items' := by
  induction items with
  | nil => rfl
  | cons o items ih => simp [ih]

@[simp] theorem trace_mention (parent : Parent) (role : Role) (id : Ident) :
    (mention parent role id).trace = if role.isValue then [.effect (.uses id)] else [] := by
  cases h : role.isValue <;> simp [mention, Outline.trace, Occurrence.effects, h]

theorem traceEffects_append (scopes : List ScopeKind) (items items' : List Trace) :
    traceEffects scopes (items ++ items') = traceEffects scopes items ++ traceEffects scopes items' := by
  induction items with
  | nil => rfl
  | cons t items ih => simp [traceEffects, ih]

theorem traceEffects_map_effect (scopes : List ScopeKind) (effects : List Effect) :
    traceEffects scopes (effects.map .effect) = effects.map fun e => (scopes, e) := by
  induction effects with
  | nil => rfl
  | cons e effects ih => simp [traceEffects, Trace.effects, ih]

mutual

/-- A trace tells which scopes are open where something is done. -/
theorem Outline.traceEffects_trace (scopes : List ScopeKey) (opened : Nat) (o : Outline) :
    traceEffects (scopes.map ScopeKey.kind) o.trace
      = (o.events scopes opened).flatMap Event.effects := by
  cases o with
  | occurrence o => simp [Outline.trace, Outline.events, traceEffects_map_effect, Event.effects]
  | scope kind items =>
    have hitems := traceEffects_outlineTrace (scopes ++ [⟨kind, opened⟩]) (opened + 1) items
    rw [List.map_append, List.map_singleton] at hitems
    simp [Outline.trace, Outline.events, traceEffects, Trace.effects, hitems]

theorem traceEffects_outlineTrace (scopes : List ScopeKey) (opened : Nat) (items : List Outline) :
    traceEffects (scopes.map ScopeKey.kind) (outlineTrace items)
      = (outlineEvents scopes opened items).flatMap Event.effects := by
  match items with
  | [] => rfl
  | o :: items =>
    simp [outlineEvents, traceEffects_append, o.traceEffects_trace scopes opened,
      traceEffects_outlineTrace scopes (opened + o.scopeCount) items]

end

/-! ## What holds an identifier is not seen -/

theorem Expr.trace_outline (e : Expr) (parent parent' : Parent) :
    outlineTrace (e.outline parent) = outlineTrace (e.outline parent') := by
  cases e <;> rfl

theorem Pat.trace_outline (p : Pat) (use : PatUse) (parent parent' : Parent) :
    outlineTrace (p.outline use parent) = outlineTrace (p.outline use parent') := by
  cases p
  case ident => simp [Pat.outline]
  all_goals rfl

/-- A key does the same in a literal and in a pattern. -/
theorem Key.trace_outline (key : Key) (parent parent' : Parent) :
    outlineTrace (key.outline parent) = outlineTrace (key.outline parent') := by
  cases key with
  | computed e => exact e.trace_outline parent parent'
  | _ => rfl

/-! ## Expressions that are nested -/

variable {source : List Char}

/-- The name of a property that is kept as `a: a = 1` is the one that its value assigns to. -/
theorem eq_of_coverDefault {key : Ident} {loc : Span} {value right : Expr} {lo hi : Nat}
    (h : Row source lo hi [.property (.value loc (.ident key) value)])
    (hright : coverDefault? key value = some right) :
    ∃ loc op, value = .assign loc op (.ident key) right := by
  have hchildren := h.children
  simp only [Located.children, Located.propertyChildren] at hchildren
  split at hchildren
  · next hrepeats =>
    unfold Located.repeatsKey at hrepeats
    split at hrepeats
    · next loc op id right' =>
      obtain rfl := of_decide_eq_true hrepeats
      obtain rfl : right' = right := by simpa [coverDefault?] using hright
      exact ⟨loc, op, rfl⟩
    · cases hrepeats
  · cases hchildren.coverDefault_eq_none.symm.trans hright

/-- The value of a property that is nested is nested. -/
theorem Row.property_value {key : Key} {loc : Span} {value : Expr} {lo hi : Nat}
    (h : Row source lo hi [.property (.value loc key value)]) :
    Row source loc.start.offset loc.stop.offset [.expr value] := by
  refine h.children.sublist (List.singleton_sublist.2 ?_)
  cases key
  case ident key =>
    simp only [Located.children, Located.propertyChildren]
    split <;> simp
  all_goals simp [Located.children, Located.propertyChildren]

/-- An expression that is nested in a text has the trace of the pattern that it spells, whatever holds
them. -/
theorem coverTrace (source : List Char) : CoverRule false
    (fun e p => ∀ ⦃lo hi⦄, Row source lo hi [.expr e] → ∀ parent parent',
      outlineTrace (e.outline parent) = outlineTrace (p.outline .assignment parent'))
    (fun es ps => ∀ ⦃lo hi⦄, Row source lo hi (es.filterMap fun e => e.map .expr) →
      ∀ parent parent', outlineTrace (elementsOutline parent es) =
        outlineTrace (patElementsOutline .assignment parent' ps))
    (fun properties ps => ∀ ⦃lo hi⦄, Row source lo hi (properties.map .property) →
      outlineTrace (propertiesOutline properties) =
        outlineTrace (patPropertiesOutline .assignment ps))
    (fun property p => ∀ ⦃lo hi⦄, Row source lo hi [.property property] →
      outlineTrace property.outline = outlineTrace (p.outline .assignment)) where
  ident id lo hi _ parent parent' := by simp [Expr.outline, Pat.outline, Role.isValue]
  array ih lo hi h parent parent' := ih h.children _ _
  object ih lo hi h parent parent' := ih h.children
  assign {loc left right} _ lo hi h parent parent' := by
    simp only [Expr.outline, Pat.outline, outlineTrace_append]
    rw [left.trace_outline, right.trace_outline]
  member _ {loc e name} lo hi h parent parent' := Expr.trace_outline _ _ _
  paren _ {loc e p} ih lo hi h parent parent' := ih h.children _ _
  noElements lo hi h parent parent' := rfl
  hole ih lo hi h parent parent' := ih h parent parent'
  restElement ih lo hi h parent parent' := by
    simp only [elementsOutline, patElementsOutline, outlineTrace_append]
    rw [Expr.outline, Pat.outline, ih h.children]
  element ih ihs lo hi h parent parent' := by
    obtain ⟨he, hes⟩ := Row.of_cons h
    simp only [elementsOutline, patElementsOutline, outlineTrace_append]
    rw [ih he parent parent', ihs hes parent parent']
  noProperties lo hi h := rfl
  restProperty ih lo hi h := by
    simp only [propertiesOutline, patPropertiesOutline, outlineTrace_append]
    rw [Property.outline, PatProperty.outline, ih h.children]
  property ih ihs lo hi h := by
    obtain ⟨hp, hps⟩ := Row.of_cons h
    simp only [propertiesOutline, patPropertiesOutline, outlineTrace_append]
    rw [ih hp, ihs hps]
  shorthand := by
    intros
    simp [Property.outline, PatProperty.outline, optionOutline, Role.isValue]
  default {loc key value right} hright lo hi h := by
    obtain ⟨loc', op, rfl⟩ := eq_of_coverDefault h hright
    simp only [Property.outline, PatProperty.outline, Key.outline, Expr.outline, Pat.outline,
      optionOutline, outlineTrace_append, outlineTrace_cons, trace_mention]
    rw [right.trace_outline]
    rfl
  value ih lo hi h := by
    simp only [Property.outline, PatProperty.outline, outlineTrace_append]
    rw [Key.trace_outline, ih h.property_value]

/-! ## What the parser builds -/

/-- The states that reading a text can lead to: the one with its first token, and those in which one
more token or a regular expression has been read. -/
inductive ParserState.Reachable (source : List Char) : ParserState → Prop
  | first {t : Token} {l : Lexer} (h : (Lexer.ofSource source).next = (.ok t, l)) :
      Reachable source ⟨l, t, .origin⟩
  | bump {s : ParserState} {t : Token} {l : Lexer} (h : s.Reachable source)
      (hnext : s.lexer.next = (.ok t, l)) : Reachable source ⟨l, t, s.token.span.stop⟩
  | rescan {s : ParserState} {t : Token} {l : Lexer} (h : s.Reachable source)
      (hrescan : s.lexer.rescanRegExp s.token = (.ok t, l)) : Reachable source ⟨l, t, s.lastEnd⟩

theorem ParserState.Reachable.sound {s : ParserState} (h : s.Reachable source) : s.Sound source := by
  induction h with
  | first h => exact ParserState.sound_first h
  | bump _ hnext ih => exact ih.next hnext
  | rescan _ hrescan ih => exact (ih.rescan hrescan).1

/-- The productions of expressions. -/
inductive Grammar.Expresses (g : Grammar) : Parser Expr → Prop
  | expression : g.Expresses g.expression
  | spreadOrAssignment : g.Expresses g.spreadOrAssignment
  | assignment : g.Expresses g.assignmentBody
  | conditional : g.Expresses g.conditional
  | operation (floor : Nat) : g.Expresses (g.operationBody floor)
  | unary : g.Expresses g.unaryBody
  | leftHandSide : g.Expresses g.leftHandSideBody
  | newExpr : g.Expresses g.newBody
  | newCallee : g.Expresses g.newCallee
  | primary : g.Expresses g.primary

theorem Grammar.Expresses.forms {g : Grammar} {p : Parser Expr} (h : g.Expresses p)
    (hg : g.Nests source) : Forms source p .expr := by
  cases h with
  | expression => exact hg.expression
  | spreadOrAssignment => exact hg.spreadOrAssignment
  | assignment => exact hg.assignmentBody
  | conditional => exact hg.conditional
  | operation floor => exact hg.operationBody floor
  | unary => exact hg.unaryBody
  | leftHandSide => exact hg.leftHandSideBody
  | newExpr => exact hg.newBody
  | newCallee => exact hg.newCallee
  | primary => exact hg.primary

/-- An expression that the parser builds as it reads a text: what a production gives at any nesting and
from any state, or a part of that. -/
def Expr.Built (source : List Char) (e : Expr) : Prop :=
  ∃ levels p env s e' s', (Grammar.nest levels).Expresses p ∧ s.Reachable source ∧
    p env s = .ok (e', s') ∧ (Located.expr e).Inside (.expr e')

theorem Expr.Built.nested {e : Expr} (h : e.Built source) : (Located.expr e).Nested source := by
  obtain ⟨levels, p, env, s, e', s', hp, hs, hrun, he⟩ := h
  have hread : Parser.Reads source env s p fun e' s' => Made source s.here (.expr e') s' :=
    hp.forms (Grammar.nests_nest levels) hs.sound
  simp only [Parser.Reads, hrun] at hread
  exact (hread.since.row.nested _ (List.mem_singleton_self _)).inside he

/-- Reading an expression again as the target of an assignment keeps its trace: the same variables are
read and written, the same names are declared and `this` is written down in the same places, in the
same order and in the same scopes. -/
theorem trace_toPattern {e : Expr} {p : Pat} (he : e.Built source)
    (hp : e.toPattern false = .ok p) (parent parent' : Parent) :
    outlineTrace (e.outline parent) = outlineTrace (p.outline .assignment parent') ∧
    ∀ scopes opened, (outlineEvents scopes opened (e.outline parent)).flatMap Event.effects =
      (outlineEvents scopes opened (p.outline .assignment parent')).flatMap Event.effects := by
  have hrow : Row source _ _ [.expr e] := .singleton he.nested le_rfl le_rfl
  have htrace := (coverTrace source).pattern e hp hrow parent parent'
  refine ⟨htrace, fun scopes opened => ?_⟩
  rw [← traceEffects_outlineTrace, ← traceEffects_outlineTrace, htrace]

/-- A name with a default value, a member access, a computed key, parentheses and a function. -/
theorem trace_toPattern_object :
    ∃ (e : Expr) (p : Pat), e.Built "\x7ba = 1, b: [c.d, ...(e)], [f]: g = () => this\x7d".toList ∧
      e.toPattern false = .ok p ∧
      outlineTrace (e.outline .spread) = outlineTrace (p.outline .assignment .catch) ∧
      (traceEffects [] (outlineTrace (e.outline .spread))).length = 6 := by
  have hread : (match (Lexer.ofSource
        "\x7ba = 1, b: [c.d, ...(e)], [f]: g = () => this\x7d".toList).next with
      | (.ok t, l) =>
        match (Grammar.nest 20).assignmentBody fragmentOptions.surrounding ⟨l, t, .origin⟩ with
        | .ok (e, _) => (e.toPattern false).toOption.map fun _ =>
          (traceEffects [] (outlineTrace (e.outline .spread))).length
        | .error _ => none
      | (.error _, _) => none) = some 6 := by decide +kernel
  split at hread
  · next t l hfirst =>
    split at hread
    · next e s hrun =>
      cases hp : e.toPattern false with
      | error e =>
        rw [hp] at hread
        cases hread
      | ok p =>
        rw [hp] at hread
        have he : e.Built _ := ⟨_, _, _, _, e, s, .assignment, .first hfirst, hrun, .refl⟩
        exact ⟨e, p, he, hp, (trace_toPattern he hp .spread .catch).1, Option.some.inj hread⟩
    · cases hread
  · cases hread

end WithScope
