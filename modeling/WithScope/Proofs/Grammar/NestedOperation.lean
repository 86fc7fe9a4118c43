import WithScope.Grammar.Operation
import WithScope.Proofs.Grammar.NestedPrimary

/-!
# Operands and operations are nested

If the productions through which the grammar contains itself form constructs, so do operands with
their accesses and calls, operations, and assignments. An operand keeps its beginning while accesses
and operators are added to it.
-/

namespace WithScope

open WithScope.Parser (Reads Looks Decides Round)

/-- A name is not the end of the text. -/
theorem Token.ne_eof_of_isIdentifier {t : Token} {name : String} (h : t.isIdentifier name) :
    t.kind ≠ .eof := by
  rw [eq_of_beq (Bool.and_eq_true_iff.1 h).1]
  exact TokenKind.noConfusion

namespace Grammar

variable {source : List Char} {env : Surrounding} {s : ParserState} {moved : Bool}
  {start : Position} {ns : List Located}

/-! ## Names after a point -/

/-- The name of a member is a leaf, private or not. -/
theorem forms_memberName : Forms source memberName MemberName.located := by
  refine fun env s hs => .ite (.atKind (fun hk => ?_) fun _ => ?_)
  · exact hs.leafAs hk TokenKind.noConfusion _ (fun _ => rfl) fun _ => rfl
  · exact .bind (forms_identName hs) fun id s h₁ => .pure h₁

/-- What follows an operand is added to it, as long as there is something. -/
theorem forms_accesses {step : Expr → Parser (Option Expr)}
    (hstep : ∀ e s, Made source start (.expr e) s → Reads source env s (step e) fun o s' =>
      Made source start (.expr (o.getD e)) s') {e : Expr} (he : Made source start (.expr e) s) :
    Reads source env s (accesses step e) fun e s' => Made source start (.expr e) s' := by
  refine .repeatFrom (I := fun e s => Made source start (.expr e) s) (fun _ _ h => h.2.sound)
    (fun e s he => .bind (hstep e s he) fun o s h₁ => ?_) he
  cases o <;> exact .pure h₁

/-- `new.target` has its two words as leaves. -/
theorem reads_newTarget {word : Token}
    (hs : Since source true start [.ident ⟨word.span, "new"⟩] s) :
    Reads source env s (newTarget start word) fun e s' => Made source start (.expr e) s' := by
  refine .bind (forms_identName.adds hs) fun property s h₁ => ?_
  split
  · exact .fail (h₁.isPlace (n := .ident property) (by simp)) nofun
  refine .context ?_
  split
  · exact .fail hs.isPlace_start nofun
  · exact .spanFrom (.pure (h₁.made rfl h₁.row))

/-- What cannot be updated is reported where it stands. -/
theorem keeps_checkUpdateTarget {e : Expr} (hs : Since source moved start ns s)
    (he : Located.expr e ∈ ns) : Reads source env s (checkUpdateTarget e) fun _ s' => s' = s := by
  unfold checkUpdateTarget
  split
  · exact .pure rfl
  · have hrow := hs.row.sublist (List.singleton_sublist.2 he)
    exact .fail (hrow.unparenthesized.isPlace_start (List.mem_singleton_self _)) nofun

/-- Asking for an operator looks only. -/
theorem looks_operator (floor : Nat) : Looks source env s (operator? floor) :=
  Reads.context (Reads.kind (.pure rfl))

/-- The target of an assignment stands where the left side stood. -/
theorem nested_assignTarget {op : AssignOp} {left : Expr} {lo hi : Nat}
    (hleft : Row source lo hi [.expr left]) :
    Converts source (assignTarget op left) fun p => Row source lo hi [.pat p] := by
  unfold assignTarget
  split
  · exact left.nested_toPattern false hleft
  · exact left.nested_toSimpleTarget hleft

namespace Nests

variable {g : Grammar} (h : g.Nests source)
include h

/-! ## Accesses and calls -/

/-- A member extends the expression that it is taken of. -/
theorem memberAccess {e : Expr} (he : Made source start (.expr e) s) :
    Reads source env s (g.memberAccess? start e) fun o s' =>
      Made source start (.expr (o.getD e)) s' := by
  refine .kind ?_
  split
  · refine .bind he.since.discardBump fun _ s h₁ => ?_
    refine .bind (forms_memberName.adds h₁) fun property s h₂ => ?_
    exact .spanFrom (.pure (h₂.made rfl h₂.row))
  · refine .bind he.since.discardBump fun _ s h₁ => ?_
    refine .bind (h.bracketExpression h₁) fun property s h₂ => ?_
    exact .spanFrom (.pure (h₂.made rfl h₂.row))
  · next hk =>
    refine .bind (h.template true he.2.sound (by rw [hk]; exact TokenKind.noConfusion)) fun t s h₁ => ?_
    have h₁ := he.since.add h₁
    exact .spanFrom (.pure (h₁.made rfl h₁.row))
  · next hk =>
    refine .bind (h.template true he.2.sound (by rw [hk]; exact TokenKind.noConfusion)) fun t s h₁ => ?_
    have h₁ := he.since.add h₁
    exact .spanFrom (.pure (h₁.made rfl h₁.row))
  · exact .pure he

/-- As `memberAccess`, after `?.`. -/
theorem optionalAccess {e : Expr} (he : Made source start (.expr e) s) :
    Reads source env s (g.optionalAccess start e) fun e s' => Made source start (.expr e) s' := by
  refine .bind he.since.discardBump fun _ s h₁ => .ite (.look (.atKind _) ?_ ?_)
  · refine .bind (h.arguments h₁) fun arguments s h₂ => ?_
    exact .spanFrom (.pure (h₂.made rfl h₂.row))
  refine .ite (h₁.eatKind TokenKind.noConfusion (fun s h₂ => ?_) fun _ => ?_)
  · refine .bind (h.bracketExpression h₂) fun property s h₃ => ?_
    exact .spanFrom (.pure (h₃.made rfl h₃.row))
  · refine .bind (forms_memberName.adds h₁) fun property s h₂ => ?_
    exact .spanFrom (.pure (h₂.made rfl h₂.row))

/-- Any access extends the expression before it. -/
theorem access {e : Expr} (he : Made source start (.expr e) s) :
    Reads source env s (g.access? start e) fun o s' =>
      Made source start (.expr (o.getD e)) s' := by
  refine .kind ?_
  split
  · exact .bind (h.optionalAccess he) fun e s h₁ => .pure h₁
  · refine .bind (h.arguments he.since) fun arguments s h₁ => ?_
    exact .spanFrom (.pure (h₁.made rfl h₁.row))
  · exact h.memberAccess he

/-! ## `new` -/

/-- What is called by `new` is formed on its own. -/
theorem newCallee : Forms source g.newCallee .expr := by
  refine fun env s hs => .here (.join (Q := fun e s' => Made source s.here (.expr e) s')
    (.look (.atKind _) (h.newExpr hs) (h.primary hs)) fun first s h₁ => ?_)
  refine .bind (forms_accesses (fun _ _ => h.memberAccess) h₁) fun callee s h₂ => ?_
  exact .ite (.look (.atKind _) (.here (.fail h₂.2.sound.isPlace_here nofun)) (.pure h₂))

/-- A `new` holds its callee and its arguments. -/
theorem newBody : Forms source g.newBody .expr := by
  refine fun env s hs => .here (.bind (hs.expectLeaf TokenKind.noConfusion) fun word s h₁ => ?_)
  have h₁ := (h₁ (.ident ⟨word.span, "new"⟩) rfl rfl).since
  refine .ite (h₁.eatKind TokenKind.noConfusion (fun s => reads_newTarget) fun _ => ?_)
  refine .bind (h.newCallee.adds (h₁.sublist (List.nil_sublist _))) fun callee s h₂ => ?_
  refine .join (Q := fun arguments s' => Since source true _
      (.expr callee :: arguments.map .expr) s')
    (.look (.atKind _) (h.arguments h₂) (.pure h₂)) fun arguments s h₃ => ?_
  exact .spanFrom (.pure (h₃.made rfl h₃.row))

/-- Members and calls extend the operand that they start with. -/
theorem leftHandSideBody : Forms source g.leftHandSideBody .expr := by
  refine fun env s hs => .here (.join (Q := fun e s' => Made source s.here (.expr e) s')
    (.look (.atKind _) (h.newBody hs) (h.primary hs)) fun e s h₁ => ?_)
  beta_reduce
  split
  · exact .pure h₁
  · exact forms_accesses (fun _ _ => h.access) h₁

/-! ## Operators of one operand -/

/-- `++` and `--` extend the operand in front of them. -/
theorem postfixOperand (hs : s.Sound source) :
    Reads source env s (g.postfixOperand s.here) fun e s' => Made source s.here (.expr e) s' := by
  refine .bind (h.leftHandSideBody hs) fun e s h₁ => .kind ?_
  split
  · exact .pure h₁
  refine Looks.afterNewline.bind fun isAfterNewline => ?_
  split
  · exact .pure h₁
  refine .bind (keeps_checkUpdateTarget h₁.since (List.mem_singleton_self _)) fun _ s' hs' => ?_
  subst hs'
  refine .bind h₁.since.discardBump fun _ s h₂ => ?_
  exact .spanFrom (.pure (h₂.made rfl h₂.row))

/-- An operator in front extends to its operand. -/
theorem unaryBody : Forms source g.unaryBody .expr := by
  refine fun env s hs => .here (.kind (.kind ?_))
  split
  · refine .bind (Since.here hs).discardBump fun _ s h₁ => ?_
    refine .bind (h.unary.adds h₁) fun argument s h₂ => ?_
    exact .spanFrom (.pure (h₂.made rfl h₂.row))
  · refine .bind (Since.here hs).discardBump fun _ s h₁ => ?_
    refine .bind (h.unary.adds h₁) fun argument s h₂ => ?_
    refine .bind (keeps_checkUpdateTarget h₂ (by simp)) fun _ s' hs' => ?_
    subst hs'
    exact .spanFrom (.pure (h₂.made rfl h₂.row))
  · refine .context (.token ?_)
    split
    · refine .bind (Since.here hs).discardBump fun _ s h₁ => ?_
      refine .bind (h.unary.adds h₁) fun argument s h₂ => ?_
      exact .spanFrom (.pure (h₂.made rfl h₂.row))
    · exact h.postfixOperand hs

/-! ## Operators of two operands -/

/-- A private name and the operand after `in` are one operation. -/
theorem privateIn {floor : Nat} (hs : s.Sound source) (hk : s.token.kind ≠ .eof) :
    Reads source env s (g.privateIn s.here floor) fun e s' => Made source s.here (.expr e) s' := by
  refine .context ?_
  split
  · exact .unexpected hs
  refine (Looks.peek hs).bind fun next => ?_
  split
  · exact .unexpected hs
  refine .bind (hs.leaf hk) fun t s h₁ => ?_
  have h₁ := (h₁ (.privateName ⟨t.span, t.text⟩) rfl rfl).since
  refine .bind h₁.discardBump fun _ s h₂ => ?_
  refine .bind ((h.operation _).adds h₂) fun right s h₃ => ?_
  exact .spanFrom (.pure (h₃.made rfl h₃.row))

/-- Each operation extends from the first operand to its last one. -/
theorem operations {floor : Nat} {first : Expr} (hs : Made source start (.expr first) s) :
    Reads source env s (g.operations start floor first) fun e s' =>
      Made source start (.expr e) s' := by
  refine .repeatFrom (I := fun e s => Made source start (.expr e) s) (fun _ _ h => h.2.sound)
    (fun left s h₁ => (looks_operator floor).bind fun op => ?_) hs
  split
  · exact .pure h₁
  · next op =>
    split
    · exact .fail (h₁.since.isPlace (List.mem_singleton_self _)) nofun
    · refine .bind h₁.since.discardBump fun _ s h₂ => ?_
      refine .bind ((h.operation _).adds h₂) fun right s h₃ => .spanFrom (.pure ?_)
      cases op <;> exact h₃.made rfl h₃.row

/-- Operations extend the operand that they start with. -/
theorem operationBody (floor : Nat) : Forms source (g.operationBody floor) .expr := by
  refine fun env s hs => .here (.join (Q := fun e s' => Made source s.here (.expr e) s')
    (.atKind (fun hk => h.privateIn hs (by rw [hk]; exact TokenKind.noConfusion))
      fun _ => h.unaryBody hs) fun first s h₁ => ?_)
  beta_reduce
  split
  · exact .pure h₁
  · exact h.operations h₁

/-- A conditional extends from its test to its last branch. -/
theorem conditional : Forms source g.conditional .expr := by
  refine fun env s hs => .here (.bind (h.operationBody 0 hs) fun test s h₁ => ?_)
  split
  · exact .pure h₁
  refine .ite (h₁.since.eatKind TokenKind.noConfusion (fun s h₂ => ?_) fun _ => .pure h₁)
  refine .bind (h.assignment.withContext.adds h₂) fun consequent s h₃ => ?_
  refine .bind h₃.expectMark fun _ s h₄ => .bind (h.assignment.adds h₄) fun alternate s h₅ => ?_
  exact .spanFrom (.pure (h₅.made rfl h₅.row))

/-! ## Assignments -/

/-- A `yield` extends to its argument, if it has one. -/
theorem yieldExpression (hs : s.Sound source) (hk : s.token.kind ≠ .eof) :
    Reads source env s g.yieldExpression fun e s' => Made source s.here (.expr e) s' := by
  refine .here (.bind ((Since.here hs).pass hk) fun _ s h₁ => ?_)
  refine .ite (.look .afterNewline (.spanFrom (.pure (h₁.made rfl h₁.row))) ?_)
  refine .ite (h₁.eatKind TokenKind.noConfusion (fun s h₂ => ?_) fun _ => .context (.kind ?_))
  · refine .bind (h.assignment.adds h₂) fun argument s h₃ => ?_
    exact .spanFrom (.pure (h₃.made rfl h₃.row))
  split
  · exact .spanFrom (.pure (h₁.made rfl h₁.row))
  · refine .bind (h.assignment.adds h₁) fun argument s h₂ => ?_
    exact .spanFrom (.pure (h₂.made rfl h₂.row))

/-- An assignment extends from its target to its value. -/
theorem conditionalOrAssignment : Forms source g.conditionalOrAssignment .expr := by
  refine fun env s hs => .here (.bind (h.conditional hs) fun left s h₁ => .kind ?_)
  split
  · exact .pure h₁
  split
  · exact .pure h₁
  refine .bind (h₁.since.convert (nested_assignTarget h₁.since.row)) fun target s h₂ => ?_
  refine .bind h₂.discardBump fun _ s h₃ => .bind (h.assignment.adds h₃) fun right s h₄ => ?_
  exact .spanFrom (.pure (h₄.made rfl h₄.row))

/-- Each form of an assignment is formed. -/
theorem assignmentBody : Forms source g.assignmentBody .expr := by
  refine fun env s hs => .context (.token ?_)
  split
  · next hyield =>
    have hname : s.token.isIdentifier "yield" = true := (Bool.and_eq_true_iff.1 hyield).2
    exact h.yieldExpression hs (Token.ne_eof_of_isIdentifier hname)
  · exact h.conditionalOrAssignment hs

end Nests

end Grammar

end WithScope
