import WithScope.Proofs.Grammar.AlikePrimary

/-!
# Operations read a copy alike

Operands and what joins them: each of these productions ends where an expression may end, and there
looks at a token that may stand after the stretch.
-/

namespace WithScope

open Stretch.Follows

namespace Grammar

variable {Ψ : Stretch}

/-! ## Tokens that are operators -/

/-- An operator before its operand is a plain token. -/
theorem isPlain_of_unaryOp? {k : TokenKind} (h : unaryOp? k ≠ none) : k.isPlain := by
  cases k <;> first | rfl | exact absurd rfl h

/-- An updating operator is a plain token. -/
theorem isPlain_of_updateOp? {k : TokenKind} (h : updateOp? k ≠ none) : k.isPlain := by
  cases k <;> first | rfl | exact absurd rfl h

/-- An operator between operands is a plain token; a slash is taken for one only where no regular
expression can begin. -/
theorem isPlain_of_infixOp? {noIn : Bool} {k : TokenKind} (h : infixOp? noIn k ≠ none) :
    k.isPlain := by
  cases k <;> first | rfl | exact absurd rfl h

/-- An operator of an assignment is a plain token. -/
theorem isPlain_of_assignOp? {k : TokenKind} (h : assignOp? k ≠ none) : k.isPlain := by
  cases k <;> first | rfl | exact absurd rfl h

/-! ## Member accesses and calls -/

/-- A name after a point is one token, and nothing behind it matters. -/
theorem outer_memberName : Ψ.Outer memberName memberName := by
  intro env s₁ s₂
  refine ifKind (fun hk => take (bump (by rw [hk]; rfl)) fun _ _ _ => done rfl) fun _ => ?_
  exact take identName fun _ _ _ => done rfl

theorem accesses_near {step step' : Expr → Parser (Option Expr)} {env : Surrounding}
    (hstep : ∀ e s₁ s₂, Ψ.Follows .within Ψ.Near false env s₁ s₂ (step e) (step' (Ψ.moved e)))
    (e : Expr) (s₁ s₂ : ParserState) :
    Ψ.Follows .within Ψ.Near false env s₁ s₂ (accesses step e) (accesses step' (Ψ.moved e)) := by
  refine repeatFrom rfl fun e s₁ s₂ => pass (hstep e s₁ s₂) fun r _ _ => ?_
  cases r with
  | none => exact done rfl
  | some e => exact done rfl

/-- Accesses of which the first one is there. -/
theorem follows_accesses {step step' : Expr → Parser (Option Expr)} {env : Surrounding}
    {e : Expr} {s₁ s₂ : ParserState}
    (hfirst : Ψ.Follows .within Ψ.Abreast true env s₁ s₂ (step e) (step' (Ψ.moved e)))
    (hstep : ∀ e s₁ s₂, Ψ.Follows .within Ψ.Near false env s₁ s₂ (step e) (step' (Ψ.moved e))) :
    Ψ.Follows .within Ψ.Abreast true env s₁ s₂ (accesses step e) (accesses step' (Ψ.moved e)) := by
  refine repeatFrom_first rfl (take hfirst fun r _ _ => ?_) fun e s₁ s₂ =>
    pass (hstep e s₁ s₂) fun r _ _ => ?_
  all_goals
    cases r with
    | none => exact done rfl
    | some e => exact done rfl

/-- A member access or template begins with such a token. -/
def isAccess : TokenKind → Bool
  | .punctuator .dot | .punctuator .leftBracket | .noSubstitutionTemplate | .templateHead => true
  | _ => false

/-- A member access, call or template begins with such a token. -/
def isAccessOrCall : TokenKind → Bool
  | .punctuator .questionDot | .punctuator .leftParen => true
  | k => isAccess k

/-- Where no member access begins, none is read and nothing is passed. -/
theorem run_memberAccess? (g : Grammar) (start : Position) (e : Expr) {env : Surrounding}
    {s : ParserState} (hk : isAccess s.token.kind = false) :
    g.memberAccess? start e env s = (pure none : Parser (Option Expr)) env s := by
  rw [memberAccess?, Parser.run_kind]
  generalize s.token.kind = k at hk
  cases k with
  | punctuator mark => cases mark <;> first | rfl | cases hk
  | _ => first | rfl | cases hk

/-- Where neither access nor call begins, nothing is passed. -/
theorem run_access? (g : Grammar) (start : Position) (e : Expr) {env : Surrounding}
    {s : ParserState} (hk : isAccessOrCall s.token.kind = false) :
    g.access? start e env s = (pure none : Parser (Option Expr)) env s := by
  have hmember : isAccess s.token.kind = false ∧
      g.access? start e env s = g.memberAccess? start e env s := by
    rw [access?, Parser.run_kind]
    generalize s.token.kind = k at hk
    cases k with
    | punctuator mark => cases mark <;> first | exact ⟨hk, rfl⟩ | cases hk
    | _ => exact ⟨hk, rfl⟩
  rw [hmember.2, run_memberAccess? g start e hmember.1]

/-- What follows the first operand that `new` calls. -/
def newCalleeRest (g : Grammar) (start : Position) (first : Expr) : Parser Expr := do
  let callee ← accesses (g.memberAccess? start) first
  if ← Parser.atMark .questionDot then Parser.fail (← Parser.here) .optionalChainInNew
  else return callee

/-- The end of a `new` expression, from what is called on. -/
def newRest (g : Grammar) (start : Position) (callee : Expr) : Parser Expr := do
  let arguments ← if ← Parser.atMark .leftParen then g.arguments else pure []
  return .new (← Parser.spanFrom start) callee arguments

/-- What follows the primary expression of an operand. -/
def operandRest (g : Grammar) (start : Position) (e : Expr) : Parser Expr :=
  if e.isArrow then return e else accesses (g.access? start) e

/-- Where the word `super` is called, `new` calls nothing else. -/
theorem run_newCalleeRest (g : Grammar) (start : Position) (first : Expr) {env : Surrounding}
    {s : ParserState} (hk : s.token.kind = .punctuator .leftParen) :
    newCalleeRest g start first env s = .ok (first, s) := by
  have haccesses : accesses (g.memberAccess? start) first env s = .ok (first, s) := by
    refine Parser.run_repeatFrom ?_
    have hnone : g.memberAccess? start first env s = .ok (none, s) :=
      run_memberAccess? g start first (by rw [hk]; rfl)
    rw [Parser.run_bind hnone]
    rfl
  rw [newCalleeRest, Parser.run_bind haccesses, Parser.atMark, Parser.run_atKind_of_ne (by simp [hk])]
  rfl

/-- What two parsers have in common before they go on, they have in common after it. -/
theorem run_bind_congr {α β : Type} {p q : Parser α} {env : Surrounding} {s : ParserState}
    (h : p env s = q env s) (f : α → Parser β) : (p >>= f) env s = (q >>= f) env s :=
  show (p env s >>= fun x => f x.1 env x.2) = _ by rw [h]; rfl

/-- The operand of `new` that begins with `super`. -/
theorem run_newCallee_super {g : Grammar} {env : Surrounding} {s : ParserState}
    (hk : s.token.kind = .keyword .super) :
    g.newCallee env s = (superOperand >>= newCalleeRest g s.here) env s := by
  show (Parser.atWord .new >>= fun b => if b = true then g.newExpr >>= newCalleeRest g s.here
    else g.primary >>= newCalleeRest g s.here) env s = _
  rw [Parser.atWord, Parser.run_atKind_of_ne (by simp [hk])]
  exact run_bind_congr (Alike.run_primary_super hk) _

/-- The word `super` is an operand as any other. -/
theorem run_leftHandSideBody_super {g : Grammar} {env : Surrounding} {s : ParserState}
    (hk : s.token.kind = .keyword .super) :
    g.leftHandSideBody env s = (superOperand >>= operandRest g s.here) env s := by
  show (Parser.atWord .new >>= fun b => if b = true then g.newBody >>= operandRest g s.here
    else g.primary >>= operandRest g s.here) env s = _
  rw [Parser.atWord, Parser.run_atKind_of_ne (by simp [hk])]
  exact run_bind_congr (Alike.run_primary_super hk) _

/-- The word `super` is no expression in itself, so what follows it belongs to the stretch as well. -/
theorem follows_super {f f' : Expr → Parser Expr} {taken : Bool} {env : Surrounding}
    {s₁ s₂ : ParserState} (hk : s₁.token.kind = .keyword .super)
    (hf : ∀ e m₁ m₂, e.isArrow = false → (m₁.token.kind = .punctuator .leftParen ∨
        m₁.token.kind = .punctuator .dot ∨ m₁.token.kind = .punctuator .leftBracket) →
      Ψ.Follows .within Ψ.Abreast true env m₁ m₂ (f e) (f' (Ψ.moved e))) :
    Ψ.Follows .within Ψ.Abreast taken env s₁ s₂ (superOperand >>= f) (superOperand >>= f') := by
  refine before (fun habreast _ => habreast) (any (follows_superOperand hk)) (fun e m₁ m₂ hrun => ?_)
    fun e m₁ r hrun _ => ?_
  · obtain ⟨harrow, hkind⟩ := leaves_superOperand.of_run hrun
    exact hf e m₁ m₂ harrow hkind
  · rcases (leaves_superOperand.of_run hrun).2 with hkind | hkind | hkind <;> rw [hkind] <;> rfl

/-! ## Operators of one operand -/

/-- A check of what it says of a tree alone. -/
theorem follows_checkUpdateTarget (e : Expr) {f f' : Unit → Parser Expr} {z : Stretch.Zone}
    {R : ParserState → ParserState → Prop} {taken : Bool} {env : Surrounding} {s₁ s₂ : ParserState}
    (h : Ψ.Follows z R taken env s₁ s₂ (f ()) (f' ())) :
    Ψ.Follows z R taken env s₁ s₂ (checkUpdateTarget e >>= f)
      (checkUpdateTarget (Ψ.moved e) >>= f') := by
  have hsame : (Ψ.moved e).unparenthesized.isSimpleTarget = e.unparenthesized.isSimpleTarget := by
    simp
  unfold checkUpdateTarget
  rw [hsame]
  cases e.unparenthesized.isSimpleTarget with
  | true => exact h
  | false => exact fun _ _ _ hrun => by cases hrun

/-- An operand whose last token no updating operator follows is complete. -/
def PostfixStays (e : Expr) (t : Token) : Prop :=
  updateOp? t.kind = none ∨ (t.newlineBefore || e.isArrow) = true

/-- What follows an operand that an updating operator may stand behind. -/
def postfixRest (start : Position) (e : Expr) (t : Token) : Parser Expr :=
  match updateOp? t.kind with
  | none => return e
  | some op =>
    if t.newlineBefore || e.isArrow then return e
    else do
      checkUpdateTarget e
      discard Parser.bump
      return .update (← Parser.spanFrom start) op false e

/-- What an operand is followed by is decided by one token. -/
theorem postfixOperand_eq (g : Grammar) (start : Position) : g.postfixOperand start = (do
    let e ← g.leftHandSideBody
    postfixRest start e (← Parser.token)) := by
  refine congrArg (_ >>= ·) (funext fun e => funext fun env => funext fun s => ?_)
  rw [Parser.run_kind, Parser.run_token, postfixRest]
  cases updateOp? s.token.kind <;> rfl

/-- Where no updating operator follows, the operand stays as it is. -/
theorem postfixRest_of_stays {start : Position} {e : Expr} {t : Token} (h : PostfixStays e t) :
    postfixRest start e t = pure e := by
  unfold postfixRest
  rcases h with hnone | hstays
  · rw [hnone]
  · split
    · rfl
    · exact if_pos hstays

/-- Where one follows, it is the operator of the operand. -/
theorem postfixRest_of_goes {start : Position} {e : Expr} {t : Token} {op : UpdateOp}
    (hop : updateOp? t.kind = some op) (h : ¬ (t.newlineBefore || e.isArrow) = true) :
    postfixRest start e t = (do
      checkUpdateTarget e
      discard Parser.bump
      return .update (← Parser.spanFrom start) op false e) := by
  rw [postfixRest, hop]
  exact if_neg h

/-! ## Operators of two operands -/

/-- One more operator and the operand to its right, or none. -/
def operationStep (g : Grammar) (start : Position) (left : Expr) :
    Option InfixOp → Parser (Expr ⊕ Expr)
  | none => return .inr left
  | some op =>
    if op = .binary .exp && left.isUnary then Parser.fail left.loc.start .unaryBeforePower
    else do
      discard Parser.bump
      let right ← g.operation op.rightFloor
      return .inl (op.apply (← Parser.spanFrom start) left right)

/-! ## Assignments -/

/-- What follows the word `yield`. -/
def yieldRest (g : Grammar) (start : Position) (noIn : Bool) (t : Token) : Parser Expr :=
  if t.newlineBefore then do return .yield (← Parser.spanFrom start) false none
  else if t.kind = .punctuator .star then do
    discard Parser.bump
    let argument ← g.assignment
    return .yield (← Parser.spanFrom start) true (some argument)
  else if endsYield noIn t.kind then do return .yield (← Parser.spanFrom start) false none
  else do
    let argument ← g.assignment
    return .yield (← Parser.spanFrom start) false (some argument)

/-- What follows `yield` is decided by one token. -/
theorem yieldExpression_eq (g : Grammar) : g.yieldExpression = (do
    let start ← Parser.here
    discard Parser.bump
    yieldRest g start (← Parser.context).noIn (← Parser.token)) := by
  refine congrArg (_ >>= ·) (funext fun start => congrArg (_ >>= ·) (funext fun _ => ?_))
  funext env s
  rw [Parser.run_context, Parser.run_token, yieldRest, Parser.eatMark, Parser.eatKind_ite]
  show (if s.token.newlineBefore = true then _ else Parser.atKind _ >>= _ : Parser Expr) env s = _
  split
  · rfl
  · show (if decide (s.token.kind = .punctuator .star) = true then _ else _ : Parser Expr) env s = _
    by_cases hstar : s.token.kind = .punctuator .star
    · rw [if_pos (decide_eq_true hstar), if_pos hstar]
    · rw [if_neg (by simpa using hstar), if_neg hstar]
      rfl

/-- A `yield` ends where the line ends, or before a token that ends it. -/
def YieldStays (noIn : Bool) (t : Token) : Prop :=
  t.newlineBefore = true ∨ t.kind ≠ .punctuator .star ∧ endsYield noIn t.kind = true

/-- Where no argument follows, `yield` stands alone. -/
theorem yieldRest_of_stays {g : Grammar} {start : Position} {noIn : Bool} {t : Token}
    (h : YieldStays noIn t) :
    yieldRest g start noIn t = (do return .yield (← Parser.spanFrom start) false none) := by
  unfold yieldRest
  by_cases hnewline : t.newlineBefore = true
  · exact if_pos hnewline
  · obtain ⟨hstar, hends⟩ := h.resolve_left hnewline
    rw [if_neg hnewline, if_neg hstar, if_pos hends]

/-- The left side of an assignment spells the same target wherever it stands. -/
theorem assignTarget_moved (op : AssignOp) (left : Expr) :
    assignTarget op (Ψ.moved left) = Ψ.moved (assignTarget op left) := by
  have hliteral : (Ψ.moved left).isLiteralPattern = left.isLiteralPattern := by cases left <;> rfl
  unfold assignTarget
  rw [hliteral]
  split
  · exact left.toPattern_relocated Ψ.places.shift_injective false
  · exact left.toSimpleTarget_relocated Ψ.places.shift_injective

namespace Alike

variable {g g' : Grammar} (h : Alike Ψ g g')
include h

section

variable {start start' : Position} (hstart : start' = Ψ.places.shift start)
include hstart

/-- An access begins with a token of the stretch. -/
theorem follows_memberAccess? (e : Expr) {env : Surrounding} {s₁ s₂ : ParserState}
    (hk : isAccess s₁.token.kind) :
    Ψ.Follows .within Ψ.Abreast true env s₁ s₂ (g.memberAccess? start e)
      (g'.memberAccess? start' (Ψ.moved e)) := by
  refine kind ?_
  split
  next hdot =>
    exact take (skip (by rw [hdot]; rfl)) fun _ _ _ => pass outer_memberName.near fun _ _ _ =>
      spanFrom hstart (done rfl)
  next hbracket =>
    exact take (skip (by rw [hbracket]; rfl)) fun _ _ _ =>
      pass h.outer_bracketExpression.near fun _ _ _ => spanFrom hstart (done rfl)
  next hquasi =>
    exact take (h.follows_template true (.inl hquasi)) fun _ _ _ => spanFrom hstart (done rfl)
  next hhead =>
    exact take (h.follows_template true (.inr hhead)) fun _ _ _ => spanFrom hstart (done rfl)
  next hdot hbracket hquasi hhead =>
    unfold isAccess at hk
    split at hk <;> simp_all

/-- Right behind the stretch no access is read, since the copy has a parenthesis there. -/
theorem memberAccess?_near (e : Expr) {env : Surrounding} {s₁ s₂ : ParserState} :
    Ψ.Follows .within Ψ.Near false env s₁ s₂ (g.memberAccess? start e)
      (g'.memberAccess? start' (Ψ.moved e)) := by
  cases hk : isAccess s₁.token.kind with
  | true => exact near (h.follows_memberAccess? hstart e hk)
  | false =>
    refine of_run (run_memberAccess? g start e hk) (fun hnear => ?_) (done rfl)
    exact run_memberAccess? g' start' _ (hnear.kind_of (P := (isAccess · = false)) rfl hk)

/-- What follows `?.` is a call, a name or an expression in brackets on both sides. -/
theorem follows_optionalAccess (e : Expr) {env : Surrounding} {s₁ s₂ : ParserState}
    (hk : s₁.token.kind = .punctuator .questionDot) :
    Ψ.Follows .within Ψ.Abreast true env s₁ s₂ (g.optionalAccess start e)
      (g'.optionalAccess start' (Ψ.moved e)) := by
  refine take (skip (by rw [hk]; rfl)) fun _ _ _ => ifKind_near nofun (fun _ => ?_) ?_
  · exact take (h.outer_arguments _ _ _) fun _ _ _ => spanFrom hstart (done (by simp))
  refine eaten_near rfl nofun (fun _ _ => ?_) ?_
  · exact pass h.outer_bracketExpression.near fun _ _ _ => spanFrom hstart (done rfl)
  · exact pass outer_memberName.near fun _ _ _ => spanFrom hstart (done rfl)

/-- An access or a call begins with a token of the stretch. -/
theorem follows_access? (e : Expr) {env : Surrounding} {s₁ s₂ : ParserState}
    (hk : isAccessOrCall s₁.token.kind) :
    Ψ.Follows .within Ψ.Abreast true env s₁ s₂ (g.access? start e)
      (g'.access? start' (Ψ.moved e)) := by
  refine kind ?_
  split
  next hquestion => exact take (h.follows_optionalAccess hstart e hquestion) fun _ _ _ => done rfl
  next => exact take (h.outer_arguments _ _ _) fun _ _ _ => spanFrom hstart (done (by simp))
  next hquestion hparen =>
    refine h.follows_memberAccess? hstart e ?_
    unfold isAccessOrCall at hk
    split at hk <;> simp_all

/-- Right behind the stretch neither access nor call is read. -/
theorem access?_near (e : Expr) {env : Surrounding} {s₁ s₂ : ParserState} :
    Ψ.Follows .within Ψ.Near false env s₁ s₂ (g.access? start e)
      (g'.access? start' (Ψ.moved e)) := by
  cases hk : isAccessOrCall s₁.token.kind with
  | true => exact near (h.follows_access? hstart e hk)
  | false =>
    refine of_run (run_access? g start e hk) (fun hnear => ?_) (done rfl)
    exact run_access? g' start' _ (hnear.kind_of (P := (isAccessOrCall · = false)) rfl hk)

/-! ## `new` -/

omit h in
/-- The name after `new.` is compared on both sides. -/
theorem outer_newTarget (word : Token) :
    Ψ.Outer (newTarget start word) (newTarget start' (Ψ.moved word)) := by
  intro env s₁ s₂
  refine take identName fun property _ _ => ite Iff.rfl (fun _ => fail) fun _ => ?_
  exact context (ite Iff.rfl (fun _ => fail) fun _ => spanFrom hstart (done rfl))

end

section

variable {start start' : Position} (hstart : start' = Ψ.places.shift start)
  {env : Surrounding} {s₁ s₂ : ParserState}
include hstart

/-- The operand of `new` may end with the stretch. -/
theorem newCalleeRest_near (first : Expr) :
    Ψ.Follows .within Ψ.Near false env s₁ s₂ (newCalleeRest g start first)
      (newCalleeRest g' start' (Ψ.moved first)) :=
  pass (accesses_near (fun e _ _ => h.memberAccess?_near hstart e) first s₁ s₂) fun _ _ _ =>
    ifKind_near nofun (fun _ => here fail) (done rfl)

/-- The operand of `new` may go on with accesses. -/
theorem follows_newCalleeRest (first : Expr) (hk : isAccess s₁.token.kind) :
    Ψ.Follows .within Ψ.Abreast true env s₁ s₂ (newCalleeRest g start first)
      (newCalleeRest g' start' (Ψ.moved first)) :=
  take (follows_accesses (h.follows_memberAccess? hstart first hk)
      fun e _ _ => h.memberAccess?_near hstart e)
    fun _ _ _ => ifKind_near nofun (fun _ => here fail) (done rfl)

end

/-- What is called by `new`, which may be a `new` expression itself. -/
theorem follows_newCallee {env : Surrounding} {s₁ s₂ : ParserState}
    (hk : s₁.token.kind ≠ .keyword .super) :
    Ψ.Follows .within Ψ.Abreast true env s₁ s₂ g.newCallee g'.newCallee := by
  refine here (ifKind (fun _ => ?_) fun _ => ?_)
  · exact take (h.newExpr _ _ _) fun first _ _ => h.newCalleeRest_near rfl first
  · exact take (h.follows_primary hk) fun first _ _ => h.newCalleeRest_near rfl first

/-- Arguments of `new` that are left out are left out in the copy. -/
theorem newRest_near {start start' : Position} (hstart : start' = Ψ.places.shift start)
    (callee : Expr) {env : Surrounding} {s₁ s₂ : ParserState} :
    Ψ.Follows .within Ψ.Near false env s₁ s₂ (newRest g start callee)
      (newRest g' start' (Ψ.moved callee)) := by
  refine ifKind_near nofun (fun _ => ?_) (pass (done rfl) fun arguments _ _ => ?_)
  · exact take (h.outer_arguments _ _ _) fun _ _ _ => spanFrom hstart (done (by simp))
  · exact spanFrom hstart (done (by simp))

/-- Accesses and arguments after what is called. -/
theorem follows_newRest {start start' : Position} (hstart : start' = Ψ.places.shift start)
    (callee : Expr) {env : Surrounding} {s₁ s₂ : ParserState}
    (hk : s₁.token.kind = .punctuator .leftParen) :
    Ψ.Follows .within Ψ.Abreast true env s₁ s₂ (newRest g start callee)
      (newRest g' start' (Ψ.moved callee)) :=
  ifKind (fun _ => take (h.outer_arguments _ _ _) fun _ _ _ => spanFrom hstart (done (by simp)))
    fun hne => absurd hk hne

/-- A `new` expression may be the end of the stretch. -/
theorem outer_newBody : Ψ.Outer g.newBody g'.newBody := by
  intro env s₁ s₂
  have hcallee {start start' : Position} (hstart : start' = Ψ.places.shift start)
      (s₁ s₂ : ParserState) : Ψ.Follows .within Ψ.Near false env s₁ s₂
        (g.newCallee >>= newRest g start) (g'.newCallee >>= newRest g' start') := by
    by_cases hk : s₁.token.kind = .keyword .super
    · have hsuper : Ψ.Follows .within Ψ.Abreast true env s₁ s₂
          (superOperand >>= fun first => newCalleeRest g s₁.here first >>= newRest g start)
          (superOperand >>= fun first =>
            newCalleeRest g' (Ψ.places.shift s₁.here) first >>= newRest g' start') := by
        refine follows_super hk fun first m₁ m₂ _ hkind => ?_
        rcases hkind with hparen | hkind
        · refine of_run ?_ (fun habreast => ?_) (h.follows_newRest hstart first hparen)
          · rw [Parser.run_bind (run_newCalleeRest g _ first hparen)]
          · rw [Parser.run_bind (run_newCalleeRest g' _ _ (habreast.kind.trans hparen))]
        · refine take (h.follows_newCalleeRest rfl first ?_) fun callee _ _ =>
            h.newRest_near hstart callee
          rcases hkind with hkind | hkind <;> rw [hkind] <;> rfl
      refine near (of_run ?_ (fun habreast => ?_) hsuper)
      · rw [run_bind_congr (run_newCallee_super hk), bind_assoc]
      · rw [run_bind_congr (run_newCallee_super (habreast.kind.trans hk)), habreast.here, bind_assoc]
    · exact pass (near (h.follows_newCallee hk)) fun callee _ _ => h.newRest_near hstart callee
  exact here (take (expectKind rfl) fun word s₁ s₂ => eaten_near rfl nofun
    (fun _ _ => (outer_newTarget rfl word).near) (hcallee rfl s₁ s₂))

/-- An operand may end with the stretch. -/
theorem operandRest_near {start start' : Position} (hstart : start' = Ψ.places.shift start)
    (e : Expr) {env : Surrounding} {s₁ s₂ : ParserState} :
    Ψ.Follows .within Ψ.Near false env s₁ s₂ (operandRest g start e)
      (operandRest g' start' (Ψ.moved e)) :=
  ite (by simp) (fun _ => done rfl) fun _ =>
    accesses_near (fun e _ _ => h.access?_near hstart e) e _ _

/-- What an operand goes on with is told by the tokens of the stretch. -/
theorem outer_leftHandSideBody : Ψ.Outer g.leftHandSideBody g'.leftHandSideBody := by
  intro env s₁ s₂
  by_cases hk : s₁.token.kind = .keyword .super
  · have hsuper : Ψ.Follows .within Ψ.Abreast true env s₁ s₂
        (superOperand >>= operandRest g s₁.here)
        (superOperand >>= operandRest g' (Ψ.places.shift s₁.here)) := by
      refine follows_super hk fun e m₁ m₂ harrow hkind => ?_
      refine ite (by simp) (fun harrow' => absurd harrow' (by simp [harrow])) fun _ => ?_
      refine follows_accesses (h.follows_access? rfl e ?_) fun e _ _ => h.access?_near rfl e
      rcases hkind with hkind | hkind | hkind <;> rw [hkind] <;> rfl
    refine of_run (run_leftHandSideBody_super hk) (fun habreast => ?_) hsuper
    rw [run_leftHandSideBody_super (habreast.kind.trans hk), habreast.here]
  · refine here (ifKind (fun _ => ?_) fun _ => ?_)
    · exact take (h.outer_newBody _ _ _) fun e _ _ => h.operandRest_near rfl e
    · exact take (h.follows_primary hk) fun e _ _ => h.operandRest_near rfl e

/-! ## Operators of one operand -/

/-- An updating operator belongs to the stretch or is not read. -/
theorem outer_postfixOperand {start start' : Position} (hstart : start' = Ψ.places.shift start) :
    Ψ.Outer (g.postfixOperand start) (g'.postfixOperand start') := by
  rw [postfixOperand_eq, postfixOperand_eq]
  intro env s₁ s₂
  refine take (h.outer_leftHandSideBody _ _ _) fun e s₁ s₂ => ?_
  have hmoved (t : Token) : PostfixStays e (Ψ.moved t) ↔ PostfixStays e t := Iff.rfl
  refine token_near (PostfixStays e) hmoved (fun t ht => .inl (by rw [ht]; rfl))
    (fun t ht => postfixRest_of_stays ht) (fun t ht => postfixRest_of_stays ?_) (fun hpass => ?_)
    (done rfl)
  · simpa [PostfixStays] using ht
  · obtain ⟨hop, hgoes⟩ := not_or.1 hpass
    have hk := isPlain_of_updateOp? hop
    obtain ⟨op, hop⟩ := Option.ne_none_iff_exists'.1 hop
    rw [postfixRest_of_goes hop hgoes, postfixRest_of_goes (t := Ψ.moved s₁.token) hop
      (by simpa using hgoes)]
    exact follows_checkUpdateTarget e (take (skip hk) fun _ _ _ => spanFrom hstart (done rfl))

/-- Operators before an operand are passed, and the operand is followed to its end. -/
theorem outer_unaryBody : Ψ.Outer g.unaryBody g'.unaryBody := by
  intro env s₁ s₂
  refine here (kind (kind ?_))
  split
  next op _ hop =>
    have hk : s₁.token.kind.isPlain := isPlain_of_unaryOp? (by rw [hop]; nofun)
    exact take (skip hk) fun _ _ _ => pass h.unary.near fun _ _ _ => spanFrom rfl (done rfl)
  next op _ hop =>
    have hk : s₁.token.kind.isPlain := isPlain_of_updateOp? (by rw [hop]; nofun)
    exact take (skip hk) fun _ _ _ => pass h.unary.near fun argument _ _ =>
      follows_checkUpdateTarget argument (spanFrom rfl (done rfl))
  next =>
    refine context (token (ite Iff.rfl (fun hawait => ?_) fun _ => h.outer_postfixOperand rfl _ _ _))
    have hk := Token.kind_of_isIdentifier (Bool.and_eq_true_iff.1 hawait).2
    exact take (skip (by rw [hk]; rfl)) fun _ _ _ => pass h.unary.near fun _ _ _ =>
      spanFrom rfl (done rfl)

/-! ## Operators of two operands -/

section

variable {start start' : Position} (hstart : start' = Ψ.places.shift start)
include hstart

/-- A private name, the word `in` and an operand. -/
theorem follows_privateIn (floor : Nat) {env : Surrounding} {s₁ s₂ : ParserState}
    (hk : s₁.token.kind = .privateIdentifier) :
    Ψ.Follows .within Ψ.Abreast true env s₁ s₂ (g.privateIn start floor)
      (g'.privateIn start' floor) := by
  have hplain : s₁.token.kind.isPlain := by rw [hk]; rfl
  -- past the name, the word `in` and what it is asked of
  have hrest {m : ParserState} (hin : m.token.kind = .keyword .in) (t : Token) (m₂ : ParserState)
      {taken : Bool} : Ψ.Follows .within Ψ.Near taken env m m₂
        (do
          discard Parser.bump
          let right ← g.operation BinaryOp.in.precedence
          return .privateIn (← Parser.spanFrom start) ⟨t.span, t.text⟩ right : Parser Expr)
        (do
          discard Parser.bump
          let right ← g'.operation BinaryOp.in.precedence
          return .privateIn (← Parser.spanFrom start') ⟨(Ψ.moved t).span, t.text⟩ right) :=
    near (take (skip (by rw [hin]; rfl)) fun _ _ _ => pass (h.operation _).near fun _ _ _ =>
      spanFrom hstart (done rfl))
  refine context (ite Iff.rfl (fun _ => unexpected) fun _ => peek_beyond (fun m hpast => ?_) ?_)
  · refine ite Iff.rfl (fun _ => unexpected) fun hin => ?_
    refine bind_by (t := true) (u := false) (Int.zero_add 0) (bump hplain) fun t s₁' s₂' hrun => ?_
    obtain ⟨rfl, hpast'⟩ := Parser.leaves_bump.of_run hrun
    obtain rfl := hpast.unique hpast'
    exact hrest (not_not.1 hin) _ _
  · intro m e s₁' hs hpast hrun
    by_cases hin : m.token.kind = .keyword .in
    · rw [if_neg (not_not.2 hin)] at hrun
      exact passed_beyond hs hpast (Parser.leaves_bump.mono fun _ _ h => h.2)
        (fun t => hrest hin t m) hrun
    · rw [if_pos hin] at hrun
      exact (Parser.Leaves.unexpected (Q := fun _ _ => False).of_run hrun).elim

/-- Behind the stretch there is a parenthesis in the copy, which is no operator. -/
theorem operations_near (floor : Nat) (first : Expr) {env : Surrounding} {s₁ s₂ : ParserState} :
    Ψ.Follows .within Ψ.Near false env s₁ s₂ (g.operations start floor first)
      (g'.operations start' floor (Ψ.moved first)) := by
  refine repeatFrom rfl fun left s₁ s₂ => ?_
  have hstay : Ψ.Follows .within Ψ.Near false env s₁ s₂ (pure (.inr left) : Parser (Expr ⊕ Expr))
      (pure (.inr (Ψ.moved left))) := done rfl
  have hunary : (Ψ.moved left).isUnary = left.isUnary := by cases left <;> rfl
  let op? (k : TokenKind) := (infixOp? env.context.noIn k).filter fun op => floor < op.precedence
  refine of_run (p := Parser.kind >>= fun k => operationStep g start left (op? k))
    (q := Parser.kind >>= fun k => operationStep g' start' (Ψ.moved left) (op? k)) rfl
    (fun _ => rfl) ?_
  refine kind_near (fun k => op? k = none) rfl (fun k hk => by rw [hk]; rfl)
    (fun k hk => by rw [hk]; rfl) (fun hgoes => ?_) hstay
  have hinfix : infixOp? env.context.noIn s₁.token.kind ≠ none := fun hnone =>
    hgoes (by simp [op?, hnone])
  have hk := isPlain_of_infixOp? hinfix
  obtain ⟨op, hop⟩ := Option.ne_none_iff_exists'.1 hgoes
  rw [hop]
  refine ite (by rw [hunary]) (fun _ => fail) fun _ => take (skip hk) fun _ _ _ => ?_
  exact pass (h.operation _).near fun _ _ _ => spanFrom hstart (done (by cases op <;> rfl))

end

/-- Operators are taken as long as they are of the stretch. -/
theorem outer_operationBody (floor : Nat) : Ψ.Outer (g.operationBody floor) (g'.operationBody floor) := by
  intro env s₁ s₂
  have hrest {start start' : Position} (hstart : start' = Ψ.places.shift start) (first : Expr)
      (s₁ s₂ : ParserState) : Ψ.Follows .within Ψ.Near false env s₁ s₂
        (if first.isArrow = true then return first else g.operations start floor first)
        (if (Ψ.moved first).isArrow = true then return Ψ.moved first
          else g'.operations start' floor (Ψ.moved first)) :=
    ite (by simp) (fun _ => done rfl) fun _ => h.operations_near hstart floor first
  refine here (ifKind (fun hk => ?_) fun _ => ?_)
  · exact take (h.follows_privateIn rfl floor hk) (hrest rfl)
  · exact take (h.outer_unaryBody _ _ _) (hrest rfl)

/-- A question mark behind the stretch would be no part of the copy. -/
theorem outer_conditional : Ψ.Outer g.conditional g'.conditional := by
  intro env s₁ s₂
  refine here (take (h.outer_operationBody 0 _ _ _) fun test _ _ => ite (by simp)
    (fun _ => done rfl) fun _ => eaten_near rfl nofun (fun _ _ => ?_) (done rfl))
  refine pass (allowIn fun _ => h.assignment.near) fun _ _ _ => near (take (expectMark _) ?_)
  exact fun _ _ _ => pass h.assignment.near fun _ _ _ => spanFrom rfl (done rfl)

/-! ## Assignments -/

/-- A `yield` may end with the stretch. -/
theorem yieldRest_near {start start' : Position} (hstart : start' = Ψ.places.shift start)
    (noIn : Bool) {env : Surrounding} {s₁ s₂ : ParserState} :
    Ψ.Follows .within Ψ.Near false env s₁ s₂ (Parser.token >>= yieldRest g start noIn)
      (Parser.token >>= yieldRest g' start' noIn) := by
  have hstay : Ψ.Follows .within Ψ.Near false env s₁ s₂
      (do return .yield (← Parser.spanFrom start) false none : Parser Expr)
      (do return .yield (← Parser.spanFrom start') false none) := spanFrom hstart (done rfl)
  refine token_near (YieldStays noIn) (fun _ => Iff.rfl) (fun t ht => .inr ?_)
    (fun t => yieldRest_of_stays) (fun t => yieldRest_of_stays) (fun hgoes => ?_) hstay
  · rw [ht]
    exact ⟨nofun, rfl⟩
  refine ite Iff.rfl (fun hnewline => absurd (.inl hnewline) hgoes) fun _ => ?_
  refine ite Iff.rfl (fun hstar => ?_) fun hstar =>
    ite Iff.rfl (fun hends => absurd (.inr ⟨hstar, hends⟩) hgoes) fun _ => ?_
  · exact take (skip (by rw [hstar]; rfl)) fun _ _ _ => pass h.assignment.near fun _ _ _ =>
      spanFrom hstart (done rfl)
  · exact take (h.assignment _ _ _) fun _ _ _ => spanFrom hstart (done rfl)

/-- The word `yield` is passed, and its argument if it has one. -/
theorem follows_yieldExpression {env : Surrounding} {s₁ s₂ : ParserState}
    (hk : s₁.token.kind = .identifier) :
    Ψ.Follows .within Ψ.Abreast true env s₁ s₂ g.yieldExpression g'.yieldExpression := by
  rw [yieldExpression_eq, yieldExpression_eq]
  exact here (take (skip (by rw [hk]; rfl)) fun _ _ _ => context (h.yieldRest_near rfl _))

/-- An assignment has its operator in the stretch or is none. -/
theorem outer_conditionalOrAssignment :
    Ψ.Outer g.conditionalOrAssignment g'.conditionalOrAssignment := by
  intro env s₁ s₂
  refine here (take (h.outer_conditional _ _ _) fun left s₁ s₂ => ?_)
  have hstay : Ψ.Follows .within Ψ.Near false env s₁ s₂ (pure left) (pure (Ψ.moved left)) := done rfl
  have harrow : (Ψ.moved left).isArrow = left.isArrow := by simp
  rw [harrow]
  refine kind_near (fun k => assignOp? k = none ∨ left.isArrow = true) (.inl rfl) ?_ ?_
    (fun hgoes => ?_) hstay
  · rintro k (hk | hk)
    · rw [hk]
    · split
      · rfl
      · exact if_pos hk
  · rintro k (hk | hk)
    · rw [hk]
    · split
      · rfl
      · exact if_pos hk
  · obtain ⟨hop, hgoes⟩ := not_or.1 hgoes
    have hk := isPlain_of_assignOp? hop
    obtain ⟨op, hop⟩ := Option.ne_none_iff_exists'.1 hop
    rw [hop]
    refine ite Iff.rfl (fun harrow => absurd harrow hgoes) fun _ => ?_
    refine ofExcept (assignTarget_moved op left) fun target => take (skip hk) fun _ _ _ => ?_
    exact pass h.assignment.near fun _ _ _ => spanFrom rfl (done rfl)

/-- The context says on both sides whether `yield` is an expression of its own. -/
theorem outer_assignmentBody : Ψ.Outer g.assignmentBody g'.assignmentBody := by
  intro env s₁ s₂
  refine context (token (ite Iff.rfl (fun hyield => ?_) fun _ => ?_))
  · exact h.follows_yieldExpression (Token.kind_of_isIdentifier (Bool.and_eq_true_iff.1 hyield).2)
  · exact h.outer_conditionalOrAssignment env s₁ s₂

end Alike

end Grammar

end WithScope
