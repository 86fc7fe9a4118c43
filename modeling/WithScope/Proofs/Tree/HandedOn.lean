import WithScope.Proofs.Tree.Placeless
import WithScope.Wrapper.Returns

/-!
# Trees whose returns hand their values on

`Stmt.handedOn` does to a tree what `Program.unwrapped` does to its text: each return that leaves
the fragment returns an object instead, with its argument in parentheses as the property `value`, or
an empty object if there is no argument. Nothing else is changed.

* `Stmt.handedOn_eq_self` — where there are no such returns, nothing is changed at all;
* `Stmt.returns_handedOn` — the same returns leave the fragment as before, each with its object.

`HoldsReturns` is what statements, blocks and the other parts that hold them have in common.
-/

namespace WithScope

/-- What is returned in place of the argument of a return. -/
def Return.object (r : Return) : Expr :=
  match r.argument with
  | none => .object r.loc []
  | some e => .object r.loc [.value r.loc (.ident ⟨r.loc, "value"⟩) (.paren r.loc e)]

/-- A return that hands its value on. -/
def Return.handing (r : Return) : Return := ⟨r.loc, some r.object⟩

mutual

/-- A statement with returns that hand their values on. -/
def Stmt.handedOn : Stmt → Stmt
  | .return loc argument => .return loc (some (Return.object ⟨loc, argument⟩))
  | .block b => .block b.handedOn
  | .if loc test consequent alternate => .if loc test consequent.handedOn (handedOnElse alternate)
  | .for loc init test update body => .for loc init test update body.handedOn
  | .forIn loc left right body => .forIn loc left right body.handedOn
  | .forOf loc isAwait left right body => .forOf loc isAwait left right body.handedOn
  | .while loc test body => .while loc test body.handedOn
  | .doWhile loc body test => .doWhile loc body.handedOn test
  | .labeled loc label body => .labeled loc label body.handedOn
  | .with loc object body => .with loc object body.handedOn
  | .switch loc discriminant cases => .switch loc discriminant (handedOnCases cases)
  | .try loc block handler finalizer =>
    .try loc block.handedOn (handedOnCatch handler) (handedOnFinally finalizer)
  | .varDecl d => .varDecl d
  | .function func => .function func
  | .class c => .class c
  | .expr loc e => .expr loc e
  | .throw loc argument => .throw loc argument
  | .break loc label => .break loc label
  | .continue loc label => .continue loc label
  | .debugger loc => .debugger loc
  | .empty loc => .empty loc
  | .module d => .module d

/-- Statements with returns that hand their values on. -/
def handedOnStatements : List Stmt → List Stmt
  | [] => []
  | s :: body => s.handedOn :: handedOnStatements body

/-- A block with returns that hand their values on. -/
def Block.handedOn : Block → Block
  | .mk loc body => .mk loc (handedOnStatements body)

/-- What follows `else`, with returns that hand their values on. -/
def handedOnElse : Option Stmt → Option Stmt
  | none => none
  | some s => some s.handedOn

/-- The clauses of a `switch` with returns that hand their values on. -/
def handedOnCases : List SwitchCase → List SwitchCase
  | [] => []
  | .mk loc test consequent :: cases => .mk loc test (handedOnStatements consequent) ::
    handedOnCases cases

/-- A `catch` clause with returns that hand their values on. -/
def handedOnCatch : Option CatchClause → Option CatchClause
  | none => none
  | some (.mk loc param body) => some (.mk loc param body.handedOn)

/-- What follows `finally`, with returns that hand their values on. -/
def handedOnFinally : Option Block → Option Block
  | none => none
  | some b => some b.handedOn

end

/-- A program with returns that hand their values on. -/
def Program.handedOn (p : Program) : Program := { p with body := handedOnStatements p.body }

/-! ## Without returns -/

mutual

/-- A statement that no return leaves stays as it is. -/
theorem Stmt.handedOn_eq_self : ∀ s : Stmt, s.returns = [] → s.handedOn = s
  | .return .., h => nomatch h
  | .block b, h => congrArg Stmt.block (b.handedOn_eq_self h)
  | .if _ _ consequent alternate, h => by
    obtain ⟨hc, ha⟩ := List.append_eq_nil_iff.1 h
    rw [Stmt.handedOn, consequent.handedOn_eq_self hc, handedOnElse_eq_self alternate ha]
  | .for _ _ _ _ body, h => congrArg (Stmt.for _ _ _ _) (body.handedOn_eq_self h)
  | .forIn _ _ _ body, h => congrArg (Stmt.forIn _ _ _) (body.handedOn_eq_self h)
  | .forOf _ _ _ _ body, h => congrArg (Stmt.forOf _ _ _ _) (body.handedOn_eq_self h)
  | .while _ _ body, h => congrArg (Stmt.while _ _) (body.handedOn_eq_self h)
  | .doWhile _ body _, h => congrArg (Stmt.doWhile _ · _) (body.handedOn_eq_self h)
  | .labeled _ _ body, h => congrArg (Stmt.labeled _ _) (body.handedOn_eq_self h)
  | .with _ _ body, h => congrArg (Stmt.with _ _) (body.handedOn_eq_self h)
  | .switch _ _ cases, h => congrArg (Stmt.switch _ _) (handedOnCases_eq_self cases h)
  | .try _ block handler finalizer, h => by
    obtain ⟨h, hf⟩ := List.append_eq_nil_iff.1 h
    obtain ⟨hb, hh⟩ := List.append_eq_nil_iff.1 h
    rw [Stmt.handedOn, block.handedOn_eq_self hb, handedOnCatch_eq_self handler hh,
      handedOnFinally_eq_self finalizer hf]
  | .varDecl _, _ | .function _, _ | .class _, _ | .expr .., _ | .throw .., _ | .break .., _
  | .continue .., _ | .debugger _, _ | .empty _, _ | .module _, _ => rfl

/-- Statements that no return leaves stay as they are. -/
theorem handedOnStatements_eq_self : ∀ body : List Stmt, statementsReturns body = [] →
    handedOnStatements body = body
  | [], _ => rfl
  | s :: body, h => by
    obtain ⟨hs, hbody⟩ := List.append_eq_nil_iff.1 h
    rw [handedOnStatements, s.handedOn_eq_self hs, handedOnStatements_eq_self body hbody]

/-- A block that no return leaves stays as it is. -/
theorem Block.handedOn_eq_self : ∀ b : Block, b.returns = [] → b.handedOn = b
  | .mk _ body, h => congrArg (Block.mk _) (handedOnStatements_eq_self body h)

/-- What stands after `else` stays as it is. -/
theorem handedOnElse_eq_self : ∀ alternate : Option Stmt, elseReturns alternate = [] →
    handedOnElse alternate = alternate
  | none, _ => rfl
  | some s, h => congrArg some (s.handedOn_eq_self h)

/-- The clauses of a `switch` stay as they are. -/
theorem handedOnCases_eq_self : ∀ cases : List SwitchCase, casesReturns cases = [] →
    handedOnCases cases = cases
  | [], _ => rfl
  | .mk _ _ consequent :: cases, h => by
    obtain ⟨hc, hcases⟩ := List.append_eq_nil_iff.1 h
    rw [handedOnCases, handedOnStatements_eq_self consequent hc, handedOnCases_eq_self cases hcases]

/-- A `catch` clause stays as it is. -/
theorem handedOnCatch_eq_self : ∀ handler : Option CatchClause, catchReturns handler = [] →
    handedOnCatch handler = handler
  | none, _ => rfl
  | some (.mk _ _ body), h => congrArg (some <| CatchClause.mk _ _ ·) (body.handedOn_eq_self h)

/-- What stands after `finally` stays as it is. -/
theorem handedOnFinally_eq_self : ∀ finalizer : Option Block, finallyReturns finalizer = [] →
    handedOnFinally finalizer = finalizer
  | none, _ => rfl
  | some b, h => congrArg some (b.handedOn_eq_self h)

end

/-! ## The returns that there are -/

mutual

/-- The same returns leave a statement as before, and each hands its value on. -/
theorem Stmt.returns_handedOn : ∀ s : Stmt, s.handedOn.returns = s.returns.map Return.handing
  | .return .. => rfl
  | .block b => b.returns_handedOn
  | .if _ _ consequent alternate => by
    rw [Stmt.handedOn, Stmt.returns, Stmt.returns, consequent.returns_handedOn, elseReturns_handedOn alternate,
      List.map_append]
  | .for _ _ _ _ body | .forIn _ _ _ body | .forOf _ _ _ _ body | .while _ _ body
  | .doWhile _ body _ | .labeled _ _ body | .with _ _ body => body.returns_handedOn
  | .switch _ _ cases => casesReturns_handedOn cases
  | .try _ block handler finalizer => by
    rw [Stmt.handedOn, Stmt.returns, Stmt.returns, block.returns_handedOn, catchReturns_handedOn handler,
      finallyReturns_handedOn finalizer, List.map_append, List.map_append]
  | .varDecl _ | .function _ | .class _ | .expr .. | .throw .. | .break .. | .continue ..
  | .debugger _ | .empty _ | .module _ => rfl

/-- The returns in statements are handed on one by one, in their order. -/
theorem statementsReturns_handedOn : ∀ body : List Stmt,
    statementsReturns (handedOnStatements body) = (statementsReturns body).map Return.handing
  | [] => rfl
  | s :: body => by
    rw [handedOnStatements, statementsReturns, statementsReturns, s.returns_handedOn,
      statementsReturns_handedOn body, List.map_append]

/-- The returns in a block are handed on one by one. -/
theorem Block.returns_handedOn : ∀ b : Block, b.handedOn.returns = b.returns.map Return.handing
  | .mk _ body => statementsReturns_handedOn body

/-- The returns after `else` are handed on. -/
theorem elseReturns_handedOn : ∀ alternate : Option Stmt,
    elseReturns (handedOnElse alternate) = (elseReturns alternate).map Return.handing
  | none => rfl
  | some s => s.returns_handedOn

/-- The returns in the clauses of a `switch` are handed on, clause by clause. -/
theorem casesReturns_handedOn : ∀ cases : List SwitchCase,
    casesReturns (handedOnCases cases) = (casesReturns cases).map Return.handing
  | [] => rfl
  | .mk _ _ consequent :: cases => by
    rw [handedOnCases, casesReturns, casesReturns, statementsReturns_handedOn consequent,
      casesReturns_handedOn cases, List.map_append]

/-- The returns in a `catch` clause are handed on. -/
theorem catchReturns_handedOn : ∀ handler : Option CatchClause,
    catchReturns (handedOnCatch handler) = (catchReturns handler).map Return.handing
  | none => rfl
  | some (.mk _ _ body) => body.returns_handedOn

/-- The returns after `finally` are handed on. -/
theorem finallyReturns_handedOn : ∀ finalizer : Option Block,
    finallyReturns (handedOnFinally finalizer) = (finallyReturns finalizer).map Return.handing
  | none => rfl
  | some b => b.returns_handedOn

end

/-! ## What holds returns -/

/-- What may hold returns that leave the fragment it belongs to. -/
class HoldsReturns (α : Type) where
  /-- the returns -/
  returns : α → List Return
  /-- the same with returns that hand their values on -/
  handedOn : α → α
  /-- without returns it stays as it is -/
  handedOn_eq_self : ∀ a, returns a = [] → handedOn a = a

namespace HoldsReturns

variable {α : Type} [HoldsReturns α]

/-- A list of parts that no return leaves stays as it is. -/
theorem map_handedOn_eq_self : ∀ as : List α, as.flatMap returns = [] → as.map handedOn = as
  | [], _ => rfl
  | a :: as, h => by
    obtain ⟨ha, has⟩ := List.append_eq_nil_iff.1 h
    rw [List.map_cons, handedOn_eq_self a ha, map_handedOn_eq_self as has]

instance : HoldsReturns (List α) := ⟨List.flatMap returns, List.map handedOn, map_handedOn_eq_self⟩

instance : HoldsReturns (Option α) where
  returns a := a.toList.flatMap returns
  handedOn := Option.map handedOn
  handedOn_eq_self
  | none, _ => rfl
  | some a, h => congrArg some (handedOn_eq_self a ((List.append_nil _).symm.trans h))

end HoldsReturns

open HoldsReturns (returns handedOn)
open Relocatable (relocated)

instance : HoldsReturns Stmt := ⟨Stmt.returns, Stmt.handedOn, Stmt.handedOn_eq_self⟩
instance : HoldsReturns Block := ⟨Block.returns, Block.handedOn, Block.handedOn_eq_self⟩

theorem returns_stmts (body : List Stmt) : returns body = statementsReturns body := by
  induction body with
  | nil => rfl
  | cons s body ih => rw [statementsReturns, ← ih]; rfl

theorem handedOn_stmts (body : List Stmt) : handedOn body = handedOnStatements body := by
  induction body with
  | nil => rfl
  | cons s body ih => rw [handedOnStatements, ← ih]; rfl

theorem returns_else (alternate : Option Stmt) : returns alternate = elseReturns alternate := by
  cases alternate with
  | none => rfl
  | some s => exact List.append_nil _

theorem handedOn_else (alternate : Option Stmt) : handedOn alternate = handedOnElse alternate := by
  cases alternate <;> rfl

theorem returns_finally (finalizer : Option Block) : returns finalizer = finallyReturns finalizer := by
  cases finalizer with
  | none => rfl
  | some b => exact List.append_nil _

theorem handedOn_finally (finalizer : Option Block) :
    handedOn finalizer = handedOnFinally finalizer := by
  cases finalizer <;> rfl

instance : HoldsReturns SwitchCase where
  returns | .mk _ _ consequent => statementsReturns consequent
  handedOn | .mk loc test consequent => .mk loc test (handedOnStatements consequent)
  handedOn_eq_self
  | .mk _ _ consequent, h => congrArg (SwitchCase.mk _ _) (handedOnStatements_eq_self consequent h)

theorem returns_cases (cases : List SwitchCase) : returns cases = casesReturns cases := by
  induction cases with
  | nil => rfl
  | cons c cases ih =>
    obtain ⟨loc, test, consequent⟩ := c
    rw [casesReturns, ← ih]
    rfl

theorem handedOn_cases (cases : List SwitchCase) : handedOn cases = handedOnCases cases := by
  induction cases with
  | nil => rfl
  | cons c cases ih =>
    obtain ⟨loc, test, consequent⟩ := c
    rw [handedOnCases, ← ih]
    rfl

instance : HoldsReturns CatchClause where
  returns | .mk _ _ body => body.returns
  handedOn | .mk loc param body => .mk loc param body.handedOn
  handedOn_eq_self
  | .mk _ _ body, h => congrArg (CatchClause.mk _ _) (body.handedOn_eq_self h)

theorem returns_catch (handler : Option CatchClause) : returns handler = catchReturns handler := by
  rcases handler with _ | ⟨loc, param, body⟩
  · rfl
  · exact List.append_nil _

theorem handedOn_catch (handler : Option CatchClause) : handedOn handler = handedOnCatch handler := by
  rcases handler with _ | ⟨loc, param, body⟩ <;> rfl

/-! ## Statements put together

What is read twice is the same up to its places, and so is what it is put into. -/

section

variable {f : Position → Position} {loc loc' : Span} {test test' : Option Expr} {e : Expr}
  {body body' : Stmt}

/-- Where an optional expression stands does not matter. -/
theorem placeless_option (o : Option Expr) : relocatedOption (fun _ => .origin) (relocated f o) =
    relocatedOption (fun _ => .origin) o := by
  rw [relocatedOption_eq_map, relocatedOption_eq_map]
  exact placeless_relocated f o

/-- What is left out is left out without places, too. -/
theorem isNone_of_placeless {α : Type} [Relocatable α] [HoldsReturns α] {a a' : Option α}
    (h : placeless a' = placeless (handedOn a)) : a'.isNone = a.isNone := by
  calc a'.isNone = (placeless a').isNone := by cases a' <;> rfl
    _ = (placeless (handedOn a)).isNone := by rw [h]
    _ = a.isNone := by cases a <;> rfl

/-- A block as a statement, of which the one is the other with its returns handed on. -/
theorem placeless_blockStatement {b b' : Block} (h : placeless b' = placeless (handedOn b)) :
    placeless (Stmt.block b') = placeless (handedOn (Stmt.block b)) := congrArg Stmt.block h

/-- Statements, of which the ones are the others with their returns handed on. -/
theorem placeless_stmts {body body' : List Stmt} (h : placeless body' = placeless (handedOn body)) :
    relocatedStmts (fun _ => .origin) body' =
      relocatedStmts (fun _ => .origin) (handedOnStatements body) := by
  rw [relocatedStmts_eq_map, relocatedStmts_eq_map, ← handedOn_stmts]
  exact h

/-- Blocks with such statements in them. -/
theorem placeless_block {body body' : List Stmt} (h : placeless body' = placeless (handedOn body)) :
    placeless (Block.mk loc' body') = placeless (handedOn (Block.mk loc body)) :=
  congrArg (Block.mk _) (placeless_stmts h)

/-- The test is an expression, so only the branches change. -/
theorem placeless_if {alternate alternate' : Option Stmt}
    (h : placeless body' = placeless (handedOn body))
    (ha : placeless alternate' = placeless (handedOn alternate)) :
    placeless (Stmt.if loc' (relocated f e) body' alternate') =
      placeless (handedOn (Stmt.if loc e body alternate)) := by
  have helse : relocatedElse (fun _ => .origin) alternate' =
      relocatedElse (fun _ => .origin) (handedOnElse alternate) := by
    rw [relocatedElse_eq_map, relocatedElse_eq_map, ← handedOn_else]
    exact ha
  exact (congr (congrArg₂ (Stmt.if ⟨.origin, .origin⟩) (placeless_relocated f e) h) helse :)

/-- All but the body of a loop is expressions. -/
theorem placeless_for {init : Option ForInit} (h : placeless body' = placeless (handedOn body)) :
    placeless (Stmt.for loc' (relocated f init) (relocated f test) (relocated f test') body') =
      placeless (handedOn (Stmt.for loc init test test' body)) := by
  have hinit :
      relocatedInit (fun _ => .origin) (relocated f init) = relocatedInit (fun _ => .origin) init := by
    rw [relocatedInit_eq_map, relocatedInit_eq_map]
    exact placeless_relocated f init
  exact (congr (congr (congrArg₂ (Stmt.for ⟨.origin, .origin⟩) hinit (placeless_option test))
    (placeless_option test')) h :)

/-- Target and object have no returns that leave the loop. -/
theorem placeless_forIn {left : ForTarget} (h : placeless body' = placeless (handedOn body)) :
    placeless (Stmt.forIn loc' (relocated f left) (relocated f e) body') =
      placeless (handedOn (Stmt.forIn loc left e body)) :=
  (congr (congrArg₂ (Stmt.forIn ⟨.origin, .origin⟩) (placeless_relocated f left)
    (placeless_relocated f e)) h :)

/-- Target and values have no returns that leave the loop. -/
theorem placeless_forOf {left : ForTarget} {isAwait : Bool}
    (h : placeless body' = placeless (handedOn body)) :
    placeless (Stmt.forOf loc' isAwait (relocated f left) (relocated f e) body') =
      placeless (handedOn (Stmt.forOf loc isAwait left e body)) :=
  (congr (congrArg₂ (Stmt.forOf ⟨.origin, .origin⟩ _) (placeless_relocated f left)
    (placeless_relocated f e)) h :)

/-- The test is an expression. -/
theorem placeless_while (h : placeless body' = placeless (handedOn body)) :
    placeless (Stmt.while loc' (relocated f e) body') = placeless (handedOn (Stmt.while loc e body)) :=
  congrArg₂ (Stmt.while _) (placeless_relocated f e) h

/-- The test is an expression, behind a body that changes. -/
theorem placeless_doWhile (h : placeless body' = placeless (handedOn body)) :
    placeless (Stmt.doWhile loc' body' (relocated f e)) =
      placeless (handedOn (Stmt.doWhile loc body e)) :=
  congrArg₂ (Stmt.doWhile _) h (placeless_relocated f e)

/-- A label stays as it is. -/
theorem placeless_labeled {label : Ident} (h : placeless body' = placeless (handedOn body)) :
    placeless (Stmt.labeled loc' (relocated f label) body') =
      placeless (handedOn (Stmt.labeled loc label body)) := congrArg (Stmt.labeled _ _) h

/-- The object is an expression. -/
theorem placeless_with (h : placeless body' = placeless (handedOn body)) :
    placeless (Stmt.with loc' (relocated f e) body') = placeless (handedOn (Stmt.with loc e body)) :=
  congrArg₂ (Stmt.with _) (placeless_relocated f e) h

/-- The test of a clause is an expression. -/
theorem placeless_case {body body' : List Stmt} (h : placeless body' = placeless (handedOn body)) :
    placeless (SwitchCase.mk loc' (relocated f test) body') =
      placeless (handedOn (SwitchCase.mk loc test body)) :=
  congrArg₂ (SwitchCase.mk _) (placeless_option test) (placeless_stmts h)

/-- Only the clauses of a `switch` change. -/
theorem placeless_switch {cases cases' : List SwitchCase}
    (h : placeless cases' = placeless (handedOn cases)) :
    placeless (Stmt.switch loc' (relocated f e) cases') =
      placeless (handedOn (Stmt.switch loc e cases)) := by
  refine congrArg₂ (Stmt.switch _) (placeless_relocated f e) ?_
  rw [relocatedCases_eq_map, relocatedCases_eq_map, ← handedOn_cases]
  exact h

/-- The parameter of a clause is a pattern. -/
theorem placeless_catch {param : Option Pat} {b b' : Block} (h : placeless b' = placeless (handedOn b)) :
    placeless (CatchClause.mk loc' (relocated f param) b') =
      placeless (handedOn (CatchClause.mk loc param b)) := by
  cases param with
  | none => exact congrArg (CatchClause.mk _ none) h
  | some p => exact congrArg₂ (CatchClause.mk _ <| some ·) (p.relocated_relocated f _) h

/-- The three parts of a `try` change each by itself. -/
theorem placeless_try {b b' : Block} {handler handler' : Option CatchClause}
    {finalizer finalizer' : Option Block} (h : placeless b' = placeless (handedOn b))
    (hh : placeless handler' = placeless (handedOn handler))
    (hf : placeless finalizer' = placeless (handedOn finalizer)) :
    placeless (Stmt.try loc' b' handler' finalizer') =
      placeless (handedOn (Stmt.try loc b handler finalizer)) := by
  have hcatch : relocatedCatch (fun _ => .origin) handler' =
      relocatedCatch (fun _ => .origin) (handedOnCatch handler) := by
    rw [relocatedCatch_eq_map, relocatedCatch_eq_map, ← handedOn_catch]
    exact hh
  have hfinally : relocatedFinally (fun _ => .origin) finalizer' =
      relocatedFinally (fun _ => .origin) (handedOnFinally finalizer) := by
    rw [relocatedFinally_eq_map, relocatedFinally_eq_map, ← handedOn_finally]
    exact hf
  exact (congr (congrArg₂ (Stmt.try ⟨.origin, .origin⟩) h hcatch) hfinally :)

/-- Programs with such statements; the source type stays. -/
theorem Program.placeless_handedOn {p : Program} {body : List Stmt}
    (h : placeless body = placeless (HoldsReturns.handedOn p.body)) :
    placeless (⟨loc, p.sourceType, body⟩ : Program) = placeless p.handedOn :=
  congrArg (Program.mk ⟨.origin, .origin⟩ p.sourceType) (placeless_stmts h)

end

end WithScope
