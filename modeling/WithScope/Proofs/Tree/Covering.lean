import WithScope.Proofs.Tree.Located
import WithScope.Proofs.Tree.Node

/-!
# What takes up the place of what

`Covers source ns ms` says that constructs `ms` take up no more room than `ns` do: wherever the ones
are a row, so are the others. Parts of a construct can thus be put in the place of the construct, and
parts of these in their place, without their order being looked at again.

`Node.located` are the constructs that a node is made of. The name in a key or in a member access is
left out, since it is no part of the node that can be looked into, and since the key of a default
value is one with a name in the value.
-/

namespace WithScope

variable {source : List Char}

/-- Wherever some constructs are a row, others are a row between the same offsets. -/
def Covers (source : List Char) (ns ms : List Located) : Prop :=
  ∀ ⦃lo hi⦄, Row source lo hi ns → Row source lo hi ms

namespace Covers

variable {ns ms ns' ms' : List Located}

theorem refl (ns : List Located) : Covers source ns ns := fun _ _ h => h

theorem trans {ls : List Located} (h : Covers source ns ms) (h' : Covers source ms ls) :
    Covers source ns ls :=
  fun _ _ hrow => h' (h hrow)

theorem sublist (h : ms.Sublist ns) : Covers source ns ms := fun _ _ hrow => hrow.sublist h

/-- What a construct holds. -/
theorem children (n : Located) : Covers source [n] n.children := fun _ _ hrow => hrow.inner

/-- The same stretch of text as another construct, with nothing in it. -/
theorem leaf {n m : Located} (hloc : m.loc = n.loc) (hm : m.children = []) :
    Covers source [n] [m] :=
  fun _ _ hrow => hrow.replaced hloc (hm ▸ .nil _ _)

/-- Nothing takes up the place of nothing. -/
theorem eq_nil (h : Covers source [] ms) : ms = [] := by
  by_contra hne
  exact Nat.lt_irrefl 0 ((h (.nil 0 0)).lt_of_ne_nil hne)

/-- What stands one after the other may be replaced separately. -/
theorem append (h : Covers source ns ms) (h' : Covers source ns' ms') :
    Covers source (ns ++ ns') (ms ++ ms') := by
  intro lo hi hrow
  -- the first construct of `ns'` is where the two parts of the row meet
  cases ns' with
  | nil =>
    rw [h'.eq_nil, List.append_nil]
    rw [List.append_nil] at hrow
    exact h hrow
  | cons n ns' =>
    obtain ⟨hns, hns'⟩ := hrow.of_append_cons
    obtain ⟨hlo, hhi⟩ := hrow.within n (List.mem_append_right _ (List.mem_cons_self ..))
    have := (hns'.nested n (List.mem_cons_self ..)).start_lt_stop
    exact (h hns).append (h' hns') hlo (by omega)

theorem flatMap {α : Type} {f g : α → List Located} {xs : List α}
    (h : ∀ x ∈ xs, Covers source (f x) (g x)) : Covers source (xs.flatMap f) (xs.flatMap g) := by
  induction xs with
  | nil => exact .refl []
  | cons x xs ih =>
    obtain ⟨hx, hxs⟩ := List.forall_mem_cons.1 h
    exact hx.append (ih hxs)

end Covers

/-! ## Nodes -/

namespace Node

/-- The constructs that a node is made of. -/
def located : Node → List Located
  | .expr e | .fieldValue e | .memberName (.computed e) | .key (.computed e) => [.expr e]
  | .memberName _ | .key _ => []
  | .template t => [.template t]
  | .property p => [.property p]
  | .function f => [.function f]
  | .class c => [.class c]
  | .member m => [.member m]
  | .pat _ p => [.pat p]
  | .patProperty _ p => [.patProperty p]
  | .block b => [.block b]
  | .varDecl d => [.varDecl d]
  | .declarator _ d => [.declarator d]
  | .caseBlock cases => cases.map .switchCase
  | .switchCase c => [.switchCase c]
  | .catchClause c => [.catchClause c]
  | .exportSpecifier _ s => [.exportSpecifier s]
  | .module d => [.module d]
  | .stmt s => [.stmt s]

theorem flatMap_located_map {α : Type} {f : α → Node} {g : α → Located}
    (h : ∀ a, (f a).located = [g a]) (as : List α) : (as.map f).flatMap located = as.map g := by
  rw [List.flatMap_map, List.map_eq_flatMap]
  exact congrArg (List.flatMap · as) (funext h)

theorem flatMap_located_elements {α : Type} {f : α → Node} {g : α → Located}
    (h : ∀ a, (f a).located = [g a]) (as : List (Option α)) :
    (as.filterMap (·.map f)).flatMap located = as.filterMap (·.map g) := by
  induction as with
  | nil => rfl
  | cons a as ih =>
    cases a with
    | none => exact ih
    | some a => simp [h, ih]

theorem sublist_interleave {α : Type} (as bs : List α) : bs.Sublist (interleave as bs) := by
  induction as generalizing bs with
  | nil => exact .refl bs
  | cons a as ih =>
    cases bs with
    | nil => exact List.nil_sublist _
    | cons b bs => exact ((ih bs).cons_cons b).cons a

/-- The name in a member access is left out, and nothing else. -/
theorem located_memberName (name : MemberName) :
    (memberName name).located.Sublist [name.located] := by
  cases name <;> simp [located, MemberName.located]

/-- The name in a key is left out, and nothing else. -/
theorem located_key (k : Key) : (key k).located.Sublist [k.located] := by
  cases k <;> simp [located, Key.located]

attribute [local simp] located flatMap_located_map flatMap_located_elements

/-- What stands in an expression, in the order of its text. -/
theorem sublist_exprChildren (e : Expr) :
    (e.children.flatMap located).Sublist (Located.exprChildren e) := by
  cases e
  case arrow loc isAsync params body =>
    cases body <;> simp [Expr.children, Located.exprChildren, ArrowBody.node, ArrowBody.located]
  case member loc object name isOptional =>
    simpa [Expr.children, Located.exprChildren] using located_memberName name
  all_goals simp [Expr.children, Located.exprChildren]

theorem sublist_propertyChildren (p : Property) :
    (p.children.flatMap located).Sublist (Located.propertyChildren p) := by
  cases p with
  | value loc k value =>
    cases k with
    | ident id =>
      -- a key that stands in the value again is no construct of its own
      by_cases h : Located.repeatsKey id value <;>
        simp [Property.children, Located.propertyChildren, h]
    | _ => simp [Property.children, Located.propertyChildren, Key.located]
  | method loc kind k f =>
    simpa [Property.children, Located.propertyChildren] using
      (located_key k).append_right [Located.function f]
  | shorthand loc k =>
    cases k <;> simp [Property.children, Located.propertyChildren, located, Key.located]
  | _ => simp [Property.children, Located.propertyChildren]

theorem sublist_memberChildren (m : Member) :
    (m.children.flatMap located).Sublist (Located.memberChildren m) := by
  cases m with
  | method loc isStatic kind k f =>
    simpa [Member.children, Located.memberChildren] using
      (located_key k).append_right [Located.function f]
  | field loc isStatic k value =>
    simpa [Member.children, Located.memberChildren] using
      (located_key k).append_right (value.toList.map Located.expr)
  | staticBlock loc body => simp [Member.children, Located.memberChildren]

theorem sublist_patChildren (use : PatUse) (p : Pat) :
    ((p.children use).flatMap located).Sublist (Located.patChildren p) := by
  cases p <;> simp [Pat.children, Located.patChildren]

theorem sublist_patPropertyChildren (use : PatUse) (p : PatProperty) :
    ((p.children use).flatMap located).Sublist (Located.patPropertyChildren p) := by
  cases p with
  | keyValue loc k value =>
    simpa [PatProperty.children, Located.patPropertyChildren] using
      (located_key k).append_right [Located.pat value]
  | _ => simp [PatProperty.children, Located.patPropertyChildren]

theorem sublist_moduleChildren (d : ModuleDecl) :
    (d.children.flatMap located).Sublist (Located.moduleChildren d) := by
  cases d
  case exportDefault loc value =>
    cases value <;> simp [ModuleDecl.children, Located.moduleChildren, DefaultExport.node,
      DefaultExport.located]
  all_goals simp [ModuleDecl.children, Located.moduleChildren]

theorem sublist_stmtChildren (s : Stmt) :
    (s.children.flatMap located).Sublist (Located.stmtChildren s) := by
  cases s
  case «for» loc init test update body =>
    rcases init with _ | ⟨d⟩ | ⟨e⟩ <;>
      simp [Stmt.children, Located.stmtChildren, ForInit.node, ForInit.located]
  case forIn loc left right body =>
    cases left <;> simp [Stmt.children, Located.stmtChildren, ForTarget.node, ForTarget.located]
  case forOf loc isAwait left right body =>
    cases left <;> simp [Stmt.children, Located.stmtChildren, ForTarget.node, ForTarget.located]
  all_goals simp [Stmt.children, Located.stmtChildren]

/-- What is directly inside of a node takes up no more room than the node. -/
theorem covers_children (n : Node) : Covers source n.located (n.children.flatMap located) := by
  cases n with
  | expr e => exact (Covers.children _).trans (.sublist (sublist_exprChildren e))
  | template t =>
    obtain ⟨loc, quasis, items⟩ := t
    refine (Covers.children _).trans (.sublist ?_)
    simpa [children, Template.children, Located.children] using sublist_interleave _ _
  | memberName m => cases m <;> exact .refl _
  | key k => cases k <;> exact .refl _
  | property p => exact (Covers.children _).trans (.sublist (sublist_propertyChildren p))
  | function f =>
    obtain ⟨loc, id, isAsync, isGenerator, params, body⟩ := f
    refine (Covers.children _).trans (.sublist ?_)
    simp [children, Func.children, Located.children]
  | «class» c =>
    obtain ⟨loc, id, superClass, bodyLoc, members⟩ := c
    -- the elements stand in the braces, which are no node
    have hmembers : Covers source [.classBody bodyLoc members] (members.map .member) := .children _
    have hsuper : Covers source (id.toList.map .ident ++ superClass.toList.map .expr)
        (superClass.toList.map .expr) := .sublist (List.sublist_append_right _ _)
    refine (Covers.children _).trans ?_
    simpa [children, Class.children, Located.children] using hsuper.append hmembers
  | member m => exact (Covers.children _).trans (.sublist (sublist_memberChildren m))
  | fieldValue e => exact .refl _
  | pat use p => exact (Covers.children _).trans (.sublist (sublist_patChildren use p))
  | patProperty use p =>
    exact (Covers.children _).trans (.sublist (sublist_patPropertyChildren use p))
  | block b =>
    refine (Covers.children _).trans (.sublist ?_)
    simp [children, Located.children]
  | varDecl d =>
    obtain ⟨loc, kind, declarators⟩ := d
    refine (Covers.children _).trans (.sublist ?_)
    simp [children, VarDecl.children, Located.children]
  | declarator kind d =>
    obtain ⟨loc, id, value⟩ := d
    refine (Covers.children _).trans (.sublist ?_)
    simp [children, Declarator.children, Located.children]
  | caseBlock cases =>
    refine .sublist ?_
    simp [children]
  | switchCase c =>
    obtain ⟨loc, test, consequent⟩ := c
    refine (Covers.children _).trans (.sublist ?_)
    simp [children, SwitchCase.children, Located.children]
  | catchClause c =>
    obtain ⟨loc, param, body⟩ := c
    refine (Covers.children _).trans (.sublist ?_)
    simp [children, CatchClause.children, Located.children]
  | exportSpecifier ofOther s =>
    refine .sublist ?_
    simp [children]
  | module d => exact (Covers.children _).trans (.sublist (sublist_moduleChildren d))
  | stmt s => exact (Covers.children _).trans (.sublist (sublist_stmtChildren s))

end Node

end WithScope
