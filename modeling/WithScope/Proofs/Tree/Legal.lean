import WithScope.Proofs.Tree.CoverRule
import WithScope.Proofs.Tree.Node

/-!
# Legal trees

The types of the tree allow more than the language does. A tree is legal if

* no declared pattern holds a target that binds no name, at any depth;
* what binds no name in other patterns is a member access, and no optional one;
* a rest element is the last one of its pattern or parameter list, and stands nowhere else;
* an assignment with another operator than `=` has a name or a member access on its left.

`Node.LegalHere` says this of a single node, `Node.Legal` of all nodes of a tree. Patterns come
into being in two ways, and the one that is hard to oversee is `Expr.toPattern`, which makes a
pattern of an expression that may hold patterns already: `Expr.target_of_toPattern` shows that it
makes legal ones.
-/

namespace WithScope

/-! ## Legal nodes -/

/-- Whether a pattern is a rest element. -/
def Pat.isRest : Pat → Bool
  | .rest .. => true
  | _ => false

/-- Whether a property of an object pattern is a rest element. -/
def PatProperty.isRest : PatProperty → Bool
  | .rest .. => true
  | _ => false

/-- Whether a pattern is a name or a target that binds no name. -/
def Pat.isSimple : Pat → Bool
  | .ident _ | .expr _ => true
  | _ => false

/-- Whether an expression is a member access that is not optional. -/
def Expr.isPlainMember : Expr → Bool
  | .member _ _ _ false => true
  | _ => false

/-- None of the items but the last is a rest element. -/
def RestLast {α : Type} (isRest : α → Bool) (items : List α) : Prop :=
  ∀ item ∈ items.dropLast, isRest item = false

theorem restLast_nil {α : Type} (isRest : α → Bool) : RestLast isRest [] :=
  List.forall_mem_nil _

theorem restLast_singleton {α : Type} (isRest : α → Bool) (item : α) : RestLast isRest [item] :=
  List.forall_mem_nil _

theorem RestLast.cons {α : Type} {isRest : α → Bool} {item : α} {items : List α}
    (hi : isRest item = false) (h : RestLast isRest items) : RestLast isRest (item :: items) := by
  cases items with
  | nil => exact restLast_singleton isRest item
  | cons other items => exact List.forall_mem_cons.2 ⟨hi, h⟩

namespace Node

/-- What the language asks of a node, given that of its children. -/
def LegalHere : Node → Prop
  | .pat .binding (.expr _) => False
  | .pat .assignment (.expr target) => target.isPlainMember
  | .pat _ (.array _ elements) => RestLast (fun element => element.any Pat.isRest) elements
  | .pat _ (.object _ properties) => RestLast PatProperty.isRest properties
  | .pat _ (.rest _ p) | .pat _ (.assign _ p _) => p.isRest = false
  | .patProperty _ (.keyValue _ _ p) | .patProperty _ (.rest _ p) => p.isRest = false
  | .function (.mk _ _ _ _ params _) | .expr (.arrow _ _ params _) => RestLast Pat.isRest params
  | .expr (.assign _ op left _) => left.isRest = false ∧ (op ≠ .assign → left.isSimple)
  | .declarator _ (.mk _ p _) => p.isRest = false
  | .catchClause (.mk _ param _) => ∀ p ∈ param, p.isRest = false
  | .stmt (.forIn _ (.pat p) _ _) | .stmt (.forOf _ _ (.pat p) _ _) => p.isRest = false
  | _ => True

/-- What the language asks of a node and of all nodes in it. -/
def Legal (n : Node) : Prop :=
  n.All LegalHere

theorem legal_iff {n : Node} : n.Legal ↔ n.LegalHere ∧ ∀ c ∈ n.children, c.Legal :=
  all_iff

/-- A node that holds nothing is legal by itself. -/
theorem Legal.leaf {n : Node} (h : n.LegalHere) (hn : n.children = []) : n.Legal := by
  refine legal_iff.2 ⟨h, ?_⟩
  rw [hn]
  exact List.forall_mem_nil _

theorem Legal.here {n : Node} (h : n.Legal) : n.LegalHere :=
  (legal_iff.1 h).1

theorem Legal.of_mem_children {c n : Node} (h : n.Legal) (hc : c ∈ n.children) : c.Legal :=
  (legal_iff.1 h).2 c hc

end Node

/-- A legal expression that is no spread element. -/
structure Expr.Operand (e : Expr) : Prop where
  /-- all that is in it is legal -/
  legal : (Node.expr e).Legal
  /-- it is no spread element -/
  isSpread : e.isSpread = false

/-- A legal pattern that is no rest element. -/
structure Pat.Target (use : PatUse) (p : Pat) : Prop where
  /-- all that is in it is legal -/
  legal : (Node.pat use p).Legal
  /-- it is no rest element -/
  isRest : p.isRest = false

/-! ## Patterns that hold no member access -/

mutual

/-- A pattern that is assigned to may also be declared if it only holds names. -/
theorem Pat.legal_binding (p : Pat) (h : (Node.pat .assignment p).Legal) (hm : p.hasMember = false) :
    (Node.pat .binding p).Legal := by
  cases p with
  | ident id => exact .intro True.intro (List.forall_mem_nil _)
  | expr target => cases hm
  | array loc elements =>
    refine .intro h.here ?_
    exact legal_binding_elements elements (fun c hc => h.of_mem_children hc) hm
  | object loc properties =>
    refine .intro h.here ?_
    exact legal_binding_properties properties (fun c hc => h.of_mem_children hc) hm
  | rest loc argument =>
    refine .intro h.here (List.forall_mem_singleton.2 ?_)
    exact argument.legal_binding (h.of_mem_children (List.mem_cons_self ..)) hm
  | assign loc left right =>
    refine .intro h.here (List.forall_mem_cons.2 ⟨?_, List.forall_mem_singleton.2 ?_⟩)
    · exact left.legal_binding (h.of_mem_children (List.mem_cons_self ..)) hm
    · exact h.of_mem_children (List.mem_cons_of_mem _ (List.mem_cons_self ..))

theorem PatProperty.legal_binding (p : PatProperty) (h : (Node.patProperty .assignment p).Legal)
    (hm : p.hasMember = false) : (Node.patProperty .binding p).Legal := by
  cases p with
  | keyValue loc key value =>
    refine .intro h.here (List.forall_mem_cons.2 ⟨?_, List.forall_mem_singleton.2 ?_⟩)
    · exact h.of_mem_children (List.mem_cons_self ..)
    · exact value.legal_binding
        (h.of_mem_children (List.mem_cons_of_mem _ (List.mem_cons_self ..))) hm
  | shorthand loc id value => exact .intro True.intro fun c hc => h.of_mem_children hc
  | rest loc argument =>
    refine .intro h.here (List.forall_mem_singleton.2 ?_)
    exact argument.legal_binding (h.of_mem_children (List.mem_cons_self ..)) hm

theorem legal_binding_elements (elements : List (Option Pat))
    (h : ∀ c ∈ elements.filterMap (·.map (Node.pat .assignment)), c.Legal)
    (hm : elementsHaveMember elements = false) :
    ∀ c ∈ elements.filterMap (·.map (Node.pat .binding)), c.Legal := by
  match elements with
  | [] => exact List.forall_mem_nil _
  | none :: elements => exact legal_binding_elements elements h hm
  | some p :: elements =>
    obtain ⟨hp, hm⟩ := Bool.or_eq_false_iff.1 hm
    obtain ⟨h, helements⟩ := List.forall_mem_cons.1 h
    exact List.forall_mem_cons.2
      ⟨p.legal_binding h hp, legal_binding_elements elements helements hm⟩

theorem legal_binding_properties (properties : List PatProperty)
    (h : ∀ c ∈ properties.map (Node.patProperty .assignment), c.Legal)
    (hm : propertiesHaveMember properties = false) :
    ∀ c ∈ properties.map (Node.patProperty .binding), c.Legal := by
  match properties with
  | [] => exact List.forall_mem_nil _
  | p :: properties =>
    obtain ⟨hp, hm⟩ := Bool.or_eq_false_iff.1 hm
    obtain ⟨h, hproperties⟩ := List.forall_mem_cons.1 h
    exact List.forall_mem_cons.2
      ⟨p.legal_binding h hp, legal_binding_properties properties hproperties hm⟩

end

mutual

/-- A legal pattern that declares names only holds names. -/
theorem Pat.hasMember_of_legal (p : Pat) (h : (Node.pat .binding p).Legal) :
    p.hasMember = false := by
  cases p with
  | ident id => rfl
  | expr target => exact h.here.elim
  | array loc elements =>
    exact elementsHaveMember_of_legal elements fun c hc => h.of_mem_children hc
  | object loc properties =>
    exact propertiesHaveMember_of_legal properties fun c hc => h.of_mem_children hc
  | rest loc argument =>
    exact argument.hasMember_of_legal (h.of_mem_children (List.mem_cons_self ..))
  | assign loc left right =>
    exact left.hasMember_of_legal (h.of_mem_children (List.mem_cons_self ..))

theorem PatProperty.hasMember_of_legal (p : PatProperty) (h : (Node.patProperty .binding p).Legal) :
    p.hasMember = false := by
  cases p with
  | keyValue loc key value =>
    exact value.hasMember_of_legal
      (h.of_mem_children (List.mem_cons_of_mem _ (List.mem_cons_self ..)))
  | shorthand loc id value => rfl
  | rest loc argument =>
    exact argument.hasMember_of_legal (h.of_mem_children (List.mem_cons_self ..))

theorem elementsHaveMember_of_legal (elements : List (Option Pat))
    (h : ∀ c ∈ elements.filterMap (·.map (Node.pat .binding)), c.Legal) :
    elementsHaveMember elements = false := by
  match elements with
  | [] => rfl
  | none :: elements => exact elementsHaveMember_of_legal elements h
  | some p :: elements =>
    obtain ⟨hp, helements⟩ := List.forall_mem_cons.1 h
    rw [elementsHaveMember, p.hasMember_of_legal hp,
      elementsHaveMember_of_legal elements helements]
    rfl

theorem propertiesHaveMember_of_legal (properties : List PatProperty)
    (h : ∀ c ∈ properties.map (Node.patProperty .binding), c.Legal) :
    propertiesHaveMember properties = false := by
  match properties with
  | [] => rfl
  | p :: properties =>
    obtain ⟨hp, hproperties⟩ := List.forall_mem_cons.1 h
    rw [propertiesHaveMember, p.hasMember_of_legal hp,
      propertiesHaveMember_of_legal properties hproperties]
    rfl

end

/-! ## Expressions read again as patterns -/

/-- What the leaves of a pattern do that an expression is read as. -/
def coverUse (declares : Bool) : PatUse :=
  if declares then .binding else .assignment

/-- A name is a legal pattern. -/
theorem Pat.target_ident (use : PatUse) (id : Ident) : (Pat.ident id).Target use :=
  ⟨.intro (by cases use <;> exact True.intro) (List.forall_mem_nil _), rfl⟩

/-- The pattern in a legal assignment is legal where the assignment becomes a pattern. -/
theorem Pat.Target.cover {declares : Bool} {p : Pat} (h : p.Target .assignment)
    (hm : (declares && p.hasMember) = false) : p.Target (coverUse declares) := by
  cases declares with
  | false => exact h
  | true => exact ⟨p.legal_binding h.legal hm, h.isRest⟩

/-- A key kept as a name with a default value makes a legal property of a pattern. -/
theorem legal_of_coverDefault {use : PatUse} {loc : Span} {key : Ident} {value right : Expr}
    (h : (Node.expr value).Legal) (hr : coverDefault? key value = some right) :
    (Node.patProperty use (.shorthand loc key (some right))).Legal := by
  refine .intro True.intro (List.forall_mem_singleton.2 ?_)
  unfold coverDefault? at hr
  split at hr
  · split at hr
    · cases hr
      exact h.of_mem_children (List.mem_cons_of_mem _ (List.mem_cons_self ..))
    · cases hr
  · cases hr

/-- What legal expressions spell is legal. -/
theorem legalCover (declares : Bool) : CoverRule declares
    (fun e p => (Node.expr e).Legal → p.Target (coverUse declares))
    (fun elements ps => (∀ e, some e ∈ elements → (Node.expr e).Legal) →
      RestLast (fun element => element.any Pat.isRest) ps ∧
        ∀ p, some p ∈ ps → (Node.pat (coverUse declares) p).Legal)
    (fun properties ps => (∀ property ∈ properties, (Node.property property).Legal) →
      RestLast PatProperty.isRest ps ∧
        ∀ p ∈ ps, (Node.patProperty (coverUse declares) p).Legal)
    (fun property p => (Node.property property).Legal →
      (Node.patProperty (coverUse declares) p).Legal ∧ p.isRest = false) where
  ident id _ := Pat.target_ident _ id
  array hps h := by
    obtain ⟨hlast, hlegal⟩ := hps fun e he => h.of_mem_children (mem_elements he)
    exact ⟨.intro (by cases declares <;> exact hlast) (forall_mem_elements hlegal), rfl⟩
  object hps h := by
    obtain ⟨hlast, hlegal⟩ := hps fun p hp => h.of_mem_children (List.mem_map_of_mem hp)
    exact ⟨.intro (by cases declares <;> exact hlast) (List.forall_mem_map.2 hlegal), rfl⟩
  assign hm h := by
    have hleft : Pat.Target .assignment _ := ⟨h.of_mem_children (List.mem_cons_self ..), h.here.1⟩
    have hcover := hleft.cover hm
    refine ⟨.intro (by cases declares <;> exact hcover.isRest) ?_, rfl⟩
    refine List.forall_mem_cons.2 ⟨hcover.legal, List.forall_mem_singleton.2 ?_⟩
    exact h.of_mem_children (List.mem_cons_of_mem _ (List.mem_cons_self ..))
  member hdeclares _ _ _ h := by
    subst hdeclares
    exact ⟨.intro rfl (List.forall_mem_singleton.2 h), rfl⟩
  paren _ _ _ _ hp h := hp (h.of_mem_children (List.mem_cons_self ..))
  noElements _ := ⟨restLast_nil _, nofun⟩
  hole hps h := by
    obtain ⟨hlast, hlegal⟩ := hps fun e he => h e (List.mem_cons_of_mem _ he)
    refine ⟨hlast.cons rfl, fun p hp => hlegal p ?_⟩
    rcases List.mem_cons.1 hp with hnone | hp
    · cases hnone
    · exact hp
  restElement hp h := by
    have htarget := hp ((h _ (List.mem_singleton_self _)).of_mem_children (List.mem_cons_self ..))
    refine ⟨restLast_singleton _ _, fun q hq => ?_⟩
    cases List.mem_singleton.1 hq
    exact .intro (by cases declares <;> exact htarget.isRest)
      (List.forall_mem_singleton.2 htarget.legal)
  element hp hps h := by
    have htarget := hp (h _ (List.mem_cons_self ..))
    obtain ⟨hlast, hlegal⟩ := hps fun e he => h e (List.mem_cons_of_mem _ he)
    refine ⟨hlast.cons htarget.isRest, fun q hq => ?_⟩
    rcases List.mem_cons.1 hq with hsome | hq
    · cases hsome
      exact htarget.legal
    · exact hlegal q hq
  noProperties _ := ⟨restLast_nil _, List.forall_mem_nil _⟩
  restProperty hp h := by
    have htarget := hp ((h _ (List.mem_singleton_self _)).of_mem_children (List.mem_cons_self ..))
    refine ⟨restLast_singleton _ _, List.forall_mem_singleton.2 ?_⟩
    exact .intro (by cases declares <;> exact htarget.isRest)
      (List.forall_mem_singleton.2 htarget.legal)
  property hp hps h := by
    obtain ⟨hproperty, hproperties⟩ := List.forall_mem_cons.1 h
    obtain ⟨hlegal, hisRest⟩ := hp hproperty
    obtain ⟨hlast, hall⟩ := hps hproperties
    exact ⟨hlast.cons hisRest, List.forall_mem_cons.2 ⟨hlegal, hall⟩⟩
  shorthand _ := ⟨.intro True.intro (List.forall_mem_nil _), rfl⟩
  default hright h :=
    ⟨legal_of_coverDefault
      (h.of_mem_children (List.mem_cons_of_mem _ (List.mem_cons_self ..))) hright, rfl⟩
  value hp h := by
    have hkey := h.of_mem_children (List.mem_cons_self ..)
    have htarget := hp (h.of_mem_children (List.mem_cons_of_mem _ (List.mem_cons_self ..)))
    refine ⟨.intro (by cases declares <;> exact htarget.isRest) ?_, rfl⟩
    exact List.forall_mem_cons.2 ⟨hkey, List.forall_mem_singleton.2 htarget.legal⟩

/-- The pattern that a legal expression spells is legal. -/
theorem Expr.target_of_toPattern (declares : Bool) (e : Expr) {p : Pat} (h : (Node.expr e).Legal)
    (hp : e.toPattern declares = .ok p) : p.Target (coverUse declares) :=
  (legalCover declares).pattern e hp h

/-- The parameters that legal expressions spell are legal. -/
theorem legal_of_toParams {items : List Expr} {ps : List Pat}
    (h : ∀ e ∈ items, (Node.expr e).Legal) (hps : toParams items = .ok ps) :
    RestLast Pat.isRest ps ∧ ∀ p ∈ ps, (Node.pat .binding p).Legal := by
  refine (legalCover true).params (P := fun items ps => (∀ e ∈ items, (Node.expr e).Legal) →
    RestLast Pat.isRest ps ∧ ∀ p ∈ ps, (Node.pat .binding p).Legal) ?_ ?_ ?_ hps h
  · exact fun _ => ⟨restLast_nil _, List.forall_mem_nil _⟩
  · intro loc e p hp h
    have htarget := hp ((h _ (List.mem_singleton_self _)).of_mem_children (List.mem_cons_self ..))
    refine ⟨restLast_singleton _ _, List.forall_mem_singleton.2 ?_⟩
    exact .intro htarget.isRest (List.forall_mem_singleton.2 htarget.legal)
  · intro e p items ps hp hps h
    obtain ⟨he, hitems⟩ := List.forall_mem_cons.1 h
    obtain ⟨hlast, hlegal⟩ := hps hitems
    exact ⟨hlast.cons (hp he).isRest, List.forall_mem_cons.2 ⟨(hp he).legal, hlegal⟩⟩

/-- What is no spread element spells no rest parameter. -/
theorem isRest_of_toParams {items : List Expr} {ps : List Pat} (h : ∀ e ∈ items, e.Operand)
    (hps : toParams items = .ok ps) : ∀ p ∈ ps, p.isRest = false := by
  refine (legalCover true).params (P := fun items ps => (∀ e ∈ items, e.Operand) →
    ∀ p ∈ ps, p.isRest = false) ?_ ?_ ?_ hps h
  · exact fun _ => List.forall_mem_nil _
  · intro loc e p _ h
    cases (h _ (List.mem_singleton_self _)).isSpread
  · intro e p items ps hp hps h
    obtain ⟨he, hitems⟩ := List.forall_mem_cons.1 h
    exact List.forall_mem_cons.2 ⟨(hp he.legal).isRest, hps hitems⟩

/-- A name or a member access in parentheses spells the same pattern as without. -/
theorem Expr.toPattern_unparenthesized {e : Expr} {p : Pat}
    (h : e.unparenthesized.isSimpleTarget) (hp : e.toPattern false = .ok p) :
    e.unparenthesized.toPattern false = .ok p := by
  cases e
  case paren loc inner =>
    rw [unparenthesized] at h ⊢
    refine inner.toPattern_unparenthesized h ?_
    cases inner <;> first | exact hp | cases h
  all_goals exact hp

/-- The target of an assignment with any operator is a name or a member access. -/
theorem Expr.isSimple_of_toSimpleTarget {e : Expr} {p : Pat} (hp : e.toSimpleTarget = .ok p) :
    p.isSimple := by
  unfold toSimpleTarget at hp
  split at hp
  case isTrue h =>
    replace hp := e.toPattern_unparenthesized h hp
    revert hp h
    cases e.unparenthesized <;> intro h hp
    case ident => cases hp; rfl
    case member loc object property isOptional => cases isOptional <;> cases hp; rfl
    all_goals cases h
  case isFalse => cases hp

/-- The target of an assignment with any operator is legal. -/
theorem Expr.target_of_toSimpleTarget {e : Expr} {p : Pat} (h : (Node.expr e).Legal)
    (hp : e.toSimpleTarget = .ok p) : p.Target .assignment := by
  unfold toSimpleTarget at hp
  split at hp
  · exact e.target_of_toPattern false h hp
  · cases hp

end WithScope
