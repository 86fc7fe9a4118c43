import WithScope.Proofs.Tree.CoverRule
import WithScope.Proofs.Tree.Node

/-!
# Shallow trees

A pass that follows a tree recurses as deep as statements, expressions and patterns stand inside of
each other. `n.Shallow k` says that in the node `n` these are at most `k`, with `n` itself among
them.

There is one exception. What an operator of two operands, a member access, a call or a template
begins with is its head (`Node.head?`), and a chain of heads as in `a + b + c` or `a.b().c` counts as
one expression. The parser reads such a chain in a loop, and the chain is as long as the text allows.

An expression that is read again as a pattern becomes deeper by one at most, since the member access
that a pattern ends in is a pattern of its own (`Expr.shallow_toPattern`).
-/

namespace WithScope

namespace Node

/-- How much a node counts for the depth of the tree. -/
def weight : Node → Nat
  | .expr _ | .pat .. | .stmt _ => 1
  | _ => 0

/-- What an operator of two operands, a member access, a call or a template begins with. -/
def head? : Node → Option Node
  | .expr (.binary _ _ left _) | .expr (.logical _ _ left _) => some (.expr left)
  | .expr (.member _ e _ _) | .expr (.call _ e _ _) | .expr (.taggedTemplate _ e _) =>
    some (.expr e)
  | _ => none

/-- The nodes directly inside of a node that are not its head. -/
def others (n : Node) : List Node :=
  if n.head?.isSome then n.children.tail else n.children

/-- The head is the first of the nodes directly inside. -/
theorem children_eq (n : Node) : n.children = n.head?.toList ++ n.others := by
  cases n with
  | expr e => cases e <;> rfl
  | _ => rfl

theorem others_eq {n : Node} (h : n.head? = none) : n.others = n.children := by
  rw [children_eq, h]
  rfl

/-- At most so many statements, expressions and patterns stand inside of each other, if a head counts
together with what it is the head of. -/
inductive Shallow : Nat → Node → Prop
  | intro {k : Nat} {n : Node} (room : n.weight ≤ k) (head : ∀ c ∈ n.head?, Shallow k c)
      (others : ∀ c ∈ n.others, Shallow (k - n.weight) c) : Shallow k n

variable {k l : Nat} {n c : Node}

theorem Shallow.weaken (h : n.Shallow k) (hkl : k ≤ l) : n.Shallow l := by
  induction h generalizing l with
  | intro room _ _ ihHead ihOthers =>
    refine .intro (Nat.le_trans room hkl) (fun c hc => ihHead c hc hkl) fun c hc =>
      ihOthers c hc ?_
    exact Nat.sub_le_sub_right hkl _

/-- A statement, expression or pattern without a head. -/
theorem Shallow.succ (hw : n.weight = 1) (hn : n.head? = none)
    (h : ∀ c ∈ n.children, c.Shallow k) : n.Shallow (k + 1) := by
  refine .intro ?_ ?_ ?_
  · exact hw ▸ Nat.le_add_left 1 k
  · exact fun c hc => by cases hn ▸ hc
  · rwa [hw, Nat.add_sub_cancel, others_eq hn]

/-- A node that does not count by itself. -/
theorem Shallow.part (hw : n.weight = 0) (hn : n.head? = none)
    (h : ∀ c ∈ n.children, c.Shallow k) : n.Shallow k := by
  refine .intro ?_ ?_ ?_
  · exact hw ▸ Nat.zero_le k
  · exact fun c hc => by cases hn ▸ hc
  · rwa [hw, Nat.sub_zero, others_eq hn]

/-- An expression with a head. -/
theorem Shallow.chain (hw : n.weight = 1) (hn : n.head? = some c) (hc : c.Shallow (k + 1))
    (h : ∀ c ∈ n.others, c.Shallow k) : n.Shallow (k + 1) := by
  refine .intro ?_ ?_ ?_
  · exact hw ▸ Nat.le_add_left 1 k
  · intro d hd
    obtain rfl := Option.some.inj (hn.symm.trans hd)
    exact hc
  · rwa [hw, Nat.add_sub_cancel]

/-- A statement, expression or pattern that holds nothing. -/
theorem Shallow.leaf (hw : n.weight = 1) (hn : n.head? = none) (hc : n.children = []) :
    n.Shallow (k + 1) := by
  refine .succ hw hn ?_
  rw [hc]
  exact List.forall_mem_nil _

/-- What is directly inside of a statement, expression or pattern that has no head is shallower. -/
theorem Shallow.exists_below (h : n.Shallow k) (hw : n.weight = 1) (hn : n.head? = none) :
    ∃ j, k = j + 1 ∧ ∀ c ∈ n.children, c.Shallow j := by
  obtain ⟨room, -, others⟩ := h
  rw [hw] at room others
  rw [others_eq hn] at others
  exact ⟨k - 1, (Nat.sub_add_cancel room).symm, others⟩

/-- What is directly inside of a node that does not count is as shallow as the node. -/
theorem Shallow.of_mem_children (h : n.Shallow k) (hw : n.weight = 0) (hn : n.head? = none) :
    ∀ c ∈ n.children, c.Shallow k := by
  obtain ⟨-, -, others⟩ := h
  rwa [hw, Nat.sub_zero, others_eq hn] at others

end Node

/-! ## Expressions read again as patterns -/

mutual

/-- Whether a pattern declares names does not matter. -/
theorem Pat.shallow_use {k : Nat} (p : Pat) {use : PatUse} (other : PatUse)
    (h : (Node.pat use p).Shallow k) : (Node.pat other p).Shallow k := by
  obtain ⟨j, rfl, hparts⟩ := h.exists_below rfl rfl
  refine .succ rfl rfl ?_
  cases p with
  | ident id => exact List.forall_mem_nil _
  | expr target => exact hparts
  | array loc elements =>
    refine forall_mem_elements (shallow_use_elements elements use other fun p hp => ?_)
    exact hparts _ (mem_elements hp)
  | object loc properties =>
    refine List.forall_mem_map.2 (shallow_use_properties properties use other fun p hp => ?_)
    exact hparts _ (List.mem_map_of_mem hp)
  | rest loc argument =>
    have hargument : (Node.pat use argument).Shallow j := hparts _ (List.mem_cons_self ..)
    exact List.forall_mem_singleton.2 (argument.shallow_use other hargument)
  | assign loc left right =>
    obtain ⟨hleft, hright⟩ := List.forall_mem_cons.1 hparts
    exact List.forall_mem_cons.2 ⟨left.shallow_use other hleft, hright⟩

theorem PatProperty.shallow_use {k : Nat} (p : PatProperty) {use : PatUse}
    (other : PatUse) (h : (Node.patProperty use p).Shallow k) : (Node.patProperty other p).Shallow k := by
  have hparts := h.of_mem_children rfl rfl
  refine .part rfl rfl ?_
  cases p with
  | keyValue loc key value =>
    obtain ⟨hkey, hvalue⟩ := List.forall_mem_cons.1 hparts
    refine List.forall_mem_cons.2 ⟨hkey, List.forall_mem_singleton.2 ?_⟩
    exact value.shallow_use other (List.forall_mem_singleton.1 hvalue)
  | shorthand loc id value => exact hparts
  | rest loc argument =>
    have hargument : (Node.pat use argument).Shallow k := hparts _ (List.mem_cons_self ..)
    exact List.forall_mem_singleton.2 (argument.shallow_use other hargument)

theorem shallow_use_elements {k : Nat} (elements : List (Option Pat)) (use other : PatUse)
    (h : ∀ p, some p ∈ elements → (Node.pat use p).Shallow k) :
    ∀ p, some p ∈ elements → (Node.pat other p).Shallow k := by
  match elements with
  | [] => exact nofun
  | element :: elements =>
    intro p hp
    rcases List.mem_cons.1 hp with rfl | hp
    · exact p.shallow_use other (h p (List.mem_cons_self ..))
    · exact shallow_use_elements elements use other (fun p hp => h p (List.mem_cons_of_mem _ hp))
        p hp

theorem shallow_use_properties {k : Nat} (properties : List PatProperty) (use other : PatUse)
    (h : ∀ p ∈ properties, (Node.patProperty use p).Shallow k) :
    ∀ p ∈ properties, (Node.patProperty other p).Shallow k := by
  match properties with
  | [] => exact nofun
  | property :: properties =>
    obtain ⟨hp, hproperties⟩ := List.forall_mem_cons.1 h
    exact List.forall_mem_cons.2
      ⟨property.shallow_use other hp, shallow_use_properties properties use other hproperties⟩

end

/-- What expressions spell is deeper than the expressions by one at most. -/
theorem shallowCover (declares : Bool) (use : PatUse) : CoverRule declares
    (fun e p => ∀ k, (Node.expr e).Shallow k → (Node.pat use p).Shallow (k + 1))
    (fun elements ps => ∀ k, (∀ e, some e ∈ elements → (Node.expr e).Shallow k) →
      ∀ p, some p ∈ ps → (Node.pat use p).Shallow (k + 1))
    (fun properties ps => ∀ k, (∀ property ∈ properties, (Node.property property).Shallow k) →
      ∀ p ∈ ps, (Node.patProperty use p).Shallow (k + 1))
    (fun property p => ∀ k, (Node.property property).Shallow k →
      (Node.patProperty use p).Shallow (k + 1)) where
  ident _ _ _ := .leaf rfl rfl rfl
  array hps k h := by
    obtain ⟨j, rfl, hparts⟩ := h.exists_below rfl rfl
    refine .succ rfl rfl (forall_mem_elements (hps j fun e he => ?_))
    exact hparts _ (mem_elements he)
  object hps k h := by
    obtain ⟨j, rfl, hparts⟩ := h.exists_below rfl rfl
    refine .succ rfl rfl (List.forall_mem_map.2 (hps j fun p hp => ?_))
    exact hparts _ (List.mem_map_of_mem hp)
  assign _ k h := by
    obtain ⟨j, rfl, hparts⟩ := h.exists_below rfl rfl
    obtain ⟨hleft, hright⟩ := List.forall_mem_cons.1 hparts
    refine .succ rfl rfl (List.forall_mem_cons.2 ⟨?_, List.forall_mem_singleton.2 ?_⟩)
    · exact (Pat.shallow_use _ use hleft).weaken (Nat.le_succ _)
    · exact (List.forall_mem_singleton.1 hright).weaken (Nat.le_succ _)
  member _ _ _ _ k h := .succ rfl rfl (List.forall_mem_singleton.2 h)
  paren _ _ _ _ hp k h := by
    obtain ⟨j, rfl, hparts⟩ := h.exists_below rfl rfl
    exact (hp j (List.forall_mem_singleton.1 hparts)).weaken (Nat.le_succ _)
  noElements _ _ := nofun
  hole hps k h p hp := by
    rcases List.mem_cons.1 hp with hnone | hp
    · cases hnone
    · exact hps k (fun e he => h e (List.mem_cons_of_mem _ he)) p hp
  restElement hp k h q hq := by
    cases List.mem_singleton.1 hq
    obtain ⟨j, rfl, hparts⟩ := (h _ (List.mem_singleton_self _)).exists_below rfl rfl
    refine .succ rfl rfl (List.forall_mem_singleton.2 (hp j ?_))
    exact List.forall_mem_singleton.1 hparts
  element hp hps k h q hq := by
    rcases List.mem_cons.1 hq with hsome | hq
    · cases hsome
      exact hp k (h _ (List.mem_cons_self ..))
    · exact hps k (fun e he => h e (List.mem_cons_of_mem _ he)) q hq
  noProperties _ _ := List.forall_mem_nil _
  restProperty hp k h := by
    have hparts := (h _ (List.mem_singleton_self _)).of_mem_children rfl rfl
    refine List.forall_mem_singleton.2 (.part rfl rfl (List.forall_mem_singleton.2 (hp k ?_)))
    exact List.forall_mem_singleton.1 hparts
  property hp hps k h := by
    obtain ⟨hproperty, hproperties⟩ := List.forall_mem_cons.1 h
    exact List.forall_mem_cons.2 ⟨hp k hproperty, hps k hproperties⟩
  shorthand _ _ := .part rfl rfl (List.forall_mem_nil _)
  default hright k h := by
    have hparts := h.of_mem_children rfl rfl
    have hvalue := hparts _ (List.mem_cons_of_mem _ (List.mem_cons_self ..))
    unfold coverDefault? at hright
    split at hright
    · split at hright <;> cases hright
      obtain ⟨j, rfl, hassign⟩ := hvalue.exists_below rfl rfl
      have hdefault := hassign _ (List.mem_cons_of_mem _ (List.mem_cons_self ..))
      refine .part rfl rfl (List.forall_mem_singleton.2 (hdefault.weaken ?_))
      exact Nat.le_add_right j 2
    · cases hright
  value hp k h := by
    obtain ⟨hkey, hvalue⟩ := List.forall_mem_cons.1 (h.of_mem_children rfl rfl)
    refine .part rfl rfl (List.forall_mem_cons.2 ⟨hkey.weaken (Nat.le_succ _), ?_⟩)
    exact List.forall_mem_singleton.2 (hp k (List.forall_mem_singleton.1 hvalue))

variable {k : Nat}

/-- The pattern that an expression spells is deeper than the expression by one at most. -/
theorem Expr.shallow_toPattern (declares : Bool) (use : PatUse) (e : Expr) {p : Pat}
    (h : (Node.expr e).Shallow k) (hp : e.toPattern declares = .ok p) :
    (Node.pat use p).Shallow (k + 1) :=
  (shallowCover declares use).pattern e hp k h

/-- The parameters that expressions spell are deeper than the expressions by one at most. -/
theorem shallow_of_toParams {items : List Expr} {ps : List Pat}
    (h : ∀ e ∈ items, (Node.expr e).Shallow k) (hps : toParams items = .ok ps) :
    ∀ p ∈ ps, (Node.pat .binding p).Shallow (k + 1) := by
  refine (shallowCover true .binding).params (P := fun items ps =>
    (∀ e ∈ items, (Node.expr e).Shallow k) → ∀ p ∈ ps, (Node.pat .binding p).Shallow (k + 1))
    ?_ ?_ ?_ hps h
  · exact fun _ => List.forall_mem_nil _
  · intro loc e p hp h
    obtain ⟨j, rfl, hparts⟩ := (h _ (List.mem_singleton_self _)).exists_below rfl rfl
    refine List.forall_mem_singleton.2 (.succ rfl rfl (List.forall_mem_singleton.2 ?_))
    exact hp j (List.forall_mem_singleton.1 hparts)
  · intro e p items ps hp hps h
    obtain ⟨he, hitems⟩ := List.forall_mem_cons.1 h
    exact List.forall_mem_cons.2 ⟨hp k he, hps hitems⟩

/-- The target of an assignment with any operator is deeper than the expression by one at most. -/
theorem Expr.shallow_toSimpleTarget {e : Expr} {p : Pat} (h : (Node.expr e).Shallow k)
    (hp : e.toSimpleTarget = .ok p) : (Node.pat .assignment p).Shallow (k + 1) := by
  unfold toSimpleTarget at hp
  split at hp
  · exact e.shallow_toPattern false .assignment h hp
  · cases hp

end WithScope
