import WithScope.Proofs.Tree.CoverRule
import WithScope.Proofs.Tree.Node

/-!
# Properties that say nothing of patterns

Reading an expression again as a pattern makes patterns of arrays, objects and assignments, and
keeps what stands in them: keys, default values and the member accesses that are assigned to. So a
property of all nodes that says nothing of patterns and their properties (`Node.OffPatterns`) is
kept: `Node.OffPatterns.toPattern`, `Node.OffPatterns.toParams`.
-/

namespace WithScope.Node

/-- A property that says nothing of patterns. -/
structure OffPatterns (P : Node → Prop) : Prop where
  /-- it holds of all patterns -/
  pat : ∀ use p, P (.pat use p)
  /-- it holds of their properties -/
  patProperty : ∀ use p, P (.patProperty use p)

/-- The same pattern, with its leaves put to another use. -/
def withUse (use : PatUse) : Node → Node
  | .pat _ p => .pat use p
  | .patProperty _ p => .patProperty use p
  | n => n

theorem children_pat_withUse (use use' : PatUse) (p : Pat) :
    p.children use = (p.children use').map (withUse use) := by
  cases p with
  | array loc elements =>
    rw [Pat.children, Pat.children, List.map_filterMap]
    refine congrArg (List.filterMap · elements) (funext fun element => ?_)
    cases element <;> rfl
  | object loc properties =>
    rw [Pat.children, Pat.children, List.map_map]
    rfl
  | _ => rfl

theorem children_patProperty_withUse (use use' : PatUse) (p : PatProperty) :
    p.children use = (p.children use').map (withUse use) := by
  cases p with
  | shorthand loc id value => cases value <;> rfl
  | _ => rfl

namespace OffPatterns

variable {P : Node → Prop} (hP : OffPatterns P)
include hP

theorem introPat {use : PatUse} {p : Pat} (h : ∀ c ∈ p.children use, c.All P) :
    (Node.pat use p).All P := .intro (hP.pat use p) h

theorem introProperty {use : PatUse} {p : PatProperty} (h : ∀ c ∈ p.children use, c.All P) :
    (Node.patProperty use p).All P := .intro (hP.patProperty use p) h

/-- To which use the leaves of patterns are put does not matter. -/
theorem withUse (use : PatUse) (n : Node) : n.All P → (n.withUse use).All P := by
  induction n using induct with
  | step n ih =>
    intro h
    have hchildren : ∀ c ∈ n.children.map (Node.withUse use), c.All P :=
      List.forall_mem_map.2 fun c hc => ih c hc ((all_iff.1 h).2 c hc)
    -- only patterns and their properties are put to a use; other nodes are left as they are
    cases n
    case pat use' p =>
      refine hP.introPat ?_
      rw [show p.children use = _ from children_pat_withUse use use' p]
      exact hchildren
    case patProperty use' p =>
      refine hP.introProperty ?_
      rw [show p.children use = _ from children_patProperty_withUse use use' p]
      exact hchildren
    all_goals exact h

/-! ## Expressions read again as patterns -/

/-- What is read again as a pattern keeps the property. -/
theorem cover (declares : Bool) (use : PatUse) : CoverRule declares
    (fun e p => (Node.expr e).All P → (Node.pat use p).All P)
    (fun elements ps => (∀ e, some e ∈ elements → (Node.expr e).All P) →
      ∀ p, some p ∈ ps → (Node.pat use p).All P)
    (fun properties ps => (∀ property ∈ properties, (Node.property property).All P) →
      ∀ p ∈ ps, (Node.patProperty use p).All P)
    (fun property p => (Node.property property).All P → (Node.patProperty use p).All P) where
  ident _ _ := hP.introPat (List.forall_mem_nil _)
  array hps h :=
    hP.introPat (forall_mem_elements (hps fun _ he => (all_iff.1 h).2 _ (mem_elements he)))
  object hps h := by
    refine hP.introPat (List.forall_mem_map.2 (hps fun p hp => ?_))
    exact (all_iff.1 h).2 _ (List.mem_map_of_mem hp)
  assign _ h := by
    obtain ⟨hleft, hright⟩ := List.forall_mem_cons.1 (all_iff.1 h).2
    exact hP.introPat (List.forall_mem_cons.2 ⟨hP.withUse use _ hleft, hright⟩)
  member _ _ _ _ h := hP.introPat (List.forall_mem_singleton.2 h)
  paren _ _ _ _ hp h := hp (List.forall_mem_singleton.1 (all_iff.1 h).2)
  noElements _ := nofun
  hole hps h p hp := by
    rcases List.mem_cons.1 hp with hnone | hp
    · cases hnone
    · exact hps (fun e he => h e (List.mem_cons_of_mem _ he)) p hp
  restElement hp h q hq := by
    cases List.mem_singleton.1 hq
    have hspread := h _ (List.mem_singleton_self _)
    refine hP.introPat (List.forall_mem_singleton.2 (hp ?_))
    exact List.forall_mem_singleton.1 (all_iff.1 hspread).2
  element hp hps h q hq := by
    rcases List.mem_cons.1 hq with hsome | hq
    · cases hsome
      exact hp (h _ (List.mem_cons_self ..))
    · exact hps (fun e he => h e (List.mem_cons_of_mem _ he)) q hq
  noProperties _ := List.forall_mem_nil _
  restProperty hp h := by
    have hspread := h _ (List.mem_singleton_self _)
    refine List.forall_mem_singleton.2 (hP.introProperty (List.forall_mem_singleton.2 (hp ?_)))
    exact List.forall_mem_singleton.1 (all_iff.1 hspread).2
  property hp hps h := by
    obtain ⟨hproperty, hproperties⟩ := List.forall_mem_cons.1 h
    exact List.forall_mem_cons.2 ⟨hp hproperty, hps hproperties⟩
  shorthand _ := hP.introProperty (List.forall_mem_nil _)
  default hright h := by
    obtain ⟨-, hvalue⟩ := List.forall_mem_cons.1 (all_iff.1 h).2
    replace hvalue := List.forall_mem_singleton.1 hvalue
    -- the value is an assignment to the name of the key, and only its right side is kept
    unfold coverDefault? at hright
    split at hright
    · split at hright <;> cases hright
      obtain ⟨-, hdefault⟩ := List.forall_mem_cons.1 (all_iff.1 hvalue).2
      exact hP.introProperty hdefault
    · cases hright
  value hp h := by
    obtain ⟨hkey, hvalue⟩ := List.forall_mem_cons.1 (all_iff.1 h).2
    refine hP.introProperty (List.forall_mem_cons.2 ⟨hkey, List.forall_mem_singleton.2 (hp ?_)⟩)
    exact List.forall_mem_singleton.1 hvalue

/-- The pattern that an expression spells. -/
theorem toPattern (declares : Bool) (use : PatUse) (e : Expr) {p : Pat}
    (h : (Node.expr e).All P) (hp : e.toPattern declares = .ok p) : (Node.pat use p).All P :=
  (hP.cover declares use).pattern e hp h

/-- The parameters that expressions spell. -/
theorem toParams {items : List Expr} {ps : List Pat} (h : ∀ e ∈ items, (Node.expr e).All P)
    (hps : toParams items = .ok ps) : ∀ p ∈ ps, (Node.pat .binding p).All P := by
  refine (hP.cover true .binding).params (P := fun items ps =>
    (∀ e ∈ items, (Node.expr e).All P) → ∀ p ∈ ps, (Node.pat .binding p).All P) ?_ ?_ ?_ hps h
  · exact fun _ => List.forall_mem_nil _
  · intro loc e p hp h
    have hspread := h _ (List.mem_singleton_self _)
    refine List.forall_mem_singleton.2 (hP.introPat (List.forall_mem_singleton.2 (hp ?_)))
    exact List.forall_mem_singleton.1 (all_iff.1 hspread).2
  · intro e p items ps hp hps h
    obtain ⟨he, hitems⟩ := List.forall_mem_cons.1 h
    exact List.forall_mem_cons.2 ⟨hp he, hps hitems⟩

/-- The target of an assignment with any operator. -/
theorem toSimpleTarget {e : Expr} {p : Pat} (h : (Node.expr e).All P)
    (hp : e.toSimpleTarget = .ok p) : (Node.pat .assignment p).All P := by
  unfold Expr.toSimpleTarget at hp
  split at hp
  · exact hP.toPattern false .assignment e h hp
  · cases hp

end OffPatterns

end WithScope.Node
