import WithScope.Grammar.Parser
import WithScope.Proofs.Tree.Legal

/-!
# Trees that fit where they stand

Some constructs have a meaning only inside of others: a jump inside of its loop, a `return` inside
of a function. The constructs around a node that matter for this are its frames (`Frame`), from the
innermost one on. Loops, `switch` statements and labels count only as far as the innermost function,
arrow body, field initializer or static block, which is the owner of the node; the parameters of an
arrow function still belong to the owner outside.

* `Node.around` — the frames that a node puts around one of its children;
* `Node.Under` — a property of nodes and their frames, for all nodes of a tree;
* `Node.FitsHere`, `Node.Fits` — what the language asks of a node with its frames, and of all nodes
  of a tree;
* `Expr.fits_toPattern` — an expression that is read again as a pattern fits where it stood.
-/

namespace WithScope

/-! ## Frames -/

/-- A construct around a node that matters for what the node may be. -/
inductive Frame
  /-- a function with its parameters -/
  | function (isAsync isGenerator : Bool)
  /-- the body of an arrow function -/
  | arrow (isAsync : Bool)
  /-- the value of a class field, or a static block -/
  | initializer
  /-- the body of a loop -/
  | loop
  /-- the clauses of a `switch` -/
  | switch
  /-- a statement with a label -/
  | label (name : String)
  /-- a block, clause or other construct that holds statements -/
  | inner
deriving DecidableEq, Repr

namespace Frame

/-- Whether what is inside belongs to the frame and to none outside of it. -/
def isOwner : Frame → Bool
  | .function .. | .arrow _ | .initializer => true
  | _ => false

/-- Whether `return` leaves the frame. -/
def isFunction : Frame → Bool
  | .function .. | .arrow _ => true
  | _ => false

/-- Whether `yield` is an operator. -/
def isGenerator : Frame → Bool
  | .function _ isGenerator => isGenerator
  | _ => false

/-- Whether `await` is an operator. -/
def isAsync : Frame → Bool
  | .function isAsync _ | .arrow isAsync => isAsync
  | _ => false

/-- Whether `new.target` has a meaning. -/
def hasNewTarget : Frame → Bool
  | .function .. | .initializer => true
  | _ => false

/-- The innermost owner among frames, if there is one. -/
def owner? (fs : List Frame) : Option Frame := fs.find? isOwner

/-- The frames inside of the innermost owner. -/
def own (fs : List Frame) : List Frame := fs.takeWhile fun f => !f.isOwner

end Frame

/-! ## Nodes and their frames -/

namespace Node

/-- The frames that a node puts around one of its children. -/
def around : Node → Node → List Frame
  | .function (.mk _ _ isAsync isGenerator _ _), _ => [.function isAsync isGenerator]
  | .expr (.arrow ..), .pat .. => []
  | .expr (.arrow _ isAsync _ _), _ => [.arrow isAsync]
  | .fieldValue _, _ => [.initializer]
  | .member (.staticBlock ..), _ => [.inner, .initializer]
  | .stmt (.for ..), .stmt _ | .stmt (.forIn ..), .stmt _ | .stmt (.forOf ..), .stmt _
  | .stmt (.while ..), .stmt _ | .stmt (.doWhile ..), .stmt _ => [.loop]
  | .stmt (.switch ..), .caseBlock _ => [.switch]
  | .stmt (.labeled _ label _), _ => [.label label.name]
  | _, .stmt _ => [.inner]
  | _, _ => []

/-- What a property of nodes and their frames is for whole trees: each node in the tree has it. -/
inductive Under (P : List Frame → Node → Prop) : List Frame → Node → Prop
  | intro {fs : List Frame} {n : Node} (here : P fs n)
      (below : ∀ c ∈ n.children, Under P (n.around c ++ fs) c) : Under P fs n

/-- Where `await` is an operator: in what an async function owns, and in a module outside of all
owners. -/
def AllowsAwait (o : Options) (fs : List Frame) : Prop :=
  match Frame.owner? fs with
  | some f => f.isAsync
  | none => o.sourceType = .module

/-- What the language asks of a node, given its frames. -/
def FitsHere (o : Options) (fs : List Frame) : Node → Prop
  | .stmt (.break _ none) => .loop ∈ Frame.own fs ∨ .switch ∈ Frame.own fs
  | .stmt (.break _ (some label)) => .label label.name ∈ Frame.own fs
  | .stmt (.continue _ label) =>
    .loop ∈ Frame.own fs ∧ ∀ l ∈ label, .label l.name ∈ Frame.own fs
  | .stmt (.labeled _ label _) => .label label.name ∉ Frame.own fs
  | .stmt (.return ..) => o.returnAnywhere ∨ (Frame.owner? fs).any Frame.isFunction
  | .stmt (.forOf _ isAwait _ _ _) => isAwait → AllowsAwait o fs
  | .stmt (.module _) => o.modulesAnywhere ∨ o.sourceType = .module ∧ fs = []
  | .expr (.metaProperty _ object _) => object.name = "new" → fs.any Frame.hasNewTarget
  | .expr (.yield ..) => (Frame.owner? fs).any Frame.isGenerator
  | .expr (.await ..) => AllowsAwait o fs
  | _ => True

/-- What the language asks of a node and of all nodes in it. -/
def Fits (o : Options) (fs : List Frame) (n : Node) : Prop := n.Under (FitsHere o) fs

section

variable {o : Options} {fs : List Frame} {n c : Node}

theorem Fits.below (h : n.Fits o fs) (hc : c ∈ n.children) : c.Fits o (n.around c ++ fs) := by
  obtain ⟨-, below⟩ := h
  exact below c hc

/-- A node that holds nothing fits if it does by itself. -/
theorem Fits.leaf (h : n.FitsHere o fs) (hn : n.children = []) : n.Fits o fs := by
  refine .intro h ?_
  rw [hn]
  exact List.forall_mem_nil _

end

end Node

/-! ## Expressions read again as patterns -/

open Node (Fits)

variable {o : Options} {fs : List Frame}

mutual

/-- Whether a pattern declares names does not matter. -/
theorem Pat.fits_use (p : Pat) {use : PatUse} (other : PatUse) (h : (Node.pat use p).Fits o fs) :
    (Node.pat other p).Fits o fs := by
  cases p with
  | ident id => exact .leaf trivial rfl
  | expr target =>
    exact .intro trivial (List.forall_mem_singleton.2 (h.below (List.mem_cons_self ..)))
  | array loc elements =>
    refine .intro trivial (forall_mem_elements ?_)
    refine fits_use_elements elements use other fun p hp => ?_
    exact h.below (mem_elements hp)
  | object loc properties =>
    refine .intro trivial (List.forall_mem_map.2 ?_)
    refine fits_use_properties properties use other fun p hp => ?_
    exact h.below (List.mem_map_of_mem hp)
  | rest loc argument =>
    refine .intro trivial (List.forall_mem_singleton.2 ?_)
    exact argument.fits_use other (h.below (List.mem_cons_self ..))
  | assign loc left right =>
    refine .intro trivial (List.forall_mem_cons.2 ⟨?_, List.forall_mem_singleton.2 ?_⟩)
    · exact left.fits_use other (h.below (List.mem_cons_self ..))
    · exact h.below (List.mem_cons_of_mem _ (List.mem_cons_self ..))

theorem PatProperty.fits_use (p : PatProperty) {use : PatUse} (other : PatUse)
    (h : (Node.patProperty use p).Fits o fs) : (Node.patProperty other p).Fits o fs := by
  cases p with
  | keyValue loc key value =>
    refine .intro trivial (List.forall_mem_cons.2 ⟨?_, List.forall_mem_singleton.2 ?_⟩)
    · exact h.below (List.mem_cons_self ..)
    · exact value.fits_use other (h.below (List.mem_cons_of_mem _ (List.mem_cons_self ..)))
  | shorthand loc id value =>
    refine .intro trivial (List.forall_mem_map.2 fun e he => ?_)
    exact h.below (List.mem_map_of_mem he)
  | rest loc argument =>
    refine .intro trivial (List.forall_mem_singleton.2 ?_)
    exact argument.fits_use other (h.below (List.mem_cons_self ..))

theorem fits_use_elements (elements : List (Option Pat)) (use other : PatUse)
    (h : ∀ p, some p ∈ elements → (Node.pat use p).Fits o fs) :
    ∀ p, some p ∈ elements → (Node.pat other p).Fits o fs := by
  match elements with
  | [] => exact nofun
  | element :: elements =>
    intro p hp
    rcases List.mem_cons.1 hp with rfl | hp
    · exact p.fits_use other (h p (List.mem_cons_self ..))
    · exact fits_use_elements elements use other (fun p hp => h p (List.mem_cons_of_mem _ hp)) p hp

theorem fits_use_properties (properties : List PatProperty) (use other : PatUse)
    (h : ∀ p ∈ properties, (Node.patProperty use p).Fits o fs) :
    ∀ p ∈ properties, (Node.patProperty other p).Fits o fs := by
  match properties with
  | [] => exact nofun
  | property :: properties =>
    obtain ⟨hp, hproperties⟩ := List.forall_mem_cons.1 h
    exact List.forall_mem_cons.2
      ⟨property.fits_use other hp, fits_use_properties properties use other hproperties⟩

end

/-- A key kept as a name with a default value fits as a property of a pattern. -/
theorem fits_of_coverDefault {use : PatUse} {loc : Span} {key : Ident} {value right : Expr}
    (h : (Node.expr value).Fits o fs) (hr : coverDefault? key value = some right) :
    (Node.patProperty use (.shorthand loc key (some right))).Fits o fs := by
  refine .intro trivial (List.forall_mem_singleton.2 ?_)
  unfold coverDefault? at hr
  split at hr
  · split at hr <;> cases hr
    exact h.below (List.mem_cons_of_mem _ (List.mem_cons_self ..))
  · cases hr

/-- What expressions spell fits where the expressions do. -/
theorem fitsCover (o : Options) (fs : List Frame) (declares : Bool) (use : PatUse) :
    CoverRule declares
      (fun e p => (Node.expr e).Fits o fs → (Node.pat use p).Fits o fs)
      (fun elements ps => (∀ e, some e ∈ elements → (Node.expr e).Fits o fs) →
        ∀ p, some p ∈ ps → (Node.pat use p).Fits o fs)
      (fun properties ps => (∀ property ∈ properties, (Node.property property).Fits o fs) →
        ∀ p ∈ ps, (Node.patProperty use p).Fits o fs)
      (fun property p => (Node.property property).Fits o fs →
        (Node.patProperty use p).Fits o fs) where
  ident _ _ := .leaf trivial rfl
  array hps h :=
    .intro trivial (forall_mem_elements (hps fun e he => h.below (mem_elements he)))
  object hps h :=
    .intro trivial (List.forall_mem_map.2 (hps fun p hp => h.below (List.mem_map_of_mem hp)))
  assign _ h := by
    refine .intro trivial (List.forall_mem_cons.2 ⟨?_, List.forall_mem_singleton.2 ?_⟩)
    · exact Pat.fits_use _ use (h.below (List.mem_cons_self ..))
    · exact h.below (List.mem_cons_of_mem _ (List.mem_cons_self ..))
  member _ _ _ _ h := .intro trivial (List.forall_mem_singleton.2 h)
  paren _ _ _ _ hp h := hp (h.below (List.mem_cons_self ..))
  noElements _ := nofun
  hole hps h p hp := by
    rcases List.mem_cons.1 hp with hnone | hp
    · cases hnone
    · exact hps (fun e he => h e (List.mem_cons_of_mem _ he)) p hp
  restElement hp h q hq := by
    cases List.mem_singleton.1 hq
    refine .intro trivial (List.forall_mem_singleton.2 (hp ?_))
    exact (h _ (List.mem_singleton_self _)).below (List.mem_cons_self ..)
  element hp hps h q hq := by
    rcases List.mem_cons.1 hq with hsome | hq
    · cases hsome
      exact hp (h _ (List.mem_cons_self ..))
    · exact hps (fun e he => h e (List.mem_cons_of_mem _ he)) q hq
  noProperties _ := List.forall_mem_nil _
  restProperty hp h := by
    refine List.forall_mem_singleton.2 (.intro trivial (List.forall_mem_singleton.2 (hp ?_)))
    exact (h _ (List.mem_singleton_self _)).below (List.mem_cons_self ..)
  property hp hps h := by
    obtain ⟨hproperty, hproperties⟩ := List.forall_mem_cons.1 h
    exact List.forall_mem_cons.2 ⟨hp hproperty, hps hproperties⟩
  shorthand _ := .leaf trivial rfl
  default hright h := fits_of_coverDefault
    (h.below (List.mem_cons_of_mem _ (List.mem_cons_self ..))) hright
  value hp h := by
    refine .intro trivial (List.forall_mem_cons.2 ⟨?_, List.forall_mem_singleton.2 (hp ?_)⟩)
    · exact h.below (List.mem_cons_self ..)
    · exact h.below (List.mem_cons_of_mem _ (List.mem_cons_self ..))

/-- The pattern that an expression spells fits where the expression does. -/
theorem Expr.fits_toPattern (declares : Bool) (use : PatUse) (e : Expr) {p : Pat}
    (h : (Node.expr e).Fits o fs) (hp : e.toPattern declares = .ok p) :
    (Node.pat use p).Fits o fs :=
  (fitsCover o fs declares use).pattern e hp h

/-- The parameters that expressions spell fit where the expressions do. -/
theorem fits_of_toParams {items : List Expr} {ps : List Pat}
    (h : ∀ e ∈ items, (Node.expr e).Fits o fs) (hps : toParams items = .ok ps) :
    ∀ p ∈ ps, (Node.pat .binding p).Fits o fs := by
  refine (fitsCover o fs true .binding).params (P := fun items ps =>
    (∀ e ∈ items, (Node.expr e).Fits o fs) → ∀ p ∈ ps, (Node.pat .binding p).Fits o fs)
    ?_ ?_ ?_ hps h
  · exact fun _ => List.forall_mem_nil _
  · intro loc e p hp h
    refine List.forall_mem_singleton.2 (.intro trivial (List.forall_mem_singleton.2 (hp ?_)))
    exact (h _ (List.mem_singleton_self _)).below (List.mem_cons_self ..)
  · intro e p items ps hp hps h
    obtain ⟨he, hitems⟩ := List.forall_mem_cons.1 h
    exact List.forall_mem_cons.2 ⟨hp he, hps hitems⟩

/-- The target of an assignment with any operator fits where the expression does. -/
theorem Expr.fits_toSimpleTarget {e : Expr} {p : Pat} (h : (Node.expr e).Fits o fs)
    (hp : e.toSimpleTarget = .ok p) : (Node.pat .assignment p).Fits o fs := by
  unfold toSimpleTarget at hp
  split at hp
  · exact e.fits_toPattern false .assignment h hp
  · cases hp

end WithScope
