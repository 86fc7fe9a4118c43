import Mathlib.Data.List.Basic
import WithScope.Proofs.Scope.Items

/-!
# Walking over a program

An outline tells what occurs in a program, but not which identifier it is that occurs: a program may
hold equal identifiers, and one identifier may be declared and referred to. `Program.visits` lists the
same occurrences, and gives for each identifier where it is kept (`Address`), and for each reference the
node that directly holds the identifier, with the way to it (`Place`).

* `Program.map_occurrence_visits` — what is visited is what occurs in the outline, in the same order;
* `Stands` — how the node that is named as the parent stands to the one that is visited.
-/

namespace WithScope

/-! ## Places -/

/-- Where an identifier of a program is kept: the way down to the node that holds it, by the indices of
children, and the index among the identifiers of the node. -/
structure Address where
  /-- the way to the node -/
  path : List Nat
  /-- which identifier of the node it is -/
  slot : Nat
deriving DecidableEq

/-- A node of a program, and the way down to it. -/
structure Place where
  /-- the way to the node -/
  path : List Nat
  /-- the node -/
  node : Node

/-- The node at a place as what directly holds an identifier. -/
def Place.parent (p : Place) : Parent := p.node.asParent .module

/-- An identifier that is come upon. -/
structure Reference where
  /-- the identifier -/
  id : Ident
  /-- where it is kept -/
  address : Address
  /-- what it does there -/
  role : Role
  /-- the node that directly holds it -/
  holder : Place

/-- What a walk over a program comes upon. -/
inductive Visit
  /-- an identifier is declared -/
  | declares (site : BindSite) (id : Ident) (address : Address)
  /-- an identifier is written down -/
  | refers (r : Reference)
  /-- the word `this` is written down -/
  | this (loc : Span)
  /-- a target that binds no name stands where a name should be declared -/
  | misplaced (target : Expr)

/-- What occurs in a visit. -/
def Visit.occurrence : Visit → Occurrence
  | .declares site id _ => .declaration site id
  | .refers r => .reference r.id r.role r.holder.parent
  | .this loc => .this loc
  | .misplaced target => .misplaced target

/-- The reference that a visit is. -/
def Visit.reference? : Visit → Option Reference
  | .refers r => some r
  | _ => none

/-! ## Walking -/

namespace Node

/-- Whether a node is a pattern or a property of one. -/
def isPattern : Node → Bool
  | .pat .. | .patProperty .. => true
  | _ => false

/-- What a pattern declares itself. -/
def ownLeaves (site : BindSite) (path : List Nat) : Node → List Visit
  | .pat _ (.ident id) | .patProperty _ (.shorthand _ id _) => [.declares site id ⟨path, 0⟩]
  | .pat _ (.expr target) => [.misplaced target]
  | _ => []

/-- What a pattern declares: the identifiers at its leaves, and not those in default values and keys. -/
def leaves (site : BindSite) (path : List Nat) (n : Node) : List Visit :=
  if n.isPattern then
    n.ownLeaves site path
      ++ n.children.zipIdx.attach.flatMap fun c => leaves site (path ++ [c.1.2]) c.1.1
  else []
termination_by n.size
decreasing_by exact size_lt_of_mem_children (List.fst_mem_of_mem_zipIdx c.2)

/-- What a node declares by one of its children. -/
def leavesBy (n : Node) (path : List Nat) (c : Node) : List Visit :=
  match c with
  | .pat .binding _ => n.patternSite?.toList.flatMap fun site => c.leaves site path
  | _ => []

/-- The node that directly holds what a node holds: the node itself, or the one around it. -/
def holder (outer : Place) (path : List Nat) (n : Node) : Place :=
  if n.passes then outer else ⟨path, n⟩

/-- What is visited at one of the identifiers of a node. -/
def nameVisits (outer : Place) (path : List Nat) (n : Node) (name : (Ident × Role) × Nat) :
    List Visit :=
  n.nameSite?.toList.map (.declares · name.1.1 ⟨path, name.2⟩)
    ++ [.refers ⟨name.1.1, ⟨path, name.2⟩, name.1.2, n.holder outer path⟩]

/-- What is visited at a node besides its children. The name of a function or class that is a statement
is the one that the function or class holds. -/
def ownVisits (outer : Place) (path : List Nat) (n : Node) : List Visit :=
  n.this?.toList.map .this ++ n.hoisted.toList.map (.declares .hoisted · ⟨path ++ [0], 0⟩)
    ++ n.names.zipIdx.flatMap (n.nameVisits outer path)

/-- What is visited in a node that stands at the end of `path` and is held by `outer`. -/
def visits (outer : Place) (path : List Nat) (n : Node) : List Visit :=
  n.ownVisits outer path ++ n.children.zipIdx.attach.flatMap fun c =>
    n.leavesBy (path ++ [c.1.2]) c.1.1 ++ visits (n.holder outer path) (path ++ [c.1.2]) c.1.1
termination_by n.size
decreasing_by exact size_lt_of_mem_children (List.fst_mem_of_mem_zipIdx c.2)

theorem leaves_eq {n : Node} (h : n.isPattern) (site : BindSite) (path : List Nat) :
    n.leaves site path = n.ownLeaves site path
      ++ n.children.zipIdx.flatMap fun c => c.1.leaves site (path ++ [c.2]) := by
  rw [leaves, if_pos h, List.flatMap_subtype (g := fun c => c.1.leaves site (path ++ [c.2]))
    fun _ _ => rfl, List.unattach_attach]

theorem leaves_eq_nil {n : Node} (h : n.isPattern = false) (site : BindSite) (path : List Nat) :
    n.leaves site path = [] := by
  rw [leaves, if_neg (by simp [h])]

theorem visits_eq (outer : Place) (path : List Nat) (n : Node) :
    n.visits outer path = n.ownVisits outer path ++ n.children.zipIdx.flatMap fun c =>
      n.leavesBy (path ++ [c.2]) c.1 ++ c.1.visits (n.holder outer path) (path ++ [c.2]) := by
  rw [visits, List.flatMap_subtype (g := fun c => n.leavesBy (path ++ [c.2]) c.1
    ++ c.1.visits (n.holder outer path) (path ++ [c.2])) fun _ _ => rfl, List.unattach_attach]

end Node

/-- What is visited in a program. -/
def Program.visits (p : Program) : List Visit :=
  p.body.zipIdx.flatMap fun s => (Node.stmt s.1).visits ⟨[s.2], .stmt s.1⟩ [s.2]

/-! ## How a node stands to what holds it -/

/-- What holds an identifier stands around the node that is visited, with at most one node between that
passes on what it holds. -/
inductive Under : Place → Place → Prop
  | child {parent : Place} {i : Nat} {c : Node} (hp : parent.node.passes = false)
      (hc : parent.node.children[i]? = some c) : Under parent ⟨parent.path ++ [i], c⟩
  | through {parent : Place} {i j : Nat} {c d : Node} (hp : parent.node.passes = false)
      (hc : parent.node.children[i]? = some c) (hpass : c.passes) (hd : c.children[j]? = some d) :
      Under parent ⟨parent.path ++ [i] ++ [j], d⟩

/-- A node that passes on what it holds stands under `outer`. -/
def Stands (outer : Place) (path : List Nat) (n : Node) : Prop := n.passes → Under outer ⟨path, n⟩

/-- A statement holds what is in it itself. -/
theorem Stands.stmt (outer : Place) (path : List Nat) (s : Stmt) : Stands outer path (.stmt s) := by
  intro hpass
  cases hpass

namespace Node

/-- What passes on what it holds holds nothing that does so in turn, identifiers apart. -/
theorem children_eq_nil_of_passes {c d : Node} (hc : c.passes) (hd : d ∈ c.children)
    (hpass : d.passes) : d.children = [] := by
  have hexpr {e : Expr} (h : (expr e).passes) : (expr e).children = [] := by
    cases e <;> first | rfl | cases h
  rcases c with e | ⟨loc, quasis, es⟩ | m | k | _ | _ | _ | _ | value | ⟨use, p⟩ | _ | ⟨loc, body⟩ |
    ⟨loc, kind, ds⟩ | _ | cases | _ | _ | _ | _ | _
  case expr =>
    cases e
    case ident => cases hd
    all_goals cases hc
  case template =>
    obtain ⟨e, -, rfl⟩ := List.mem_map.1 hd
    exact hexpr hpass
  case memberName =>
    cases m
    case computed =>
      obtain rfl := List.mem_singleton.1 hd
      exact hexpr hpass
    all_goals cases hd
  case key =>
    cases k
    case computed =>
      obtain rfl := List.mem_singleton.1 hd
      exact hexpr hpass
    all_goals cases hd
  case fieldValue =>
    obtain rfl := List.mem_singleton.1 hd
    exact hexpr hpass
  case pat =>
    cases p
    case ident => cases hd
    all_goals cases hc
  case block =>
    obtain ⟨s, -, rfl⟩ := List.mem_map.1 hd
    cases hpass
  case varDecl =>
    obtain ⟨d, -, rfl⟩ := List.mem_map.1 hd
    cases hpass
  case caseBlock =>
    obtain ⟨c, -, rfl⟩ := List.mem_map.1 hd
    cases hpass
  case exportSpecifier => cases hd
  all_goals cases hc

/-- The value of a field is held by an element of a class. -/
theorem exists_member_of_fieldValue {n : Node} {value : Expr} (h : .fieldValue value ∈ n.children) :
    ∃ m, n = .member m := by
  rcases n with e | ⟨loc, quasis, es⟩ | m | k | p | ⟨loc, id, isAsync, isGenerator, params, body⟩ |
    ⟨loc, id, superClass, bodyLoc, members⟩ | m | value | ⟨use, p⟩ | ⟨use, p⟩ | ⟨loc, body⟩ |
    ⟨loc, kind, ds⟩ | ⟨kind, ⟨loc, id, value⟩⟩ | cases | ⟨loc, test, consequent⟩ |
    ⟨loc, param, body⟩ | ⟨ofOther, s⟩ | d | s
  case member => exact ⟨m, rfl⟩
  case expr =>
    cases e
    case arrow loc isAsync params body => cases body <;> simp [children, Expr.children, ArrowBody.node] at h
    all_goals simp [children, Expr.children] at h
  case memberName => cases m <;> simp [children, MemberName.children] at h
  case key => cases k <;> simp [children, Key.children] at h
  case property =>
    rcases p with _ | ⟨loc, ⟨id⟩ | _⟩ | _ | _ <;> simp [children, Property.children] at h
  case pat => cases p <;> simp [children, Pat.children] at h
  case patProperty => cases p <;> simp [children, PatProperty.children] at h
  case module =>
    rcases d with _ | _ | ⟨loc, f | c | e⟩ | _ <;>
      simp [children, ModuleDecl.children, DefaultExport.node] at h
  case stmt =>
    cases s
    case «for» loc init test update body =>
      rcases init with _ | ⟨d⟩ | ⟨e⟩ <;> simp [children, Stmt.children, ForInit.node] at h
    case forIn loc left right body =>
      cases left <;> simp [children, Stmt.children, ForTarget.node] at h
    case forOf loc isAwait left right body =>
      cases left <;> simp [children, Stmt.children, ForTarget.node] at h
    all_goals simp [children, Stmt.children] at h
  all_goals simp [children, Template.children, Func.children, Class.children, VarDecl.children,
    Declarator.children, SwitchCase.children, CatchClause.children] at h

end Node

theorem Stands.child {outer : Place} {path : List Nat} {n c : Node} {i : Nat}
    (h : Stands outer path n) (hc : n.children[i]? = some c) :
    Stands (n.holder outer path) (path ++ [i]) c := by
  intro hpass
  by_cases hn : n.passes
  · rw [Node.holder, if_pos hn]
    obtain ⟨hp, hn'⟩ | ⟨hp, hc', hpass', hn'⟩ := h hn
    · exact .through hp hn' hn hc
    · rw [Node.children_eq_nil_of_passes hpass' (List.mem_of_getElem? hn') hn] at hc
      cases hc
  · rw [Node.holder, if_neg hn]
    exact @Under.child ⟨path, n⟩ i c (Bool.not_eq_true _ ▸ hn) hc

/-! ## What is visited is what occurs -/

mutual

/-- What occurs in an outline, whatever scopes are open. -/
def Outline.occurrences : Outline → List Occurrence
  | .occurrence o => [o]
  | .scope _ items => occurrencesIn items

/-- What occurs in outlines. -/
def occurrencesIn : List Outline → List Occurrence
  | [] => []
  | o :: items => o.occurrences ++ occurrencesIn items

end

mutual

theorem Outline.map_occurrence_events (scopes : List ScopeKey) (opened : Nat) (o : Outline) :
    (o.events scopes opened).map Event.occurrence = o.occurrences := by
  cases o with
  | occurrence o => rfl
  | scope kind items => exact map_occurrence_outlineEvents _ _ items

theorem map_occurrence_outlineEvents (scopes : List ScopeKey) (opened : Nat) (items : List Outline) :
    (outlineEvents scopes opened items).map Event.occurrence = occurrencesIn items := by
  match items with
  | [] => rfl
  | o :: items =>
    rw [outlineEvents, List.map_append, o.map_occurrence_events scopes,
      map_occurrence_outlineEvents scopes _ items, occurrencesIn]

end

@[simp] theorem occurrencesIn_append (xs ys : List Outline) :
    occurrencesIn (xs ++ ys) = occurrencesIn xs ++ occurrencesIn ys := by
  induction xs with
  | nil => rfl
  | cons x xs ih => simp [occurrencesIn, ih]

theorem occurrencesIn_flatMap {α : Type} (f : α → List Outline) (xs : List α) :
    occurrencesIn (xs.flatMap f) = xs.flatMap fun x => occurrencesIn (f x) := by
  induction xs with
  | nil => rfl
  | cons x xs ih => simp [ih]

theorem map_flatMap_zipIdx {α β γ : Type} {xs : List α} {f : α × Nat → List β} {g : β → γ}
    {h : α → List γ} (hf : ∀ x ∈ xs.zipIdx, (f x).map g = h x.1) :
    (xs.zipIdx.flatMap f).map g = xs.flatMap h := by
  rw [List.map_flatMap, List.flatMap_congr hf]
  conv_rhs => rw [← List.zipIdx_map_fst 0 xs]
  rw [List.flatMap_map]

namespace Node

theorem occurrencesIn_enclose (n : Node) (items : List Outline) :
    occurrencesIn (n.enclose items) = occurrencesIn items := by
  rw [enclose]
  cases n.scope? with
  | none => rfl
  | some kind => exact List.append_nil _

/-- The names that a node declares as a pattern. -/
def declarations (site : BindSite) : Node → List Outline
  | .pat _ p => p.declarations site
  | .patProperty _ p => p.declarations site
  | _ => []

theorem elementDeclarations_eq (use : PatUse) (site : BindSite) (ps : List (Option Pat)) :
    elementDeclarations site ps
      = (ps.filterMap fun p => p.map (.pat use)).flatMap (declarations site) := by
  induction ps with
  | nil => rfl
  | cons p ps ih => cases p <;> rw [elementDeclarations, ih] <;> rfl

theorem propertyDeclarations_eq (use : PatUse) (site : BindSite) (ps : List PatProperty) :
    propertyDeclarations site ps = (ps.map (.patProperty use)).flatMap (declarations site) := by
  induction ps with
  | nil => rfl
  | cons p ps ih => rw [propertyDeclarations, ih]; rfl

/-- A pattern declares the names that it holds itself, and those of the patterns in it. -/
theorem occurrencesIn_declarations {n : Node} (h : n.isPattern) (site : BindSite) (path : List Nat) :
    occurrencesIn (n.declarations site) = (n.ownLeaves site path).map Visit.occurrence
      ++ n.children.flatMap fun c => occurrencesIn (c.declarations site) := by
  rw [← occurrencesIn_flatMap]
  cases n
  case pat use p =>
    cases p with
    | ident | expr => rfl
    | array loc elements =>
      rw [declarations, Pat.declarations, elementDeclarations_eq use]
      rfl
    | object loc properties =>
      rw [declarations, Pat.declarations, propertyDeclarations_eq use]
      rfl
    | rest | assign =>
      simp [declarations, Pat.declarations, ownLeaves, children, Pat.children]
  case patProperty use p =>
    cases p with
    | keyValue | rest =>
      simp [declarations, PatProperty.declarations, ownLeaves, children, PatProperty.children]
    | shorthand loc id value =>
      cases value <;> rfl
  all_goals cases h

theorem map_occurrence_leaves (site : BindSite) (n : Node) (path : List Nat) :
    (n.leaves site path).map Visit.occurrence = occurrencesIn (n.declarations site) := by
  induction n using induct generalizing path with
  | step n ih =>
    by_cases h : n.isPattern
    · rw [leaves_eq h, List.map_append, occurrencesIn_declarations h site path]
      refine congrArg _ (map_flatMap_zipIdx fun c hc => ?_)
      exact ih c.1 (List.fst_mem_of_mem_zipIdx hc) _
    · rw [leaves_eq_nil (Bool.not_eq_true _ ▸ h)]
      cases n <;> first | rfl | exact absurd rfl h

theorem map_occurrence_leavesBy (n c : Node) (path : List Nat) :
    (n.leavesBy path c).map Visit.occurrence = occurrencesIn (n.declarationsBy c) := by
  cases c
  case pat use p =>
    cases use with
    | assignment => rfl
    | binding =>
      simp only [leavesBy, declarationsBy]
      cases n.patternSite? with
      | none => rfl
      | some site =>
        rw [Option.toList_some, List.flatMap_singleton, List.flatMap_singleton]
        exact map_occurrence_leaves site (.pat .binding p) path
  all_goals rfl

/-- A node that holds identifiers itself is the parent of what is in it, whatever holds the node. -/
theorem asParent_eq {n : Node} (h : n.passes = false) (outer outer' : Parent) :
    n.asParent outer = n.asParent outer' := by
  cases n
  case expr e => cases e <;> rfl
  case property p => cases p <;> rfl
  all_goals first | rfl | cases h

/-- What holds the identifiers in a node is what its children have as their parent. -/
theorem parent_holder {outer : Place} {path : List Nat} {n c : Node} (h : Stands outer path n)
    (hc : c ∈ n.children) : (n.holder outer path).parent = n.asParent outer.parent := by
  cases hn : n.passes with
  | false =>
    rw [holder, if_neg (by simp [hn])]
    exact asParent_eq hn _ _
  | true =>
    rw [holder, if_pos hn]
    cases n
    case expr e =>
      cases e
      case ident => cases hc
      all_goals cases hn
    case pat use p =>
      cases p
      case ident => cases hc
      all_goals cases hn
    case fieldValue value =>
      obtain ⟨-, hvalue⟩ | ⟨-, -, hpass, hvalue⟩ := h rfl
      · obtain ⟨m, hm⟩ := exists_member_of_fieldValue (List.mem_of_getElem? hvalue)
        rw [Place.parent, hm]
        rfl
      · obtain ⟨m, rfl⟩ := exists_member_of_fieldValue (List.mem_of_getElem? hvalue)
        cases hpass
    all_goals first | rfl | cases hn

theorem map_occurrence_ownVisits (outer : Place) (path : List Nat) (n : Node) :
    (n.ownVisits outer path).map Visit.occurrence = occurrencesIn (n.ownItems outer.parent) := by
  have hholder : (n.holder outer path).parent =
      if n.passes then outer.parent else n.asParent outer.parent := by
    by_cases hn : n.passes
    · rw [holder, if_pos hn, if_pos hn]
    · rw [holder, if_neg hn, if_neg hn]
      exact asParent_eq (Bool.not_eq_true _ ▸ hn) _ _
  rw [ownVisits, ownItems, occurrencesIn_append, occurrencesIn_append, List.map_append,
    List.map_append, ← hholder]
  refine congrArg₂ (· ++ ·) (congrArg₂ (· ++ ·) ?_ ?_) ?_
  · cases n.this? <;> rfl
  · cases n.hoisted <;> rfl
  · rw [occurrencesIn_flatMap]
    refine map_flatMap_zipIdx fun name _ => ?_
    rw [nameVisits, nameItems]
    cases n.nameSite? <;> rfl

/-- What is visited in a node is what occurs in its outline. -/
theorem map_occurrence_visits (n : Node) {outer : Place} {path : List Nat} (h : Stands outer path n) :
    (n.visits outer path).map Visit.occurrence = occurrencesIn (n.outline outer.parent) := by
  induction n using induct generalizing outer path with
  | step n ih =>
    rw [visits_eq, outline_eq, occurrencesIn_enclose, items, List.map_append, occurrencesIn_append,
      map_occurrence_ownVisits, occurrencesIn_flatMap]
    refine congrArg _ (map_flatMap_zipIdx fun c hc => ?_)
    have hmem := List.fst_mem_of_mem_zipIdx hc
    rw [List.map_append, occurrencesIn_append, map_occurrence_leavesBy, ← parent_holder h hmem,
      ih c.1 hmem (h.child (List.mk_mem_zipIdx_iff_getElem?.1 hc))]

end Node

/-- What is visited in a program is what occurs in it, in the order of its text. -/
theorem Program.map_occurrence_visits {p : Program} {events : List Event}
    (h : p.events = .ok events) : p.visits.map Visit.occurrence = events.map Event.occurrence := by
  rw [Program.events, checkedOutline] at h
  cases hm : p.outline.misplaced? with
  | some e =>
    rw [hm] at h
    cases h
  | none =>
    rw [hm] at h
    cases h
    rw [Outline.map_occurrence_events, Program.outline, Outline.occurrences,
      Node.statementsOutline_eq .module, Node.outlines, occurrencesIn_flatMap, List.flatMap_map]
    refine map_flatMap_zipIdx fun s _ => ?_
    rw [Node.map_occurrence_visits _ (.stmt ⟨[s.2], .stmt s.1⟩ [s.2] s.1)]
    rfl

end WithScope
