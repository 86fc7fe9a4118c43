import Mathlib.Data.List.Basic
import WithScope.Proofs.Scope.Items

/-!
# What a node holds

Of the items of a node, only what they refer to, what they declare, which targets they misplace and
which scopes they open matters to the scopes around it. `Node.Holds` says this of the node and its
children, and `Node.exists_holds` that it is so for each node, so that none of the later proofs looks
into the outline of a construct again.
-/

namespace WithScope

namespace Node

/-- The items that the outline of a node consists of, besides the scope that the node opens. -/
structure Holds (n : Node) (outer : Parent) (items : List Outline) : Prop where
  /-- the outline consists of them -/
  outline_eq : n.outline outer = n.enclose items
  /-- they refer to what the node refers to, and its children -/
  free : freeIn [] items = n.references ++ freeIn [] (outlines (n.asParent outer) n.children)
  /-- they declare what the node declares, and its children -/
  escaping : ∀ d, d ∈ escapingFrom items ↔
    d.name ∈ n.declared d.site ∨ d ∈ escapingFrom (outlines (n.asParent outer) n.children)
  /-- they misplace the targets that the node declares, and those further inside -/
  misplaced : misplacedIn items = n.targetsInside outer
  /-- they open the scopes that the children open -/
  opened : openedIn items = openedIn (outlines (n.asParent outer) n.children)

/-! ## References -/

/-- A node refers to what its identifiers stand for as variables. -/
theorem references_eq (n : Node) : n.references = n.this?.toList.map FreeReference.this
    ++ n.names.flatMap fun name => if name.2.isValue then referenceTo name.1 else [] := by
  cases n
  case expr e => cases e <;> simp [references, this?, names, Role.isValue]
  case memberName m => cases m <;> rfl
  case key k => cases k <;> rfl
  case property p =>
    rcases p with _ | ⟨loc, ⟨id⟩ | _⟩ | _ | _ <;> simp [references, this?, names, Role.isValue]
  case exportSpecifier ofOther s =>
    obtain ⟨loc, ⟨id⟩ | ⟨lit⟩, exported⟩ := s <;> cases ofOther <;>
      simp [references, this?, names, Role.isValue]
  case function f =>
    obtain ⟨loc, id, isAsync, isGenerator, params, body⟩ := f
    cases id <;> rfl
  case «class» c =>
    obtain ⟨loc, id, superClass, bodyLoc, members⟩ := c
    cases id <;> rfl
  case pat use p => cases use <;> cases p <;> simp [references, this?, names, Role.isValue]
  case patProperty use p => cases use <;> cases p <;> simp [references, this?, names, Role.isValue]
  case module d =>
    cases d
    case importFrom =>
      simp [references, this?, names, Role.isValue]
    all_goals rfl
  case stmt s =>
    cases s
    case «break» loc label => cases label <;> rfl
    case «continue» loc label => cases label <;> rfl
    all_goals rfl
  all_goals rfl

theorem freeIn_ownItems (n : Node) (outer : Parent) :
    freeIn [] (n.ownItems outer) = n.references := by
  rw [ownItems, freeIn_append, freeIn_append, references_eq, freeIn_flatMap]
  have hname (parent : Parent) (name : Ident × Role) : freeIn [] (n.nameItems parent name)
      = if name.2.isValue then referenceTo name.1 else [] := by
    rw [nameItems]
    cases n.nameSite? <;> exact (freeIn_mention parent name.2 name.1 []).trans (List.append_nil _)
  simp only [hname]
  cases n.this? <;> cases n.hoisted <;> rfl

theorem freeIn_declarationsBy (n c : Node) : freeIn [] (n.declarationsBy c) = [] := by
  unfold declarationsBy
  split
  · rw [freeIn_flatMap, List.flatMap_eq_nil_iff]
    exact fun site _ => freeIn_declarations site _
  · rfl

/-! ## Scopes -/

theorem openedIn_ownItems (n : Node) (outer : Parent) : openedIn (n.ownItems outer) = [] := by
  have hname (parent : Parent) (name : Ident × Role) : openedIn (n.nameItems parent name) = [] := by
    rw [nameItems]
    cases n.nameSite? <;> rfl
  simp only [ownItems, openedIn_append, openedIn_flatMap, hname, List.flatMap_eq_nil_iff.2,
    implies_true, List.append_nil]
  cases n.this? <;> cases n.hoisted <;> rfl

theorem openedIn_declarationsBy (n c : Node) : openedIn (n.declarationsBy c) = [] := by
  unfold declarationsBy
  split
  · rw [openedIn_flatMap, List.flatMap_eq_nil_iff]
    exact fun site _ => openedIn_declarations site _
  · rfl

/-! ## Targets -/

theorem misplacedIn_ownItems (n : Node) (outer : Parent) : misplacedIn (n.ownItems outer) = [] := by
  have hname (parent : Parent) (name : Ident × Role) : misplacedIn (n.nameItems parent name) = [] := by
    rw [nameItems]
    cases n.nameSite? <;> rfl
  simp only [ownItems, misplacedIn_append, misplacedIn_flatMap, hname, List.flatMap_eq_nil_iff.2,
    implies_true, List.append_nil]
  cases n.this? <;> cases n.hoisted <;> rfl

theorem misplacedIn_declarationsBy {n c : Node} (hc : c ∈ n.children) :
    misplacedIn (n.declarationsBy c) = n.declaredTargets c := by
  cases c
  case pat use p =>
    cases use with
    | assignment => rfl
    | binding =>
      have hsite : n.patternSite?.isSome = n.declares := by
        cases n
        case catchClause c =>
          obtain ⟨loc, param, body⟩ := c
          cases param with
          | none => simp [children, CatchClause.children] at hc
          | some => rfl
        case expr e => cases e <;> rfl
        all_goals rfl
      rw [declarationsBy, declaredTargets, ← hsite]
      cases n.patternSite? with
      | none => rfl
      | some site => simp [misplaced_declarations]
  all_goals rfl

/-! ## Declarations -/

/-- Whatever declares nothing in one of the ways below declares nothing. -/
theorem mem_declared_of_none {n : Node} {d : Declared} (hd : n.declared d.site = [])
    (hh : n.hoisted = none) (hn : n.nameSite? = none) (hp : n.patternSite? = none) :
    d.name ∈ n.declared d.site ↔
      d ∈ declaredAt .hoisted (ownNames n.hoisted) ∨
      (∃ site, n.nameSite? = some site ∧ d ∈ declaredAt site (n.names.map fun x => x.1.name)) ∨
      ∃ site, n.patternSite? = some site ∧
        ∃ p, .pat .binding p ∈ n.children ∧ d ∈ declaredAt site p.names := by
  simp [hd, hh, hn, hp, ownNames]

/-- A node declares the name of a function or class for the scopes around it, the names that it holds
itself, and those at the leaves of its patterns. -/
theorem mem_declared {n : Node} {d : Declared} :
    d.name ∈ n.declared d.site ↔
      d ∈ declaredAt .hoisted (ownNames n.hoisted) ∨
      (∃ site, n.nameSite? = some site ∧ d ∈ declaredAt site (n.names.map fun x => x.1.name)) ∨
      ∃ site, n.patternSite? = some site ∧
        ∃ p, .pat .binding p ∈ n.children ∧ d ∈ declaredAt site p.names := by
  obtain ⟨name, site⟩ := d
  cases n
  case expr e =>
    cases e
    case arrow loc isAsync params body =>
      cases body <;> cases site <;>
        simp [declared, hoisted, nameSite?, patternSite?, ownNames, paramNames, children,
          Expr.children, ArrowBody.node]
    all_goals exact mem_declared_of_none (by cases site <;> rfl) rfl rfl rfl
  case function f =>
    obtain ⟨loc, id, isAsync, isGenerator, params, body⟩ := f
    cases site <;>
      simp [declared, hoisted, nameSite?, patternSite?, ownNames, paramNames, names, children,
        Func.children]
  case «class» c =>
    obtain ⟨loc, id, superClass, bodyLoc, members⟩ := c
    cases site <;> simp [declared, hoisted, nameSite?, patternSite?, ownNames, names]
  case catchClause c =>
    obtain ⟨loc, param, body⟩ := c
    cases site <;>
      simp [declared, hoisted, nameSite?, patternSite?, ownNames, paramNames, children,
        CatchClause.children]
  case declarator kind d =>
    obtain ⟨loc, id, value⟩ := d
    cases kind <;> cases site <;>
      simp [declared, hoisted, nameSite?, patternSite?, ownNames, children, Declarator.children,
        VarKind.site, VarKind.isLexical]
  case module d =>
    rcases d with _ | _ | ⟨loc, f | c | e⟩ | _ <;> cases site <;>
      simp [declared, hoisted, nameSite?, patternSite?, ownNames, names]
  case stmt s =>
    cases s
    case function | «class» =>
      cases site <;> simp [declared, hoisted, nameSite?, patternSite?, ownNames]
    all_goals exact mem_declared_of_none (by cases site <;> rfl) rfl rfl rfl
  all_goals exact mem_declared_of_none (by cases site <;> rfl) rfl rfl rfl

theorem mem_escapingFrom_ownItems {n : Node} {outer : Parent} {d : Declared} :
    d ∈ escapingFrom (n.ownItems outer) ↔
      d ∈ declaredAt .hoisted (ownNames n.hoisted) ∨
      ∃ site, n.nameSite? = some site ∧ d ∈ declaredAt site (n.names.map fun x => x.1.name) := by
  have hthis : escapingFrom (n.this?.toList.map fun loc => .occurrence (.this loc)) = [] := by
    cases n.this? <;> rfl
  have hhoisted : escapingFrom (declareName .hoisted n.hoisted)
      = declaredAt .hoisted (ownNames n.hoisted) := by
    cases n.hoisted <;> rfl
  have hname (parent : Parent) (name : Ident × Role) : escapingFrom (n.nameItems parent name)
      = n.nameSite?.toList.map fun site => ⟨name.1.name, site⟩ := by
    rw [nameItems]
    cases n.nameSite? <;> rfl
  rw [ownItems, escapingFrom_append, escapingFrom_append, hthis, hhoisted, escapingFrom_flatMap]
  simp only [hname, List.nil_append, List.mem_append, List.mem_flatMap, List.mem_map,
    Option.mem_toList, declaredAt]
  grind

theorem mem_escapingFrom_declarationsBy {n c : Node} {d : Declared} :
    d ∈ escapingFrom (n.declarationsBy c) ↔ ∃ site, n.patternSite? = some site ∧
      ∃ p, c = .pat .binding p ∧ d ∈ declaredAt site p.names := by
  unfold declarationsBy
  split
  · simp [escapingFrom_flatMap, escapingFrom_declarations]
  · next hc =>
    refine ⟨nofun, ?_⟩
    rintro ⟨-, -, p, rfl, -⟩
    exact absurd rfl (hc p)

/-! ## Items -/

/-- Each node holds items. -/
theorem exists_holds (n : Node) (outer : Parent) : ∃ items, n.Holds outer items := by
  refine ⟨n.items outer, n.outline_eq outer, ?_, fun d => ?_, ?_, ?_⟩
  · simp only [items, freeIn_append, freeIn_ownItems, freeIn_flatMap, freeIn_declarationsBy,
      List.nil_append, outlines]
  · rw [items, escapingFrom_append, escapingFrom_flatMap, List.mem_append, mem_escapingFrom_ownItems,
      mem_declared, outlines, escapingFrom_flatMap]
    simp only [escapingFrom_append, List.mem_flatMap, List.mem_append,
      mem_escapingFrom_declarationsBy]
    grind
  · rw [items, misplacedIn_append, misplacedIn_ownItems, misplacedIn_flatMap, targetsInside,
      List.nil_append]
    refine List.flatMap_congr fun c hc => ?_
    rw [misplacedIn_append, misplacedIn_declarationsBy hc]
  · simp only [items, openedIn_append, openedIn_ownItems, openedIn_flatMap, openedIn_declarationsBy,
      List.nil_append, outlines]

end Node

end WithScope
