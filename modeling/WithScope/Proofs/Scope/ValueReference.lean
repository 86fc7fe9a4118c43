import WithScope.Proofs.Scope.Addresses

/-!
# Which identifiers are variables

An identifier is a variable unless it names a property, a label or something that is declared
(`Node.onlyNames`). Which of the two it is can be told from the node that directly holds it and from
where the identifier stands in that node: this is how `isValueReference` decides.

* `Node.isValueReference_holder` — the verdict on the identifiers of a node, by whatever holds them;
* `Program.references_judged` — the verdict on all that is come upon in a program.
-/

namespace WithScope

/-! ## Deciding by the holder -/

namespace Node

/-- Whether a node is nothing but an identifier. -/
def isIdentifier : Node → Bool
  | .expr (.ident _) | .memberName (.ident _) | .key (.ident _) | .pat _ (.ident _)
  | .exportSpecifier _ ⟨_, .ident _, _⟩ => true
  | _ => false

/-- Whether the identifiers that a node keeps name something other than a variable: a property, a label,
a part of a meta property, or what is declared by it or belongs to another module. -/
def onlyNames : Node → Bool
  | .memberName (.ident _) | .key (.ident _) => true
  | .stmt (.break ..) | .stmt (.continue ..) | .stmt (.labeled ..) => true
  | .expr (.metaProperty ..) => true
  | .function _ | .class _ => true
  | .pat .binding (.ident _) | .patProperty .binding (.shorthand ..) => true
  | .exportSpecifier true ⟨_, .ident _, _⟩ => true
  | .module (.importFrom ..) => true
  | _ => false

end Node

namespace Place

/-- Whether an address is that of a child which is nothing but an identifier, by the index of the
child. -/
def holdsAt (p : Place) (i : Nat) (a : Address) : Bool :=
  a = ⟨p.path ++ [i], 0⟩ && p.node.children[i]?.any Node.isIdentifier

/-- Whether an address is that of an identifier which the node keeps itself. -/
def keeps (p : Place) (a : Address) : Bool := a.path = p.path && a.slot < p.node.names.length

end Place

/-- Whether the identifier at an address reads or writes a variable, by the node that directly holds
it. Identifiers are told apart by address, since a node may hold equal ones. -/
def isValueReference (a : Address) (parent : Place) : Bool :=
  match parent.node with
  | .stmt (.labeled ..) | .stmt (.break ..) | .stmt (.continue ..) => false
  | .expr (.member ..) => !parent.holdsAt 1 a
  | .expr (.metaProperty ..) => false
  | .expr (.arrow _ _ params _) => parent.holdsAt params.length a
  | .declarator .. => !parent.holdsAt 0 a
  | .function _ | .catchClause _ => false
  | .class _ => !parent.keeps a
  | .member (.method ..) | .member (.field ..) => !parent.holdsAt 0 a
  | .property (.value ..) | .property (.method ..) => !parent.holdsAt 0 a
  | .pat use (.assign ..) => parent.holdsAt 1 a || use = .assignment
  | .pat _ (.expr _) => true
  | .pat use _ => use = .assignment
  | .patProperty use (.keyValue ..) =>
    !parent.holdsAt 0 a && (!parent.holdsAt 1 a || use = .assignment)
  | .patProperty use (.shorthand ..) => !parent.keeps a || use = .assignment
  | .patProperty use (.rest ..) => use = .assignment
  | .module (.exportNamed _ specifiers none declaration _) =>
    (List.range' declaration.toList.length specifiers.length).any (parent.holdsAt · a)
  | .module (.exportDefault ..) => true
  | .module _ => false
  | _ => true

/-! ## Children -/

/-- The leaves of a pattern that are not declared are assigned to. -/
theorem PatUse.assignment_eq (use : PatUse) :
    decide (use = .assignment) = !decide (use = .binding) := by
  cases use <;> rfl

namespace Node

theorem onlyNames_expr {e : Expr} (h : (expr e).isIdentifier) : (expr e).onlyNames = false := by
  cases e <;> first | rfl | cases h

theorem onlyNames_pat {use : PatUse} {p : Pat} (h : (pat use p).isIdentifier) :
    (pat use p).onlyNames = decide (use = .binding) := by
  cases use <;> cases p <;> first | rfl | cases h

theorem onlyNames_key {k : Key} (h : (key k).isIdentifier) : (key k).onlyNames = true := by
  cases k <;> first | rfl | cases h

theorem onlyNames_memberName {m : MemberName} (h : (memberName m).isIdentifier) :
    (memberName m).onlyNames = true := by
  cases m <;> first | rfl | cases h

section

variable {path : List Nat} {n c : Node} {i : Nat}

theorem holdsAt_child (path : List Nat) (hc : n.children[i]? = some c) (hid : c.isIdentifier)
    (j : Nat) : Place.holdsAt ⟨path, n⟩ j ⟨path ++ [i], 0⟩ = decide (i = j) := by
  by_cases hij : i = j
  · subst hij
    simp [Place.holdsAt, hc, hid]
  · simp [Place.holdsAt, hij]

theorem keeps_child (slot : Nat) : Place.keeps ⟨path, n⟩ ⟨path ++ [i], slot⟩ = false := by
  simp [Place.keeps]

/-- The verdict on an identifier directly in an expression. -/
theorem isValueReference_expr_child {e : Expr} (hc : (expr e).children[i]? = some c)
    (hid : c.isIdentifier) : isValueReference ⟨path ++ [i], 0⟩ ⟨path, expr e⟩ = !c.onlyNames := by
  have hat := holdsAt_child path hc hid
  have hmem := List.mem_of_getElem? hc
  cases e
  case member =>
    simp only [isValueReference, hat]
    rcases i with _ | _ | i <;> cases hc
    · simp [onlyNames_expr hid]
    · simp [onlyNames_memberName hid]
  case arrow loc isAsync params body =>
    simp only [isValueReference, hat]
    -- the parameters come first, and what follows them is the body
    rcases Nat.lt_or_ge i params.length with hi | hi
    · simp [children, Expr.children, List.getElem?_append_left, hi] at hc
      subst hc
      simp [onlyNames_pat hid, Nat.ne_of_lt hi]
    · simp [children, Expr.children, List.getElem?_append_right, hi, List.getElem?_singleton] at hc
      obtain ⟨hle, rfl⟩ := hc
      have hi : i = params.length := Nat.le_antisymm (Nat.sub_eq_zero_iff_le.1 hle) hi
      cases body with
      | block => cases hid
      | expr => simp [ArrowBody.node, onlyNames_expr hid, hi]
  all_goals simp [children, Expr.children, isValueReference] at hmem ⊢
  all_goals grind [onlyNames_expr, onlyNames_pat, isIdentifier]

theorem isValueReference_pat_child {use : PatUse} {p : Pat}
    (hc : (pat use p).children[i]? = some c) (hid : c.isIdentifier) :
    isValueReference ⟨path ++ [i], 0⟩ ⟨path, pat use p⟩ = !c.onlyNames := by
  have hat := holdsAt_child path hc hid
  have hmem := List.mem_of_getElem? hc
  cases p
  case assign =>
    simp only [isValueReference, hat]
    rcases i with _ | _ | i <;> cases hc
    · simp [onlyNames_pat hid, use.assignment_eq]
    · simp [onlyNames_expr hid]
  all_goals simp [children, Pat.children, isValueReference, use.assignment_eq] at hmem ⊢
  all_goals grind [onlyNames_expr, onlyNames_pat, isIdentifier]

theorem isValueReference_patProperty_child {use : PatUse} {p : PatProperty}
    (hc : (patProperty use p).children[i]? = some c) (hid : c.isIdentifier) :
    isValueReference ⟨path ++ [i], 0⟩ ⟨path, patProperty use p⟩ = !c.onlyNames := by
  have hat := holdsAt_child path hc hid
  cases p
  case keyValue =>
    simp only [isValueReference, hat]
    rcases i with _ | _ | i <;> cases hc
    · simp [onlyNames_key hid]
    · simp [onlyNames_pat hid, use.assignment_eq]
  case shorthand loc id value =>
    obtain ⟨e, -, rfl⟩ := List.mem_map.1 (List.mem_of_getElem? hc)
    simp [isValueReference, keeps_child, onlyNames_expr hid]
  case rest =>
    obtain rfl := List.mem_singleton.1 (List.mem_of_getElem? hc)
    simp [isValueReference, onlyNames_pat hid, use.assignment_eq]

theorem isValueReference_stmt_child {s : Stmt} (hc : c ∈ (stmt s).children) (hid : c.isIdentifier)
    (a : Address) : isValueReference a ⟨path, stmt s⟩ = !c.onlyNames := by
  cases s
  case «break» | «continue» => cases hc
  case labeled =>
    obtain rfl := List.mem_singleton.1 hc
    cases hid
  case «for» loc init test update body =>
    rcases init with _ | ⟨d⟩ | ⟨e⟩ <;>
      simp [children, Stmt.children, ForInit.node, isValueReference] at hc ⊢ <;>
      grind [onlyNames_expr, isIdentifier]
  case forIn loc left right body =>
    cases left <;> simp [children, Stmt.children, ForTarget.node, isValueReference] at hc ⊢ <;>
      grind [onlyNames_expr, onlyNames_pat, isIdentifier]
  case forOf loc isAwait left right body =>
    cases left <;> simp [children, Stmt.children, ForTarget.node, isValueReference] at hc ⊢ <;>
      grind [onlyNames_expr, onlyNames_pat, isIdentifier]
  all_goals simp [children, Stmt.children, isValueReference] at hc ⊢
  all_goals grind [onlyNames_expr, isIdentifier]

/-- The verdict on an identifier directly in an import or export. -/
theorem isValueReference_module_child {d : ModuleDecl} (hc : (module d).children[i]? = some c)
    (hid : c.isIdentifier) : isValueReference ⟨path ++ [i], 0⟩ ⟨path, module d⟩ = !c.onlyNames := by
  have hat := holdsAt_child path hc hid
  rcases d with _ | ⟨loc, specifiers, source, declaration, attributes⟩ | ⟨loc, f | c | e⟩ | _
  case exportNamed =>
    rw [children, ModuleDecl.children] at hc
    -- the declaration comes first, and the names after it
    rcases Nat.lt_or_ge i (declaration.toList.map stmt).length with hi | hi
    · rw [List.getElem?_append_left hi] at hc
      obtain ⟨s, -, rfl⟩ := List.mem_map.1 (List.mem_of_getElem? hc)
      cases hid
    · rw [List.getElem?_append_right hi, List.getElem?_map] at hc
      obtain ⟨⟨loc, ⟨id⟩ | ⟨lit⟩, exported⟩, hs, rfl⟩ := Option.map_eq_some_iff.1 hc
      · obtain ⟨hlt, -⟩ := List.getElem?_eq_some_iff.1 hs
        rw [List.length_map] at hi hlt
        cases source with
        | some => rfl
        | none =>
          refine List.any_eq_true.2 ⟨i, List.mem_range'_1.2 ⟨hi, by omega⟩, ?_⟩
          rw [hat, decide_eq_true rfl]
      · cases hid
  case importFrom | exportAll => cases hc
  all_goals
    obtain rfl := List.mem_singleton.1 (List.mem_of_getElem? hc)
    first | cases hid | simp [DefaultExport.node, isValueReference, onlyNames_expr hid]

/-- The verdict on an identifier that is a child of a node. -/
theorem isValueReference_child (hn : n.passes = false) (hc : n.children[i]? = some c)
    (hid : c.isIdentifier) : isValueReference ⟨path ++ [i], 0⟩ ⟨path, n⟩ = !c.onlyNames := by
  have hat := holdsAt_child path hc hid
  have hmem := List.mem_of_getElem? hc
  cases n
  case expr => exact isValueReference_expr_child hc hid
  case pat => exact isValueReference_pat_child hc hid
  case patProperty => exact isValueReference_patProperty_child hc hid
  case stmt => exact isValueReference_stmt_child hmem hid _
  case property p =>
    cases p
    case value | method =>
      simp only [isValueReference, hat]
      rcases i with _ | _ | i <;> cases hc
      · simp [onlyNames_key hid]
      · first | simp [onlyNames_expr hid] | cases hid
    case shorthand loc key =>
      cases key
      case ident => cases hmem
      all_goals
        obtain rfl := List.mem_singleton.1 hmem
        cases hid
    case spread =>
      obtain rfl := List.mem_singleton.1 hmem
      simp [isValueReference, onlyNames_expr hid]
  case function f =>
    cases f
    simp [children, Func.children, isValueReference] at hmem ⊢
    grind [onlyNames_pat, isIdentifier]
  case «class» c =>
    cases c
    simp [children, Class.children, isValueReference, keeps_child] at hmem ⊢
    grind [onlyNames_expr, isIdentifier]
  case member m =>
    cases m
    case method =>
      simp only [isValueReference, hat]
      rcases i with _ | _ | i <;> cases hc
      · simp [onlyNames_key hid]
      · cases hid
    case field loc isStatic key value =>
      simp only [isValueReference, hat]
      rcases i with _ | i
      · cases hc
        simp [onlyNames_key hid]
      · obtain ⟨v, -, rfl⟩ := List.mem_map.1 (List.mem_of_getElem? hc)
        cases hid
    case staticBlock =>
      obtain ⟨s, -, rfl⟩ := List.mem_map.1 hmem
      cases hid
  case declarator kind d =>
    cases d
    simp only [isValueReference, hat]
    rcases i with _ | i
    · cases hc
      simp [onlyNames_pat hid]
    · simp [children, Declarator.children] at hc
      grind [onlyNames_expr, isIdentifier]
  case switchCase c =>
    cases c
    simp [children, SwitchCase.children, isValueReference] at hmem ⊢
    grind [onlyNames_expr, isIdentifier]
  case catchClause c =>
    cases c
    simp [children, CatchClause.children, isValueReference] at hmem ⊢
    grind [onlyNames_pat, isIdentifier]
  case module => exact isValueReference_module_child hc hid
  all_goals cases hn

/-- What passes on an identifier is a template, a name or key in brackets, or the value of a field, and
the identifier is an expression there. -/
theorem eq_of_passes {d : Node} (hn : c.passes) (hd : d ∈ c.children) (hid : d.isIdentifier) :
    d.onlyNames = false ∧ ((∃ t, c = .template t) ∨ (∃ m, c = .memberName m) ∨ (∃ k, c = .key k) ∨
      ∃ v, c = .fieldValue v) := by
  cases c
  case template t =>
    cases t
    obtain ⟨e, -, rfl⟩ := List.mem_map.1 hd
    exact ⟨onlyNames_expr hid, .inl ⟨_, rfl⟩⟩
  case memberName m =>
    cases m
    case computed =>
      obtain rfl := List.mem_singleton.1 hd
      exact ⟨onlyNames_expr hid, .inr (.inl ⟨_, rfl⟩)⟩
    all_goals cases hd
  case key k =>
    cases k
    case computed =>
      obtain rfl := List.mem_singleton.1 hd
      exact ⟨onlyNames_expr hid, .inr (.inr (.inl ⟨_, rfl⟩))⟩
    all_goals cases hd
  case fieldValue =>
    obtain rfl := List.mem_singleton.1 hd
    exact ⟨onlyNames_expr hid, .inr (.inr (.inr ⟨_, rfl⟩))⟩
  case expr e =>
    cases e
    case ident => cases hd
    all_goals cases hn
  case pat use p =>
    cases p
    case ident => cases hd
    all_goals cases hn
  case block =>
    obtain ⟨s, -, rfl⟩ := List.mem_map.1 hd
    cases hid
  case varDecl d =>
    cases d
    obtain ⟨d, -, rfl⟩ := List.mem_map.1 hd
    cases hid
  case caseBlock =>
    obtain ⟨s, -, rfl⟩ := List.mem_map.1 hd
    cases hid
  case exportSpecifier => cases hd
  all_goals cases hn

/-- The verdict on an identifier that is passed on by a child of a node. -/
theorem isValueReference_through {d : Node} {j : Nat} (hc : n.children[i]? = some c)
    (hpass : c.passes) (hd : c.children[j]? = some d) (hid : d.isIdentifier) :
    isValueReference ⟨path ++ [i, j], 0⟩ ⟨path, n⟩ = !d.onlyNames := by
  have hat (k : Nat) : Place.holdsAt ⟨path, n⟩ k ⟨path ++ [i, j], 0⟩ = false := by
    simp [Place.holdsAt]
  have hkeeps : Place.keeps ⟨path, n⟩ ⟨path ++ [i, j], 0⟩ = false := by simp [Place.keeps]
  obtain ⟨hvariable, hkind⟩ := eq_of_passes hpass (List.mem_of_getElem? hd) hid
  rw [hvariable, Bool.not_false]
  have hmem := List.mem_of_getElem? hc
  cases n
  case expr e =>
    cases e
    case arrow loc isAsync params body =>
      cases body <;> simp [children, Expr.children, ArrowBody.node] at hmem <;> grind
    case metaProperty => cases hmem
    all_goals simp [isValueReference, hat]
  case pat use p =>
    cases p
    case ident => cases hmem
    case expr => rfl
    all_goals simp [children, Pat.children] at hmem; grind
  case patProperty use p =>
    cases p
    case rest => simp [children, PatProperty.children] at hmem; grind
    all_goals simp [isValueReference, hat, hkeeps]
  case function f => cases f; simp [children, Func.children] at hmem; grind
  case catchClause c => cases c; simp [children, CatchClause.children] at hmem; grind
  case property p => cases p <;> simp [isValueReference, hat]
  case member m => cases m <;> simp [isValueReference, hat]
  case module d =>
    cases d
    case exportDefault => rfl
    case exportNamed => simp [children, ModuleDecl.children] at hmem; grind
    all_goals cases hmem
  case stmt s =>
    cases s
    case «break» | «continue» => cases hmem
    case labeled => simp [children, Stmt.children] at hmem; grind
    all_goals rfl
  all_goals simp [isValueReference, hat, hkeeps]

/-! ## Every identifier of a node -/

/-- The verdict on an identifier that a node keeps itself and holds itself. -/
theorem isValueReference_own {slot : Nat} (hn : n.passes = false) (hslot : slot < n.names.length) :
    isValueReference ⟨path, slot⟩ ⟨path, n⟩ = !n.onlyNames := by
  have hkeeps : Place.keeps ⟨path, n⟩ ⟨path, slot⟩ = true := by simp [Place.keeps, hslot]
  cases n
  case expr e =>
    cases e
    case metaProperty => rfl
    case ident => cases hn
    all_goals cases hslot
  case property p =>
    rcases p with _ | ⟨loc, ⟨id⟩ | _⟩ | _ | _
    case shorthand.ident => rfl
    all_goals cases hslot
  case function => rfl
  case «class» => simp [isValueReference, hkeeps, onlyNames]
  case patProperty use p =>
    cases p
    case shorthand => cases use <;> simp [isValueReference, hkeeps, onlyNames]
    all_goals cases hslot
  case module d =>
    cases d
    case importFrom => rfl
    all_goals cases hslot
  case stmt s =>
    cases s
    case «break» | «continue» | labeled => rfl
    all_goals cases hslot
  case pat use p =>
    cases p
    case ident => cases hn
    all_goals cases hslot
  all_goals first | cases hslot | cases hn

/-- What passes on an identifier of its own is nothing but the identifier. -/
theorem isIdentifier_of_passes {slot : Nat} (hn : n.passes) (hslot : slot < n.names.length) :
    n.isIdentifier ∧ slot = 0 := by
  cases n
  case expr e =>
    cases e
    case ident => exact ⟨rfl, Nat.lt_one_iff.1 hslot⟩
    all_goals cases hn
  case pat use p =>
    cases p
    case ident => exact ⟨rfl, Nat.lt_one_iff.1 hslot⟩
    all_goals cases hn
  case memberName m =>
    cases m
    case ident => exact ⟨rfl, Nat.lt_one_iff.1 hslot⟩
    all_goals cases hslot
  case key k =>
    cases k
    case ident => exact ⟨rfl, Nat.lt_one_iff.1 hslot⟩
    all_goals cases hslot
  case exportSpecifier ofOther s =>
    obtain ⟨loc, ⟨id⟩ | ⟨lit⟩, exported⟩ := s
    · exact ⟨rfl, Nat.lt_one_iff.1 hslot⟩
    · cases hslot
  all_goals first | cases hslot | cases hn

/-- The verdict on an identifier of a node, by whatever holds it. -/
theorem isValueReference_holder {outer : Place} {slot : Nat} (h : Stands outer path n)
    (hslot : slot < n.names.length) :
    isValueReference ⟨path, slot⟩ (n.holder outer path) = !n.onlyNames := by
  by_cases hn : n.passes
  · rw [holder, if_pos hn]
    obtain ⟨hid, rfl⟩ := isIdentifier_of_passes hn hslot
    obtain ⟨hp, hc⟩ | ⟨hp, hc, hpass, hd⟩ := h hn
    · exact isValueReference_child hp hc hid
    · rw [List.append_assoc]
      exact isValueReference_through hc hpass hd hid
  · rw [holder, if_neg hn]
    exact isValueReference_own (Bool.not_eq_true _ ▸ hn) hslot

/-- An identifier is a variable unless the node that keeps it only names something by it. -/
theorem isValue_of_mem_names {id : Ident} {role : Role} (h : (id, role) ∈ n.names) :
    role.isValue = !n.onlyNames := by
  cases n
  case expr e =>
    cases e
    case ident =>
      cases List.mem_singleton.1 h
      rfl
    case metaProperty =>
      obtain ⟨-, rfl⟩ | ⟨-, rfl⟩ : _ ∨ _ := by simpa [names] using h
      all_goals rfl
    all_goals cases h
  case memberName m =>
    cases m
    case ident =>
      cases List.mem_singleton.1 h
      rfl
    all_goals cases h
  case key k =>
    cases k
    case ident =>
      cases List.mem_singleton.1 h
      rfl
    all_goals cases h
  case property p =>
    rcases p with _ | ⟨loc, ⟨id⟩ | _⟩ | _ | _
    case shorthand.ident =>
      cases List.mem_singleton.1 h
      rfl
    all_goals cases h
  case exportSpecifier ofOther s =>
    obtain ⟨loc, ⟨id⟩ | ⟨lit⟩, exported⟩ := s
    · cases List.mem_singleton.1 h
      cases ofOther <;> rfl
    · cases h
  case function f =>
    cases f
    obtain ⟨id, -, h⟩ := List.mem_map.1 h
    cases h
    rfl
  case «class» c =>
    cases c
    obtain ⟨id, -, h⟩ := List.mem_map.1 h
    cases h
    rfl
  case pat use p =>
    cases p
    case ident =>
      cases List.mem_singleton.1 h
      cases use <;> rfl
    all_goals cases h
  case patProperty use p =>
    cases p
    case shorthand =>
      cases List.mem_singleton.1 h
      cases use <;> rfl
    all_goals cases h
  case module d =>
    cases d
    case importFrom =>
      obtain ⟨s, -, h⟩ := List.mem_map.1 h
      cases h
      rfl
    all_goals cases h
  case stmt s =>
    cases s
    case «break» | «continue» =>
      obtain ⟨id, -, h⟩ := List.mem_map.1 h
      cases h
      rfl
    case labeled =>
      cases List.mem_singleton.1 h
      rfl
    all_goals cases h
  all_goals cases h

theorem isValueReference_of_mem {outer : Place} (h : Stands outer path n) {r : Reference}
    (hr : r ∈ n.visitedReferences outer path) :
    isValueReference r.address r.holder = r.role.isValue := by
  induction n using induct generalizing outer path with
  | step n ih =>
    rcases mem_visitedReferences.1 hr with hr | ⟨c, i, hc, hr⟩
    · obtain ⟨slot, hname, haddress, hheld⟩ := mem_ownReferences.1 hr
      obtain ⟨hslot, -⟩ := List.getElem?_eq_some_iff.1 hname
      rw [haddress, hheld, isValueReference_holder h hslot,
        isValue_of_mem_names (List.mem_of_getElem? hname)]
    · exact ih c (List.mem_of_getElem? hc) (h.child hc) hr

end

end Node

/-! ## Programs -/

namespace Program

theorem isValueReference_of_mem {p : Program} {r : Reference} (hr : r ∈ p.references) :
    isValueReference r.address r.holder = r.role.isValue := by
  obtain ⟨s, i, -, hr⟩ := mem_references.1 hr
  exact Node.isValueReference_of_mem (.stmt _ _ s) hr

/-- On a walk over a program, each identifier is judged by the node that directly holds it: it is no
variable exactly if the node that keeps it only names something by it. What is declared is come upon once
besides, and is no variable there. -/
theorem references_judged {p : Program} {events : List Event} (h : p.events = .ok events) :
    p.visits.map Visit.occurrence = events.map Event.occurrence ∧
    (∀ r ∈ p.references, p.node? r.holder.path = some r.holder.node ∧
      ∃ n, p.node? r.address.path = some n ∧ n.names[r.address.slot]? = some (r.id, r.role) ∧
        isValueReference r.address r.holder = r.role.isValue ∧
        (isValueReference r.address r.holder = false ↔ n.onlyNames)) ∧
    ∀ site id a, .declares site id a ∈ p.visits → (p.references.map Reference.address).count a = 1 ∧
      ∃ r ∈ p.references, r.address = a ∧ r.id = id ∧
        isValueReference r.address r.holder = false := by
  refine ⟨map_occurrence_visits h, fun r hr => ?_, fun site id a ha => ?_⟩
  · obtain ⟨hholder, n, hn, hname⟩ := found hr
    have hvalue := isValueReference_of_mem hr
    refine ⟨hholder, n, hn, hname, hvalue, ?_⟩
    rw [hvalue, Node.isValue_of_mem_names (List.mem_of_getElem? hname), Bool.not_eq_false']
  · obtain ⟨r, hr, rfl, rfl, hvalue⟩ := exists_reference ha
    refine ⟨List.count_eq_one_of_mem p.nodup_addresses (List.mem_map_of_mem hr), r, hr, rfl, rfl, ?_⟩
    rw [isValueReference_of_mem hr, hvalue]

/-- One identifier four times over, as a key, as a name that is declared, as its default value and as the
initial value. -/
theorem references_judged_pattern :
    let loc : Span := ⟨⟨0, 1, 1⟩, ⟨1, 1, 2⟩⟩
    let a : Ident := ⟨loc, "a"⟩
    let p : Program := ⟨loc, .script, [.varDecl (.mk loc .let [.mk loc (.object loc [.keyValue loc
      (.ident a) (.assign loc (.ident a) (.ident a))]) (some (.ident a))])]⟩
    (∃ events, p.events = .ok events ∧ p.visits.map Visit.occurrence = events.map Event.occurrence) ∧
      p.references.map (fun r => isValueReference r.address r.holder) = [false, false, true, true] := by
  intro loc a p
  obtain ⟨hvisits, hjudged, -⟩ := references_judged (p := p) (by rfl)
  refine ⟨⟨_, by rfl, hvisits⟩, ?_⟩
  have hvalue : p.references.map (fun r => isValueReference r.address r.holder)
      = p.references.map fun r => r.role.isValue := List.map_congr_left fun r hr => by
    obtain ⟨-, n, -, -, hvalue, -⟩ := hjudged r hr
    exact hvalue
  rw [hvalue]
  decide +kernel

end Program

end WithScope
