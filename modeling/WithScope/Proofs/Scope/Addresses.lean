import Mathlib.Data.List.Sigma
import WithScope.Proofs.Scope.Visits

/-!
# Identifiers are told apart by where they are kept

No identifier is referred to twice on a walk over a program, and one that is declared is referred to as
well, by the pattern, function, class or import that holds it.

* `Program.found` — a reference names an identifier of the program and the node that holds it;
* `Program.nodup_addresses` — each reference has an address of its own;
* `Program.exists_reference` — what is declared is also referred to, and not as a variable.
-/

namespace WithScope

/-! ## The references that are visited -/

/-- The references that are come upon in a program. -/
def Program.references (p : Program) : List Reference := p.visits.filterMap Visit.reference?

namespace Node

/-- The references that are come upon in a node. -/
def visitedReferences (outer : Place) (path : List Nat) (n : Node) : List Reference :=
  (n.visits outer path).filterMap Visit.reference?

/-- The references that a node makes itself. -/
def ownReferences (outer : Place) (path : List Nat) (n : Node) : List Reference :=
  n.names.zipIdx.map fun name => ⟨name.1.1, ⟨path, name.2⟩, name.1.2, n.holder outer path⟩

theorem filterMap_leaves (site : BindSite) (n : Node) (path : List Nat) :
    (n.leaves site path).filterMap Visit.reference? = [] := by
  induction n using induct generalizing path with
  | step n ih =>
    by_cases h : n.isPattern
    · have hown : (n.ownLeaves site path).filterMap Visit.reference? = [] := by
        unfold ownLeaves
        split <;> rfl
      rw [leaves_eq h, List.filterMap_append, hown, List.nil_append, List.filterMap_flatMap,
        List.flatMap_eq_nil_iff]
      exact fun c hc => ih c.1 (List.fst_mem_of_mem_zipIdx hc) _
    · rw [leaves_eq_nil (Bool.not_eq_true _ ▸ h)]
      rfl

theorem filterMap_leavesBy (n c : Node) (path : List Nat) :
    (n.leavesBy path c).filterMap Visit.reference? = [] := by
  unfold leavesBy
  split
  · rw [List.filterMap_flatMap, List.flatMap_eq_nil_iff]
    exact fun site _ => filterMap_leaves site _ path
  · rfl

theorem filterMap_ownVisits (outer : Place) (path : List Nat) (n : Node) :
    (n.ownVisits outer path).filterMap Visit.reference? = n.ownReferences outer path := by
  have hname (name : (Ident × Role) × Nat) : (n.nameVisits outer path name).filterMap Visit.reference?
      = [⟨name.1.1, ⟨path, name.2⟩, name.1.2, n.holder outer path⟩] := by
    rw [nameVisits]
    cases n.nameSite? <;> rfl
  have hothers : (n.this?.toList.map Visit.this ++ n.hoisted.toList.map
      (Visit.declares .hoisted · ⟨path ++ [0], 0⟩)).filterMap Visit.reference? = [] := by
    cases n.this? <;> cases n.hoisted <;> rfl
  rw [ownVisits, List.filterMap_append, hothers, List.nil_append, List.filterMap_flatMap]
  simp only [hname]
  exact List.map_eq_flatMap.symm

theorem visitedReferences_eq (outer : Place) (path : List Nat) (n : Node) :
    n.visitedReferences outer path = n.ownReferences outer path ++ n.children.zipIdx.flatMap
      fun c => c.1.visitedReferences (n.holder outer path) (path ++ [c.2]) := by
  rw [visitedReferences, visits_eq, List.filterMap_append, filterMap_ownVisits, List.filterMap_flatMap]
  simp only [List.filterMap_append, filterMap_leavesBy, List.nil_append]
  rfl

theorem mem_visitedReferences {outer : Place} {path : List Nat} {n : Node} {r : Reference} :
    r ∈ n.visitedReferences outer path ↔ r ∈ n.ownReferences outer path ∨
      ∃ (c : Node) (i : Nat), n.children[i]? = some c ∧
        r ∈ c.visitedReferences (n.holder outer path) (path ++ [i]) := by
  rw [visitedReferences_eq]
  simp only [List.mem_append, List.mem_flatMap, Prod.exists, List.mk_mem_zipIdx_iff_getElem?]

theorem mem_ownReferences {outer : Place} {path : List Nat} {n : Node} {r : Reference} :
    r ∈ n.ownReferences outer path ↔ ∃ slot, n.names[slot]? = some (r.id, r.role) ∧
      r.address = ⟨path, slot⟩ ∧ r.holder = n.holder outer path := by
  simp only [ownReferences, List.mem_map, Prod.exists, List.mk_mem_zipIdx_iff_getElem?]
  constructor
  · rintro ⟨id, role, slot, hname, rfl⟩
    exact ⟨slot, hname, rfl, rfl⟩
  · obtain ⟨id, address, role, holder⟩ := r
    rintro ⟨slot, hname, rfl, rfl⟩
    exact ⟨id, role, slot, hname, rfl⟩

/-! ## Looking up places -/

/-- The node at the end of a path. -/
def at? : List Nat → Node → Option Node
  | [], n => some n
  | i :: path, n => n.children[i]?.bind (at? path)

/-- A reference names an identifier that is there, and the node that holds it. -/
theorem found {find : List Nat → Option Node} (n : Node) {outer : Place} {path : List Nat}
    (hfind : ∀ rest, find (path ++ rest) = n.at? rest) (houter : find outer.path = some outer.node)
    {r : Reference} (hr : r ∈ n.visitedReferences outer path) :
    find r.holder.path = some r.holder.node ∧
      ∃ m, find r.address.path = some m ∧ m.names[r.address.slot]? = some (r.id, r.role) := by
  induction n using induct generalizing outer path with
  | step n ih =>
    have hn : find path = some n := by
      rw [← List.append_nil path]
      exact hfind []
    have hholder : find (n.holder outer path).path = some (n.holder outer path).node := by
      by_cases hpass : n.passes
      · rwa [holder, if_pos hpass]
      · rwa [holder, if_neg hpass]
    rcases mem_visitedReferences.1 hr with hr | ⟨c, i, hc, hr⟩
    · obtain ⟨slot, hname, haddress, hheld⟩ := mem_ownReferences.1 hr
      rw [hheld, haddress]
      exact ⟨hholder, n, hn, hname⟩
    · refine ih c (List.mem_of_getElem? hc) (fun rest => ?_) hholder hr
      rw [List.append_assoc, hfind]
      simp [at?, hc]

/-! ## Addresses -/

/-- What is referred to in a node is kept in it. -/
theorem prefix_address (n : Node) {outer : Place} {path : List Nat} {r : Reference}
    (hr : r ∈ n.visitedReferences outer path) : path <+: r.address.path := by
  induction n using induct generalizing outer path with
  | step n ih =>
    rcases mem_visitedReferences.1 hr with hr | ⟨c, i, hc, hr⟩
    · obtain ⟨slot, -, haddress, -⟩ := mem_ownReferences.1 hr
      simp [haddress]
    · exact (List.prefix_append _ _).trans (ih c (List.mem_of_getElem? hc) hr)

/-- What is kept in different children is different. -/
theorem nodup_flatMap_zipIdx {α : Type} {xs : List α} (path : List Nat) {f : α × Nat → List Address}
    (hbelow : ∀ x ∈ xs.zipIdx, ∀ a ∈ f x, path ++ [x.2] <+: a.path)
    (hnodup : ∀ x ∈ xs.zipIdx, (f x).Nodup) : (xs.zipIdx.flatMap f).Nodup := by
  refine List.nodup_flatMap.2 ⟨hnodup, ?_⟩
  have hindices := List.pairwise_map.1 (List.nodup_zipIdx_map_snd xs)
  refine hindices.imp_of_mem fun {x y} hx hy hne a hax hay => hne ?_
  have heq := (List.prefix_of_prefix_length_le (hbelow x hx a hax) (hbelow y hy a hay)
    (by simp)).eq_of_length (by simp)
  simpa using heq

/-- No identifier is referred to twice. -/
theorem nodup_addresses (n : Node) (outer : Place) (path : List Nat) :
    ((n.visitedReferences outer path).map Reference.address).Nodup := by
  induction n using induct generalizing outer path with
  | step n ih =>
    rw [visitedReferences_eq, List.map_append, List.map_flatMap]
    refine List.nodup_append'.2 ⟨?_, ?_, ?_⟩
    · rw [ownReferences, List.map_map]
      have hslots := (List.nodup_zipIdx_map_snd n.names).map (f := Address.mk path)
        fun i j h => (Address.mk.inj h).2
      rwa [List.map_map] at hslots
    · refine nodup_flatMap_zipIdx path (fun c hc a ha => ?_)
        fun c hc => ih c.1 (List.fst_mem_of_mem_zipIdx hc) _ _
      obtain ⟨r, hr, rfl⟩ := List.mem_map.1 ha
      exact prefix_address c.1 hr
    · intro a hown hchild
      obtain ⟨r, hr, rfl⟩ := List.mem_map.1 hown
      obtain ⟨slot, -, haddress, -⟩ := mem_ownReferences.1 hr
      obtain ⟨c, -, hchild⟩ := List.mem_flatMap.1 hchild
      obtain ⟨r', hr', heq⟩ := List.mem_map.1 hchild
      have hlength := (prefix_address c.1 hr').length_le
      rw [heq, haddress, List.length_append] at hlength
      exact absurd hlength (Nat.not_succ_le_self _)

/-! ## Declarations -/

/-- What a node declares is no variable where the node holds it. -/
theorem isValue_of_nameSite? {n : Node} {site : BindSite} (h : n.nameSite? = some site)
    {name : Ident × Role} (hname : name ∈ n.names) : name.2.isValue = false := by
  cases n
  case function f =>
    obtain ⟨loc, id, isAsync, isGenerator, params, body⟩ := f
    obtain ⟨id, -, rfl⟩ := List.mem_map.1 hname
    rfl
  case «class» c =>
    obtain ⟨loc, id, superClass, bodyLoc, members⟩ := c
    obtain ⟨id, -, rfl⟩ := List.mem_map.1 hname
    rfl
  case module d =>
    cases d
    case importFrom =>
      obtain ⟨s, -, rfl⟩ := List.mem_map.1 hname
      rfl
    all_goals cases h
  all_goals cases h

/-- A function or class that is declared by its name holds the name. -/
theorem exists_child_of_hoisted {n : Node} {id : Ident} (h : n.hoisted = some id) :
    ∃ c, n.children[0]? = some c ∧ c.names[0]? = some (id, .ownName) := by
  have hfunction {f : Func} (hf : f.id = some id) : (function f).names[0]? = some (id, .ownName) := by
    obtain ⟨loc, id', isAsync, isGenerator, params, body⟩ := f
    obtain rfl : id' = some id := hf
    rfl
  have hclass {c : Class} (hc : c.id = some id) : («class» c).names[0]? = some (id, .ownName) := by
    obtain ⟨loc, id', superClass, bodyLoc, members⟩ := c
    obtain rfl : id' = some id := hc
    rfl
  cases n
  case stmt s =>
    cases s
    case function f => exact ⟨_, rfl, hfunction h⟩
    case «class» c => exact ⟨_, rfl, hclass h⟩
    all_goals cases h
  case module d =>
    rcases d with _ | _ | ⟨loc, f | c | e⟩ | _
    case exportDefault.function => exact ⟨_, rfl, hfunction h⟩
    case exportDefault.class => exact ⟨_, rfl, hclass h⟩
    all_goals cases h
  all_goals cases h

/-- Whether a node is a pattern that declares names, or a property of one. -/
def isBinding : Node → Bool
  | .pat .binding _ | .patProperty .binding _ => true
  | _ => false

/-- What a pattern declares itself, it holds. -/
theorem name_of_ownLeaves {n : Node} (hn : n.isBinding) {site site' : BindSite} {id : Ident}
    {path : List Nat} {a : Address} (h : .declares site' id a ∈ n.ownLeaves site path) :
    a = ⟨path, 0⟩ ∧ n.names[0]? = some (id, .leaf .binding) := by
  cases n
  case pat use p =>
    cases use with
    | assignment => cases hn
    | binding =>
      cases p
      case ident =>
        cases List.mem_singleton.1 h
        exact ⟨rfl, rfl⟩
      case expr => cases List.mem_singleton.1 h
      all_goals cases h
  case patProperty use p =>
    cases use with
    | assignment => cases hn
    | binding =>
      cases p
      case shorthand =>
        cases List.mem_singleton.1 h
        exact ⟨rfl, rfl⟩
      all_goals cases h
  all_goals cases h

/-- The patterns in a pattern that declares names declare names. -/
theorem isBinding_of_mem_children {c n : Node} (hn : n.isBinding) (hc : c ∈ n.children)
    (hpattern : c.isPattern) : c.isBinding := by
  cases n
  case pat use p =>
    cases use with
    | assignment => cases hn
    | binding =>
      cases p <;> simp [children, Pat.children] at hc <;> grind [isBinding, isPattern]
  case patProperty use p =>
    cases use with
    | assignment => cases hn
    | binding =>
      cases p <;> simp [children, PatProperty.children] at hc <;> grind [isBinding, isPattern]
  all_goals cases hn

/-- What is declared at a leaf of a pattern that declares names is referred to there. -/
theorem exists_reference_of_leaf {n : Node} (hn : n.isBinding) {outer : Place} {path : List Nat}
    {site site' : BindSite} {id : Ident} {a : Address}
    (h : .declares site' id a ∈ n.leaves site path) :
    ∃ r ∈ n.visitedReferences outer path, r.address = a ∧ r.id = id ∧ r.role.isValue = false := by
  induction n using induct generalizing outer path with
  | step n ih =>
    have hpattern : n.isPattern := by cases n <;> first | rfl | cases hn
    rw [leaves_eq hpattern] at h
    rcases List.mem_append.1 h with h | h
    · obtain ⟨rfl, hname⟩ := name_of_ownLeaves hn h
      refine ⟨⟨id, ⟨path, 0⟩, .leaf .binding, n.holder outer path⟩, ?_, rfl, rfl, rfl⟩
      exact mem_visitedReferences.2 (.inl (mem_ownReferences.2 ⟨0, hname, rfl, rfl⟩))
    · obtain ⟨⟨c, i⟩, hc, h⟩ := List.mem_flatMap.1 h
      have hmem := List.fst_mem_of_mem_zipIdx hc
      by_cases hpattern' : c.isPattern
      · obtain ⟨r, hr, hfacts⟩ := ih c hmem (isBinding_of_mem_children hn hmem hpattern') h
        exact ⟨r, mem_visitedReferences.2 (.inr ⟨c, i, List.mk_mem_zipIdx_iff_getElem?.1 hc, hr⟩),
          hfacts⟩
      · rw [leaves_eq_nil (Bool.not_eq_true _ ▸ hpattern')] at h
        cases h

/-- What a node declares by a child stands at a leaf of the child, which is a pattern that declares
names. -/
theorem exists_site_of_mem_leavesBy {n c : Node} {path : List Nat} {v : Visit}
    (h : v ∈ n.leavesBy path c) : c.isBinding ∧ ∃ site, v ∈ c.leaves site path := by
  unfold leavesBy at h
  split at h
  · obtain ⟨site, -, h⟩ := List.mem_flatMap.1 h
    exact ⟨rfl, site, h⟩
  · cases h

/-- What is declared in a node is also referred to in it, and not as a variable. -/
theorem exists_reference (n : Node) {outer : Place} {path : List Nat} {site : BindSite} {id : Ident}
    {a : Address} (h : .declares site id a ∈ n.visits outer path) :
    ∃ r ∈ n.visitedReferences outer path, r.address = a ∧ r.id = id ∧ r.role.isValue = false := by
  induction n using induct generalizing outer path with
  | step n ih =>
    rw [visits_eq, ownVisits, List.append_assoc, List.append_assoc] at h
    rcases List.mem_append.1 h with h | h
    · obtain ⟨loc, -, h⟩ := List.mem_map.1 h
      cases h
    rcases List.mem_append.1 h with h | h
    · obtain ⟨id', hid, h⟩ := List.mem_map.1 h
      obtain ⟨-, rfl, rfl⟩ := Visit.declares.inj h
      obtain ⟨c, hc, hname⟩ := exists_child_of_hoisted (Option.mem_toList.1 hid)
      refine ⟨⟨id', ⟨path ++ [0], 0⟩, .ownName, c.holder (n.holder outer path) (path ++ [0])⟩, ?_, rfl,
        rfl, rfl⟩
      exact mem_visitedReferences.2 (.inr ⟨c, 0, hc,
        mem_visitedReferences.2 (.inl (mem_ownReferences.2 ⟨0, hname, rfl, rfl⟩))⟩)
    rcases List.mem_append.1 h with h | h
    · obtain ⟨⟨⟨id', role⟩, slot⟩, hname, h⟩ := List.mem_flatMap.1 h
      rcases List.mem_append.1 h with h | h
      · obtain ⟨site', hsite, h⟩ := List.mem_map.1 h
        obtain ⟨-, rfl, rfl⟩ := Visit.declares.inj h
        have hvalue := isValue_of_nameSite? (Option.mem_toList.1 hsite)
          (List.fst_mem_of_mem_zipIdx hname)
        refine ⟨⟨id', ⟨path, slot⟩, role, n.holder outer path⟩, ?_, rfl, rfl, hvalue⟩
        exact mem_visitedReferences.2 (.inl (mem_ownReferences.2
          ⟨slot, List.mk_mem_zipIdx_iff_getElem?.1 hname, rfl, rfl⟩))
      · cases List.mem_singleton.1 h
    · obtain ⟨⟨c, i⟩, hc, h⟩ := List.mem_flatMap.1 h
      have hchild := List.mk_mem_zipIdx_iff_getElem?.1 hc
      have hinner : ∃ r ∈ c.visitedReferences (n.holder outer path) (path ++ [i]),
          r.address = a ∧ r.id = id ∧ r.role.isValue = false := by
        rcases List.mem_append.1 h with h | h
        · obtain ⟨hbinding, site', h⟩ := exists_site_of_mem_leavesBy h
          exact exists_reference_of_leaf hbinding h
        · exact ih c (List.fst_mem_of_mem_zipIdx hc) h
      obtain ⟨r, hr, hfacts⟩ := hinner
      exact ⟨r, mem_visitedReferences.2 (.inr ⟨c, i, hchild, hr⟩), hfacts⟩

end Node

/-! ## Programs -/

namespace Program

/-- The node at the end of a path. -/
def node? (p : Program) : List Nat → Option Node
  | [] => none
  | i :: path => p.body[i]?.bind fun s => (Node.stmt s).at? path

theorem references_eq (p : Program) : p.references = p.body.zipIdx.flatMap
    fun s => (Node.stmt s.1).visitedReferences ⟨[s.2], .stmt s.1⟩ [s.2] := by
  rw [references, visits, List.filterMap_flatMap]
  rfl

theorem mem_references {p : Program} {r : Reference} : r ∈ p.references ↔
    ∃ s i, p.body[i]? = some s ∧ r ∈ (Node.stmt s).visitedReferences ⟨[i], .stmt s⟩ [i] := by
  simp only [references_eq, List.mem_flatMap, Prod.exists, List.mk_mem_zipIdx_iff_getElem?]

/-- A reference names an identifier of the program, and the node that holds it. -/
theorem found {p : Program} {r : Reference} (hr : r ∈ p.references) :
    p.node? r.holder.path = some r.holder.node ∧
      ∃ n, p.node? r.address.path = some n ∧ n.names[r.address.slot]? = some (r.id, r.role) := by
  obtain ⟨s, i, hs, hr⟩ := mem_references.1 hr
  have hfind (rest : List Nat) : p.node? ([i] ++ rest) = (Node.stmt s).at? rest := by
    simp [node?, hs]
  exact Node.found _ hfind (hfind []) hr

theorem nodup_addresses (p : Program) : (p.references.map Reference.address).Nodup := by
  rw [references_eq, List.map_flatMap]
  refine Node.nodup_flatMap_zipIdx [] (fun s hs a ha => ?_)
    fun s hs => Node.nodup_addresses _ _ _
  obtain ⟨r, hr, rfl⟩ := List.mem_map.1 ha
  exact Node.prefix_address _ hr

/-- What is declared is also referred to, and not as a variable. -/
theorem exists_reference {p : Program} {site : BindSite} {id : Ident} {a : Address}
    (h : .declares site id a ∈ p.visits) :
    ∃ r ∈ p.references, r.address = a ∧ r.id = id ∧ r.role.isValue = false := by
  obtain ⟨⟨s, i⟩, hs, h⟩ := List.mem_flatMap.1 h
  obtain ⟨r, hr, hfacts⟩ := Node.exists_reference _ h
  exact ⟨r, mem_references.2 ⟨s, i, List.mk_mem_zipIdx_iff_getElem?.1 hs, hr⟩, hfacts⟩

end Program

end WithScope
