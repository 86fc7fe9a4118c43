import Mathlib.Data.List.Forall2
import WithScope.Proofs.Scope.LocalNames
import WithScope.Proofs.Scope.Targets
import WithScope.Wrapper.Basic

/-!
# What the table of bindings says

The scopes of a program are opened in the order in which the nodes that own them stand in its tree
(`Node.forall₂_opened`). So the table of bindings is one of nodes: it has the names of a node under
the number of the node.

* `Program.mem_bindings` — what the walk over a program records;
* `BindingTable.Sound` — what recording a name keeps of a table;
* `Program.bindingTable_names` — the names under each number are those that the node holds, no scope
  without names has an entry, and no name that is declared is missing.
-/

namespace WithScope

/-- A run that has a result succeeds. -/
theorem eq_ok_of_toOption {ε α : Type} {x : Except ε α} {a : α} (h : x.toOption = some a) :
    x = .ok a := by
  cases x with
  | error e => cases h
  | ok b => exact congrArg Except.ok (Option.some.inj h)

/-! ## Nodes in the order of the text -/

namespace Node

/-- A node and all nodes inside of it, each before the ones inside of it. -/
def nodes (n : Node) : List Node := n :: n.children.attach.flatMap fun c => nodes c.1
termination_by n.size
decreasing_by exact size_lt_of_mem_children c.2

/-- The nodes of a tree are its root and then those of its children. -/
theorem nodes_eq (n : Node) : n.nodes = n :: n.children.flatMap nodes := by
  rw [nodes, List.flatMap_subtype (g := nodes) fun _ _ => rfl, List.unattach_attach]

/-- A node is one of its own nodes. -/
theorem mem_nodes_self (n : Node) : n ∈ n.nodes := by
  rw [nodes_eq]
  exact List.mem_cons_self ..

/-- The nodes of a child are nodes of the parent. -/
theorem mem_nodes_of_mem_children {c m n : Node} (hc : c ∈ n.children) (hm : m ∈ c.nodes) :
    m ∈ n.nodes := by
  rw [nodes_eq]
  exact List.mem_cons_of_mem _ (List.mem_flatMap.2 ⟨c, hc, hm⟩)

/-- Whether a node owns a scope. -/
def isScope (n : Node) : Bool := n.scope?.isSome

/-- No node owns the scope of the program. -/
theorem scope?_ne_program (n : Node) : n.scope? ≠ some .program := by
  rcases n with e | t | m | k | p | f | c | m | v | ⟨use, p⟩ | ⟨use, p⟩ | b | d | d | cs | c | c |
    ⟨ofOther, s⟩ | d | s
  case expr => cases e <;> nofun
  case member => cases m <;> nofun
  case stmt => cases s <;> nofun
  all_goals nofun

/-- A node is the one that a scope and its items come from. -/
def Owns (n : Node) (s : ScopeKind × List Outline) : Prop :=
  n.scope? = some s.1 ∧ ∃ outer, n.Holds outer s.2

/-- A scope has the names that are declared in the node that owns it. -/
theorem Owns.mem_names {n : Node} {s : ScopeKind × List Outline} (h : n.Owns s) {name : String} :
    name ∈ (Scope.of s.1 s.2).names ↔ name ∈ n.localNames := by
  obtain ⟨hkind, outer, hholds⟩ := h
  rw [Scope.mem_names_of, mem_localNames hkind]
  constructor
  · rintro ⟨d, hd, htakes, rfl⟩
    exact ⟨d.site, htakes, hholds.mem_escapingFrom.1 hd⟩
  · rintro ⟨site, htakes, hname⟩
    exact ⟨⟨name, site⟩, hholds.mem_escapingFrom.2 hname, htakes, rfl⟩

/-- Lists that correspond part by part correspond as a whole. -/
theorem forall₂_flatMap {α β γ : Type} {R : β → γ → Prop} {f : α → List β} {g : α → List γ}
    {as : List α} (h : ∀ a ∈ as, List.Forall₂ R (f a) (g a)) :
    List.Forall₂ R (as.flatMap f) (as.flatMap g) := by
  induction as with
  | nil => exact .nil
  | cons a as ih =>
    obtain ⟨ha, has⟩ := List.forall_mem_cons.1 h
    exact List.rel_append ha (ih has)

/-- Lists that correspond do so at each index. -/
theorem rel_getElem? {α β : Type} {R : α → β → Prop} {as : List α} {bs : List β}
    (h : List.Forall₂ R as bs) (i : Nat) : Option.Rel R as[i]? bs[i]? := by
  induction h generalizing i with
  | nil => exact .none
  | cons hab _ ih =>
    cases i with
    | zero => exact .some hab
    | succ i => exact ih i

/-- The scopes of the outline of a node come from the nodes in it that own scopes, in this order. -/
theorem forall₂_opened {n : Node} {outer : Parent} :
    List.Forall₂ Owns (n.nodes.filter isScope) (openedIn (n.outline outer)) := by
  induction n using induct generalizing outer with
  | step n ih =>
    obtain ⟨items, h⟩ := n.exists_holds outer
    have hitems : List.Forall₂ Owns ((n.children.flatMap nodes).filter isScope) (openedIn items) := by
      rw [h.opened, outlines, openedIn_flatMap, List.filter_flatMap]
      exact forall₂_flatMap fun c hc => ih c hc
    rw [nodes_eq, h.outline_eq, enclose]
    cases hk : n.scope? with
    | none => rwa [List.filter_cons_of_neg (by simp [isScope, hk])]
    | some kind =>
      rw [List.filter_cons_of_pos (by simp [isScope, hk]), openedIn, Outline.opened, openedIn,
        List.append_nil]
      exact .cons ⟨hk, outer, h⟩ hitems

/-! ## Imports -/

/-- Imports come out of all nodes. -/
theorem offered_root (n : Node) : n.offered .root = n.nodes.flatMap (declared .root) := by
  induction n using induct with
  | step n ih =>
    have hkeeps : n.keeps .root = false := by
      rw [keeps]
      cases hk : n.scope? with
      | none => rfl
      | some kind =>
        refine decide_eq_false fun hprogram => ?_
        exact n.scope?_ne_program (hk.trans (congrArg some hprogram))
    rw [offered_of_not_keeps hkeeps, reached, nodes_eq, List.flatMap_cons, List.flatMap_assoc]
    exact congrArg _ (List.flatMap_congr fun c hc => ih c hc)

/-! ## Declarations -/

/-- A name that is declared in a node comes out of the node or stops at one of the nodes in it. -/
theorem offered_or_reached {n m : Node} (hm : m ∈ n.nodes) {site : BindSite} {name : String}
    (hname : name ∈ m.declared site) :
    name ∈ n.offered site ∨ ∃ k ∈ n.nodes, k.keeps site ∧ name ∈ k.reached site := by
  induction n using induct with
  | step n ih =>
    -- what comes to the node stops there or comes out of it
    have hreached (hname : name ∈ n.reached site) :
        name ∈ n.offered site ∨ ∃ k ∈ n.nodes, k.keeps site ∧ name ∈ k.reached site := by
      cases hkeeps : n.keeps site with
      | true => exact .inr ⟨n, n.mem_nodes_self, hkeeps, hname⟩
      | false => exact .inl (offered_of_not_keeps hkeeps ▸ hname)
    rw [nodes_eq, List.mem_cons, List.mem_flatMap] at hm
    rcases hm with rfl | ⟨c, hc, hm⟩
    · exact hreached (List.mem_append_left _ hname)
    · rcases ih c hc hm with hoffered | ⟨k, hk, hkeeps⟩
      · exact hreached (List.mem_append_right _ (List.mem_flatMap.2 ⟨c, hc, hoffered⟩))
      · exact .inr ⟨k, mem_nodes_of_mem_children hc hk, hkeeps⟩

end Node

namespace Program

/-- All nodes of a program, each before the ones inside of it. -/
def nodes (p : Program) : List Node := p.body.flatMap fun s => (Node.stmt s).nodes

/-- The nodes of a program that own scopes, in the order of its text. -/
def scopeNodes (p : Program) : List Node := p.nodes.filter Node.isScope

/-- The names that the scope of a program holds: its variables, functions and classes, what `let`
and `const` declare outside of blocks, and what is imported anywhere. -/
def localNames (p : Program) : List String :=
  p.reached .hoisted ++ p.reached .lexical ++ p.nodes.flatMap (Node.declared .root)

/-- What reaches the root is what the nodes declare there. -/
theorem reached_root (p : Program) : p.reached .root = p.nodes.flatMap (Node.declared .root) := by
  rw [reached, nodes, List.flatMap_assoc]
  exact congrArg (List.flatMap · p.body) (funext fun s => Node.offered_root _)

/-- A name is local to a program if it reaches one of its sites. -/
theorem mem_localNames {p : Program} {name : String} :
    name ∈ p.localNames ↔ ∃ site, name ∈ p.reached site := by
  rw [localNames, ← reached_root, Node.exists_site, p.reached_current]
  simp

/-- The scopes that are opened are those of the nodes that own one, in the same order. -/
theorem forall₂_opened (p : Program) :
    List.Forall₂ Node.Owns p.scopeNodes (openedIn (statementsOutline p.body)) := by
  rw [Node.statementsOutline_eq .module, Node.outlines, List.flatMap_map, openedIn_flatMap,
    scopeNodes, nodes, List.filter_flatMap]
  exact Node.forall₂_flatMap fun s _ => Node.forall₂_opened

/-- Each scope has its owner, at the same number. -/
theorem exists_owner {p : Program} {i : Nat} {s : ScopeKind × List Outline}
    (h : (openedIn (statementsOutline p.body))[i]? = some s) :
    ∃ n, p.scopeNodes[i]? = some n ∧ n.Owns s := by
  have hrel := Node.rel_getElem? p.forall₂_opened i
  rw [h] at hrel
  generalize p.scopeNodes[i]? = n? at hrel
  cases hrel with
  | some howns => exact ⟨_, rfl, howns⟩

/-- Each node that owns a scope has it at the same number. -/
theorem exists_owned {p : Program} {i : Nat} {n : Node} (h : p.scopeNodes[i]? = some n) :
    ∃ s, (openedIn (statementsOutline p.body))[i]? = some s ∧ n.Owns s := by
  have hrel := Node.rel_getElem? p.forall₂_opened i
  rw [h] at hrel
  generalize (openedIn (statementsOutline p.body))[i]? = s? at hrel
  cases hrel with
  | some howns => exact ⟨_, rfl, howns⟩

/-- A scope of a program with a name that it holds: the program itself, or a node under its number,
counted from 1. -/
def Holds (p : Program) (b : Binding) : Prop :=
  b.scope = ⟨.program, 0⟩ ∧ b.name ∈ p.localNames ∨
  ∃ i n kind, p.scopeNodes[i]? = some n ∧ n.scope? = some kind ∧ b.scope = ⟨kind, i + 1⟩ ∧
    b.name ∈ n.localNames

/-- The walk over a program records the names that its scopes hold, and nothing else. -/
theorem mem_bindings {p : Program} {b : Binding} :
    b ∈ (p.outline.events [] 0).filterMap Event.binding? ↔ p.Holds b := by
  -- the scopes inside of a program are those of nodes, none of which is a program
  have hinner : ∀ s ∈ openedIn (statementsOutline p.body), s.1 ≠ .program := by
    intro s hs hprogram
    obtain ⟨i, hi⟩ := List.mem_iff_getElem?.1 hs
    obtain ⟨n, -, howns, -⟩ := exists_owner hi
    exact n.scope?_ne_program (howns.trans (congrArg some hprogram))
  show b ∈ (outlineEvents [⟨.program, 0⟩] 1 (statementsOutline p.body)).filterMap Event.binding? ↔
    p.Holds b
  rw [mem_bindingsIn (by simp) _ hinner, Records, Holds]
  refine or_congr ?_ ?_
  · have htarget (site : BindSite) : site.target? [⟨.program, 0⟩] = some ⟨.program, 0⟩ :=
      BindSite.target?_program site rfl
    simp only [htarget, mem_escapingFrom_body, mem_localNames, Option.some.injEq]
    constructor
    · rintro ⟨d, hd, hscope, hname⟩
      exact ⟨hscope.symm, d.site, hname ▸ hd⟩
    · rintro ⟨hscope, site, hname⟩
      exact ⟨⟨b.name, site⟩, hname, hscope.symm, rfl⟩
  · constructor
    · rintro ⟨⟨s, index⟩, hs, hscope, hname⟩
      obtain ⟨hle, hi⟩ := List.mk_mem_zipIdx_iff_le_and_getElem?_sub.1 hs
      obtain ⟨n, hn, howns⟩ := exists_owner hi
      refine ⟨index - 1, n, s.1, hn, howns.1, ?_, howns.mem_names.1 hname⟩
      rw [hscope, Nat.sub_add_cancel hle]
    · rintro ⟨i, n, kind, hn, hkind, hscope, hname⟩
      obtain ⟨s, hs, howns⟩ := exists_owned hn
      obtain rfl := Option.some.inj (hkind.symm.trans howns.1)
      refine ⟨(s, 1 + i), List.mk_add_mem_zipIdx_iff_getElem?.2 hs, ?_, howns.mem_names.2 hname⟩
      rw [hscope, Nat.add_comm]

end Program

/-! ## Tables -/

namespace BindingTable

/-- A table in which each scope has one entry at most, and each entry holds some names, in ascending
order. -/
structure Sound (table : BindingTable) : Prop where
  /-- no scope has two entries -/
  nodup : table.scopes.Nodup
  /-- no entry is empty -/
  nonempty : ∀ e ∈ table, e.2 ≠ []
  /-- the names of each entry ascend -/
  ascending : ∀ e ∈ table, e.2.Pairwise (· < ·)

variable {table : BindingTable}

/-- The empty table is sound. -/
theorem Sound.nil : Sound [] :=
  ⟨List.nodup_nil, List.forall_mem_nil _, List.forall_mem_nil _⟩

/-- A scope has an entry once a name of it has been put in. -/
theorem mem_scopes_insert {b : Binding} {scope : ScopeKey} :
    scope ∈ (table.insert b).scopes ↔ scope = b.scope ∨ scope ∈ table.scopes := by
  induction table with
  | nil => simp [insert, scopes]
  | cons e table ih =>
    rw [insert]
    split
    · next heq => simp [scopes, heq]
    · simp only [scopes, List.map_cons, List.mem_cons] at ih ⊢
      rw [ih]
      exact or_left_comm

/-- Putting in a binding keeps a table sound. -/
theorem Sound.insert (h : table.Sound) (b : Binding) : (table.insert b).Sound := by
  induction table with
  | nil =>
    exact ⟨List.pairwise_singleton _ _, by simp [BindingTable.insert], by simp [BindingTable.insert]⟩
  | cons e table ih =>
    obtain ⟨hnodup, hnonempty, hascending⟩ := h
    obtain ⟨hfresh, hnodup⟩ := List.nodup_cons.1 hnodup
    obtain ⟨he, hnonempty⟩ := List.forall_mem_cons.1 hnonempty
    obtain ⟨hnames, hascending⟩ := List.forall_mem_cons.1 hascending
    have hrest := ih ⟨hnodup, hnonempty, hascending⟩
    rw [BindingTable.insert]
    split
    · refine ⟨List.nodup_cons.2 ⟨hfresh, hnodup⟩, List.forall_mem_cons.2 ⟨?_, hnonempty⟩,
        List.forall_mem_cons.2 ⟨pairwise_insertName hnames, hascending⟩⟩
      exact List.ne_nil_of_mem (mem_insertName.2 (.inl rfl))
    · next hne =>
      refine ⟨List.nodup_cons.2 ⟨fun hmem => ?_, hrest.nodup⟩,
        List.forall_mem_cons.2 ⟨he, hrest.nonempty⟩,
        List.forall_mem_cons.2 ⟨hnames, hrest.ascending⟩⟩
      exact (mem_scopes_insert.1 hmem).elim hne hfresh

/-- The names of a scope are those of its entry. -/
theorem names_cons (e : ScopeKey × List String) (table : BindingTable) (scope : ScopeKey) :
    names (e :: table) scope = if scope = e.1 then e.2 else names table scope := by
  unfold names
  rw [List.lookup_cons]
  by_cases h : scope = e.1
  · simp [h]
  · rw [if_neg h, beq_false_of_ne h]

/-- A name that is recorded is among the names of its scope, and the other names stay. -/
theorem mem_names_insert {b : Binding} {scope : ScopeKey} {name : String} :
    name ∈ (table.insert b).names scope ↔
      scope = b.scope ∧ name = b.name ∨ name ∈ table.names scope := by
  induction table with
  | nil =>
    rw [insert, names_cons]
    by_cases h : scope = b.scope <;> simp [names, h]
  | cons e table ih =>
    rw [insert]
    split
    · next hfirst =>
      rw [names_cons, names_cons]
      by_cases h : scope = e.1
      · simp [h, hfirst, mem_insertName]
      · simp [h, hfirst ▸ h]
    · next hfirst =>
      rw [names_cons, names_cons]
      by_cases h : scope = e.1
      · simp [h, hfirst]
      · simpa [h] using ih

/-- After a walk a table has the names that it had before and those that have been recorded. -/
theorem mem_names_foldl {bs : List Binding} {scope : ScopeKey} {name : String} :
    name ∈ (bs.foldl (fun table b => table.insert b) table).names scope ↔
      name ∈ table.names scope ∨ ⟨scope, name⟩ ∈ bs := by
  induction bs generalizing table with
  | nil => simp
  | cons b bs ih =>
    have hb : scope = b.scope ∧ name = b.name ↔ ⟨scope, name⟩ = b := by
      rw [← Binding.mk.injEq]
    rw [List.foldl_cons, ih, mem_names_insert, List.mem_cons, hb, or_assoc]
    exact or_left_comm

/-- Putting in bindings one after the other keeps a table sound. -/
theorem Sound.foldl (h : table.Sound) (bs : List Binding) :
    (bs.foldl (fun table b => table.insert b) table).Sound := by
  induction bs generalizing table with
  | nil => exact h
  | cons b bs ih => exact ih (h.insert b)

/-- A scope has an entry iff it has names. -/
theorem mem_scopes (h : ∀ e ∈ table, e.2 ≠ []) {scope : ScopeKey} :
    scope ∈ table.scopes ↔ table.names scope ≠ [] := by
  induction table with
  | nil => simp [scopes, names]
  | cons e table ih =>
    obtain ⟨he, htable⟩ := List.forall_mem_cons.1 h
    have hscopes : scope ∈ scopes (e :: table) ↔ scope = e.1 ∨ scope ∈ scopes table := by
      rw [scopes, List.map_cons, List.mem_cons, scopes]
    rw [hscopes, ih htable, names_cons]
    by_cases heq : scope = e.1 <;> simp [heq, he]

/-- The names of a scope ascend. -/
theorem pairwise_names (h : ∀ e ∈ table, e.2.Pairwise (· < ·)) (scope : ScopeKey) :
    (table.names scope).Pairwise (· < ·) := by
  induction table with
  | nil => exact .nil
  | cons e table ih =>
    obtain ⟨he, htable⟩ := List.forall_mem_cons.1 h
    rw [names_cons]
    split
    · exact he
    · exact ih htable

end BindingTable

/-! ## The table of a program -/

namespace Program

variable {p : Program} {table : BindingTable}

/-- The table of a program is sound. -/
theorem sound_bindingTable (h : p.bindingTable = .ok table) : table.Sound := by
  unfold bindingTable events checkedOutline at h
  split at h
  · cases h
  · cases h
    exact .foldl .nil _

/-- The names in the table are the bindings that the program holds. -/
theorem mem_bindingTable (h : p.bindingTable = .ok table) {scope : ScopeKey} {name : String} :
    name ∈ table.names scope ↔ p.Holds ⟨scope, name⟩ := by
  unfold bindingTable events checkedOutline at h
  split at h
  · cases h
  · cases h
    rw [BindingTable.mem_names_foldl, mem_bindings]
    simp [BindingTable.names]

/-- The names in the table under a scope are those that the scope holds. -/
theorem names_bindingTable (h : p.bindingTable = .ok table) {scope : ScopeKey} {xs : List String}
    (hxs : ∀ name, p.Holds ⟨scope, name⟩ ↔ name ∈ xs) : table.names scope = ascending xs :=
  eq_ascending (BindingTable.pairwise_names (sound_bindingTable h).ascending _) fun name =>
    (mem_bindingTable h).trans (hxs name)

/-- The first scope holds the names that are local to the program. -/
theorem holds_program {name : String} : p.Holds ⟨⟨.program, 0⟩, name⟩ ↔ name ∈ p.localNames := by
  simp [Holds]

/-- Any other scope holds the names that are local to its owner. -/
theorem holds_node {i : Nat} {n : Node} {kind : ScopeKind} (hn : p.scopeNodes[i]? = some n)
    (hkind : n.scope? = some kind) {name : String} :
    p.Holds ⟨⟨kind, i + 1⟩, name⟩ ↔ name ∈ n.localNames := by
  constructor
  · rintro (⟨hscope, -⟩ | ⟨j, m, kind', hm, -, hscope, hname⟩)
    · cases hscope
    · cases hscope
      cases hn.symm.trans hm
      exact hname
  · exact fun hname => .inr ⟨i, n, kind, hn, hkind, rfl, hname⟩

/-- Some scope holds each name that is declared. -/
theorem exists_holds {n : Node} (hn : n ∈ p.nodes) {site : BindSite} {name : String}
    (hname : name ∈ n.declared site) : ∃ scope, p.Holds ⟨scope, name⟩ := by
  obtain ⟨s, hs, hn⟩ := List.mem_flatMap.1 hn
  rcases Node.offered_or_reached hn hname with hoffered | ⟨k, hk, hkeeps, hreached⟩
  -- no node keeps the name, so it comes out to the program
  · refine ⟨_, holds_program.2 (mem_localNames.2 ⟨site, ?_⟩)⟩
    exact List.mem_flatMap.2 ⟨s, hs, hoffered⟩
  · cases hkind : k.scope? with
    | none =>
      rw [Node.keeps, hkind] at hkeeps
      cases hkeeps
    | some kind =>
      rw [Node.keeps, hkind] at hkeeps
      have hscope : k ∈ p.scopeNodes :=
        List.mem_filter.2 ⟨List.mem_flatMap.2 ⟨s, hs, hk⟩, by simp [Node.isScope, hkind]⟩
      obtain ⟨i, hi⟩ := List.mem_iff_getElem?.1 hscope
      exact ⟨_, (holds_node hi hkind).2 ((Node.mem_localNames hkind).2 ⟨site, hkeeps, hreached⟩)⟩

/-- **Bindings.** In the table of a program the program has its own names, and each node that owns a
scope has the names that it holds, under the number of the node. Nothing else has an entry, and no
entry is empty; and whatever is declared anywhere in the program is in one of the entries. -/
theorem bindingTable_names (h : p.bindingTable = .ok table) :
    table.names ⟨.program, 0⟩ = ascending p.localNames ∧
    (∀ i n kind, p.scopeNodes[i]? = some n → n.scope? = some kind →
      table.names ⟨kind, i + 1⟩ = ascending n.localNames) ∧
    (∀ scope ∈ table.scopes, table.names scope ≠ [] ∧ (scope = ⟨.program, 0⟩ ∨
      ∃ i n kind, p.scopeNodes[i]? = some n ∧ n.scope? = some kind ∧ scope = ⟨kind, i + 1⟩)) ∧
    table.scopes.Nodup ∧
    ∀ n ∈ p.nodes, ∀ site, ∀ name ∈ n.declared site, ∃ scope ∈ table.scopes,
      name ∈ table.names scope := by
  have hsound := sound_bindingTable h
  refine ⟨names_bindingTable h fun name => holds_program, fun i n kind hn hkind =>
    names_bindingTable h fun name => holds_node hn hkind, fun scope hscope => ?_, hsound.nodup,
    fun n hn site name hname => ?_⟩
  · have hne := (BindingTable.mem_scopes hsound.nonempty).1 hscope
    obtain ⟨name, hname⟩ := List.exists_mem_of_ne_nil _ hne
    refine ⟨hne, ?_⟩
    rcases (mem_bindingTable h).1 hname with ⟨hscope, -⟩ | ⟨i, n, kind, hn, hkind, hscope, -⟩
    · exact .inl hscope
    · exact .inr ⟨i, n, kind, hn, hkind, hscope⟩
  · obtain ⟨scope, hholds⟩ := exists_holds hn hname
    have hmem := (mem_bindingTable h).2 hholds
    exact ⟨scope, (BindingTable.mem_scopes hsound.nonempty).2 (List.ne_nil_of_mem hmem), hmem⟩

/-- A function with a variable in a block, a class, a handler and a loop. -/
theorem bindingTable_names_nested :
    ∃ p table, parse fragmentOptions ("function f(a, {b: [c]}) { { let x; var y } }" ++
        " class K {} try {} catch (e) {} for (let i;;);").toList = .ok p ∧
      p.bindingTable = .ok table ∧
      table = [(⟨.program, 0⟩, ["K", "f"]), (⟨.function, 1⟩, ["a", "c", "f", "y"]),
        (⟨.block, 3⟩, ["x"]), (⟨.class, 4⟩, ["K"]), (⟨.catch, 6⟩, ["e"]), (⟨.loop, 8⟩, ["i"])] ∧
      table.names ⟨.program, 0⟩ = ascending p.localNames := by
  let source := ("function f(a, {b: [c]}) { { let x; var y } }" ++
    " class K {} try {} catch (e) {} for (let i;;);").toList
  have hread : ((parse fragmentOptions source).toOption.bind fun p => p.bindingTable.toOption) =
      some [(⟨.program, 0⟩, ["K", "f"]), (⟨.function, 1⟩, ["a", "c", "f", "y"]),
        (⟨.block, 3⟩, ["x"]), (⟨.class, 4⟩, ["K"]), (⟨.catch, 6⟩, ["e"]), (⟨.loop, 8⟩, ["i"])] := by
    decide +kernel
  obtain ⟨p, hp, ht⟩ := Option.bind_eq_some_iff.1 hread
  replace ht := eq_ok_of_toOption ht
  exact ⟨p, _, eq_ok_of_toOption hp, ht, rfl, (bindingTable_names ht).1⟩

end Program

end WithScope
