import WithScope.Proofs.Scope.Table

/-!
# Looking names up in the table

The free variables of a program are found on two walks that have nothing but the table of bindings in
common: the first one fills it, and the second one looks every reference up in it, for each of the
scopes that are open. The scopes have the same numbers on both walks, so what the table says of an open
scope is what the scope binds (`Program.names_opened`), although most of the names may be declared
after the reference or deeper inside.

* `Outline.filterMap_free?_events` — on the second walk an outline has its free references;
* `Program.freeVariables_eq` — so the free variables of a program are those of its outline.
-/

namespace WithScope

/-! ## The names under a number -/

namespace Program

variable {p : Program} {table : BindingTable}

/-- The program binds what comes out of its statements. -/
theorem mem_names_program {name : String} :
    name ∈ (Scope.of .program (statementsOutline p.body)).names ↔ name ∈ p.localNames := by
  rw [Scope.mem_names_of, mem_localNames]
  constructor
  · rintro ⟨d, hd, -, rfl⟩
    exact ⟨d.site, mem_escapingFrom_body.1 hd⟩
  · rintro ⟨site, hname⟩
    exact ⟨⟨name, site⟩, mem_escapingFrom_body.2 hname, by cases site <;> rfl, rfl⟩

/-- The names in the table under a number are those of the scope that has the number. -/
theorem names_opened (h : p.bindingTable = .ok table) {i : Nat} {s : ScopeKind × List Outline}
    (hs : p.outline.opened[i]? = some s) :
    table.names ⟨s.1, i⟩ = (Scope.of s.1 s.2).names := by
  refine names_bindingTable h fun name => Iff.trans ?_ mem_ascending
  cases i with
  | zero =>
    obtain rfl := Option.some.inj hs
    exact holds_program.trans mem_names_program.symm
  | succ i =>
    obtain ⟨n, hn, howns⟩ := exists_owner hs
    exact (holds_node hn howns.1).trans howns.mem_names.symm

end Program

/-! ## The second walk -/

/-- A scope with the names that are recorded for it. -/
def BindingTable.scope (table : BindingTable) (key : ScopeKey) : Scope := ⟨key.kind, table.names key⟩

/-- A reference is looked up in the scopes that are open, with the names recorded for them. -/
theorem BindingTable.free?_eq (table : BindingTable) (scopes : List ScopeKey) (o : Occurrence) :
    table.free? ⟨scopes, o⟩ = o.free? (scopes.map table.scope).reverse := by
  cases o with
  | declaration | misplaced => rfl
  | this loc => simp [free?, Occurrence.free?, Function.comp_def, scope]
  | reference id role parent =>
    have hbound : table.isBound scopes id.name =
        (scopes.map table.scope).reverse.any (·.binds id.name) := by
      rw [List.any_reverse, List.any_map]
      rfl
    simp only [free?, Occurrence.free?, hbound]
    cases (scopes.map table.scope).reverse.any (·.binds id.name) <;> cases role.isValue <;>
      by_cases hname : id.name = "undefined" <;> simp [hname]

/-- Whether a table has the names of the scopes that are opened in outlines, if the first of them has
the number `opened`. -/
def BindingTable.Lists (table : BindingTable) (opened : Nat)
    (scopes : List (ScopeKind × List Outline)) : Prop :=
  ∀ i s, scopes[i]? = some s → table.names ⟨s.1, opened + i⟩ = (Scope.of s.1 s.2).names

namespace BindingTable.Lists

variable {table : BindingTable} {opened : Nat} {s : ScopeKind × List Outline}
  {scopes scopes' : List (ScopeKind × List Outline)}

theorem head (h : table.Lists opened (s :: scopes)) :
    table.scope ⟨s.1, opened⟩ = Scope.of s.1 s.2 :=
  congrArg (Scope.mk s.1) (h 0 s rfl)

theorem tail (h : table.Lists opened (s :: scopes)) : table.Lists (opened + 1) scopes := by
  intro i t ht
  rw [Nat.add_assoc, Nat.add_comm 1]
  exact h (i + 1) t ht

theorem left (h : table.Lists opened (scopes ++ scopes')) : table.Lists opened scopes := by
  intro i t ht
  obtain ⟨hlt, -⟩ := List.getElem?_eq_some_iff.1 ht
  exact h i t (by rw [List.getElem?_append_left hlt, ht])

theorem right (h : table.Lists opened (scopes ++ scopes')) :
    table.Lists (opened + scopes.length) scopes' := by
  intro i t ht
  rw [Nat.add_assoc]
  exact h (scopes.length + i) t (by rw [List.getElem?_append_right (by omega)]; simpa using ht)

end BindingTable.Lists

mutual

theorem Outline.filterMap_free?_events {table : BindingTable} (scopes : List ScopeKey) {opened : Nat}
    (o : Outline) (h : table.Lists opened o.opened) :
    (o.events scopes opened).filterMap table.free? = o.free (scopes.map table.scope).reverse := by
  cases o with
  | occurrence o =>
    rw [Outline.events, Outline.free, List.filterMap_cons, table.free?_eq]
    cases o.free? (scopes.map table.scope).reverse <;> rfl
  | scope kind items =>
    rw [Outline.events, Outline.free, filterMap_free?_outlineEvents _ items h.tail, List.map_append,
      List.reverse_append, List.map_singleton, h.head]
    rfl

/-- On a walk with the names of all scopes in the table, what is free in outlines is found free. -/
theorem filterMap_free?_outlineEvents {table : BindingTable} (scopes : List ScopeKey) {opened : Nat}
    (items : List Outline) (h : table.Lists opened (openedIn items)) :
    (outlineEvents scopes opened items).filterMap table.free? =
      freeIn (scopes.map table.scope).reverse items := by
  match items with
  | [] => rfl
  | o :: items =>
    have hright : table.Lists (opened + o.scopeCount) (openedIn items) :=
      o.length_opened ▸ h.right
    rw [outlineEvents, freeIn, List.filterMap_append, o.filterMap_free?_events scopes h.left,
      filterMap_free?_outlineEvents scopes items hright]

end

namespace Program

/-- The table of a program has the names of all scopes in it. -/
theorem lists_bindingTable {p : Program} {table : BindingTable} (h : p.bindingTable = .ok table) :
    table.Lists 0 p.outline.opened := by
  intro i s hs
  rw [Nat.zero_add]
  exact names_opened h hs

/-- What the second walk over a program finds is what is free in its outline. -/
theorem freeVariables_eq (p : Program) :
    p.freeVariables = (fun o => groupByName (o.free [])) <$> p.checkedOutline := by
  have hoption : p.checkedOutline = .ok p.outline ∨ ∃ e, p.checkedOutline = .error e := by
    unfold checkedOutline
    split
    · exact .inr ⟨_, rfl⟩
    · exact .inl rfl
  rcases hoption with hok | ⟨e, herror⟩
  · have hevents : p.events = .ok (p.outline.events [] 0) := by
      rw [events, hok]
      rfl
    have htable : p.bindingTable = .ok (((p.outline.events [] 0).filterMap Event.binding?).foldl
        (fun table b => table.insert b) []) := by
      rw [bindingTable, hevents]
      rfl
    have hfree := p.outline.filterMap_free?_events [] (lists_bindingTable htable)
    rw [freeVariables, htable, hevents, hok]
    exact congrArg (fun found => Except.ok (groupByName found)) hfree
  · rw [freeVariables, bindingTable, events, herror]
    rfl

end Program

end WithScope
