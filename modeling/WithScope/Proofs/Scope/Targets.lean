import WithScope.Proofs.Scope.Contents
import WithScope.Scope.Table

/-!
# Which scope a declaration is recorded for

A declaration is recorded for the open scope that its site is resolved to on the stack of open
scopes. One scope more on the stack changes this only for the declarations that the scope takes
(`BindSite.target?_concat`). So what a walk records falls into what the scopes on its way take, of
the declarations that come to them, and what is left of the declarations for the scopes that have
been open before (`mem_bindingsIn`): this is kept by each step of the walk, with any stack.
-/

namespace WithScope

/-! ## The stack of open scopes -/

theorem lastIndex?_concat (p : ScopeKind → Bool) (kinds : List ScopeKind) (kind : ScopeKind) :
    lastIndex? p (kinds ++ [kind]) = if p kind then some kinds.length else lastIndex? p kinds := by
  induction kinds with
  | nil => rfl
  | cons k kinds ih =>
    rw [List.cons_append, lastIndex?, ih, lastIndex?]
    cases hp : p kind <;> rfl

theorem lastIndex?_lt {p : ScopeKind → Bool} {kinds : List ScopeKind} {i : Nat}
    (h : lastIndex? p kinds = some i) : i < kinds.length := by
  induction kinds generalizing i with
  | nil => cases h
  | cons k kinds ih =>
    rw [lastIndex?] at h
    cases hlast : lastIndex? p kinds with
    | some j =>
      rw [hlast] at h
      cases h
      exact Nat.succ_lt_succ (ih hlast)
    | none =>
      rw [hlast] at h
      obtain ⟨-, ⟨⟩⟩ := Option.ite_none_right_eq_some.1 h
      exact Nat.succ_pos _

namespace BindSite

/-- One scope more is resolved to if it takes names of the site. -/
theorem resolve_concat {kinds : List ScopeKind} (hopen : kinds ≠ []) {kind : ScopeKind}
    (hkind : kind ≠ .program) (site : BindSite) :
    site.resolve (kinds ++ [kind]) =
      if kind.takes site then some kinds.length else site.resolve kinds := by
  cases site with
  | hoisted | lexical | current => exact lastIndex?_concat _ kinds kind
  | root => simp [resolve, ScopeKind.takes, hopen, hkind]

theorem resolve_lt {site : BindSite} {kinds : List ScopeKind} {i : Nat}
    (h : site.resolve kinds = some i) : i < kinds.length := by
  cases site with
  | hoisted | lexical | current => exact lastIndex?_lt h
  | root =>
    cases kinds with
    | nil => cases h
    | cons k kinds =>
      cases h
      exact Nat.succ_pos _

/-- A declaration belongs to the innermost open scope if this takes names of its site, and else to
the scope that it belongs to without it. -/
theorem target?_concat {scopes : List ScopeKey} (hopen : scopes ≠ []) {scope : ScopeKey}
    (hkind : scope.kind ≠ .program) (site : BindSite) :
    site.target? (scopes ++ [scope]) =
      if scope.kind.takes site then some scope else site.target? scopes := by
  have hopen : scopes.map ScopeKey.kind ≠ [] := fun h => hopen (List.map_eq_nil_iff.1 h)
  rw [target?, List.map_append, List.map_singleton, resolve_concat hopen hkind]
  split
  · simp
  · rw [target?]
    cases hi : site.resolve (scopes.map ScopeKey.kind) with
    | none => rfl
    | some i =>
      have hlt : i < scopes.length := by simpa using resolve_lt hi
      exact List.getElem?_append_left hlt

/-- With the program alone open, all declarations belong to it. -/
theorem target?_program (site : BindSite) {scope : ScopeKey} (hkind : scope.kind = .program) :
    site.target? [scope] = some scope := by
  cases site <;> simp [target?, resolve, lastIndex?, hkind, ScopeKind.isFunctionLike,
    ScopeKind.isBlockScope]

end BindSite

/-! ## Walks -/

theorem Scope.mem_names_of {kind : ScopeKind} {items : List Outline} {name : String} :
    name ∈ (Scope.of kind items).names ↔
      ∃ d ∈ escapingFrom items, kind.takes d.site ∧ d.name = name := by
  simp [Scope.of, mem_ascending, and_assoc]

/-- What a walk has to record: for the scopes that are open where it begins, the declarations that
come out to them, and for each scope that it opens, the names that the scope takes. -/
def Records (scopes : List ScopeKey) (opened : Nat) (items : List Outline) (b : Binding) : Prop :=
  (∃ d ∈ escapingFrom items, d.site.target? scopes = some b.scope ∧ d.name = b.name) ∨
  ∃ s ∈ (openedIn items).zipIdx opened,
    b.scope = ⟨s.1.1, s.2⟩ ∧ b.name ∈ (Scope.of s.1.1 s.1.2).names

/-- A scope with what it holds is recorded like what it holds, with the scope open. -/
theorem records_scope {scopes : List ScopeKey} (hopen : scopes ≠ []) {kind : ScopeKind}
    (hkind : kind ≠ .program) {opened : Nat} {items : List Outline} {b : Binding} :
    Records (scopes ++ [⟨kind, opened⟩]) (opened + 1) items b ↔
      Records scopes opened [.scope kind items] b := by
  have hzip : (openedIn [.scope kind items]).zipIdx opened =
      ((kind, items), opened) :: (openedIn items).zipIdx (opened + 1) := by
    simp [openedIn, Outline.opened]
  simp only [Records, hzip, List.mem_cons, or_and_right, exists_or, exists_eq_left]
  rw [← or_assoc]
  refine or_congr_left ?_
  -- a declaration stays in the new scope if it takes it, and else goes where it went before
  have htarget (site : BindSite) : site.target? (scopes ++ [⟨kind, opened⟩]) =
      if kind.takes site then some ⟨kind, opened⟩ else site.target? scopes :=
    BindSite.target?_concat hopen hkind site
  simp only [htarget, escapingFrom, Outline.escaping, List.append_nil, List.mem_filter,
    Scope.mem_names_of]
  constructor
  · rintro ⟨d, hd, htarget, hname⟩
    split at htarget
    · next htakes => exact .inr ⟨(Option.some.inj htarget).symm, d, hd, htakes, hname⟩
    · next htakes => exact .inl ⟨d, ⟨hd, by simpa using htakes⟩, htarget, hname⟩
  · rintro (⟨d, ⟨hd, htakes⟩, htarget, hname⟩ | ⟨hscope, d, hd, htakes, hname⟩)
    · exact ⟨d, hd, by simpa [by simpa using htakes] using htarget, hname⟩
    · exact ⟨d, hd, by rw [if_pos htakes, hscope], hname⟩

mutual

theorem Outline.length_opened (o : Outline) : o.opened.length = o.scopeCount := by
  cases o with
  | occurrence => rfl
  | scope kind items => exact congrArg (· + 1) (length_openedIn items)

theorem length_openedIn (items : List Outline) : (openedIn items).length = scopeCountIn items := by
  match items with
  | [] => rfl
  | o :: items =>
    rw [openedIn, List.length_append, o.length_opened, length_openedIn items, scopeCountIn]

end

/-- Outlines in a row are recorded one after the other. -/
theorem records_cons {scopes : List ScopeKey} {opened : Nat} {o : Outline} {items : List Outline}
    {b : Binding} :
    Records scopes opened (o :: items) b ↔
      Records scopes opened [o] b ∨ Records scopes (opened + o.scopeCount) items b := by
  simp only [Records, escapingFrom, openedIn, List.append_nil, List.zipIdx_append,
    List.mem_append, o.length_opened, or_and_right, exists_or]
  exact or_or_or_comm

mutual

theorem Outline.mem_bindings {scopes : List ScopeKey} (hopen : scopes ≠ []) {opened : Nat}
    (o : Outline) (hinner : ∀ s ∈ o.opened, s.1 ≠ .program) {b : Binding} :
    b ∈ (o.events scopes opened).filterMap Event.binding? ↔ Records scopes opened [o] b := by
  cases o with
  | occurrence o =>
    cases o with
    | declaration site id =>
      have hb : b ∈ ((Outline.occurrence (.declaration site id)).events scopes opened).filterMap
          Event.binding? ↔ ∃ scope, site.target? scopes = some scope ∧ ⟨scope, id.name⟩ = b := by
        simp [Outline.events, Event.binding?]
      rw [hb]
      simp only [Records, escapingFrom, Outline.escaping, openedIn, Outline.opened,
        List.append_nil, List.mem_singleton, exists_eq_left, List.zipIdx_nil, List.not_mem_nil,
        false_and, exists_false, or_false]
      constructor
      · rintro ⟨scope, htarget, rfl⟩
        exact ⟨htarget, rfl⟩
      · rintro ⟨htarget, hname⟩
        exact ⟨b.scope, htarget, by rw [hname]⟩
    | reference | this | misplaced =>
      simp [Outline.events, Event.binding?, Records, escapingFrom, Outline.escaping, openedIn,
        Outline.opened]
  | scope kind items =>
    obtain ⟨hkind, hitems⟩ := List.forall_mem_cons.1 hinner
    rw [Outline.events, mem_bindingsIn (by simp) items hitems]
    exact records_scope hopen hkind

/-- A walk records what it has to record, and nothing else. -/
theorem mem_bindingsIn {scopes : List ScopeKey} (hopen : scopes ≠ []) {opened : Nat}
    (items : List Outline) (hinner : ∀ s ∈ openedIn items, s.1 ≠ .program) {b : Binding} :
    b ∈ (outlineEvents scopes opened items).filterMap Event.binding? ↔
      Records scopes opened items b := by
  match items with
  | [] => simp [outlineEvents, Records, escapingFrom, openedIn]
  | o :: items =>
    obtain ⟨ho, hitems⟩ := List.forall_mem_append.1 hinner
    rw [outlineEvents, List.filterMap_append, List.mem_append, o.mem_bindings hopen ho,
      mem_bindingsIn hopen items hitems, ← records_cons]

end

end WithScope
