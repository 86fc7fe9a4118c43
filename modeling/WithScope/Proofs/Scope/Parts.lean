import WithScope.Scope.Free

/-!
# Outlines part by part

A walk over a program carries the open scopes along and looks names up in a table. What it finds can be
said of an outline by itself. Of an outline, only its free references, the declarations that escape
from it, the targets that it misplaces and the scopes that are opened in it matter to the scopes
around: a scope takes some of the declarations that escape from what it holds, and binds their names.
-/

namespace WithScope

/-! ## Declarations that escape -/

/-- A declared name and where it binds. -/
structure Declared where
  /-- the name -/
  name : String
  /-- where it binds -/
  site : BindSite
deriving DecidableEq, Repr

mutual

/-- The declarations in an outline that no scope inside of it takes. -/
def Outline.escaping : Outline → List Declared
  | .occurrence (.declaration site id) => [⟨id.name, site⟩]
  | .occurrence _ => []
  | .scope kind items => (escapingFrom items).filter fun d => !kind.takes d.site

/-- The declarations in outlines that no scope inside of them takes. -/
def escapingFrom : List Outline → List Declared
  | [] => []
  | o :: items => o.escaping ++ escapingFrom items

end

/-- A scope with the names that it binds. -/
structure Scope where
  /-- the construct that the names belong to -/
  kind : ScopeKind
  /-- the names, in ascending order -/
  names : List String
deriving DecidableEq, Repr

/-- The scope of a kind that holds the given items. -/
def Scope.of (kind : ScopeKind) (items : List Outline) : Scope :=
  ⟨kind, ascending (((escapingFrom items).filter fun d => kind.takes d.site).map Declared.name)⟩

/-! ## References that are free -/

/-- Whether a scope binds a name; functions have `arguments` besides what they declare. -/
def Scope.binds (s : Scope) (name : String) : Bool :=
  name = "arguments" && s.kind.bindsThis || s.names.contains name

/-- The reference that an occurrence makes to something that no open scope binds. -/
def Occurrence.free? (scopes : List Scope) : Occurrence → Option FreeReference
  | .reference id role _ =>
    if role.isValue && id.name ≠ "undefined" && !scopes.any (·.binds id.name) then
      some (.ident id)
    else none
  | .this loc => if scopes.any (·.kind.bindsThis) then none else some (.this loc)
  | _ => none

mutual

/-- The free references of an outline inside of the given scopes. -/
def Outline.free (scopes : List Scope) : Outline → List FreeReference
  | .occurrence o => (o.free? scopes).toList
  | .scope kind items => freeIn (.of kind items :: scopes) items

/-- The free references of outlines inside of the given scopes. -/
def freeIn (scopes : List Scope) : List Outline → List FreeReference
  | [] => []
  | o :: items => o.free scopes ++ freeIn scopes items

end

/-! ## Scopes and misplaced targets -/

mutual

/-- The scopes that are opened in an outline with what they hold, each before the ones inside of
it. -/
def Outline.opened : Outline → List (ScopeKind × List Outline)
  | .occurrence _ => []
  | .scope kind items => (kind, items) :: openedIn items

/-- The scopes that are opened in outlines with what they hold. -/
def openedIn : List Outline → List (ScopeKind × List Outline)
  | [] => []
  | o :: items => o.opened ++ openedIn items

end

/-- The target of an occurrence that should declare a name and does not, as a list. -/
def Occurrence.misplacedTargets : Occurrence → List Expr
  | .misplaced target => [target]
  | _ => []

mutual

/-- The targets in an outline that bind no name where one should be declared. -/
def Outline.misplacedTargets : Outline → List Expr
  | .occurrence o => o.misplacedTargets
  | .scope _ items => misplacedIn items

/-- The targets in outlines that bind no name where one should be declared. -/
def misplacedIn : List Outline → List Expr
  | [] => []
  | o :: items => o.misplacedTargets ++ misplacedIn items

end

/-! ## Outlines in a row -/

@[simp] theorem openedIn_append (xs ys : List Outline) :
    openedIn (xs ++ ys) = openedIn xs ++ openedIn ys := by
  induction xs with
  | nil => rfl
  | cons x xs ih => rw [List.cons_append, openedIn, openedIn, ih, List.append_assoc]

theorem openedIn_flatMap {α : Type} (f : α → List Outline) (xs : List α) :
    openedIn (xs.flatMap f) = xs.flatMap fun x => openedIn (f x) := by
  induction xs with
  | nil => rfl
  | cons x xs ih => rw [List.flatMap_cons, openedIn_append, ih, List.flatMap_cons]

@[simp] theorem freeIn_append (scopes : List Scope) (xs ys : List Outline) :
    freeIn scopes (xs ++ ys) = freeIn scopes xs ++ freeIn scopes ys := by
  induction xs with
  | nil => rfl
  | cons x xs ih => rw [List.cons_append, freeIn, freeIn, ih, List.append_assoc]

@[simp] theorem escapingFrom_append (xs ys : List Outline) :
    escapingFrom (xs ++ ys) = escapingFrom xs ++ escapingFrom ys := by
  induction xs with
  | nil => rfl
  | cons x xs ih => rw [List.cons_append, escapingFrom, escapingFrom, ih, List.append_assoc]

@[simp] theorem misplacedIn_append (xs ys : List Outline) :
    misplacedIn (xs ++ ys) = misplacedIn xs ++ misplacedIn ys := by
  induction xs with
  | nil => rfl
  | cons x xs ih => rw [List.cons_append, misplacedIn, misplacedIn, ih, List.append_assoc]

theorem misplacedIn_flatMap {α : Type} (f : α → List Outline) (xs : List α) :
    misplacedIn (xs.flatMap f) = xs.flatMap fun x => misplacedIn (f x) := by
  induction xs with
  | nil => rfl
  | cons x xs ih => rw [List.flatMap_cons, misplacedIn_append, ih, List.flatMap_cons]

theorem freeIn_flatMap {α : Type} (scopes : List Scope) (f : α → List Outline) (xs : List α) :
    freeIn scopes (xs.flatMap f) = xs.flatMap fun x => freeIn scopes (f x) := by
  induction xs with
  | nil => rfl
  | cons x xs ih => rw [List.flatMap_cons, freeIn_append, ih, List.flatMap_cons]

theorem escapingFrom_flatMap {α : Type} (f : α → List Outline) (xs : List α) :
    escapingFrom (xs.flatMap f) = xs.flatMap fun x => escapingFrom (f x) := by
  induction xs with
  | nil => rfl
  | cons x xs ih => rw [List.flatMap_cons, escapingFrom_append, ih, List.flatMap_cons]

end WithScope
