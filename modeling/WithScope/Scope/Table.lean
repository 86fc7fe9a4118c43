import WithScope.Scope.Walk
import WithScope.Text.Ascending

/-!
# The table of bindings

`Program.bindingTable` records for each scope of a program which names it binds. It is filled on one
walk over the program: a declaration is recorded for the open scope that its site is resolved to.
-/

namespace WithScope

/-- A name and the scope that it belongs to. -/
structure Binding where
  /-- the scope -/
  scope : ScopeKey
  /-- the name -/
  name : String
deriving DecidableEq, Repr

/-- What an event binds, if it is a declaration: the walk always has the program's scope open, so
there is a scope that the name belongs to. -/
def Event.binding? (e : Event) : Option Binding :=
  match e.occurrence with
  | .declaration site id => (site.target? e.scopes).map fun scope => ⟨scope, id.name⟩
  | _ => none

/-! ## The table -/

/-- Scopes with the names that they bind. -/
abbrev BindingTable := List (ScopeKey × List String)

namespace BindingTable

/-- Records a name for a scope, which may have no entry so far. -/
def insert (b : Binding) : BindingTable → BindingTable
  | [] => [(b.scope, [b.name])]
  | (scope, names) :: table =>
    if scope = b.scope then (scope, insertName b.name names) :: table
    else (scope, names) :: insert b table

/-- The names that a scope binds, in ascending order. -/
def names (table : BindingTable) (scope : ScopeKey) : List String :=
  (table.lookup scope).getD []

/-- The scopes that have an entry. -/
def scopes (table : BindingTable) : List ScopeKey := table.map Prod.fst

end BindingTable

/-- The names that each scope of a program binds. -/
def Program.bindingTable (p : Program) : Except MisplacedTarget BindingTable :=
  (fun events => (events.filterMap Event.binding?).foldl (fun table b => table.insert b) [])
    <$> p.events

end WithScope
