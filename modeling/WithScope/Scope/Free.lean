import WithScope.Scope.Table

/-!
# Free variables

A variable is free in a program that refers to it and does not bind it. Once the table of bindings is
filled, a second walk looks every reference up in it: a reference is free if none of the open scopes
binds its name. `this` is free where no function around gives it a meaning, and counts as a variable
of that name; `undefined` is not a variable.
-/

namespace WithScope

/-- A place in a program that refers to a free variable. -/
inductive FreeReference
  /-- an identifier -/
  | ident (id : Ident)
  /-- the word `this` -/
  | this (loc : Span)
deriving DecidableEq, Repr

/-- The name under which `this` is listed. -/
def thisName : String := "this"

/-- The name of the variable that is referred to. -/
def FreeReference.name : FreeReference → String
  | .ident id => id.name
  | .this _ => thisName

/-- Where the reference stands. -/
def FreeReference.loc : FreeReference → Span
  | .ident id => id.loc
  | .this loc => loc

namespace BindingTable

/-- Whether a scope binds a name that is recorded for it. -/
def binds (table : BindingTable) (scope : ScopeKey) (name : String) : Bool :=
  (table.names scope).contains name

/-- Whether one of the open scopes binds a name; functions have `arguments` besides what is recorded
for them. -/
def isBound (table : BindingTable) (scopes : List ScopeKey) (name : String) : Bool :=
  scopes.any fun scope => name = "arguments" && scope.kind.bindsThis || table.binds scope name

/-- The reference that an event makes to something that no open scope binds. -/
def free? (table : BindingTable) (e : Event) : Option FreeReference :=
  match e.occurrence with
  | .reference id role _ =>
    if id.name = "undefined" || !role.isValue then none
    else if table.isBound e.scopes id.name then none
    else some (.ident id)
  | .this loc => if e.scopes.any (·.kind.bindsThis) then none else some (.this loc)
  | _ => none

end BindingTable

/-- A free variable with all references to it. -/
structure FreeVariable where
  /-- its name -/
  name : String
  /-- the references, in the order of the text -/
  references : List FreeReference
deriving DecidableEq, Repr

/-- References by the variable they refer to, in ascending order of the names. -/
def groupByName (references : List FreeReference) : List FreeVariable :=
  (ascending (references.map FreeReference.name)).map fun name =>
    ⟨name, references.filter (·.name = name)⟩

/-- The free variables of a program, in ascending order of their names. -/
def Program.freeVariables (p : Program) : Except MisplacedTarget (List FreeVariable) := do
  let table ← p.bindingTable
  let events ← p.events
  return groupByName (events.filterMap table.free?)

end WithScope
