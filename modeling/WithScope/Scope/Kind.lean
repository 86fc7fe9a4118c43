/-!
# Scopes and where declarations bind

A `ScopeKind` is a construct that names can belong to. A `BindSite` says which of the scopes around
a declaration its name belongs to: `BindSite.resolve` looks it up among the scopes that are open,
`ScopeKind.takes` says whether a scope of some kind is one that a name may stop at. A walk over a
program tells scopes of one kind apart by their `ScopeKey`.
-/

namespace WithScope

/-- The constructs that names can belong to. -/
inductive ScopeKind
  /-- the whole program -/
  | program
  /-- a function or method, with its parameters -/
  | function
  /-- an arrow function, with its parameters -/
  | arrow
  /-- the value of a class field, or a static block -/
  | classInit
  /-- a class, which holds its own name -/
  | «class»
  /-- statements in braces, the body of a function included -/
  | block
  /-- a `catch` clause, which holds its parameter -/
  | catch
  /-- a `for` loop, which holds what its head declares -/
  | loop
  /-- the clauses of a `switch` -/
  | switch
deriving DecidableEq, Repr

/-- Where a declared name binds. -/
inductive BindSite
  /-- at the nearest function, as `var`, functions and classes do -/
  | hoisted
  /-- at the nearest block, as `let` and `const` do -/
  | lexical
  /-- at the innermost scope, which is the declaring construct itself -/
  | current
  /-- at the program, as imports do -/
  | root
deriving DecidableEq, Repr

namespace ScopeKind

/-- Whether hoisted names stop at a scope. -/
def isFunctionLike : ScopeKind → Bool
  | .program | .function | .arrow | .classInit => true
  | _ => false

/-- Whether the names of `let` and `const` stop at a scope. -/
def isBlockScope : ScopeKind → Bool
  | .block | .loop | .switch => true
  | kind => kind.isFunctionLike

/-- Whether a scope gives `this` and `arguments` a meaning of its own. Arrow functions leave them
to the function around. -/
def bindsThis : ScopeKind → Bool
  | .function | .classInit => true
  | _ => false

/-- Whether a name that binds at `site` stops at a scope, once it has come out as far as that. -/
def takes (kind : ScopeKind) : BindSite → Bool
  | .hoisted => kind.isFunctionLike
  | .lexical => kind.isBlockScope
  | .current => true
  | .root => kind = .program

end ScopeKind

/-- The place of the last element of a list that satisfies `p`. -/
def lastIndex? (p : ScopeKind → Bool) : List ScopeKind → Option Nat
  | [] => none
  | k :: ks =>
    match lastIndex? p ks with
    | some i => some (i + 1)
    | none => if p k then some 0 else none

/-- Which of the open scopes, listed from the outermost on, a name that binds at `site` belongs
to. -/
def BindSite.resolve (scopes : List ScopeKind) : BindSite → Option Nat
  | .hoisted => lastIndex? ScopeKind.isFunctionLike scopes
  | .lexical => lastIndex? ScopeKind.isBlockScope scopes
  | .current => lastIndex? (fun _ => true) scopes
  | .root => if scopes.isEmpty then none else some 0

/-- What tells the scopes of a program apart: a program may hold the same construct more than once, so
they are known by the order in which a walk opens them. -/
structure ScopeKey where
  /-- the construct that the names belong to -/
  kind : ScopeKind
  /-- how many scopes are opened before it -/
  index : Nat
deriving DecidableEq, Repr

/-- Which of the open scopes, listed from the outermost on, a name that binds at `site` belongs
to. -/
def BindSite.target? (site : BindSite) (scopes : List ScopeKey) : Option ScopeKey :=
  (site.resolve (scopes.map ScopeKey.kind)).bind fun i => scopes[i]?

end WithScope
