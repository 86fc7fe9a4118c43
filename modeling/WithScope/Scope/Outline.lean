import WithScope.Scope.Kind
import WithScope.Syntax.Tree

/-!
# Outlines

For the question what a name refers to, all that matters of a program is which scopes stand inside
of each other, and what they hold in which order: names declared, names written down, and `this`.
That is the program's `Outline`. `Outline.events` lists what it holds, each with the scopes that
are open there.
-/

namespace WithScope

/-- What the leaves of a pattern do. -/
inductive PatUse
  /-- they declare names -/
  | binding
  /-- they are assigned to -/
  | assignment
deriving DecidableEq, Repr

/-- What directly holds an identifier. -/
inductive Parent
  | stmt (s : Stmt)
  | expr (e : Expr)
  | declarator
  | function
  | arrow
  | «class»
  | classMember
  | property
  | spread
  | pat (p : Pat) (use : PatUse)
  | patProperty (use : PatUse)
  | catch
  | switchCase
  | module

/-- What an identifier does where it stands. -/
inductive Role
  /-- it is an expression -/
  | operand
  /-- it is both the key and the value of a property -/
  | shorthand
  /-- it is a leaf of a pattern -/
  | leaf (use : PatUse)
  /-- it is the key of a property or of a class element -/
  | key
  /-- it stands after the point of a member access -/
  | memberName
  /-- it is a part of `new.target` or `import.meta` -/
  | metaName
  /-- it is a label -/
  | label
  /-- it names the function or class that holds it -/
  | ownName
  /-- it is the local name of an import -/
  | importLocal
  /-- it is the local name of an export, of the same module or of another -/
  | exportLocal (ofOther : Bool)
deriving DecidableEq, Repr

/-- Whether an identifier reads or writes a variable, rather than name a property, a label or
something that is declared. -/
def Role.isValue : Role → Bool
  | .operand | .shorthand | .leaf .assignment | .exportLocal false => true
  | _ => false

/-- What a scope can hold besides other scopes. -/
inductive Occurrence
  /-- a name is declared -/
  | declaration (site : BindSite) (id : Ident)
  /-- an identifier is written down -/
  | reference (id : Ident) (role : Role) (parent : Parent)
  /-- the word `this` is written down -/
  | this (loc : Span)
  /-- a target that binds no name stands where a name should be declared -/
  | misplaced (target : Expr)

/-- What a program declares and refers to, in the order of its text, by scope. -/
inductive Outline
  | occurrence (o : Occurrence)
  | scope (kind : ScopeKind) (items : List Outline)

/-- An occurrence with the scopes that are open there, from the outermost on. -/
structure Event where
  /-- the open scopes -/
  scopes : List ScopeKey
  /-- what occurs -/
  occurrence : Occurrence

mutual

/-- How many scopes are opened in an outline. -/
def Outline.scopeCount : Outline → Nat
  | .occurrence _ => 0
  | .scope _ items => scopeCountIn items + 1

/-- How many scopes are opened in outlines. -/
def scopeCountIn : List Outline → Nat
  | [] => 0
  | o :: items => o.scopeCount + scopeCountIn items

end

mutual

/-- What an outline holds where `scopes` are open and `opened` scopes have been opened so far. -/
def Outline.events (scopes : List ScopeKey) (opened : Nat) : Outline → List Event
  | .occurrence o => [⟨scopes, o⟩]
  | .scope kind items => outlineEvents (scopes ++ [⟨kind, opened⟩]) (opened + 1) items

/-- What outlines hold where `scopes` are open and `opened` scopes have been opened so far. -/
def outlineEvents (scopes : List ScopeKey) (opened : Nat) : List Outline → List Event
  | [] => []
  | o :: items => o.events scopes opened ++ outlineEvents scopes (opened + o.scopeCount) items

end

end WithScope
