import WithScope.Number.Double
import WithScope.Text.Position

/-!
# The leaves of the tree

Names, literals, and the parts of module declarations, none of which holds an expression.
-/

namespace WithScope

/-- A name: a variable, a label or a property. -/
structure Ident where
  /-- where it stands -/
  loc : Span
  /-- the name, escapes decoded -/
  name : String
deriving DecidableEq, Repr

/-- A private name of a class element. -/
structure PrivateName where
  /-- where it stands, the `#` included -/
  loc : Span
  /-- the name without the `#` -/
  name : String
deriving DecidableEq, Repr

/-- A string literal. -/
structure StringLit where
  /-- where it stands, the quotes included -/
  loc : Span
  /-- the text, escapes decoded -/
  value : String
deriving DecidableEq, Repr

/-- A numeral. -/
structure NumberLit where
  /-- where it stands -/
  loc : Span
  /-- its value -/
  value : Double
  /-- its spelling -/
  raw : String
deriving DecidableEq, Repr

/-- A stretch of text in a template. -/
structure Quasi where
  /-- where it stands, with the delimiters on both sides -/
  loc : Span
  /-- the text as it is written -/
  raw : String
  /-- the text with escapes decoded, if all of them are legal -/
  cooked : Option String
  /-- whether it ends the template -/
  tail : Bool
deriving DecidableEq, Repr

/-- The keyword of a variable declaration. -/
inductive VarKind
  | var | let | const
deriving DecidableEq, Repr

/-- Whether names declared with the keyword belong to the nearest block. -/
def VarKind.isLexical : VarKind → Bool
  | .var => false
  | .let | .const => true

/-- The sorts of methods. -/
inductive MethodKind
  | constructor | method | get | set
deriving DecidableEq, Repr

/-- What a text is read as. -/
inductive SourceType
  | script | module
deriving DecidableEq, Repr

/-- A name that a module exports or imports. -/
inductive ModuleName
  | ident (id : Ident)
  | string (lit : StringLit)
deriving DecidableEq, Repr

/-- One name bound by an import. -/
inductive ImportSpecifier
  /-- either `imported as localName`, or the one name that is both -/
  | named (loc : Span) (imported : ModuleName) (localName : Ident)
  /-- a name before the braces -/
  | default (loc : Span) (localName : Ident)
  /-- the whole module, `* as localName` -/
  | namespace (loc : Span) (localName : Ident)
deriving DecidableEq, Repr

/-- The name that the importing module uses. -/
def ImportSpecifier.localName : ImportSpecifier → Ident
  | .named _ _ id | .default _ id | .namespace _ id => id

/-- One name of an export list. -/
structure ExportSpecifier where
  /-- where it stands -/
  loc : Span
  /-- the name in the exporting module, or in the module that is exported from -/
  localName : ModuleName
  /-- the name that importers use -/
  exported : ModuleName
deriving DecidableEq, Repr

/-- One entry of a `with` clause on an import or export. -/
structure ImportAttribute where
  /-- where it stands -/
  loc : Span
  /-- its key -/
  key : ModuleName
  /-- its value -/
  value : StringLit
deriving DecidableEq, Repr

end WithScope
