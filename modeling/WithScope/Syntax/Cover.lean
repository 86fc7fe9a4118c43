import WithScope.SyntaxError
import WithScope.Syntax.Location

/-!
# Expressions read again as patterns

What stands to the left of `=` or of `=>` is known to be a pattern only once that token has been
seen. Until then it is read as an expression, and `Expr.toPattern` turns it into the pattern that
it spells. In a pattern that declares names (`declares`) there are no member accesses and no
parentheses.

An object literal cannot hold `{ a = 1 }`, but an object pattern can. The literal keeps it as the
property `a: a = 1`, and the two names stand at the same place, which no other property has.
-/

namespace WithScope

mutual

/-- Whether a pattern has a target that binds no name. -/
def Pat.hasMember : Pat → Bool
  | .ident _ => false
  | .expr _ => true
  | .array _ elements => elementsHaveMember elements
  | .object _ properties => propertiesHaveMember properties
  | .rest _ argument => argument.hasMember
  | .assign _ left _ => left.hasMember

/-- Whether a property of an object pattern has a target that binds no name. -/
def PatProperty.hasMember : PatProperty → Bool
  | .keyValue _ _ value => value.hasMember
  | .shorthand .. => false
  | .rest _ argument => argument.hasMember

/-- Whether one of the elements of an array pattern has a target that binds no name. -/
def elementsHaveMember : List (Option Pat) → Bool
  | [] => false
  | none :: elements => elementsHaveMember elements
  | some p :: elements => p.hasMember || elementsHaveMember elements

/-- Whether one of the properties of an object pattern has a target that binds no name. -/
def propertiesHaveMember : List PatProperty → Bool
  | [] => false
  | p :: properties => p.hasMember || propertiesHaveMember properties

end

mutual

/-- Where a pattern first binds `name`. -/
def Pat.find? (name : String) : Pat → Option Position
  | .ident id => if id.name = name then some id.loc.start else none
  | .expr _ => none
  | .array _ elements => findElement? name elements
  | .object _ properties => findProperty? name properties
  | .rest _ argument => argument.find? name
  | .assign _ left _ => left.find? name

/-- Where a property of an object pattern first binds `name`. -/
def PatProperty.find? (name : String) : PatProperty → Option Position
  | .keyValue _ _ value => value.find? name
  | .shorthand _ id _ => if id.name = name then some id.loc.start else none
  | .rest _ argument => argument.find? name

/-- Where the elements of an array pattern first bind `name`. -/
def findElement? (name : String) : List (Option Pat) → Option Position
  | [] => none
  | none :: elements => findElement? name elements
  | some p :: elements => (p.find? name).or (findElement? name elements)

/-- Where the properties of an object pattern first bind `name`. -/
def findProperty? (name : String) : List PatProperty → Option Position
  | [] => none
  | p :: properties => (p.find? name).or (findProperty? name properties)

end

/-- The default value in a property kept as `a: a = 1`, if `key: value` is one. -/
def coverDefault? (key : Ident) : Expr → Option Expr
  | .assign _ _ (.ident id) right => if id.loc = key.loc then some right else none
  | _ => none

mutual

/-- The pattern that an expression spells. -/
def Expr.toPattern (declares : Bool) : Expr → Except SyntaxError Pat
  | .ident id => .ok (.ident id)
  | .array loc elements => .array loc <$> toPatternElements declares elements
  | .object loc properties => .object loc <$> toPatternProperties declares properties
  | .assign loc .assign left right =>
    if declares && left.hasMember then .error ⟨.invalidDestructuringTarget, loc.start⟩
    else .ok (.assign loc left right)
  | e =>
    if declares then .error ⟨.invalidDestructuringTarget, e.loc.start⟩
    else
      match e with
      | .member _ _ _ false => .ok (.expr e)
      | .paren loc inner =>
        match inner with
        | .ident _ | .member .. | .paren .. => inner.toPattern false
        | _ => .error ⟨.parenthesizedPattern, loc.start⟩
      | _ => .error ⟨.invalidAssignmentTarget, e.loc.start⟩

/-- The elements of the array pattern that an array literal spells. -/
def toPatternElements (declares : Bool) :
    List (Option Expr) → Except SyntaxError (List (Option Pat))
  | [] => .ok []
  | none :: elements => do
    let rest ← toPatternElements declares elements
    return none :: rest
  | some (.spread loc argument) :: elements => do
    if !elements.isEmpty then throw ⟨.restNotLast, loc.start⟩
    let argument ← argument.toPattern declares
    return [some (.rest loc argument)]
  | some e :: elements => do
    let p ← e.toPattern declares
    let rest ← toPatternElements declares elements
    return some p :: rest

/-- The properties of the object pattern that an object literal spells. -/
def toPatternProperties (declares : Bool) : List Property → Except SyntaxError (List PatProperty)
  | [] => .ok []
  | .spread loc argument :: properties => do
    if !properties.isEmpty then throw ⟨.restNotLast, loc.start⟩
    let argument ← argument.toPattern declares
    return [.rest loc argument]
  | p :: properties => do
    let p ← p.toPattern declares
    let rest ← toPatternProperties declares properties
    return p :: rest

/-- The property of an object pattern that a property of an object literal spells. -/
def Property.toPattern (declares : Bool) : Property → Except SyntaxError PatProperty
  | .shorthand loc (.ident id) => .ok (.shorthand loc id none)
  | .value loc (.ident key) value =>
    match coverDefault? key value with
    | some right => .ok (.shorthand loc key (some right))
    | none => .keyValue loc (.ident key) <$> value.toPattern declares
  | .value loc key value => .keyValue loc key <$> value.toPattern declares
  | .shorthand loc _ | .method loc _ _ _ => .error ⟨.invalidDestructuringTarget, loc.start⟩
  | .spread loc argument => .rest loc <$> argument.toPattern declares

end

/-- The parameters that the items of a parenthesized list spell. -/
def toParams : List Expr → Except SyntaxError (List Pat)
  | [] => .ok []
  | .spread loc argument :: items => do
    if !items.isEmpty then throw ⟨.restParameterNotLast, loc.start⟩
    let argument ← argument.toPattern true
    return [.rest loc argument]
  | e :: items => do
    let p ← e.toPattern true
    let rest ← toParams items
    return p :: rest

/-- The target of an assignment whose left side is no array or object pattern: a name or a member
access, in parentheses or not. -/
def Expr.toSimpleTarget (e : Expr) : Except SyntaxError Pat :=
  if e.unparenthesized.isSimpleTarget then e.toPattern false
  else .error ⟨.invalidAssignmentTarget, e.unparenthesized.loc.start⟩

end WithScope
