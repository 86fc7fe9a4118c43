import WithScope.Grammar.Function
import WithScope.Syntax.Location

/-!
# Classes
-/

namespace WithScope.Grammar

open WithScope.Parser

variable (g : Grammar)

/-- The context of a field's value and of a static block. -/
def initializerContext : Context := { Context.empty with newTarget := true }

/-- Whether a key is the given name, bare or quoted. -/
def isKeyNamed (name : String) : Key → Bool
  | .ident id => id.name = name
  | .string lit => lit.value = name
  | _ => false

/-- A method of a class from its parameters on. -/
def classMethod (start : Position) (isStatic : Bool) (m : MethodModifiers) (key : Key) :
    Parser Member := do
  let kind :=
    if m.kind = .method && !isStatic && isKeyNamed "constructor" key then .constructor else m.kind
  let value ← g.methodRest m
  return .method (← spanFrom start) isStatic kind key value

/-- A field of a class from the end of its key on. -/
def classField (start : Position) (isStatic : Bool) (key : Key) : Parser Member := do
  let value ←
    if ← eatMark .equal then some <$> inBody initializerContext g.assignment else pure none
  semicolon
  return .field (← spanFrom start) isStatic key value

/-- A method or field of a class, from its modifiers on. -/
def methodOrField (start : Position) (isStatic : Bool) : Parser Member := do
  let m ← methodModifiers
  let key ← g.key
  if ← atMark .leftParen then g.classMethod start isStatic m key
  else if m.isPlain then g.classField start isStatic key
  else unexpected

/-- An element of a class. -/
def member : Parser Member := do
  let start ← here
  if ← atModifier "static" then
    discard bump
    if ← atMark .leftBrace then
      let b ← inBody initializerContext g.block
      return .staticBlock (← spanFrom start) b.body
    else g.methodOrField start true
  else g.methodOrField start false

/-- The elements of a class, between which semicolons may stand, and past the closing brace. -/
def members : Parser (List Member) :=
  repeatFrom [] fun members => do
    if ← eatMark .rightBrace then return .inr members.reverse
    else if ← eatMark .semicolon then return .inl members
    else return .inl ((← g.member) :: members)

/-- A class, named or not. -/
def classDefinition (nameRequired : Bool) : Parser Class := do
  let start ← here
  expectWord .class
  let id ← optionalName nameRequired fun t =>
    t.kind = .identifier && !t.isIdentifier "extends"
  let superClass ← if ← eatWord .extends then some <$> g.leftHandSide else pure none
  let bodyStart ← here
  expectMark .leftBrace
  let members ← g.members
  return .mk (← spanFrom start) id superClass (← spanFrom bodyStart) members

end WithScope.Grammar
