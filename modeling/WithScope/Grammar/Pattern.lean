import WithScope.Grammar.Productions

/-!
# Patterns that declare names

The patterns of variable declarations, parameters and `catch` clauses.
-/

namespace WithScope.Grammar

open WithScope.Parser

variable (g : Grammar)

/-- A name, an array pattern or an object pattern. -/
def bindingTarget : Parser Pat := do
  match ← kind with
  | .punctuator .leftBracket => g.arrayPattern
  | .punctuator .leftBrace => g.objectPattern
  | _ => return .ident (← ident)

/-- A target with an optional default value. -/
def bindingElement : Parser Pat := do
  let start ← here
  let target ← g.bindingTarget
  if ← eatMark .equal then
    let right ← allowIn g.assignment
    return .assign (← spanFrom start) target right
  else return target

/-- A target after `...`. -/
def restBinding : Parser Pat := do
  let start ← here
  expectMark .dotDotDot
  let argument ← g.bindingTarget
  return .rest (← spanFrom start) argument

/-- An element of an array pattern, or the comma in place of one that is left out. -/
def bindingElementOrHole : Parser (Option Pat) := do
  if ← eatMark .comma then return none
  else some <$> itemAndComma .rightBracket g.bindingElement

/-- An array pattern. -/
def arrayPatternBody : Parser Pat := do
  let start ← here
  expectMark .leftBracket
  let elements ← itemsWithRest .rightBracket g.bindingElementOrHole (some <$> g.restBinding)
  return .array (← spanFrom start) elements

/-- The last property of an object pattern, after `...`; it can only be a name. -/
def restProperty : Parser PatProperty := do
  let start ← here
  expectMark .dotDotDot
  let id ← ident
  return .rest (← spanFrom start) (.ident id)

/-- A property of an object pattern. -/
def bindingProperty : Parser PatProperty := do
  let start ← here
  let mayBeShorthand ← atKind .identifier
  let key ← g.key
  if ← eatMark .colon then
    let value ← g.bindingElement
    return .keyValue (← spanFrom start) key value
  else
    match key with
    | .ident id =>
      if !mayBeShorthand then fail id.loc.start (.unexpectedKeyword id.name)
      else if ← eatMark .equal then
        let value ← allowIn g.assignment
        return .shorthand (← spanFrom start) id (some value)
      else return .shorthand (← spanFrom start) id none
    | _ => unexpected

/-- An object pattern. -/
def objectPatternBody : Parser Pat := do
  let start ← here
  expectMark .leftBrace
  let properties ←
    itemsWithRest .rightBrace (itemAndComma .rightBrace g.bindingProperty) restProperty
  return .object (← spanFrom start) properties

end WithScope.Grammar
