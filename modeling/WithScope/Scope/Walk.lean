import WithScope.Syntax.Outline

/-!
# Walking over a program

`Program.events` are what a walk over a program comes upon, in the order of its text. A declaration
that holds a target which binds no name has no meaning: the walk ends there, and the first such
target is the error of the whole program.
-/

namespace WithScope

/-- A target that binds no name, such as `a.b`, where a name should be declared. -/
structure MisplacedTarget where
  /-- the byte offset where the target begins -/
  offset : Nat
deriving DecidableEq, Repr

/-- What kind of pattern the target is. -/
def MisplacedTarget.form (_ : MisplacedTarget) : String := "MemberExpression"

/-- The error in words. -/
def MisplacedTarget.message (e : MisplacedTarget) : String :=
  "unsupported " ++ e.form ++ " in binding position at offset " ++ toString e.offset

/-- The target of an occurrence that should declare a name and does not. -/
def Occurrence.misplaced? : Occurrence → Option MisplacedTarget
  | .misplaced target => some ⟨target.loc.start.offset⟩
  | _ => none

mutual

/-- The first declaration in an outline that holds a target which binds no name. -/
def Outline.misplaced? : Outline → Option MisplacedTarget
  | .occurrence o => o.misplaced?
  | .scope _ items => firstMisplaced? items

/-- The first declaration in outlines that holds a target which binds no name. -/
def firstMisplaced? : List Outline → Option MisplacedTarget
  | [] => none
  | o :: items => o.misplaced?.or (firstMisplaced? items)

end

/-- An outline whose declarations all declare names. -/
def Program.checkedOutline (p : Program) : Except MisplacedTarget Outline :=
  match p.outline.misplaced? with
  | some e => .error e
  | none => .ok p.outline

/-- All that occurs in a program, in the order of its text. -/
def Program.events (p : Program) : Except MisplacedTarget (List Event) :=
  Outline.events [] 0 <$> p.checkedOutline

end WithScope
