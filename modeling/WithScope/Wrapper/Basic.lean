import WithScope.Grammar.Program
import WithScope.Scope.Free
import WithScope.Wrapper.Returns
import WithScope.Wrapper.UnusedName

/-!
# Running code in the scope of an object

`wrap object body` is code that does what `body` does inside of `with (object)`, without `with`.
The body becomes a function whose parameters are its free variables. Each argument looks the name
up in the object, then in the scope around, and is `undefined` if neither has it. What is free in
the object itself is no parameter, so that it keeps its meaning. If the body returns, so does the
whole.
-/

namespace WithScope

/-- The two pieces of code that a wrapper is made of. -/
inductive Fragment
  /-- the object whose properties are in scope -/
  | object
  /-- the code that sees them -/
  | body
deriving DecidableEq, Repr

/-- A fragment in words. -/
def Fragment.description : Fragment → String
  | .object => "object part"
  | .body => "body"

/-- What can be wrong with the fragments. -/
inductive WrapError
  /-- a fragment is no program -/
  | syntaxError (fragment : Fragment) (error : SyntaxError)
  /-- a declaration holds a target that binds no name -/
  | misplacedTarget (error : MisplacedTarget)
deriving DecidableEq, Repr

/-- The error in words, without what is wrong with the fragment. -/
def WrapError.message : WrapError → String
  | .syntaxError fragment _ => "error parsing " ++ fragment.description ++ " of the with expression"
  | .misplacedTarget error => error.message

/-- How to wrap. -/
structure WrapOptions where
  /-- names that are no parameters -/
  exclude : List String
  /-- the name of the variable that holds the object, unless it is used -/
  objectName : String
  /-- the name of the variable that holds what the body returned, unless it is used -/
  resultName : String
deriving DecidableEq, Repr

/-- The usual way to wrap. -/
def WrapOptions.default : WrapOptions := ⟨[], "locals_for_with", "result_of_with"⟩

/-- How the wrapper refers to the object. -/
inductive ObjectBinding
  /-- by the name that the object is -/
  | given (name : String)
  /-- by a variable that is declared for it -/
  | declared (name : String) (object : List Char)
deriving DecidableEq, Repr

/-- The name that refers to the object. -/
def ObjectBinding.name : ObjectBinding → String
  | .given name | .declared name _ => name

/-- The declaration that gives the object its name. -/
def ObjectBinding.declaration : ObjectBinding → List Char
  | .given _ => []
  | .declared name object => "var ".toList ++ name.toList ++ " = (".toList ++ object ++ ");".toList

/-- A body together with what its wrapper needs to know. -/
structure Wrapper where
  /-- how the object is referred to -/
  object : ObjectBinding
  /-- the name of the variable that holds what the body returned -/
  resultName : String
  /-- the variables of the body that are looked up, in ascending order -/
  names : List String
  /-- the body -/
  body : Unwrapped
deriving DecidableEq, Repr

namespace Wrapper

variable (w : Wrapper)

/-- The expression that looks a name up in the object, then in the scope around. -/
def lookup (name : String) : List Char :=
  let object := w.object.name.toList
  let name := name.toList
  jsonQuoted name ++ " in ".toList ++ object ++ " ? ".toList ++ object ++ ".".toList ++ name
    ++ " : typeof ".toList ++ name ++ " !== 'undefined' ? ".toList ++ name
    ++ " : undefined".toList

/-- The parameters of the function that the body becomes. -/
def parameters : List Char := ", ".toList.intercalate (w.names.map String.toList)

/-- The arguments that the function is called with, the first of them being its `this`. -/
def arguments : List Char :=
  ", ".toList.intercalate ("this".toList :: w.names.map w.lookup)

/-- What keeps the value of the call, if the body returns. -/
def before : List Char :=
  if w.body.hasReturn then "var ".toList ++ w.resultName.toList ++ " = ".toList else []

/-- What returns the value that was kept, if the body returns. -/
def after : List Char :=
  if w.body.hasReturn then
    ";if (".toList ++ w.resultName.toList ++ ") return ".toList ++ w.resultName.toList
      ++ ".value".toList
  else []

/-- The code that the wrapper is. -/
def text : List Char :=
  ";\n    ".toList ++ w.object.declaration ++ "\n    ".toList ++ w.before
    ++ "\n    (function (".toList ++ w.parameters ++ ") \x7b\n      ".toList ++ w.body.body
    ++ "\n    \x7d.call(".toList ++ w.arguments ++ "));\n    ".toList ++ w.after ++ ";".toList

end Wrapper

/-- How fragments are read: as scripts, in which returns, imports and exports may stand anywhere. -/
def fragmentOptions : Options := ⟨.script, true, true⟩

/-- The program that a fragment spells. -/
def readFragment (fragment : Fragment) (source : List Char) : Except WrapError Program :=
  (parse fragmentOptions source).mapError (.syntaxError fragment)

/-- The names of the free variables of a program. -/
def freeNames (p : Program) : Except WrapError (List String) :=
  match p.freeVariables with
  | .error e => .error (.misplacedTarget e)
  | .ok found => .ok (found.map FreeVariable.name)

/-- Names that are never parameters. -/
def neverParameters : List String := ["undefined", thisName]

/-- How to refer to an object: by its own name if it is one, else by an unused name. -/
def objectBinding (options : WrapOptions) (object : List Char) (taken : List String) :
    ObjectBinding :=
  if isValidIdentifier (String.ofList object) then .given (String.ofList object)
  else .declared (unusedName options.objectName taken) object

/-- Code that does what `body` does in the scope of `object`. A body without variables to look up
stays as it is. -/
def wrap (options : WrapOptions) (object body : List Char) : Except WrapError (List Char) := do
  let bodyProgram ← readFragment .body body
  let objectProgram ← readFragment .object object
  let objectNames ← freeNames objectProgram
  let bodyNames ← freeNames bodyProgram
  let excluded := neverParameters ++ options.exclude ++ objectNames
  let names := bodyNames.filter fun name => !excluded.contains name
  if names.isEmpty then return body
  else
    let taken := names ++ excluded
    let wrapper : Wrapper :=
      ⟨objectBinding options object taken, unusedName options.resultName taken, names,
        bodyProgram.unwrapped body⟩
    return wrapper.text

end WithScope
