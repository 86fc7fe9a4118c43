import WithScope.Proofs.Grammar.NameStatement
import WithScope.Proofs.Scope.FreeOccurrences
import WithScope.Proofs.Text.Utf8Order
import WithScope.Proofs.Wrapper.Failure
import WithScope.Proofs.Wrapper.UnusedName

/-!
# What wrappers look up

A wrapper looks up the names that are free in the body and that nothing makes it leave alone,
`LeftAlone`. They are the parameters of the function that the body becomes, and the arguments are
one lookup for each of them, all through the name that the wrapper has for the object.

This name is none of the parameters. A variable that is declared for the object has an unused name,
and an object that is a name is read as a program in which the name is free (`parse_of_isValidIdentifier`), and
what is free in the object is left alone.
-/

namespace WithScope

/-! ## Free names -/

/-- Whether something in a program refers to a variable that the program does not bind. -/
def Program.IsFree (p : Program) (name : String) : Prop :=
  ∃ r ∈ p.freeOccurrences, r.name = name

variable {options : WrapOptions} {object body : List Char} {p q : Program}

/-- The names of the free variables of a program, in ascending order. -/
def Program.freeNames (p : Program) : List String :=
  ascending (p.freeOccurrences.map FreeReference.name)

theorem Program.mem_freeNames {name : String} : name ∈ p.freeNames ↔ p.IsFree name := by
  rw [freeNames, mem_ascending, List.mem_map]
  rfl

/-- In a program that is a name, the name is free unless it is `undefined`, which is no variable. -/
theorem isFree_nameProgram (sourceType : SourceType) {cs : List Char}
    (h : String.ofList cs ≠ "undefined") :
    (Grammar.nameProgram sourceType cs).IsFree (String.ofList cs) := by
  refine ⟨.ident (.whole cs), ?_, rfl⟩
  have hbinds (name : String) : (Scope.mk .program []).binds name = false := by
    simp [Scope.binds, ScopeKind.bindsThis]
  have hne : (Ident.whole cs).name ≠ "undefined" := h
  rw [← Program.free_outline]
  show _ ∈ (Occurrence.free? [.mk .program []] (.reference (.whole cs) .operand _)).toList ++ []
  simp [Occurrence.free?, Role.isValue, hne, hbinds]

/-! ## Names that are left alone -/

/-- Whether a wrapper leaves a name alone: it is never a parameter, it is excluded, or it is free in
the object. -/
def LeftAlone (options : WrapOptions) (object : Program) (name : String) : Prop :=
  name ∈ neverParameters ∨ name ∈ options.exclude ∨ object.IsFree name

/-- The names that a wrapper leaves alone. -/
def leftAlone (options : WrapOptions) (object : Program) : List String :=
  neverParameters ++ options.exclude ++ object.freeNames

theorem mem_leftAlone {name : String} :
    name ∈ leftAlone options q ↔ LeftAlone options q name := by
  rw [leftAlone, List.mem_append, List.mem_append, Program.mem_freeNames, or_assoc]
  rfl

/-- The names of a body that a wrapper looks up. -/
def lookedUp (options : WrapOptions) (body object : Program) : List String :=
  body.freeNames.filter fun name => !(leftAlone options object).contains name

theorem mem_lookedUp {name : String} :
    name ∈ lookedUp options p q ↔ p.IsFree name ∧ ¬LeftAlone options q name := by
  simp [lookedUp, Program.mem_freeNames, mem_leftAlone]

/-- An object that is a name is left alone. -/
theorem leftAlone_of_isValidIdentifier (hobject : parse fragmentOptions object = .ok q)
    (h : isValidIdentifier (String.ofList object)) :
    LeftAlone options q (String.ofList object) := by
  by_cases hundefined : String.ofList object = "undefined"
  · exact .inl (hundefined ▸ List.mem_cons_self ..)
  · -- a name by itself is a program in which the name is free
    have hread := parse_of_isValidIdentifier fragmentOptions h
    rw [String.toList_ofList, hobject] at hread
    obtain rfl := Except.ok.inj hread
    exact .inr (.inr (isFree_nameProgram _ hundefined))

/-- Whether a wrapper can refer to its object by a name: by the name that the object is, if it is one,
and else by a variable that has none of the names it looks up or leaves alone. -/
def NamesObject (options : WrapOptions) (names : List String) (object : List Char) (q : Program)
    (name : String) : Prop :=
  if isValidIdentifier (String.ofList object) then name = String.ofList object
  else name ∉ names ∧ ¬LeftAlone options q name

/-- No name that is looked up is the one for the object. -/
theorem NamesObject.not_mem {name : String} (hobject : parse fragmentOptions object = .ok q)
    (h : NamesObject options (lookedUp options p q) object q name) :
    name ∉ lookedUp options p q := by
  unfold NamesObject at h
  split at h
  · next hvalid =>
    rw [h]
    exact fun hmem => (mem_lookedUp.1 hmem).2 (leftAlone_of_isValidIdentifier hobject hvalid)
  · exact h.1

/-- The wrapper of a body that has names to look up. -/
def wrapper (options : WrapOptions) (object body : List Char) (p q : Program) : Wrapper :=
  let names := lookedUp options p q
  let taken := names ++ leftAlone options q
  ⟨objectBinding options object taken, unusedName options.resultName taken, names,
    p.unwrapped body⟩

/-- An object that is a name is not declared, and is left alone in the body. -/
example : wrap .default "o".toList "f(a, o)".toList = .ok (
    ";\n    \n    \n    (function (a, f) \x7b\n      f(a, o)\n    \x7d.call(this, " ++
    "\"a\" in o ? o.a : typeof a !== 'undefined' ? a : undefined, " ++
    "\"f\" in o ? o.f : typeof f !== 'undefined' ? f : undefined));\n    ;").toList := by
  decide +kernel

end WithScope
