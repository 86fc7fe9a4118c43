import WithScope.Proofs.Grammar.LegalStatement
import WithScope.Proofs.Scope.Misplaced
import WithScope.Wrapper.Basic

/-!
# When wrapping fails

A program that has been read is legal, so none of its declarations holds a target that binds no
name: its bindings and its free variables are found. Wrapping therefore fails with the syntax error of
one of the two fragments or not at all, `parse_legal_and_wrap_total`.
-/

namespace WithScope

/-! ## Legal programs declare names -/

mutual

/-- A pattern without targets that bind no name has none at its leaves. -/
theorem Pat.memberLeaves_eq_nil (p : Pat) (h : p.hasMember = false) : p.memberLeaves = [] := by
  cases p with
  | ident id => rfl
  | expr target => cases h
  | array loc elements => exact elementMemberLeaves_eq_nil elements h
  | object loc properties => exact propertyMemberLeaves_eq_nil properties h
  | rest loc argument => exact argument.memberLeaves_eq_nil h
  | assign loc left right => exact left.memberLeaves_eq_nil h

theorem PatProperty.memberLeaves_eq_nil (p : PatProperty) (h : p.hasMember = false) :
    p.memberLeaves = [] := by
  cases p with
  | keyValue loc key value => exact value.memberLeaves_eq_nil h
  | shorthand loc id value => rfl
  | rest loc argument => exact argument.memberLeaves_eq_nil h

theorem elementMemberLeaves_eq_nil (elements : List (Option Pat))
    (h : elementsHaveMember elements = false) : elementMemberLeaves elements = [] := by
  match elements with
  | [] => rfl
  | none :: elements => exact elementMemberLeaves_eq_nil elements h
  | some p :: elements =>
    obtain ⟨hp, helements⟩ := Bool.or_eq_false_iff.1 h
    rw [elementMemberLeaves, p.memberLeaves_eq_nil hp, elementMemberLeaves_eq_nil elements helements]
    rfl

theorem propertyMemberLeaves_eq_nil (properties : List PatProperty)
    (h : propertiesHaveMember properties = false) : propertyMemberLeaves properties = [] := by
  match properties with
  | [] => rfl
  | p :: properties =>
    obtain ⟨hp, hproperties⟩ := Bool.or_eq_false_iff.1 h
    rw [propertyMemberLeaves, p.memberLeaves_eq_nil hp,
      propertyMemberLeaves_eq_nil properties hproperties]
    rfl

end

/-- A legal node declares names only. -/
theorem Node.Legal.misplaced {n : Node} (h : n.Legal) : n.misplaced = [] := by
  induction n using Node.induct with
  | step n ih =>
    rw [Node.misplaced_eq, List.flatMap_eq_nil_iff]
    intro c hc
    have hown : n.declaredTargets c = [] := by
      unfold Node.declaredTargets
      split
      · rw [Pat.memberLeaves_eq_nil _ (Pat.hasMember_of_legal _ (h.of_mem_children hc)), ite_self]
      · rfl
    rw [hown, ih c hc (h.of_mem_children hc), List.append_nil]

/-- The declarations of a program that has been read all declare names. -/
theorem checkedOutline_of_parse {options : Options} {source : List Char} {p : Program}
    (h : parse options source = .ok p) : p.checkedOutline = .ok p.outline := by
  have hmisplaced : p.misplaced = [] :=
    List.flatMap_eq_nil_iff.2 fun s hs => (legal_of_parse h s hs).misplaced
  rw [Program.checkedOutline_eq, hmisplaced]

/-- The free variables of a program that has been read are found. -/
theorem freeVariables_of_parse {options : Options} {source : List Char} {p : Program}
    (h : parse options source = .ok p) :
    p.freeVariables = .ok (groupByName (p.outline.free [])) := by
  rw [Program.freeVariables_eq, checkedOutline_of_parse h]
  rfl

/-- The bindings of a program that has been read are found. -/
theorem exists_bindingTable_of_parse {options : Options} {source : List Char} {p : Program}
    (h : parse options source = .ok p) : ∃ table, p.bindingTable = .ok table := by
  rw [Program.bindingTable, Program.events, checkedOutline_of_parse h]
  exact ⟨_, rfl⟩

/-- The names of the free variables of a program that has been read. -/
theorem freeNames_of_parse {options : Options} {source : List Char} {p : Program}
    (h : parse options source = .ok p) :
    freeNames p = .ok ((groupByName (p.outline.free [])).map FreeVariable.name) := by
  rw [freeNames, freeVariables_of_parse h]

/-! ## Wrapping -/

variable {options : WrapOptions} {object body : List Char}

/-- The body is read first. -/
theorem wrap_of_body_error {e : SyntaxError} (h : parse fragmentOptions body = .error e) :
    wrap options object body = .error (.syntaxError .body e) := by
  rw [wrap, readFragment, h]
  rfl

/-- The object is read next. -/
theorem wrap_of_object_error {p : Program} {e : SyntaxError}
    (hbody : parse fragmentOptions body = .ok p) (h : parse fragmentOptions object = .error e) :
    wrap options object body = .error (.syntaxError .object e) := by
  rw [wrap, readFragment, readFragment, hbody, h]
  rfl

/-- Nothing else can go wrong. -/
theorem exists_wrap_of_parse {p q : Program} (hbody : parse fragmentOptions body = .ok p)
    (hobject : parse fragmentOptions object = .ok q) :
    ∃ out, wrap options object body = .ok out := by
  simp only [wrap, readFragment, hbody, hobject, Except.mapError, freeNames_of_parse hbody,
    freeNames_of_parse hobject, bind, Except.bind]
  split
  · exact ⟨_, rfl⟩
  · exact ⟨_, rfl⟩

/-- What is read is legal, and its bindings and its free variables are found. Hence wrapping fails with the syntax
error of the body if it has one, else with that of the object if it has one, and else not at all. -/
theorem parse_legal_and_wrap_total :
    (∀ (options : Options) (source : List Char) (p : Program), parse options source = .ok p →
      (∀ s ∈ p.body, (Node.stmt s).Legal) ∧ (∃ table, p.bindingTable = .ok table) ∧
        ∃ vars, p.freeVariables = .ok vars) ∧
    ∀ (options : WrapOptions) (object body : List Char),
      match parse fragmentOptions body, parse fragmentOptions object with
      | .error e, _ => wrap options object body = .error (.syntaxError .body e)
      | .ok _, .error e => wrap options object body = .error (.syntaxError .object e)
      | .ok _, .ok _ => ∃ out, wrap options object body = .ok out := by
  refine ⟨fun options source p h => ?_, fun options object body => ?_⟩
  · exact ⟨legal_of_parse h, exists_bindingTable_of_parse h, _, freeVariables_of_parse h⟩
  · cases hbody : parse fragmentOptions body with
    | error e => exact wrap_of_body_error hbody
    | ok p =>
      cases hobject : parse fragmentOptions object with
      | error e => exact wrap_of_object_error hbody hobject
      | ok q => exact exists_wrap_of_parse hbody hobject

/-- An array literal that is read again as a pattern, with a member access and a rest element. -/
theorem parse_legal_and_wrap_total_destructuring :
    ∃ p, parse fragmentOptions "[a.b, ...c] = d".toList = .ok p ∧
      (∀ s ∈ p.body, (Node.stmt s).Legal) ∧ (∃ table, p.bindingTable = .ok table) ∧
        ∃ vars, p.freeVariables = .ok vars := by
  have hread : (parse fragmentOptions "[a.b, ...c] = d".toList).isOk := by decide +kernel
  cases h : parse fragmentOptions "[a.b, ...c] = d".toList with
  | error e =>
    rw [h] at hread
    cases hread
  | ok p => exact ⟨p, rfl, parse_legal_and_wrap_total.1 _ _ p h⟩

end WithScope
