import WithScope.Proofs.Grammar.Nested
import WithScope.Proofs.Scope.FreeOccurrences
import WithScope.Proofs.Text.Utf8Order
import WithScope.Proofs.Tree.Covering
import WithScope.Proofs.Wrapper.Failure

/-!
# Free variables in the order of the text

What occurs free in a node stands inside of the node, one after the other (`Node.covers_free`): the
node's own references and its children do, and what is bound only leaves gaps. So in a program that
has been read the references to a free variable are listed in the order of the text, each of them
once (`freeVariables_ordered`).
-/

namespace WithScope

variable {source : List Char}

/-- A reference as a construct of the program. -/
def FreeReference.located : FreeReference → Located
  | .ident id => .ident id
  | .this loc => .expr (.this loc)

@[simp] theorem FreeReference.loc_located (r : FreeReference) : r.located.loc = r.loc := by
  cases r <;> rfl

/-- In a row each construct begins in front of the next. -/
theorem Row.ascending {lo hi : Nat} {ns : List Located} (h : Row source lo hi ns) :
    ns.Pairwise fun n m => n.loc.start.offset < m.loc.start.offset :=
  h.ordered.imp_of_mem fun hn _ hprecedes => (h.nested _ hn).start_lt_stop.trans_le hprecedes

namespace Node

/-! ## References -/

/-- A name is a reference to the variable, or none if it is `undefined`. -/
theorem covers_referenceTo {n : Located} {id : Ident} (h : Covers source [n] [.ident id]) :
    Covers source [n] ((referenceTo id).map FreeReference.located) := by
  unfold referenceTo
  split
  · exact .sublist (List.nil_sublist _)
  · exact h

/-- The name that a module exports from itself stands in its specifier. -/
theorem covers_specifier (loc : Span) (id : Ident) (exported : ModuleName) :
    Covers source [.exportSpecifier ⟨loc, .ident id, exported⟩] [.ident id] := by
  refine (Covers.children _).trans (.sublist ?_)
  by_cases h : ModuleName.ident id = exported <;>
    simp [Located.children, ModuleName.located, h]

/-- What a node refers to and what is directly inside of it take up no more room than the node. -/
theorem covers_parts (n : Node) : Covers source n.located
    (n.references.map FreeReference.located ++ n.children.flatMap located) := by
  have of_references {ns ms : List Located} (h : Covers source ns ms) :
      Covers source ns (ms ++ [].flatMap located) := by
    rw [List.flatMap_nil, List.append_nil]
    exact h
  unfold references
  split
  -- an identifier, a shorthand property and a target are the name, or hold nothing but it
  case h_1 id => exact of_references (covers_referenceTo (.leaf rfl rfl))
  case h_2 loc id => exact of_references (covers_referenceTo (.children _))
  case h_3 id => exact of_references (covers_referenceTo (.leaf rfl rfl))
  case h_4 loc id value =>
    -- a target with a default value, which stands after the name
    have hid : Covers source [.ident id] ((referenceTo id).map FreeReference.located) :=
      covers_referenceTo (.refl _)
    refine (Covers.children _).trans (hid.append (.sublist ?_))
    exact (flatMap_located_map (f := .expr) (g := .expr) (fun _ => rfl) value.toList) ▸ .refl _
  case h_5 loc => exact .refl _
  case h_6 loc id exported =>
    exact of_references (covers_referenceTo (covers_specifier loc id exported))
  case h_7 => exact n.covers_children

/-- What occurs free in a node takes up no more room than the node. -/
theorem covers_free (n : Node) :
    Covers source n.located (n.freeOccurrences.map FreeReference.located) := by
  induction n using induct with
  | step n ih =>
    have hinner : Covers source (n.children.flatMap located)
        ((n.children.flatMap freeOccurrences).map FreeReference.located) := by
      rw [List.map_flatMap]
      exact .flatMap ih
    -- what the node binds is taken away, which leaves the rest in order
    rw [freeOccurrences_eq]
    refine n.covers_parts.trans ((Covers.append (.refl _) hinner).trans (.sublist ?_))
    rw [← List.map_append]
    exact List.filter_sublist.map _

theorem name_ne_undefined_of_referenceTo {id : Ident} {r : FreeReference} (hr : r ∈ referenceTo id) :
    r.name ≠ "undefined" := by
  unfold referenceTo at hr
  split at hr
  · cases hr
  · rw [List.mem_singleton.1 hr]
    assumption

/-- What a node refers to is not `undefined`. -/
theorem name_ne_undefined_of_references {n : Node} {r : FreeReference} (hr : r ∈ n.references) :
    r.name ≠ "undefined" := by
  unfold references at hr
  split at hr
  case h_5 =>
    rw [List.mem_singleton.1 hr]
    exact (by decide : thisName ≠ "undefined")
  case h_7 => cases hr
  all_goals exact name_ne_undefined_of_referenceTo hr

/-- `undefined` is not free in any node. -/
theorem name_ne_undefined {n : Node} {r : FreeReference} (hr : r ∈ n.freeOccurrences) :
    r.name ≠ "undefined" := by
  induction n using induct with
  | step n ih =>
    rw [freeOccurrences_eq, List.mem_filter, List.mem_append, List.mem_flatMap] at hr
    rcases hr.1 with hr | ⟨c, hc, hr⟩
    · exact name_ne_undefined_of_references hr
    · exact ih c hc hr

end Node

namespace Program

/-- What occurs free in a program that has been read is listed in the order of the text. -/
theorem ascending_freeOccurrences {p : Program} (h : p.Nested source) :
    p.freeOccurrences.Pairwise fun r r' => r.loc.start.offset < r'.loc.start.offset := by
  have hrow : Row source p.loc.start.offset p.loc.stop.offset
      (p.freeOccurrences.map FreeReference.located) := by
    have hcovers : Covers source (p.body.flatMap fun s => (Node.stmt s).located)
        (p.body.flatMap fun s => (Node.stmt s).freeOccurrences.map FreeReference.located) :=
      .flatMap fun s _ => Node.covers_free _
    rw [← List.map_flatMap] at hcovers
    refine (hcovers ?_).sublist (List.filter_sublist.map _)
    rw [show (p.body.flatMap fun s => (Node.stmt s).located) = p.body.map .stmt from
      List.map_eq_flatMap.symm]
    exact h.row
  simpa using List.pairwise_map.1 hrow.ascending

theorem name_ne_undefined {p : Program} {r : FreeReference} (hr : r ∈ p.freeOccurrences) :
    r.name ≠ "undefined" := by
  obtain ⟨s, -, hr⟩ := List.mem_flatMap.1 (List.mem_filter.1 hr).1
  exact Node.name_ne_undefined hr

end Program

/-! ## Groups -/

/-- The names of the groups are those of the references, in ascending order. -/
theorem names_groupByName (references : List FreeReference) :
    (groupByName references).map FreeVariable.name
      = ascending (references.map FreeReference.name) := by
  rw [groupByName, List.map_map]
  exact List.map_id _

/-- A group is what some reference refers to, with all references to it. -/
theorem of_mem_groupByName {references : List FreeReference} {v : FreeVariable}
    (hv : v ∈ groupByName references) :
    v.references = references.filter (·.name = v.name) ∧ ∃ r ∈ references, r.name = v.name := by
  obtain ⟨name, hname, rfl⟩ := List.mem_map.1 hv
  exact ⟨rfl, List.mem_map.1 (mem_ascending.1 hname)⟩

/-- **Order of the free variables.** The free variables of a program that has been read are listed by
name, in ascending order of their bytes, and `undefined` is none of them. Each has references, which
are names of it, or `this` for the variable of that name, and they are listed in the order of the
text, each once. -/
theorem freeVariables_ordered {options : Options} {p : Program}
    (h : parse options source = .ok p) :
    ∃ free, p.freeVariables = .ok free ∧
      (free.map FreeVariable.name).Pairwise (fun x y => utf8Bytes x < utf8Bytes y) ∧
      (free.map FreeVariable.name).Nodup ∧
      ∀ v ∈ free, v.name ≠ "undefined" ∧ v.references ≠ [] ∧
        (∀ r ∈ v.references, match r with
          | .ident id => id.name = v.name
          | .this _ => v.name = thisName) ∧
        v.references.Pairwise fun r r' => r.loc.start.offset < r'.loc.start.offset := by
  refine ⟨groupByName p.freeOccurrences, p.free_outline ▸ freeVariables_of_parse h, ?_, ?_,
    fun v hv => ?_⟩
  · rw [names_groupByName]
    exact (pairwise_ascending _).imp utf8Bytes_lt
  · rw [names_groupByName]
    exact nodup_ascending _
  · obtain ⟨hreferences, r, hr, hname⟩ := of_mem_groupByName hv
    refine ⟨hname ▸ Program.name_ne_undefined hr, ?_, fun r' hr' => ?_, ?_⟩
    · exact List.ne_nil_of_mem (hreferences ▸ List.mem_filter.2 ⟨hr, decide_eq_true hname⟩)
    · rw [hreferences] at hr'
      have hname' : r'.name = v.name := of_decide_eq_true (List.mem_filter.1 hr').2
      cases r' with
      | ident id => exact hname'
      | this loc => exact hname'.symm
    · rw [hreferences]
      exact (Program.ascending_freeOccurrences (nested_of_parse h)).filter _

/-- A default value that is kept with its name twice, and loops that are written in another order
than they run in. -/
theorem freeVariables_ordered_repeated_names :
    ∃ p free, parse fragmentOptions "({a = b} = this); do b(a); while (a = undefined)".toList = .ok p ∧
      p.freeVariables = .ok free ∧ free.map FreeVariable.name = ["a", "b", "this"] ∧
      ∀ v ∈ free, v.references.Pairwise fun r r' => r.loc.start.offset < r'.loc.start.offset := by
  have hread : (parse fragmentOptions "({a = b} = this); do b(a); while (a = undefined)".toList
      ).toOption.any fun p => p.freeVariables.toOption.any fun free =>
        free.map FreeVariable.name = ["a", "b", "this"] := by decide +kernel
  obtain ⟨p, hp, hfree⟩ := (Option.any_eq_true ..).1 hread
  replace hp := eq_ok_of_toOption hp
  obtain ⟨found, hfound, hnames⟩ := (Option.any_eq_true ..).1 hfree
  obtain ⟨free, hfree, -, -, hgroups⟩ := freeVariables_ordered hp
  obtain rfl : found = free := Except.ok.inj ((eq_ok_of_toOption hfound).symm.trans hfree)
  exact ⟨p, found, hp, hfree, of_decide_eq_true hnames, fun v hv => (hgroups v hv).2.2.2⟩

end WithScope
