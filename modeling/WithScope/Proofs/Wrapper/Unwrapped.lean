import Mathlib.Data.List.Forall2
import WithScope.Proofs.Grammar.LeavingStatement
import WithScope.Proofs.Grammar.Nested
import WithScope.Proofs.Text.Replaced

/-!
# Returns are unwrapped where they stand

The returns that leave a program that has been read stand one after the other, at places of its
text. So the text falls into them and the parts between them, and unwrapping replaces each of them
and keeps everything else: `unwrapped_of_parse`.
-/

namespace WithScope

/-- The returns in a program that are inside of no function, arrow function or class. -/
def Program.leaving (p : Program) : List Return := (p.body.map .stmt).flatMap Node.leaving

/-- An edit that makes a return hand its value on: it covers the return, and what it puts there
returns an object that holds the text of the argument, if there is one. -/
def Return.HandedOn (source : List Char) (r : Return) (e : Edit) : Prop :=
  e.span = r.loc ∧
    match r.argument with
    | none => e.replacement = "return \x7b\x7d;".toList
    | some argument => ∃ before text rest, source = before ++ text ++ rest ∧
      argument.loc = ⟨placeAfter before, placeAfter (before ++ text)⟩ ∧
      e.replacement = "return \x7bvalue: (".toList ++ text ++ ")\x7d;".toList

/-! ## One return -/

variable {source : List Char}

/-- A return that is nested in a text is rewritten with the text of its argument. -/
theorem Return.handedOn {r : Return} (h : r.located.Nested source) :
    r.HandedOn source ⟨r.loc, r.rewritten source⟩ := by
  obtain ⟨loc, argument⟩ := r
  refine ⟨rfl, ?_⟩
  cases argument with
  | none => rfl
  | some argument =>
    have hargument : (Located.expr argument).Nested source :=
      h.row.nested _ (List.mem_singleton_self _)
    obtain ⟨before, rest, hsource, hloc⟩ := exists_slice_eq hargument.isPlace_start
      hargument.isPlace_stop hargument.start_lt_stop.le
    exact ⟨before, _, rest, hsource, hloc, rfl⟩

/-! ## All of them -/

variable {options : Options} {p : Program}

theorem leaving_of_parse (h : parse options source = .ok p) :
    p.leaving = statementsReturns p.body :=
  (statementsReturns_eq (direct_of_parse h)).symm

/-- The returns that leave a program are nested in its text and stand one after the other. -/
theorem row_leaving (h : parse options source = .ok p) :
    Row source p.loc.start.offset p.loc.stop.offset (p.leaving.map Return.located) := by
  rw [leaving_of_parse h]
  exact row_statementsReturns p.body (nested_of_parse h).row

theorem edits_of_parse (h : parse options source = .ok p) :
    p.edits source = p.leaving.map fun r => ⟨r.loc, r.rewritten source⟩ := by
  rw [leaving_of_parse h, Program.edits]

/-- What makes a return hand its value on. -/
theorem handedOn_of_parse (h : parse options source = .ok p) :
    ∀ r ∈ p.leaving, r.HandedOn source ⟨r.loc, r.rewritten source⟩ :=
  fun _ hr => Return.handedOn ((row_leaving h).nested _ (List.mem_map_of_mem hr))

/-- The edits cover parts of the text. -/
theorem edits_fit_of_parse (h : parse options source = .ok p) :
    ∀ e ∈ p.edits source, e.Fits source ∧ e.span.start.offset < e.span.stop.offset := by
  rw [edits_of_parse h]
  refine List.forall_mem_map.2 fun r hr => ?_
  have hr := (row_leaving h).nested _ (List.mem_map_of_mem hr)
  exact ⟨⟨hr.isPlace_start, hr.isPlace_stop, hr.start_lt_stop.le⟩, hr.start_lt_stop⟩

/-- The edits cover parts that stand one after the other. -/
theorem edits_ordered_of_parse (h : parse options source = .ok p) :
    (p.edits source).Pairwise Edit.Precedes := by
  rw [edits_of_parse h]
  exact List.pairwise_map.2 ((List.pairwise_map.1 (row_leaving h).ordered).imp fun hlt => hlt)

theorem replaced_of_parse (h : parse options source = .ok p) :
    Replaced [] source (p.edits source) (p.unwrapped source).body :=
  .edited (fun e he => (edits_fit_of_parse h e he).1) (edits_ordered_of_parse h)

/-- **Unwrapping.** In a program that has been read there is one edit for each return that is inside
of no function, arrow function or class, and no other. The edits cover these returns, which are not
empty and do not overlap, at places of the text; each is replaced by the return of an object that
holds the text of its argument, and all that stands between them is kept. -/
theorem unwrapped_of_parse (h : parse options source = .ok p) :
    List.Forall₂ (Return.HandedOn source) p.leaving (p.edits source) ∧
    (p.edits source).Pairwise Edit.Precedes ∧
    (∀ e ∈ p.edits source, IsPlace source e.span.start ∧ IsPlace source e.span.stop ∧
      e.span.start.offset < e.span.stop.offset ∧ e.span.stop.offset ≤ byteLength source) ∧
    Replaced [] source (p.edits source) (p.unwrapped source).body ∧
    ((p.unwrapped source).hasReturn ↔ p.leaving ≠ []) ∧
    (p.leaving = [] → (p.unwrapped source).body = source) := by
  have hedits := edits_of_parse h
  refine ⟨?_, edits_ordered_of_parse h, fun e he => ?_, replaced_of_parse h, ?_, ?_⟩
  · rw [hedits, List.forall₂_map_right_iff, List.forall₂_same]
    exact handedOn_of_parse h
  · obtain ⟨⟨hstart, hstop, -⟩, hlt⟩ := edits_fit_of_parse h e he
    exact ⟨hstart, hstop, hlt, hstop.offset_le⟩
  · rw [Program.unwrapped, hedits]
    simp
  · intro hnone
    rw [Program.unwrapped, hedits, hnone]
    rfl

/-- Two returns in blocks of one statement, and one in a function, which stays as it is. -/
theorem unwrapped_of_parse_nested :
    ∃ p, parse fragmentOptions "if (a) { return b } else return; function f() { return }".toList =
        .ok p ∧
      (p.unwrapped "if (a) { return b } else return; function f() { return }".toList).body =
        "if (a) \x7b return \x7bvalue: (b)\x7d; \x7d else return \x7b\x7d; function f() \x7b return \x7d".toList ∧
      p.leaving.length = 2 ∧
      List.Forall₂ (Return.HandedOn "if (a) { return b } else return; function f() { return }".toList)
        p.leaving (p.edits "if (a) { return b } else return; function f() { return }".toList) := by
  let source := "if (a) { return b } else return; function f() { return }".toList
  have hread : (fun p => ((p.edits source).length, (p.unwrapped source).body)) <$>
      (parse fragmentOptions source).toOption =
      some (2, "if (a) \x7b return \x7bvalue: (b)\x7d; \x7d else return \x7b\x7d; function f() \x7b return \x7d".toList) := by
    decide +kernel
  cases h : parse fragmentOptions source with
  | error e =>
    rw [h] at hread
    cases hread
  | ok p =>
    rw [h] at hread
    obtain ⟨hlength, hbody⟩ := Prod.mk.inj (Option.some.inj hread)
    obtain ⟨hreturns, -⟩ := unwrapped_of_parse h
    exact ⟨p, rfl, hbody, hreturns.length_eq.trans hlength, hreturns⟩

end WithScope
