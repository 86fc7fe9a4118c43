import WithScope.Proofs.Text.Between
import WithScope.Text.Edit

/-!
# Texts with replaced parts

`Replaced before rest edits result` says what applying edits comes to, without counting bytes: the
text `rest`, which has `before` in front of it, falls into the parts that the edits cover and the
parts between them, and `result` has the replacements in place of the former and keeps the latter.

* `Replaced.edited` — what `edited` gives, for edits that begin and end at places of the text and do
  not overlap.
-/

namespace WithScope

/-- Texts in which edits cover some parts, in the order of the text, and the text with these parts
replaced. Each edit covers what stands between the places where it begins and ends. -/
inductive Replaced : (before rest : List Char) → List Edit → (result : List Char) → Prop
  /-- after the last edit everything is kept -/
  | keep (before rest : List Char) : Replaced before rest [] rest
  /-- up to an edit the text is kept, and what the edit covers is replaced -/
  | edit {before kept covered rest result replacement : List Char} {span : Span}
      {edits : List Edit} (start : span.start = placeAfter (before ++ kept))
      (stop : span.stop = placeAfter (before ++ kept ++ covered))
      (h : Replaced (before ++ kept ++ covered) rest edits result) :
      Replaced before (kept ++ covered ++ rest) (⟨span, replacement⟩ :: edits)
        (kept ++ replacement ++ result)

/-- An edit that can be applied to a text: it begins and ends at places of the text. -/
def Edit.Fits (source : List Char) (e : Edit) : Prop :=
  IsPlace source e.span.start ∧ IsPlace source e.span.stop ∧
    e.span.start.offset ≤ e.span.stop.offset

/-- One edit ends before another begins. -/
def Edit.Precedes (a b : Edit) : Prop := a.span.stop.offset ≤ b.span.start.offset

namespace Replaced

/-- Without edits everything is kept. -/
theorem eq_of_nil {before rest result : List Char} (h : Replaced before rest [] result) :
    result = rest := by
  cases h
  rfl

/-- The first edit, and what is kept before it. -/
theorem exists_of_cons {before rest result : List Char} {e : Edit} {edits : List Edit}
    (h : Replaced before rest (e :: edits) result) : ∃ kept covered rest' result',
      rest = kept ++ covered ++ rest' ∧ result = kept ++ e.replacement ++ result' ∧
      e.span.start = placeAfter (before ++ kept) ∧
      e.span.stop = placeAfter (before ++ kept ++ covered) ∧
      Replaced (before ++ kept ++ covered) rest' edits result' := by
  cases h with
  | edit start stop h => exact ⟨_, _, _, _, rfl, rfl, start, stop, h⟩

/-- What stands before the first edit is kept. -/
theorem exists_append {before kept rest result : List Char} {edits : List Edit}
    (h : Replaced before (kept ++ rest) edits result)
    (hfrom : ∀ e ∈ edits.head?, byteLength (before ++ kept) ≤ e.span.start.offset) :
    ∃ result', result = kept ++ result' ∧ Replaced (before ++ kept) rest edits result' := by
  cases edits with
  | nil =>
    obtain rfl := h.eq_of_nil
    exact ⟨rest, rfl, .keep _ _⟩
  | cons e edits =>
    obtain ⟨span, replacement⟩ := e
    obtain ⟨upto, covered, rest', result', hrest, rfl, hstart, hstop, hothers⟩ := h.exists_of_cons
    have hle : byteLength kept ≤ byteLength upto := by
      have := hfrom _ rfl
      rw [hstart] at this
      simp only [placeAfter, byteLength_append] at this
      omega
    rw [List.append_assoc upto] at hrest
    obtain ⟨between, rfl, rfl⟩ := exists_append_of_byteLength_le hrest hle
    refine ⟨between ++ replacement ++ result', by simp only [List.append_assoc], ?_⟩
    rw [← List.append_assoc between]
    rw [← List.append_assoc before] at hstart hstop hothers
    exact .edit hstart hstop hothers

theorem applyEdits {before rest : List Char} {edits : List Edit}
    (hfits : ∀ e ∈ edits, e.Fits (before ++ rest)) (hordered : edits.Pairwise Edit.Precedes)
    (hfrom : ∀ e ∈ edits, byteLength before ≤ e.span.start.offset) :
    Replaced before rest edits (WithScope.applyEdits (byteLength before) rest edits) := by
  induction edits generalizing before rest with
  | nil => exact .keep before rest
  | cons e edits ih =>
    obtain ⟨⟨hstart, hstop, hle⟩, hfits⟩ := List.forall_mem_cons.1 hfits
    obtain ⟨hprecedes, hordered⟩ := List.pairwise_cons.1 hordered
    obtain ⟨kept, rest, rfl, hkept⟩ :=
      hstart.exists_append (hfrom e (List.mem_cons_self ..))
    rw [← List.append_assoc] at hstop hfits
    obtain ⟨covered, rest, rfl, hcovered⟩ := hstop.exists_append (by rw [hkept] at hle; exact hle)
    rw [← List.append_assoc] at hfits
    have htake : e.span.start.offset - byteLength before = byteLength kept := by
      simp [hkept, placeAfter]
    have hdrop : e.span.stop.offset - byteLength before = byteLength (kept ++ covered) := by
      simp [hcovered, placeAfter]
    have hnext : e.span.stop.offset = byteLength (before ++ kept ++ covered) := by
      rw [hcovered, placeAfter]
    rw [WithScope.applyEdits, htake, hdrop, takeBytes_byteLength_append, ← List.append_assoc kept,
      dropBytes_byteLength_append, hnext]
    exact .edit hkept hcovered (ih hfits hordered fun d hd => hnext ▸ hprecedes d hd)

/-- Edits that fit and do not overlap replace what they cover, and nothing else. -/
theorem edited {source : List Char} {edits : List Edit} (hfits : ∀ e ∈ edits, e.Fits source)
    (hordered : edits.Pairwise Edit.Precedes) :
    Replaced [] source edits (WithScope.edited source edits) := by
  have hsorted : edits.Pairwise fun d e => d.span.start.offset ≤ e.span.start.offset := by
    refine hordered.imp_of_mem fun hd _ hprecedes => ?_
    obtain ⟨-, -, hle⟩ := hfits _ hd
    exact hle.trans hprecedes
  rw [WithScope.edited, inOrder_eq_self hsorted]
  exact .applyEdits hfits hordered fun _ _ => Nat.zero_le _

end Replaced

end WithScope
