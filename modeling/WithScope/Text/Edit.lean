import WithScope.Text.Slice

/-!
# Edits

Replacing parts of a text by other text. Edits are applied in the order of the text, in whatever
order they are listed, and must not overlap.
-/

namespace WithScope

/-- What to put in place of a part of a text. -/
structure Edit where
  /-- the part -/
  span : Span
  /-- what to put there -/
  replacement : List Char
deriving DecidableEq, Repr

/-- Puts an edit in front of the first one that does not begin before it. -/
def insertEdit (e : Edit) : List Edit → List Edit
  | [] => [e]
  | d :: edits =>
    if e.span.start.offset ≤ d.span.start.offset then e :: d :: edits
    else d :: insertEdit e edits

/-- Edits in the order in which they begin. Those that begin together stay as they are listed. -/
def inOrder : List Edit → List Edit
  | [] => []
  | e :: edits => insertEdit e (inOrder edits)

/-- Applies edits to what is left of a text from the offset `start` on. -/
def applyEdits (start : Nat) (rest : List Char) : List Edit → List Char
  | [] => rest
  | e :: edits =>
    takeBytes (e.span.start.offset - start) rest ++ e.replacement
      ++ applyEdits e.span.stop.offset (dropBytes (e.span.stop.offset - start) rest) edits

/-- A text with edits applied to it. -/
def edited (text : List Char) (edits : List Edit) : List Char := applyEdits 0 text (inOrder edits)

/-- Without edits a text stays as it is. -/
@[simp] theorem edited_nil (text : List Char) : edited text [] = text := rfl

/-- Edits that are listed in order stay as they are. -/
theorem inOrder_eq_self {edits : List Edit}
    (h : edits.Pairwise fun d e => d.span.start.offset ≤ e.span.start.offset) :
    inOrder edits = edits := by
  induction edits with
  | nil => rfl
  | cons d edits ih =>
    obtain ⟨hd, hedits⟩ := List.pairwise_cons.1 h
    rw [inOrder, ih hedits]
    cases edits with
    | nil => rfl
    | cons e edits => exact if_pos (hd e (List.mem_cons_self ..))

end WithScope
