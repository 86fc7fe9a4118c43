import Mathlib.Data.List.TakeWhile
import WithScope.Text.Position

/-!
# Places are determined by the text before them

`Position.after` keeps count while a reader moves on. What it arrives at is known without the way:
`placeAfter before` counts the bytes of the whole text before a place, the lines that end in it and
the characters since the last of them.

* `after_origin` — counting along the way comes to the same place;
* `Position.after_append` — the way may be gone in parts, if no part ends between CR and LF.
-/

namespace WithScope

/-- How many lines end in a text. CR LF ends one line, not two. -/
def lineEnds : List Char → Nat
  | [] => 0
  | '\r' :: '\n' :: cs => lineEnds cs + 1
  | c :: cs => lineEnds cs + if isLineTerminator c then 1 else 0

/-- What stands in a text after the last character that ends a line. -/
def lastLine (cs : List Char) : List Char :=
  (cs.reverse.takeWhile fun c => !isLineTerminator c).reverse

/-- The place that has the text `before` in front of it: the offset in bytes, the line counted from
1 by the lines that end before it, and the column counted from 1 by the characters on its line, both in
32 bits. -/
def placeAfter (before : List Char) : Position :=
  ⟨byteLength before, .ofNat (1 + lineEnds before), .ofNat (1 + (lastLine before).length)⟩

/-- A place of a text: what stands before it is a part of the text, so that its offset is at the
boundary of a character, and its line and column are those that this part says. -/
def IsPlace (source : List Char) (p : Position) : Prop :=
  ∃ before rest, source = before ++ rest ∧ p = placeAfter before

/-- The line and the column of a place are the plain numbers as long as 32 bits suffice for them. -/
theorem IsPlace.plain {source : List Char} {p : Position} (h : IsPlace source p) :
    ∃ before, before <+: source ∧ p.offset = byteLength before ∧
      (1 + lineEnds before < 0x100000000 → p.line.toNat = 1 + lineEnds before) ∧
      (1 + (lastLine before).length < 0x100000000 →
        p.column.toNat = 1 + (lastLine before).length) := by
  obtain ⟨before, rest, rfl, rfl⟩ := h
  exact ⟨before, List.prefix_append _ _, rfl, UInt32.toNat_ofNat_of_lt',
    UInt32.toNat_ofNat_of_lt'⟩

/-! ## Lines -/

@[simp] theorem lastLine_nil : lastLine [] = [] := rfl

/-- A character in front of a text changes its last line only if the text is all one line. -/
theorem lastLine_cons (c : Char) (cs : List Char) : lastLine (c :: cs) =
    if cs.any isLineTerminator then lastLine cs
    else if isLineTerminator c then cs else c :: cs := by
  simp only [lastLine, List.reverse_cons]
  by_cases h : cs.any isLineTerminator
  · rw [if_pos h, List.takeWhile_append, if_neg]
    intro hlength
    obtain ⟨d, hd, hline⟩ := List.any_eq_true.1 h
    have hall := List.takeWhile_eq_self_iff.1 (List.Sublist.eq_of_length
      (List.takeWhile_sublist _) hlength) d (List.mem_reverse.2 hd)
    simp [hline] at hall
  · have hall : ∀ d ∈ cs.reverse, (!isLineTerminator d) = true := by
      simpa using h
    rw [if_neg h, List.takeWhile_append_of_pos hall]
    cases hc : isLineTerminator c <;> simp [hc]

theorem lastLine_eq_self {cs : List Char} (h : cs.any isLineTerminator = false) :
    lastLine cs = cs := by
  cases cs with
  | nil => rfl
  | cons c cs =>
    obtain ⟨hc, hcs⟩ : isLineTerminator c = false ∧ cs.any isLineTerminator = false := by
      simpa using h
    rw [lastLine_cons, hcs, hc]
    rfl

/-! ## Moving past a text -/

namespace Position

/-- Where moving past a text leads: so many lines down, and to a column that counts from the start
of the last of them, or from where the way began if no line ends in the text. -/
theorem after_eq (p : Position) (cs : List Char) : p.after cs =
    ⟨p.offset + byteLength cs, p.line + .ofNat (lineEnds cs),
      if cs.any isLineTerminator then .ofNat (1 + (lastLine cs).length)
      else p.column + .ofNat cs.length⟩ := by
  fun_induction after p cs with
  | case1 => simp [lineEnds]
  | case2 p cs ih =>
    rw [ih]
    simp only [nextLine, byteLength_cons, show Char.utf8Size '\r' = 1 from rfl,
      show Char.utf8Size '\n' = 1 from rfl, lineEnds, lastLine_cons, List.any_cons,
      show isLineTerminator '\r' = true from rfl, show isLineTerminator '\n' = true from rfl,
      Bool.true_or, if_true, Position.mk.injEq, UInt32.ofNat_add]
    refine ⟨by omega, ?_, ?_⟩
    · rw [UInt32.add_assoc, UInt32.add_comm (.ofNat _)]
      rfl
    · split <;> simp
  | case3 p c cs hcrlf ih =>
    rw [ih, lineEnds.eq_3 c cs hcrlf, lastLine_cons]
    unfold past
    cases hc : isLineTerminator c <;> cases hcs : cs.any isLineTerminator <;>
      simp [hc, hcs, nextLine, UInt32.ofNat_add, UInt32.add_assoc, UInt32.add_comm] <;> omega

/-- A text after which `rest` stands does not end between CR and LF. -/
def Joint (before rest : List Char) : Prop :=
  before.getLast? = some '\r' → rest.head? ≠ some '\n'

theorem Joint.of_head {before rest : List Char} (h : rest.head? ≠ some '\n') :
    Joint before rest := fun _ => h

theorem Joint.of_getLast {before rest : List Char} (h : before.getLast? ≠ some '\r') :
    Joint before rest := fun hlast => absurd hlast h

theorem Joint.nil_right (before : List Char) : Joint before [] := .of_head (by simp)

/-- Only the end of a text matters, unless there is none. -/
theorem Joint.append_left {b rest : List Char} (a : List Char) (hb : b ≠ []) (h : Joint b rest) :
    Joint (a ++ b) rest := by
  intro hlast
  refine h ?_
  rwa [List.getLast?_append, List.getLast?_eq_some_getLast hb, Option.some_or,
    ← List.getLast?_eq_some_getLast hb] at hlast

/-- Moving past a text in two parts. -/
theorem after_append (p : Position) {a b : List Char} (h : Joint a b) :
    p.after (a ++ b) = (p.after a).after b := by
  fun_induction after p a with
  | case1 => rfl
  | case2 p cs ih =>
    refine ih fun hlast => h ?_
    rw [List.getLast?_cons_cons, List.getLast?_cons, hlast]
    rfl
  | case3 p c cs hcrlf ih =>
    rw [List.cons_append, after.eq_3 p c (cs ++ b), ih]
    · intro hlast
      refine h ?_
      rw [List.getLast?_cons, hlast]
      rfl
    · intro tail hc htail
      cases cs with
      | nil =>
        refine h (by rw [hc]; rfl) ?_
        rw [show b = '\n' :: tail from htail]
        rfl
      | cons d cs =>
        obtain ⟨rfl, -⟩ := List.cons.inj htail
        exact hcrlf _ hc rfl

end Position

/-- Counting from the beginning of a text comes to the place that the text before it says. -/
theorem after_origin (before : List Char) :
    Position.origin.after before = placeAfter before := by
  rw [Position.after_eq, placeAfter, Position.origin]
  cases h : before.any isLineTerminator
  · simp [lastLine_eq_self h]
  · simp

/-- `CR LF` ends one line, and a character of three bytes takes one column. -/
example : placeAfter ['a', '\r', '\n', '\u2028', '€', 'b'] = ⟨10, 3, 3⟩ := by decide

end WithScope
