import Mathlib.Data.List.TakeWhile
import WithScope.Text.Position

/-!
# The same text at two places

A text that stands at two places has each of its characters at two positions. An `Alignment` is the
text with the positions where the two copies begin. `shift` takes each position in the first copy to the
one in the second. So as to keep all positions apart, those that are not in the first copy are taken
behind the end of the second.

Lines and columns are counted in 32 bits, and a text may have more lines than that. So it is the offset
of a position that tells whether it is on the first line of the text, where columns count from the
beginning of the copy.
-/

namespace WithScope

/-- A text of which there are two copies. -/
structure Alignment where
  /-- the position of the first character of the one copy -/
  left : Position
  /-- the position of the first character of the other -/
  right : Position
  /-- the text -/
  text : List Char

namespace Alignment

variable (Φ : Alignment)

/-- The text up to the end of its first line. -/
def firstLine : List Char := Φ.text.takeWhile fun c => !isLineTerminator c

/-- The first copy has the position of an offset. -/
def Holds (offset : Nat) : Prop :=
  Φ.left.offset ≤ offset ∧ offset ≤ Φ.left.offset + byteLength Φ.text

instance (offset : Nat) : Decidable (Φ.Holds offset) := inferInstanceAs (Decidable (_ ∧ _))

/-- Where a position in the first copy is in the second. -/
def shift (p : Position) : Position :=
  if Φ.Holds p.offset then
    ⟨p.offset - Φ.left.offset + Φ.right.offset, p.line - Φ.left.line + Φ.right.line,
      if p.offset ≤ Φ.left.offset + byteLength Φ.firstLine then
        p.column - Φ.left.column + Φ.right.column
      else p.column⟩
  else ⟨p.offset + Φ.right.offset + byteLength Φ.text + 1, p.line, p.column⟩

/-- Different positions stay different. -/
theorem shift_injective : Function.Injective Φ.shift := by
  intro p p' h
  obtain ⟨offset, line, column⟩ := p
  obtain ⟨offset', line', column'⟩ := p'
  unfold shift at h
  by_cases hp : Φ.Holds offset <;> by_cases hp' : Φ.Holds offset'
  · rw [if_pos hp, if_pos hp'] at h
    simp only [Position.mk.injEq, UInt32.add_left_inj, UInt32.sub_left_inj] at h ⊢
    obtain ⟨hoffset, hline, hcolumn⟩ := h
    obtain ⟨hle, -⟩ := hp
    obtain ⟨hle', -⟩ := hp'
    obtain rfl : offset = offset' := by omega
    refine ⟨rfl, hline, ?_⟩
    split at hcolumn
    · simpa using hcolumn
    · exact hcolumn
  · rw [if_pos hp, if_neg hp'] at h
    obtain ⟨hle, hle'⟩ := hp
    simp only [Position.mk.injEq] at h
    omega
  · rw [if_neg hp, if_pos hp'] at h
    obtain ⟨hle, hle'⟩ := hp'
    simp only [Position.mk.injEq] at h
    omega
  · rw [if_neg hp, if_neg hp'] at h
    simp only [Position.mk.injEq] at h ⊢
    exact ⟨by omega, h.2⟩

/-- In the first copy a position has a part of the text after it. -/
def Ahead (rest : List Char) (p : Position) : Prop :=
  ∃ before, Φ.text = before ++ rest ∧ p.offset = Φ.left.offset + byteLength before

/-- The two positions stand at the same character of the text, with `rest` after it. -/
structure Match (rest : List Char) (p q : Position) : Prop where
  /-- the one is in the first copy -/
  ahead : Φ.Ahead rest p
  /-- the other is where it is taken to -/
  eq : q = Φ.shift p

variable {Φ}

/-- What stands in front of a position of the first line is all on this line. -/
theorem byteLength_le_firstLine_iff {before rest : List Char} (h : Φ.text = before ++ rest) :
    byteLength before ≤ byteLength Φ.firstLine ↔ ¬before.any isLineTerminator := by
  rw [firstLine, h, List.any_eq_true]
  constructor
  · rintro hle ⟨c, hc, hend⟩
    have hpos := c.utf8Size_pos
    obtain ⟨v, w, rfl⟩ := List.append_of_mem hc
    -- the first line stops in front of the end of a line, or before
    have hstop : byteLength ((v ++ c :: w ++ rest).takeWhile fun c => !isLineTerminator c) ≤
        byteLength v := by
      rw [List.append_assoc, List.takeWhile_append]
      split
      · simp [hend]
      · obtain ⟨u, hu⟩ := List.takeWhile_prefix (l := v) fun c => !isLineTerminator c
        have hlength := congrArg byteLength hu
        rw [byteLength_append] at hlength
        omega
    rw [byteLength_append, byteLength_cons] at hle
    omega
  · intro hline
    have hall : ∀ c ∈ before, !isLineTerminator c := by
      simpa using hline
    rw [List.takeWhile_append_of_pos hall, byteLength_append]
    exact Nat.le_add_right _ _

theorem shift_of_ahead {before rest : List Char} {p : Position} (h : Φ.text = before ++ rest)
    (hp : p.offset = Φ.left.offset + byteLength before) : Φ.shift p =
      ⟨byteLength before + Φ.right.offset, p.line - Φ.left.line + Φ.right.line,
        if before.any isLineTerminator then p.column
        else p.column - Φ.left.column + Φ.right.column⟩ := by
  have hholds : Φ.Holds p.offset := by
    rw [Holds, hp, h, byteLength_append]
    omega
  rw [shift, if_pos hholds, hp, Nat.add_sub_cancel_left]
  simp only [Nat.add_le_add_iff_left, byteLength_le_firstLine_iff h, ite_not]

variable (Φ)

theorem match_start : Φ.Match Φ.text Φ.left Φ.right := by
  refine ⟨⟨[], rfl, rfl⟩, ?_⟩
  rw [shift_of_ahead (show Φ.text = [] ++ Φ.text from rfl) rfl]
  simp

namespace Match

variable {Φ} {p q : Position} {rest : List Char}

/-- The end of a line leads to the beginning of the next one. -/
theorem nextLine {w : List Char} {n : Nat} (h : Φ.Match (w ++ rest) p q)
    (hend : ∃ c ∈ w, isLineTerminator c) (hn : byteLength w = n) :
    Φ.Match rest (p.nextLine n) (q.nextLine n) := by
  obtain ⟨⟨before, htext, hp⟩, rfl⟩ := h
  have htext' : Φ.text = (before ++ w) ++ rest := by rw [htext, List.append_assoc]
  have hp' : (p.nextLine n).offset = Φ.left.offset + byteLength (before ++ w) := by
    rw [byteLength_append, ← Nat.add_assoc, ← hp, hn]
    rfl
  have hline : (before ++ w).any isLineTerminator := by
    obtain ⟨c, hc, hterminator⟩ := hend
    exact List.any_eq_true.2 ⟨c, List.mem_append_right _ hc, hterminator⟩
  refine ⟨⟨_, htext', hp'⟩, ?_⟩
  rw [shift_of_ahead htext hp, shift_of_ahead htext' hp', if_pos hline]
  simp only [Position.nextLine, byteLength_append, hn, Position.mk.injEq, and_true]
  exact ⟨by omega, by grind⟩

theorem past {c : Char} (h : Φ.Match (c :: rest) p q) : Φ.Match rest (p.past c) (q.past c) := by
  unfold Position.past
  split
  · next hc => exact nextLine (w := [c]) h ⟨c, List.mem_singleton_self _, hc⟩ rfl
  next hc =>
  obtain ⟨⟨before, htext, hp⟩, rfl⟩ := h
  have htext' : Φ.text = (before ++ [c]) ++ rest := by rw [htext, List.append_assoc]; rfl
  have hp' : p.offset + c.utf8Size = Φ.left.offset + byteLength (before ++ [c]) := by
    rw [byteLength_append, ← Nat.add_assoc, ← hp]
    rfl
  have hline : (before ++ [c]).any isLineTerminator = before.any isLineTerminator := by
    simp [hc]
  refine ⟨⟨_, htext', hp'⟩, ?_⟩
  rw [shift_of_ahead htext hp,
    shift_of_ahead (p := ⟨p.offset + c.utf8Size, p.line, p.column + 1⟩) htext' hp']
  simp only [hline, byteLength_append, byteLength_cons, byteLength_nil, Position.mk.injEq, true_and]
  refine ⟨by omega, ?_⟩
  split
  · rfl
  · grind

/-- Matching positions still match after the same text. -/
theorem after {w : List Char} (h : Φ.Match (w ++ rest) p q) :
    Φ.Match rest (p.after w) (q.after w) := by
  fun_induction Position.after p w generalizing q with
  | case1 => exact h
  | case2 p cs ih =>
    exact ih (nextLine (w := ['\r', '\n']) h ⟨'\r', List.mem_cons_self .., rfl⟩ rfl)
  | case3 p c cs hcrlf ih =>
    rw [Position.after.eq_3 q c cs hcrlf]
    exact ih h.past

end Match

end Alignment

end WithScope
