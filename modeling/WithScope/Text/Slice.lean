import WithScope.Text.Position

/-!
# Parts of a text by byte offset

Spans count bytes, texts are lists of characters. `dropBytes` and `takeBytes` cut a text at a byte
offset; `slice` is the text that a span covers.
-/

namespace WithScope

/-- The text left after its first `n` bytes. An offset inside a character keeps what follows it. -/
def dropBytes : Nat → List Char → List Char
  | 0, cs => cs
  | _ + 1, [] => []
  | n + 1, c :: cs => dropBytes (n + 1 - c.utf8Size) cs

/-- The first `n` bytes of a text. -/
def takeBytes : Nat → List Char → List Char
  | 0, _ => []
  | _ + 1, [] => []
  | n + 1, c :: cs => c :: takeBytes (n + 1 - c.utf8Size) cs

/-- The part of `text` that `span` covers. -/
def slice (text : List Char) (span : Span) : List Char :=
  takeBytes (span.stop.offset - span.start.offset) (dropBytes span.start.offset text)

@[simp] theorem dropBytes_zero (cs : List Char) : dropBytes 0 cs = cs := by
  cases cs <;> rfl

@[simp] theorem takeBytes_zero (cs : List Char) : takeBytes 0 cs = [] := by
  cases cs <;> rfl

/-- Dropping as many bytes as a text begins with leaves the rest. -/
theorem dropBytes_byteLength_append (a b : List Char) : dropBytes (byteLength a) (a ++ b) = b := by
  induction a with
  | nil => simp
  | cons c a ih =>
    obtain ⟨k, hk⟩ : ∃ k, c.utf8Size + byteLength a = k + 1 :=
      ⟨c.utf8Size + byteLength a - 1, by have := c.utf8Size_pos; omega⟩
    simp only [byteLength_cons, List.cons_append, hk, dropBytes]
    rw [← hk, Nat.add_sub_cancel_left, ih]

/-- Taking as many bytes as a text begins with gives that beginning. -/
theorem takeBytes_byteLength_append (a b : List Char) : takeBytes (byteLength a) (a ++ b) = a := by
  induction a with
  | nil => simp
  | cons c a ih =>
    obtain ⟨k, hk⟩ : ∃ k, c.utf8Size + byteLength a = k + 1 :=
      ⟨c.utf8Size + byteLength a - 1, by have := c.utf8Size_pos; omega⟩
    simp only [byteLength_cons, List.cons_append, hk, takeBytes]
    rw [← hk, Nat.add_sub_cancel_left, ih]

end WithScope
