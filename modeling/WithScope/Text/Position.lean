/-!
# Places in a text

A text is a list of characters. A place in it is known three ways at once: by its offset in UTF-8
bytes, by its line and by its column. All three are determined by the text before the place
(`Position.after`), so a reader that has moved past some characters knows where it stands. Lines and
columns are numbers of 32 bits, which start again from zero after 2³² of them.
-/

namespace WithScope

/-- The characters that end a line: LF, CR, and the line and paragraph separators. -/
def isLineTerminator (c : Char) : Bool :=
  c == '\n' || c == '\r' || c == '\u2028' || c == '\u2029'

/-- The length of a text in UTF-8 bytes. -/
def byteLength : List Char → Nat
  | [] => 0
  | c :: cs => c.utf8Size + byteLength cs

@[simp] theorem byteLength_nil : byteLength [] = 0 := rfl

@[simp] theorem byteLength_cons (c : Char) (cs : List Char) :
    byteLength (c :: cs) = c.utf8Size + byteLength cs := rfl

@[simp] theorem byteLength_append (a b : List Char) :
    byteLength (a ++ b) = byteLength a + byteLength b := by
  induction a with
  | nil => simp
  | cons c a ih => simp [ih, Nat.add_assoc]

/-- A place in a text. -/
structure Position where
  /-- UTF-8 bytes before the place -/
  offset : Nat
  /-- the line, counted from 1 -/
  line : UInt32
  /-- the column in characters, counted from 1 -/
  column : UInt32
deriving DecidableEq, Repr

namespace Position

/-- The beginning of every text. -/
def origin : Position := ⟨0, 1, 1⟩

/-- The start of the next line, `bytes` further on. -/
def nextLine (p : Position) (bytes : Nat) : Position := ⟨p.offset + bytes, p.line + 1, 1⟩

/-- The place just past the single character `c`. -/
def past (p : Position) (c : Char) : Position :=
  if isLineTerminator c then p.nextLine c.utf8Size
  else ⟨p.offset + c.utf8Size, p.line, p.column + 1⟩

/-- The place reached from `p` by moving past a text; CR LF ends one line, not two. -/
def after (p : Position) : List Char → Position
  | [] => p
  | '\r' :: '\n' :: cs => after (p.nextLine 2) cs
  | c :: cs => after (p.past c) cs

@[simp] theorem after_nil (p : Position) : p.after [] = p := rfl

@[simp] theorem offset_past (p : Position) (c : Char) :
    (p.past c).offset = p.offset + c.utf8Size := by
  unfold past nextLine; split <;> rfl

/-- Moving past a text adds its length in bytes to the offset. -/
theorem offset_after (p : Position) (cs : List Char) :
    (p.after cs).offset = p.offset + byteLength cs := by
  fun_induction after p cs with
  | case1 => rfl
  | case2 p cs ih =>
    rw [ih]
    simp only [nextLine, byteLength_cons, show Char.utf8Size '\r' = 1 from by decide,
      show Char.utf8Size '\n' = 1 from by decide]
    omega
  | case3 p c cs _ ih => rw [ih, offset_past, byteLength_cons]; omega

end Position

/-- A stretch of a text, from `start` up to but not including `stop`. -/
structure Span where
  /-- where the stretch begins -/
  start : Position
  /-- the place just past its last character -/
  stop : Position
deriving DecidableEq, Repr

/-- The stretch from the start of one span to the end of another. -/
def Span.to (a b : Span) : Span := ⟨a.start, b.stop⟩

end WithScope
