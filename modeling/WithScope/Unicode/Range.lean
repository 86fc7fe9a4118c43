/-!
# Ranges of code points

A property of characters is given as a list of inclusive ranges of code points. The tables beside
this module hold the part of a property that lies beyond ASCII; each property answers for ASCII by
a rule of its own, so that a statement about ASCII text never meets a table.
-/

namespace WithScope.Unicode

/-- Whether the code point of `c` lies in one of the inclusive `ranges`. -/
def inRanges (ranges : List (Nat × Nat)) (c : Char) : Bool :=
  ranges.any fun range => range.1 ≤ c.toNat && c.toNat ≤ range.2

end WithScope.Unicode
