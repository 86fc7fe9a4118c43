/-!
# Splitting a text

A reader cuts a text in two, the part it has read and the rest. Both parts together are always the
whole text, in order.
-/

namespace WithScope

/-- Puts characters in front of the first part of a split text. -/
def prepend (text : List Char) (parts : List Char × List Char) : List Char × List Char :=
  (text ++ parts.1, parts.2)

@[simp] theorem prepend_fst_append_snd (text : List Char) (parts : List Char × List Char) :
    (prepend text parts).1 ++ (prepend text parts).2 = text ++ (parts.1 ++ parts.2) := by
  simp [prepend]

/-- Cuts a text before its first character that does not satisfy `p`. -/
def splitWhile (p : Char → Bool) (cs : List Char) : List Char × List Char :=
  (cs.takeWhile p, cs.dropWhile p)

@[simp] theorem splitWhile_append (p : Char → Bool) (cs : List Char) :
    (splitWhile p cs).1 ++ (splitWhile p cs).2 = cs := by
  simp [splitWhile]

/-- What is left after a split is no longer than the whole. -/
theorem length_snd_le_of_append {parts : List Char × List Char} {cs : List Char}
    (h : parts.1 ++ parts.2 = cs) : parts.2.length ≤ cs.length := by
  rw [← h, List.length_append]
  omega

end WithScope
