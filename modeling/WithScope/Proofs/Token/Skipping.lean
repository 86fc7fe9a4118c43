import WithScope.Token.Trivia

/-!
# What is skipped between tokens

`skipTrivia` goes along a gap and keeps track of the lines that end in it. That is the same as to cut
the text after the gap (`splitTrivia`) and to look through the gap afterwards for the end of a line:
a line comment and a `#!` line stop in front of one, and a block comment may have some inside.

* `splitBlanks_append` and the lemmas around it — how a gap is cut off;
* `skipBlanks_eq`, `skipTrivia_eq` — what is skipped is what is cut off, and the flag says whether a
  line ends in it.
-/

namespace WithScope

/-! ## Cutting a text after a gap -/

/-- Cuts a text after the first `*/`, if it has one. -/
def splitAfterCommentEnd? : List Char → Option (List Char × List Char)
  | [] => none
  | '*' :: '/' :: cs => some (['*', '/'], cs)
  | c :: cs => (splitAfterCommentEnd? cs).map (prepend [c])

theorem splitAfterCommentEnd?_append {cs : List Char} {parts : List Char × List Char}
    (h : splitAfterCommentEnd? cs = some parts) : parts.1 ++ parts.2 = cs := by
  fun_induction splitAfterCommentEnd? cs generalizing parts with
  | case1 => cases h
  | case2 cs => cases h; rfl
  | case3 c cs _ ih =>
    obtain ⟨parts', h', rfl⟩ := Option.map_eq_some_iff.1 h
    simp [ih h']

/-- Cuts a text after its longest beginning of white space, line ends and comments. -/
def splitBlanks (cs : List Char) : List Char × List Char :=
  match cs with
  | [] => ([], [])
  | '/' :: '/' :: cs =>
    have : (splitLine cs).2.length ≤ cs.length := length_snd_le_of_append (splitLine_append cs)
    prepend ('/' :: '/' :: (splitLine cs).1) (splitBlanks (splitLine cs).2)
  | '/' :: '*' :: cs =>
    match h : splitAfterCommentEnd? cs with
    | some comment =>
      have : comment.2.length ≤ cs.length :=
        length_snd_le_of_append (splitAfterCommentEnd?_append h)
      prepend ('/' :: '*' :: comment.1) (splitBlanks comment.2)
    | none => ([], '/' :: '*' :: cs)
  | c :: cs =>
    if isBlank c || isLineTerminator c then prepend [c] (splitBlanks cs) else ([], c :: cs)
termination_by cs.length

/-- Cuts a text after the gap that it begins with. Only a gap at the beginning of the whole text
may begin with a `#!` line. -/
def splitTrivia (atOrigin : Bool) (cs : List Char) : List Char × List Char :=
  match atOrigin, cs with
  | true, '#' :: '!' :: _ => prepend (splitLine cs).1 (splitBlanks (splitLine cs).2)
  | _, _ => splitBlanks cs

theorem splitBlanks_nil : splitBlanks [] = ([], []) := by
  rw [splitBlanks.eq_def]

theorem splitBlanks_line (cs : List Char) : splitBlanks ('/' :: '/' :: cs)
    = prepend ('/' :: '/' :: (splitLine cs).1) (splitBlanks (splitLine cs).2) := by
  conv => lhs; rw [splitBlanks.eq_def]
  split
  · next h => cases h
  · next h =>
    cases h
    rfl
  · next h => cases h
  · next hline _ h =>
    cases h
    exact (hline _ rfl rfl).elim

theorem splitBlanks_comment {cs : List Char} {comment : List Char × List Char}
    (h : splitAfterCommentEnd? cs = some comment) : splitBlanks ('/' :: '*' :: cs)
      = prepend ('/' :: '*' :: comment.1) (splitBlanks comment.2) := by
  conv => lhs; rw [splitBlanks.eq_def]
  simp only
  split
  · next comment' h' =>
    rw [h] at h'
    cases h'
    rfl
  · next h' =>
    rw [h] at h'
    cases h'

theorem splitBlanks_open {cs : List Char} (h : splitAfterCommentEnd? cs = none) :
    splitBlanks ('/' :: '*' :: cs) = ([], '/' :: '*' :: cs) := by
  rw [splitBlanks.eq_def]
  simp only
  split
  · next comment h' =>
    rw [h] at h'
    cases h'
  · rfl

theorem splitBlanks_blank {c : Char} (h : isBlank c || isLineTerminator c) (cs : List Char) :
    splitBlanks (c :: cs) = prepend [c] (splitBlanks cs) := by
  conv => lhs; rw [splitBlanks.eq_def]
  split
  · next hc => cases hc
  · next hc =>
    cases hc
    cases h
  · next hc =>
    cases hc
    cases h
  · next hc =>
    obtain ⟨rfl, rfl⟩ := List.cons.inj hc
    rw [if_pos h]

/-- Where neither white space nor a comment begins, there is no gap. -/
theorem splitBlanks_stop {c : Char} {cs : List Char} (h : (isBlank c || isLineTerminator c) = false)
    (hcomment : c = '/' → ∀ d ∈ cs.head?, d ≠ '/' ∧ d ≠ '*') :
    splitBlanks (c :: cs) = ([], c :: cs) := by
  rw [splitBlanks.eq_def]
  split
  · next hc => cases hc
  · next hc =>
    obtain ⟨rfl, rfl⟩ := List.cons.inj hc
    exact absurd rfl (hcomment rfl '/' rfl).1
  · next hc =>
    obtain ⟨rfl, rfl⟩ := List.cons.inj hc
    exact absurd rfl (hcomment rfl '*' rfl).2
  · next hc =>
    obtain ⟨rfl, rfl⟩ := List.cons.inj hc
    rw [if_neg (by simp [h])]

theorem splitBlanks_append (cs : List Char) : (splitBlanks cs).1 ++ (splitBlanks cs).2 = cs := by
  fun_induction splitBlanks cs with
  | case1 => rfl
  | case2 cs _ ih =>
    rw [prepend_fst_append_snd, ih]
    simp [splitLine_append]
  | case3 cs comment h _ ih =>
    rw [prepend_fst_append_snd, ih]
    simp [splitAfterCommentEnd?_append h]
  | case4 => rfl
  | case5 c cs _ _ _ ih =>
    rw [prepend_fst_append_snd, ih]
    rfl
  | case6 => rfl

/-! ## The flag -/

/-- Whether a line has ended, now that `text` is skipped too. -/
def Skipped.of (newline : Bool) (parts : List Char × List Char) : Skipped :=
  ⟨parts.1, parts.2, newline || parts.1.any isLineTerminator⟩

@[simp] theorem Skipped.prepend_of (text : List Char) (newline : Bool)
    (parts : List Char × List Char) :
    (Skipped.of (newline || text.any isLineTerminator) parts).prepend text
      = .of newline (WithScope.prepend text parts) := by
  simp [Skipped.of, Skipped.prepend, WithScope.prepend, Bool.or_assoc]

theorem skipComment?_eq (newline : Bool) (cs : List Char) :
    skipComment? newline cs = (splitAfterCommentEnd? cs).map (.of newline) := by
  fun_induction skipComment? newline cs with
  | case1 => rfl
  | case2 newline cs => simp [splitAfterCommentEnd?, Skipped.of, isLineTerminator]
  | case3 newline c cs hc ih =>
    rw [splitAfterCommentEnd?.eq_3 _ _ hc, ih, Option.map_map, Option.map_map]
    refine congrArg (Option.map · _) (funext fun parts => ?_)
    simpa using Skipped.prepend_of [c] newline parts

/-- No line ends in a line comment. -/
theorem any_splitLine (cs : List Char) : (splitLine cs).1.any isLineTerminator = false := by
  have hend : (splitLine cs).1.all fun c => !isLineTerminator c := List.all_takeWhile
  simpa using hend

theorem skipBlanks_eq (newline : Bool) (cs : List Char) :
    skipBlanks newline cs = .of newline (splitBlanks cs) := by
  fun_induction skipBlanks newline cs with
  | case1 newline => simp [splitBlanks_nil, Skipped.of]
  | case2 newline cs _ ih =>
    -- a line comment stops in front of the end of its line
    rw [splitBlanks_line, ← Skipped.prepend_of, ih]
    simp [any_splitLine, isLineTerminator]
  | case3 newline cs comment h _ ih =>
    rw [skipComment?_eq] at h
    obtain ⟨parts, hparts, rfl⟩ := Option.map_eq_some_iff.1 h
    rw [splitBlanks_comment hparts, ← Skipped.prepend_of, ih]
    simp [Skipped.of, isLineTerminator]
  | case4 newline cs h =>
    rw [skipComment?_eq, Option.map_eq_none_iff] at h
    rw [splitBlanks_open h]
    simp [Skipped.of]
  | case5 newline c cs _ _ hc ih =>
    rw [splitBlanks_blank (by simp [hc]), ← Skipped.prepend_of, ih]
    simp [hc]
  | case6 newline c cs _ _ hend hc ih =>
    rw [splitBlanks_blank (by simp [hc]), ← Skipped.prepend_of, ih]
    simp [hend]
  | case7 newline c cs hline hcomment hend hc =>
    rw [splitBlanks_stop (by simp [hc, hend]) fun hslash d hd => ?_]
    · simp [Skipped.of]
    · cases cs with
      | nil => cases hd
      | cons e cs =>
        cases hd
        exact ⟨fun h => hline cs hslash (h ▸ rfl), fun h => hcomment cs hslash (h ▸ rfl)⟩

/-- Going along a gap is cutting the text after it, and looking through it for the end of a line. -/
theorem skipTrivia_eq (atOrigin : Bool) (cs : List Char) :
    skipTrivia atOrigin cs = .of false (splitTrivia atOrigin cs) := by
  fun_cases splitTrivia atOrigin cs with
  | case1 tail =>
    rw [skipTrivia, skipBlanks_eq]
    simp [← Skipped.prepend_of, any_splitLine]
  | case2 _ _ hline => rw [skipTrivia.eq_2 _ _ hline, skipBlanks_eq]

end WithScope
