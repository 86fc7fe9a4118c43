import WithScope.Text.Position
import WithScope.Text.Split

/-!
# The gaps between tokens

Between two tokens may stand white space, line ends and comments, and before the first one a line
that begins with `#!`. `skipTrivia` goes past the longest such gap and keeps track of whether a line
ended on the way. A block comment that never ends is no part of the gap.
-/

namespace WithScope

/-- White space other than line ends. -/
def isBlank (c : Char) : Bool :=
  c == '\t' || c == '\x0b' || c == '\x0c' || c == ' ' || c == '\u00A0' || c == '\uFEFF'
    || c == '\u1680' || ('\u2000' ≤ c && c ≤ '\u200A') || c == '\u202F' || c == '\u205F'
    || c == '\u3000'

/-- Cuts a text before the end of its first line. -/
def splitLine (cs : List Char) : List Char × List Char :=
  splitWhile (fun c => !isLineTerminator c) cs

theorem splitLine_append (cs : List Char) : (splitLine cs).1 ++ (splitLine cs).2 = cs :=
  splitWhile_append _ _

/-- A text that something has been skipped of. -/
structure Skipped where
  /-- the text that is skipped -/
  text : List Char
  /-- the text that is left -/
  rest : List Char
  /-- whether a line has ended so far -/
  newline : Bool
deriving DecidableEq, Repr

/-- Puts characters in front of the text that is skipped. -/
def Skipped.prepend (text : List Char) (s : Skipped) : Skipped := { s with text := text ++ s.text }

/-- Skips what is left of a block comment, up to the first `*/`, if there is one. -/
def skipComment? (newline : Bool) : List Char → Option Skipped
  | [] => none
  | '*' :: '/' :: cs => some ⟨['*', '/'], cs, newline⟩
  | c :: cs => (skipComment? (newline || isLineTerminator c) cs).map (.prepend [c])

theorem length_rest_skipComment? {newline : Bool} {cs : List Char} {s : Skipped}
    (h : skipComment? newline cs = some s) : s.rest.length ≤ cs.length := by
  fun_induction skipComment? newline cs generalizing s with
  | case1 => cases h
  | case2 newline cs =>
    cases h
    exact Nat.le_add_right _ 2
  | case3 newline c cs _ ih =>
    obtain ⟨s', h', rfl⟩ := Option.map_eq_some_iff.1 h
    have hrest : s'.rest.length ≤ cs.length := ih h'
    exact Nat.le_succ_of_le hrest

/-- Skips white space, line ends and comments as long as there are any. -/
def skipBlanks (newline : Bool) (cs : List Char) : Skipped :=
  match cs with
  | [] => ⟨[], [], newline⟩
  | '/' :: '/' :: cs =>
    have : (splitLine cs).2.length ≤ cs.length := length_snd_le_of_append (splitLine_append cs)
    (skipBlanks newline (splitLine cs).2).prepend ('/' :: '/' :: (splitLine cs).1)
  | '/' :: '*' :: cs =>
    match h : skipComment? newline cs with
    | some comment =>
      have := length_rest_skipComment? h
      (skipBlanks comment.newline comment.rest).prepend ('/' :: '*' :: comment.text)
    | none => ⟨[], '/' :: '*' :: cs, newline⟩
  | c :: cs =>
    if isLineTerminator c then (skipBlanks true cs).prepend [c]
    else if isBlank c then (skipBlanks newline cs).prepend [c]
    else ⟨[], c :: cs, newline⟩
termination_by cs.length

/-- Skips the gap that a text begins with. Only a gap at the beginning of the whole text may begin
with a `#!` line. -/
def skipTrivia (atOrigin : Bool) (cs : List Char) : Skipped :=
  match atOrigin, cs with
  | true, '#' :: '!' :: _ => (skipBlanks false (splitLine cs).2).prepend (splitLine cs).1
  | _, _ => skipBlanks false cs

end WithScope
