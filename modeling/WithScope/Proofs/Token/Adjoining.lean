import WithScope.Proofs.Text.Between
import WithScope.Proofs.Token.Standing

/-!
# What stands between tokens

Between two tokens there is a gap, and what a text means may depend on whether a line ends in it.
The notions here say where in a text such gaps are, in terms of places and not of the tokens beside
them.

* `Adjoins` — no line ends between two places;
* `Ended` — where a construct ends that may end without its semicolon;
* `InParens` — where the parenthesis stands that closes a list.
-/

namespace WithScope

variable {source : List Char} {p q r : Position} {text gap : List Char}

/-- A gap, and nothing else, goes from one place of a text to another. -/
def GapBetween (source : List Char) (p q : Position) (gap : List Char) : Prop :=
  ∃ before rest, source = before ++ gap ++ rest ∧ p = placeAfter before ∧
    q = placeAfter (before ++ gap) ∧ GapAfter before rest gap

theorem GapBetween.textBetween (h : GapBetween source p q gap) : TextBetween source p q gap := by
  obtain ⟨before, rest, hsource, hp, hq, -⟩ := h
  exact ⟨before, rest, hsource, hp, hq⟩

/-- Nothing but a gap stands between two places, and no line ends in it, be it inside of a
comment. -/
def Adjoins (source : List Char) (p q : Position) : Prop :=
  ∃ gap, GapBetween source p q gap ∧ ∀ c ∈ gap, isLineTerminator c = false

/-- An identifier that stands for `name` goes from one place to another, escaped or not. -/
def NameBetween (source : List Char) (p q : Position) (name : String) : Prop :=
  ∃ before text rest, source = before ++ text ++ rest ∧ p = placeAfter before ∧
    q = placeAfter (before ++ text) ∧
    readIdentifier (text ++ rest) = .token (text, rest) .identifier (.text name)

/-- A construct ends with a semicolon, or where one may be left out: there follows, after a gap, a
closing brace or the end of the text, or a line ends in the gap. -/
def Ended (source : List Char) (loc : Span) : Prop :=
  (∃ text, TextBetween source loc.start loc.stop (text ++ [';'])) ∨
  ∃ before gap rest, source = before ++ gap ++ rest ∧ loc.stop = placeAfter before ∧
    GapAfter before rest gap ∧
    (rest.head? = some '}' ∨ rest = [] ∨ ∃ c ∈ gap, isLineTerminator c)

/-- How far a list goes that begins at `opening` and whose items have the given spans: to the end of
the last item, or past a comma that only a gap separates from it. -/
inductive ItemsUpTo (source : List Char) (opening : Position) : List Span → Position → Prop
  | none : ItemsUpTo source opening [] opening
  | item {locs : List Span} {loc : Span} {text : List Char}
      (htext : TextBetween source opening loc.stop text) :
      ItemsUpTo source opening (locs ++ [loc]) loc.stop
  | comma {locs : List Span} {loc : Span} {text gap : List Char} {p q : Position}
      (htext : TextBetween source opening loc.stop text)
      (hgap : GapBetween source loc.stop p gap) (hcomma : TextBetween source p q [',']) :
      ItemsUpTo source opening (locs ++ [loc]) q

/-- Items in parentheses go from one place to another. The parenthesis that closes them is the one
that only a gap separates from the last item or the comma after it. -/
def InParens (source : List Char) (start : Position) (locs : List Span) (stop : Position) : Prop :=
  ∃ opening p q gap, TextBetween source start opening ['('] ∧ ItemsUpTo source opening locs p ∧
    GapBetween source p q gap ∧ TextBetween source q stop [')']

/-- A word begins at one place, and what adjoins it at the other. -/
def AfterWord (source : List Char) (p : Position) (word : String) (q : Position) : Prop :=
  ∃ stop, TextBetween source p stop word.toList ∧ Adjoins source stop q

/-- As `AfterWord`, for a word that is not reserved and may be spelled with escapes. -/
def AfterName (source : List Char) (p : Position) (name : String) (q : Position) : Prop :=
  ∃ stop, NameBetween source p stop name ∧ Adjoins source stop q

end WithScope
