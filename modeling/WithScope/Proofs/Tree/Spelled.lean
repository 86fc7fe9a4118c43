import WithScope.Proofs.Token.Adjoining
import WithScope.Proofs.Token.RegExp
import WithScope.Proofs.Tree.Located
import WithScope.Proofs.Tree.Ordinary

/-!
# How nodes are spelled

A node says where it stands, but not how the text there is made up. `Node.Spelled source n` says
what the text of the node `n` has to be where this decides what the text means:

* `Node.Ended` — what ends with a semicolon has one, or may do without it;
* `Node.Unbroken` — no line ends where it would cut something in two;
* `Node.Assembled` — the stretches of text in a template and its expressions make up the template,
  and a regular expression its body and its flags.

All of this is about single nodes, and none of it about ordinary ones (`Node.offOrdinary_spelled`),
of which patterns are some. So a tree all of whose nodes are spelled stays such when an expression
in it is read again as a pattern.
-/

namespace WithScope

variable {source : List Char}

/-! ## The ends of statements -/

/-- Statements, module declarations and class elements that end with a semicolon, unless it may be
left out. -/
def Node.Ended (source : List Char) : Node → Prop
  | .stmt (.varDecl d) => WithScope.Ended source d.loc
  | .stmt (.expr loc _) | .stmt (.return loc _) | .stmt (.throw loc _) | .stmt (.break loc _)
  | .stmt (.continue loc _) | .stmt (.debugger loc) => WithScope.Ended source loc
  | .module (.importFrom loc _ _ _) | .module (.exportAll loc _ _ _)
  | .module (.exportNamed loc _ _ none _) | .module (.exportDefault loc (.expr _)) =>
    WithScope.Ended source loc
  | .member (.field loc _ _ _) => WithScope.Ended source loc
  | _ => True

/-! ## What stands on one line -/

/-- Whether the word `async` stands in front of a function. -/
def Func.isAsync : Func → Bool
  | .mk _ _ isAsync _ _ _ => isAsync

/-- The word `async` is on the line of the word `function` after it. -/
def Func.Unbroken (source : List Char) (f : Func) : Prop :=
  f.isAsync →
    ∃ p q, AfterName source f.loc.start "async" p ∧ TextBetween source p q "function".toList

/-- How an updating operator is spelled. -/
def UpdateOp.spelling : UpdateOp → List Char
  | .increment => ['+', '+']
  | .decrement => ['-', '-']

/-- What stands before the arrow of an arrow function: a name or a list in parentheses, after the
word `async` on its line if the function is `async`. -/
inductive ArrowHead (source : List Char) (start stop : Position) : Bool → List Pat → Prop
  | name {id : Ident} (hloc : id.loc = ⟨start, stop⟩) :
      ArrowHead source start stop false [.ident id]
  | asyncName {id : Ident} (hasync : AfterName source start "async" id.loc.start)
      (hstop : id.loc.stop = stop) : ArrowHead source start stop true [.ident id]
  | list {params : List Pat} (hlist : InParens source start (params.map Pat.loc) stop) :
      ArrowHead source start stop false params
  | asyncList {params : List Pat} {p : Position} (hasync : AfterName source start "async" p)
      (hlist : InParens source p (params.map Pat.loc) stop) :
      ArrowHead source start stop true params

/-- The parameters of an arrow function, the arrow on their last line, and a gap before the body. -/
def UnbrokenArrow (source : List Char) (start : Position) (isAsync : Bool) (params : List Pat)
    (bodyStart : Position) : Prop :=
  ∃ p q r gap, ArrowHead source start p isAsync params ∧ Adjoins source p q ∧
    TextBetween source q r ['=', '>'] ∧ GapBetween source r bodyStart gap

/-- No line ends after a word that a line end would cut off from what belongs to it, nor before an
operator or arrow that it would cut off from what it belongs to. -/
def Node.Unbroken (source : List Char) : Node → Prop
  | .stmt (.return loc (some e)) => AfterWord source loc.start "return" e.loc.start
  | .stmt (.throw loc e) => AfterWord source loc.start "throw" e.loc.start
  | .stmt (.break loc (some label)) => AfterWord source loc.start "break" label.loc.start
  | .stmt (.continue loc (some label)) => AfterWord source loc.start "continue" label.loc.start
  | .stmt (.function f) | .expr (.function f) | .module (.exportDefault _ (.function f)) =>
    f.Unbroken source
  | .expr (.update loc op false e) =>
    ∃ p, Adjoins source e.loc.stop p ∧ TextBetween source p loc.stop op.spelling
  | .expr (.arrow loc isAsync params body) =>
    UnbrokenArrow source loc.start isAsync params body.located.loc.start
  | .expr (.yield loc true (some _)) =>
    ∃ p q, AfterName source loc.start "yield" p ∧ TextBetween source p q ['*']
  | .expr (.yield loc false (some e)) => AfterName source loc.start "yield" e.loc.start
  | _ => True

/-! ## Templates and regular expressions -/

/-- What stands behind a stretch of text in a template. -/
def Quasi.closing (q : Quasi) : List Char := if q.tail then ['\x60'] else ['$', '{']

/-- A stretch of text in a template is its raw text between its delimiters, of which `opening` is
the one before it, and stands for what escapes in it say, if all of them are legal. -/
structure Quasi.Spelled (source : List Char) (opening : Char) (q : Quasi) : Prop where
  text : TextBetween source q.loc.start q.loc.stop (opening :: q.raw.toList ++ q.closing)
  cooked : q.cooked = (unescape q.raw.toList).toOption.map String.ofList

/-- Stretches of text and expressions by turns, with gaps around the expressions, are the text from
one place to another. The last stretch is the tail and no other is. -/
inductive Assembles (source : List Char) :
    Char → List Quasi → List Expr → (start stop : Position) → List Char → Prop
  | tail {opening : Char} {q : Quasi} (hq : q.Spelled source opening) (htail : q.tail = true) :
      Assembles source opening [q] [] q.loc.start q.loc.stop (opening :: q.raw.toList ++ q.closing)
  | expression {opening : Char} {q : Quasi} {quasis : List Quasi} {e : Expr}
      {expressions : List Expr} {next stop : Position} {gap text gap' rest : List Char}
      (hq : q.Spelled source opening) (htail : q.tail = false)
      (hgap : GapBetween source q.loc.stop e.loc.start gap)
      (htext : TextBetween source e.loc.start e.loc.stop text)
      (hgap' : GapBetween source e.loc.stop next gap')
      (hrest : Assembles source '}' quasis expressions next stop rest) :
      Assembles source opening (q :: quasis) (e :: expressions) q.loc.start stop
        (opening :: q.raw.toList ++ q.closing ++ (gap ++ (text ++ (gap' ++ rest))))

namespace Assembles

variable {opening : Char} {quasis : List Quasi} {expressions : List Expr} {start stop : Position}
  {text : List Char} (h : Assembles source opening quasis expressions start stop text)
include h

theorem length : quasis.length = expressions.length + 1 := by
  induction h with
  | tail => rfl
  | expression _ _ _ _ _ _ ih => rw [List.length_cons, List.length_cons, ih]

theorem textBetween : TextBetween source start stop text := by
  induction h with
  | tail hq => exact hq.text
  | expression hq _ hgap htext hgap' _ ih =>
    exact hq.text.trans (hgap.textBetween.trans (htext.trans (hgap'.textBetween.trans ih)))

/-- Each stretch of text by its number. -/
theorem quasi {i : Nat} {q : Quasi} (hq : quasis[i]? = some q) :
    q.Spelled source (if i = 0 then opening else '}') ∧
      (q.tail = true ↔ i + 1 = quasis.length) := by
  induction h generalizing i with
  | tail hspelled htail =>
    obtain ⟨hi, rfl⟩ := List.getElem?_eq_some_iff.1 hq
    obtain rfl : i = 0 := by simpa using hi
    exact ⟨hspelled, by simpa using htail⟩
  | expression hspelled htail _ _ _ hrest ih =>
    cases i with
    | zero =>
      cases hq
      have hlength := hrest.length
      refine ⟨hspelled, ?_⟩
      simp only [htail, Bool.false_eq_true, false_iff, List.length_cons]
      omega
    | succ i =>
      obtain ⟨hspelled', htail'⟩ := ih (List.getElem?_cons_succ ▸ hq)
      have hopening : (if i = 0 then '}' else '}') = '}' := ite_self _
      rw [hopening] at hspelled'
      exact ⟨hspelled', by simpa using htail'⟩

end Assembles

/-- Templates are made up of their stretches of text and expressions, and without a tag there are no
illegal escapes in them. Regular expressions are made up of their bodies and flags. -/
def Node.Assembled (source : List Char) : Node → Prop
  | .template (.mk loc quasis expressions) =>
    ∃ text, Assembles source '\x60' quasis expressions loc.start loc.stop text
  | .expr (.template (.mk _ quasis _)) => ∀ q ∈ quasis, q.cooked.isSome
  | .expr (.regExp loc body flags) =>
    RegExpBetween source loc.start loc.stop body.toList flags.toList
  | _ => True

/-! ## All of it -/

namespace Node

/-- A node is spelled as its kind says. -/
structure Spelled (source : List Char) (n : Node) : Prop where
  ended : n.Ended source
  unbroken : n.Unbroken source
  assembled : n.Assembled source

/-- All nodes of a tree are spelled as their kinds say. -/
abbrev Written (source : List Char) (n : Node) : Prop := n.All (Spelled source)

/-- Ordinary nodes are spelled in no way of their own. -/
theorem offOrdinary_spelled : OffOrdinary (Spelled source) := by
  refine ⟨fun n hn => ?_⟩
  cases n with
  | expr e => cases e <;> first | exact ⟨trivial, trivial, trivial⟩ | cases hn
  | member m => cases m <;> first | exact ⟨trivial, trivial, trivial⟩ | cases hn
  | module d =>
    rcases d with _ | ⟨loc, specifiers, source, _ | declaration, attributes⟩ | _ | _ <;>
      first | exact ⟨trivial, trivial, trivial⟩ | cases hn
  | stmt s => cases s <;> first | exact ⟨trivial, trivial, trivial⟩ | cases hn
  | template t => cases hn
  | _ => exact ⟨trivial, trivial, trivial⟩

end Node

end WithScope
