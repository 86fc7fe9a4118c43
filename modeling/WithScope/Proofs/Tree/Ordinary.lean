import WithScope.Proofs.Tree.OffPatterns

/-!
# Properties that say nothing of ordinary nodes

Most nodes are ordinary: there is nothing to say of them but what there is to say of their parts.
The others are operations, which depend on the precedence of operators, and what depends on how its
text looks: what ends with a semicolon that may be left out, what must not be cut in two by a line
end, templates and regular expressions.

A property that says nothing of ordinary nodes (`Node.OffOrdinary`) passes from the parts of an
ordinary node to the whole.
-/

namespace WithScope.Node

/-- Whether there is nothing to say of a node but what there is to say of its parts. -/
def isOrdinary : Node → Bool
  | .expr (.regExp ..) | .expr (.template _) | .expr (.function _) | .expr (.arrow ..)
  | .expr (.unary ..) | .expr (.update ..) | .expr (.binary ..) | .expr (.logical ..)
  | .expr (.conditional ..) | .expr (.member ..) | .expr (.call ..) | .expr (.new ..)
  | .expr (.taggedTemplate ..) | .expr (.yield ..) | .expr (.await ..)
  | .expr (.privateIn ..) => false
  | .template _ | .member (.field ..) => false
  | .module (.importFrom ..) | .module (.exportNamed _ _ _ none _)
  | .module (.exportDefault ..) | .module (.exportAll ..) => false
  | .stmt (.varDecl _) | .stmt (.function _) | .stmt (.expr ..) | .stmt (.return ..)
  | .stmt (.throw ..) | .stmt (.break ..) | .stmt (.continue ..) | .stmt (.debugger _) => false
  | _ => true

/-- A property that says nothing of ordinary nodes. -/
structure OffOrdinary (P : Node → Prop) : Prop where
  /-- it holds of all of them -/
  ordinary : ∀ n, n.isOrdinary = true → P n

namespace OffOrdinary

variable {P : Node → Prop} (hP : OffOrdinary P) {n : Node}
include hP

/-- An ordinary node has what its children have. -/
theorem intro (hn : n.isOrdinary = true) (h : ∀ c ∈ n.children, c.All P) : n.All P :=
  .intro (hP.ordinary n hn) h

/-- An ordinary node that holds nothing. -/
theorem leaf (hn : n.isOrdinary = true) (hc : n.children = []) : n.All P :=
  hP.intro hn (by rw [hc]; exact List.forall_mem_nil _)

/-- It says nothing of patterns, which are ordinary. -/
theorem offPatterns : OffPatterns P := ⟨fun _ _ => hP.ordinary _ rfl, fun _ _ => hP.ordinary _ rfl⟩

end OffOrdinary

end WithScope.Node
