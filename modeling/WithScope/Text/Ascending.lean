/-!
# Names in ascending order

Names are ordered by the code points of their characters, and each is listed once.
-/

namespace WithScope

/-- Puts a name where it belongs in an ascending list, unless it is there already. -/
def insertName (x : String) : List String → List String
  | [] => [x]
  | y :: ys => if x < y then x :: y :: ys else if x = y then y :: ys else y :: insertName x ys

/-- The names of a list in ascending order, each once. -/
def ascending : List String → List String
  | [] => []
  | x :: xs => insertName x (ascending xs)

theorem mem_insertName {x y : String} {ys : List String} :
    y ∈ insertName x ys ↔ y = x ∨ y ∈ ys := by
  induction ys with
  | nil => simp [insertName]
  | cons z ys ih =>
    unfold insertName
    split
    · simp
    · split
      · simp_all
      · simp [ih]
        grind

/-- No name is lost and none is added. -/
theorem mem_ascending {x : String} {xs : List String} : x ∈ ascending xs ↔ x ∈ xs := by
  induction xs with
  | nil => simp [ascending]
  | cons y ys ih => simp [ascending, mem_insertName, ih]

theorem pairwise_insertName {x : String} {ys : List String} (h : ys.Pairwise (· < ·)) :
    (insertName x ys).Pairwise (· < ·) := by
  induction ys with
  | nil => exact List.pairwise_singleton _ _
  | cons y ys ih =>
    obtain ⟨hy, hys⟩ := List.pairwise_cons.1 h
    unfold insertName
    split
    case isTrue hxy =>
      refine List.pairwise_cons.2 ⟨fun z hz => ?_, h⟩
      rcases List.mem_cons.1 hz with rfl | hz
      · exact hxy
      · exact String.lt_trans hxy (hy z hz)
    case isFalse hxy =>
      split
      case isTrue => exact h
      case isFalse hne =>
        refine List.pairwise_cons.2 ⟨fun z hz => ?_, ih hys⟩
        rcases mem_insertName.1 hz with rfl | hz
        · exact String.not_le.1 fun h => hne (String.le_antisymm h (String.not_lt.1 hxy))
        · exact hy z hz

/-- The names ascend. -/
theorem pairwise_ascending (xs : List String) : (ascending xs).Pairwise (· < ·) := by
  induction xs with
  | nil => exact .nil
  | cons x xs ih => exact pairwise_insertName ih

/-- Each name is listed once. -/
theorem nodup_ascending (xs : List String) : (ascending xs).Nodup :=
  (pairwise_ascending xs).imp fun h => by rintro rfl; exact String.lt_irrefl _ h

/-- Names that ascend are the names of a list in ascending order if they are the same names. -/
theorem eq_ascending {names xs : List String} (h : names.Pairwise (· < ·))
    (hmem : ∀ x, x ∈ names ↔ x ∈ xs) : names = ascending xs := by
  have hnodup : names.Nodup := h.imp fun h => by rintro rfl; exact String.lt_irrefl _ h
  have hperm : names.Perm (ascending xs) :=
    (List.perm_ext_iff_of_nodup hnodup (nodup_ascending xs)).2 fun x =>
      (hmem x).trans mem_ascending.symm
  refine hperm.eq_of_pairwise (fun x y _ _ hxy hyx => ?_) h (pairwise_ascending xs)
  exact absurd (String.lt_trans hxy hyx) (String.lt_irrefl x)

end WithScope
