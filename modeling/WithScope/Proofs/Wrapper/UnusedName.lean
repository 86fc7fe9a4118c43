import Mathlib.Data.List.Dedup
import Mathlib.Data.List.Perm.Subperm
import Mathlib.Logic.Relation
import WithScope.Wrapper.UnusedName

/-!
# Unused names are unused

The names that are tried for a variable differ from each other, since each has one underscore more
than the one before. So no more of them are taken than there are taken names, and one of those that
are tried is not.

The names can also be tried one by one: as long as a name is taken, it gets an underscore more. Each
such round leaves fewer taken names that are at least as long as the name, so the rounds come to an
end, and they end at the unused name.
-/

namespace WithScope

theorem underscored_injective (base : String) : Function.Injective (underscored base) := by
  intro m n h
  have hlength := congrArg (fun name => name.toList.length) h
  simpa [underscored] using hlength

variable {base : String} {taken : List String}

/-- Names that are taken one after the other are no more than there are taken names. -/
theorem le_length_dedup_of_taken {n : Nat} (h : ∀ k < n, underscored base k ∈ taken) :
    n ≤ taken.dedup.length := by
  have hnodup : ((List.range n).map (underscored base)).Nodup :=
    List.nodup_range.map (underscored_injective base)
  have hsubset : (List.range n).map (underscored base) ⊆ taken.dedup := by
    intro name hname
    obtain ⟨k, hk, rfl⟩ := List.mem_map.1 hname
    exact List.mem_dedup.2 (h k (List.mem_range.1 hk))
  simpa using (hnodup.subperm hsubset).length_le

/-- An unused name has the least number of underscores with which it is not taken. -/
theorem exists_unusedName (base : String) (taken : List String) :
    ∃ k, unusedName base taken = underscored base k ∧ underscored base k ∉ taken ∧
      (∀ j < k, underscored base j ∈ taken) ∧ k ≤ taken.dedup.length := by
  have hfind : ((List.range (taken.length + 1)).map (underscored base)).find?
      (fun name => !taken.contains name) =
      ((List.range (taken.length + 1)).find? fun k => !taken.contains (underscored base k)).map
        (underscored base) := List.find?_map ..
  cases hk : (List.range (taken.length + 1)).find? fun k => !taken.contains (underscored base k) with
  | none =>
    -- more names than are taken would be taken
    have htaken : ∀ k < taken.length + 1, underscored base k ∈ taken := by
      simpa using List.find?_eq_none.1 hk
    have hdistinct := le_length_dedup_of_taken htaken
    have hall := (List.dedup_sublist taken).length_le
    omega
  | some k =>
    obtain ⟨hfree, -, hbelow⟩ := List.find?_range_eq_some.1 hk
    have hbelow : ∀ j < k, underscored base j ∈ taken := by simpa using hbelow
    refine ⟨k, ?_, by simpa using hfree, hbelow, le_length_dedup_of_taken hbelow⟩
    rw [unusedName]
    simp only [hfind, hk]
    rfl

/-- One round of the search: a name that is taken gets one underscore more. -/
def Lengthens (taken : List String) (name next : String) : Prop :=
  name ∈ taken ∧ next = name.push '_'

/-- How many taken names are left that are at least as long as a name. -/
def longTaken (taken : List String) (name : String) : Nat :=
  taken.countP fun other => name.length ≤ other.length

theorem underscored_zero (base : String) : underscored base 0 = base := by simp [underscored]

theorem underscored_succ (base : String) (k : Nat) :
    underscored base (k + 1) = (underscored base k).push '_' := by
  apply String.ext
  simp [underscored, List.replicate_succ']

/-- A round uses up a taken name. -/
theorem Lengthens.longTaken_lt {name next : String} (h : Lengthens taken name next) :
    longTaken taken next < longTaken taken name := by
  obtain ⟨htaken, rfl⟩ := h
  obtain ⟨before, after, rfl⟩ := List.append_of_mem htaken
  have hlonger : ∀ names : List String,
      longTaken names (name.push '_') ≤ longTaken names name := fun names =>
    List.countP_mono_left fun other _ hother => by
      simp only [String.length_push, decide_eq_true_eq] at hother ⊢
      omega
  have hbefore := hlonger before
  have hafter := hlonger after
  simp only [longTaken, List.countP_append, List.countP_cons, String.length_push,
    decide_eq_true_eq] at hbefore hafter ⊢
  simp only [Nat.le_refl, ↓reduceIte, Nat.not_succ_le_self]
  omega

/-- There is no endless search. -/
theorem acc_lengthens (taken : List String) (base : String) :
    Acc (fun next name => Lengthens taken name next) base :=
  (Subrelation.wf Lengthens.longTaken_lt (InvImage.wf (longTaken taken) Nat.lt_wfRel.wf)).apply base

/-- After `k` rounds a name has `k` underscores more. -/
theorem lengthens_underscored {k : Nat} (h : ∀ j < k, underscored base j ∈ taken) :
    Relation.ReflTransGen (Lengthens taken) base (underscored base k) := by
  induction k with
  | zero =>
    rw [underscored_zero]
  | succ k ih =>
    exact (ih fun j hj => h j (by omega)).tail ⟨h k (by omega), underscored_succ base k⟩

/-- **Unused names.** The search ends for every name and whatever names are taken, and what it ends
at is the name with the least number of underscores with which it is in neither collection. They are
no more than there are different names in the two. -/
theorem search_unusedName (base : String) (vars exclude : List String) :
    Acc (fun next name => Lengthens (vars ++ exclude) name next) base ∧
      ∃ k, unusedName base (vars ++ exclude) = base ++ String.ofList (List.replicate k '_') ∧
        Relation.ReflTransGen (Lengthens (vars ++ exclude)) base
          (unusedName base (vars ++ exclude)) ∧
        unusedName base (vars ++ exclude) ∉ vars ∧ unusedName base (vars ++ exclude) ∉ exclude ∧
        (∀ j < k, base ++ String.ofList (List.replicate j '_') ∈ vars ∨
          base ++ String.ofList (List.replicate j '_') ∈ exclude) ∧
        k ≤ (vars ++ exclude).dedup.length := by
  refine ⟨acc_lengthens _ base, ?_⟩
  obtain ⟨k, hname, hfree, hbelow, hk⟩ := exists_unusedName base (vars ++ exclude)
  obtain ⟨hvars, hexclude⟩ : underscored base k ∉ vars ∧ underscored base k ∉ exclude := by
    simpa using hfree
  rw [hname]
  exact ⟨k, rfl, lengthens_underscored hbelow, hvars, hexclude,
    fun j hj => List.mem_append.1 (hbelow j hj), hk⟩

example : unusedName "x" (["x__"] ++ ["x", "x_"]) = "x___" := by decide

end WithScope
