import WithScope.Proofs.Token.Splitting
import WithScope.Proofs.Token.Skipping

/-!
# Gaps look no further than the token after them

A gap ends where no white space, line end or comment begins. Exchange the text after it for one that
begins with the same character, and with no comment, and the gap stays what it is.
-/

namespace WithScope

theorem fst_ne_nil_of_splitAfterCommentEnd? {cs : List Char} {parts : List Char × List Char}
    (h : splitAfterCommentEnd? cs = some parts) : parts.1 ≠ [] := by
  unfold splitAfterCommentEnd? at h
  split at h
  · cases h
  · cases h
    simp
  · obtain ⟨parts', -, rfl⟩ := Option.map_eq_some_iff.1 h
    simp [prepend]

/-- A comment ends at its first `*/`, whatever follows. -/
theorem splitAfterCommentEnd?_exchange {cs w x : List Char}
    (h : splitAfterCommentEnd? cs = some (w, x)) (y : List Char) :
    splitAfterCommentEnd? (w ++ y) = some (w, y) := by
  fun_induction splitAfterCommentEnd? cs generalizing w with
  | case1 => cases h
  | case2 cs =>
    cases h
    rfl
  | case3 c cs hc ih =>
    obtain ⟨⟨w', x'⟩, h', heq⟩ := Option.map_eq_some_iff.1 h
    obtain ⟨w', hw, rfl⟩ := exists_of_prepend_eq heq
    cases hw
    have happend := splitAfterCommentEnd?_append h'
    rw [List.append_assoc, List.singleton_append, splitAfterCommentEnd?.eq_3, ih h']
    · rfl
    · intro tail hstar htail
      cases w' with
      | nil => exact fst_ne_nil_of_splitAfterCommentEnd? h' rfl
      | cons d w' =>
        obtain ⟨rfl, -⟩ := List.cons.inj htail
        exact hc _ hstar happend.symm

/-- The text `u'` begins as `u` does, and with no comment. -/
def BeginsAs (u u' : List Char) : Prop :=
  ∃ c v v', u = c :: v ∧ u' = c :: v' ∧ (c = '/' → ∀ d ∈ v'.head?, d ≠ '/' ∧ d ≠ '*')

theorem splitBlanks_exchange {cs g u u' : List Char} (h : splitBlanks cs = (g, u))
    (hu : BeginsAs u u') : splitBlanks (g ++ u') = (g, u') := by
  fun_induction splitBlanks cs generalizing g with
  | case1 =>
    obtain ⟨c, v, v', rfl, -⟩ := hu
    cases h
  | case2 cs _ ih =>
    obtain ⟨g, hg, rfl⟩ := exists_of_prepend_eq h
    have hrest : g ++ u = (splitLine cs).2 := by
      rw [← splitBlanks_append (splitLine cs).2, hg]
    -- the comment ends with its line, and the end of the line belongs to the gap
    have hend : ∀ c ∈ (splitLine cs).2.head?, isLineTerminator c := fun c hc => by
      simpa using head_dropWhile cs c hc
    have hline : splitLine ((splitLine cs).1 ++ (g ++ u')) = ((splitLine cs).1, g ++ u') := by
      refine splitWhile_append_of (fun _ => List.mem_takeWhile_imp) fun c hc => ?_
      cases g with
      | nil =>
        obtain ⟨d, v, v', rfl, -⟩ := hu
        have hd := hend d (by rw [← hrest]; rfl)
        rw [← hrest, List.nil_append, splitBlanks_blank (by simp [hd])] at hg
        cases congrArg Prod.fst hg
      | cons d g =>
        obtain rfl : d = c := by simpa using hc
        simp [hend d (by rw [← hrest]; rfl)]
    simp only [List.cons_append, List.append_assoc]
    rw [splitBlanks_line, hline, ih hg]
    simp [prepend]
  | case3 cs comment hcomment _ ih =>
    obtain ⟨g, hg, rfl⟩ := exists_of_prepend_eq h
    have hcomment' := splitAfterCommentEnd?_exchange hcomment (g ++ u')
    simp only [List.cons_append, List.append_assoc]
    rw [splitBlanks_comment hcomment', ih hg]
    simp [prepend]
  | case4 cs hcomment =>
    cases h
    obtain ⟨c, v, v', hcs, rfl, hcomment⟩ := hu
    obtain ⟨rfl, rfl⟩ := List.cons.inj hcs
    exact splitBlanks_stop rfl hcomment
  | case5 c cs _ _ hc ih =>
    obtain ⟨g, hg, rfl⟩ := exists_of_prepend_eq h
    rw [List.append_assoc, List.singleton_append, splitBlanks_blank hc, ih hg]
    rfl
  | case6 c cs hline hblock hc =>
    cases h
    obtain ⟨c', v, v', hcs, rfl, hcomment⟩ := hu
    obtain ⟨rfl, rfl⟩ := List.cons.inj hcs
    exact splitBlanks_stop (by simpa using hc) hcomment

/-- A gap takes all line comments with it. -/
theorem ne_comment_of_splitBlanks {cs g v : List Char} :
    splitBlanks cs ≠ (g, '/' :: '/' :: v) := by
  intro h
  fun_induction splitBlanks cs generalizing g with
  | case1 => cases h
  | case2 cs _ ih =>
    obtain ⟨g, hg, -⟩ := exists_of_prepend_eq h
    exact ih hg
  | case3 cs comment _ _ ih =>
    obtain ⟨g, hg, -⟩ := exists_of_prepend_eq h
    exact ih hg
  | case4 => cases h
  | case5 c cs _ _ _ ih =>
    obtain ⟨g, hg, -⟩ := exists_of_prepend_eq h
    exact ih hg
  | case6 c cs hline _ _ =>
    cases h
    exact hline v rfl rfl

theorem ne_comment_of_splitTrivia (atOrigin : Bool) (cs v : List Char) :
    (splitTrivia atOrigin cs).2 ≠ '/' :: '/' :: v := by
  intro h
  unfold splitTrivia at h
  split at h
  · exact ne_comment_of_splitBlanks (Prod.ext rfl h)
  · exact ne_comment_of_splitBlanks (Prod.ext rfl h)

end WithScope
