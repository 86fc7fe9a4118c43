import Mathlib.Data.List.TakeWhile
import WithScope.Token.Reading

/-!
# Splitters look one character ahead

The readers of tokens are put together from functions that cut off the beginning of a text. Such a
function sees the whole text, but where it cuts depends only on what it cuts off and on the
character after that. `Local` says so: exchange the text after the cut for one that begins with the
same character, or with a character that ends every token (`Calm`), and the cut stays where it is.
-/

namespace WithScope

/-! ## What may follow a token -/

/-- Whether a character ends the token before it, whatever token that is. -/
def isCalm (c : Char) : Bool := c == ' ' || c == '\n' || c == ')' || c == ';'

/-- A text that begins with no character that a token could go on with. -/
def Calm (y : List Char) : Prop := ∀ c ∈ y.head?, isCalm c

/-- A text may stand in place of another after a token, if the token looks one character ahead. -/
def HeadLike (x y : List Char) : Prop := x.head? = y.head? ∨ Calm y

theorem HeadLike.cons (c : Char) (x y : List Char) : HeadLike (c :: x) (c :: y) := .inl rfl

theorem HeadLike.append (w : List Char) {x y : List Char} (h : HeadLike x y) :
    HeadLike (w ++ x) (w ++ y) := by
  cases w with
  | nil => exact h
  | cons c w => exact .cons c _ _

theorem isCalm_iff {c : Char} : isCalm c ↔ c = ' ' ∨ c = '\n' ∨ c = ')' ∨ c = ';' := by
  simp [isCalm, or_assoc]

/-- What is true of the first character of a text and of all calm ones is true of the first
character of a text in its place. -/
theorem HeadLike.forall_head {x y : List Char} (h : HeadLike x y) {p : Char → Prop}
    (hp : ∀ c, isCalm c → p c) (hx : ∀ c ∈ x.head?, p c) : ∀ c ∈ y.head?, p c := by
  rcases h with h | h
  · exact h ▸ hx
  · exact fun c hc => hp c (h c hc)

/-- A text that begins with a character that is not calm can only stand in place of one that begins
with the same character. -/
theorem HeadLike.head_eq {x y : List Char} (h : HeadLike x y) {c : Char} (hc : c ∈ y.head?)
    (hcalm : isCalm c = false) : c ∈ x.head? := by
  rcases h with h | h
  · exact h ▸ hc
  · simp [h c hc] at hcalm

/-! ## Local splitters -/

/-- What a split begins with, once characters have been put in front of it. -/
theorem exists_of_prepend_eq {text body x : List Char} {parts : List Char × List Char}
    (h : prepend text parts = (body, x)) : ∃ body', parts = (body', x) ∧ body = text ++ body' := by
  cases h
  exact ⟨parts.1, rfl, rfl⟩

/-- A function that cuts off the beginning of a text and looks no further than one character beyond
it. -/
structure Local (split : List Char → List Char × List Char) : Prop where
  /-- nothing is lost -/
  append (cs : List Char) : (split cs).1 ++ (split cs).2 = cs
  /-- what stands after the cut may be exchanged -/
  exchange (cs : List Char) {y : List Char} (h : HeadLike (split cs).2 y) :
    split ((split cs).1 ++ y) = ((split cs).1, y)

namespace Local

variable {split : List Char → List Char × List Char}

/-- The text after the exchange may stand in place of the text before it. -/
theorem headLike (h : Local split) (cs : List Char) {y : List Char}
    (hy : HeadLike (split cs).2 y) : HeadLike cs ((split cs).1 ++ y) := by
  have happend := h.append cs
  cases hw : (split cs).1 with
  | nil =>
    rw [hw, List.nil_append] at happend
    exact happend ▸ hy
  | cons c w =>
    rw [hw] at happend
    rw [← happend]
    exact .cons c _ _

end Local

/-- What cuts nothing off is local. -/
theorem local_stop : Local fun cs => ([], cs) :=
  ⟨fun _ => rfl, fun _ _ _ => rfl⟩

/-- Cutting off the beginning of what is left after a cut is local. -/
theorem Local.andThen {f g : List Char → List Char × List Char} (hf : Local f) (hg : Local g) :
    Local fun cs => prepend (f cs).1 (g (f cs).2) where
  append cs := by
    rw [prepend_fst_append_snd, hg.append, hf.append]
  exchange cs y hy := by
    have hgy : HeadLike (f cs).2 ((g (f cs).2).1 ++ y) := hg.headLike _ hy
    have hfy := hf.exchange cs hgy
    rw [← List.append_assoc] at hfy
    change prepend (f ((f cs).1 ++ (g (f cs).2).1 ++ y)).1 (g (f ((f cs).1 ++ _ ++ y)).2) = _
    rw [hfy, hg.exchange _ hy]
    rfl

/-- A function that begins with one of some characters in one way, and goes on in another way
without them, is local if both ways are. -/
theorem Local.dispatch {f g k : List Char → List Char × List Char} (mark : Char → Bool)
    (hmark : ∀ c, isCalm c → mark c = false) (hg : Local g) (hk : Local k)
    (hcons : ∀ c cs, mark c → f (c :: cs) = prepend [c] (g cs))
    (helse : ∀ cs, (∀ c ∈ cs.head?, mark c = false) → f cs = k cs) : Local f := by
  have hcases (cs : List Char) : (∃ c tail, cs = c :: tail ∧ mark c) ∨ f cs = k cs := by
    cases cs with
    | nil => exact .inr (helse [] (by simp))
    | cons c cs =>
      cases hc : mark c with
      | true => exact .inl ⟨c, cs, rfl, hc⟩
      | false => exact .inr (helse _ (by simpa using hc))
  refine ⟨fun cs => ?_, fun cs y hy => ?_⟩
  · rcases hcases cs with ⟨c, cs, rfl, hc⟩ | h
    · rw [hcons c cs hc, prepend_fst_append_snd, hg.append]
      rfl
    · rw [h, hk.append]
  · cases cs with
    | nil =>
      rw [helse [] (by simp)] at hy ⊢
      rw [helse, hk.exchange [] hy]
      exact (hk.headLike [] hy).forall_head hmark (by simp)
    | cons c cs =>
      cases hc : mark c with
      | true =>
        rw [hcons c cs hc] at hy ⊢
        change f (c :: ((g cs).1 ++ y)) = _
        rw [hcons c _ hc, hg.exchange cs hy]
        rfl
      | false =>
        have helse' := helse (c :: cs) (by simpa using hc)
        rw [helse'] at hy ⊢
        rw [helse, hk.exchange _ hy]
        exact (hk.headLike _ hy).forall_head hmark (by simpa using hc)

theorem takeWhile_eq_nil {p : Char → Bool} {y : List Char} (h : ∀ c ∈ y.head?, p c = false) :
    y.takeWhile p = [] := by
  cases y with
  | nil => rfl
  | cons c y => exact List.takeWhile_cons_of_neg (by simp [h c rfl])

theorem dropWhile_eq_self {p : Char → Bool} {y : List Char} (h : ∀ c ∈ y.head?, p c = false) :
    y.dropWhile p = y := by
  cases y with
  | nil => rfl
  | cons c y => exact List.dropWhile_cons_of_neg (by simp [h c rfl])

theorem head_dropWhile {p : Char → Bool} (cs : List Char) :
    ∀ c ∈ (cs.dropWhile p).head?, p c = false := by
  intro c hc
  have h := List.head?_dropWhile_not p cs
  rw [Option.mem_def.1 hc] at h
  simpa using h

/-- A run of characters ends at the first that does not belong to it. -/
theorem splitWhile_append_of {p : Char → Bool} {w y : List Char} (hw : ∀ c ∈ w, p c)
    (hy : ∀ c ∈ y.head?, p c = false) : splitWhile p (w ++ y) = (w, y) := by
  rw [splitWhile, List.takeWhile_append_of_pos hw, List.dropWhile_append_of_pos hw,
    takeWhile_eq_nil hy, dropWhile_eq_self hy, List.append_nil]

theorem local_splitWhile {p : Char → Bool} (hp : ∀ c, isCalm c → p c = false) :
    Local (splitWhile p) where
  append cs := splitWhile_append p cs
  exchange cs _ h :=
    splitWhile_append_of (fun _ => List.mem_takeWhile_imp)
      (h.forall_head hp (head_dropWhile cs))

/-! ## Numerals -/

theorem isDigitIn_of_isCalm {base : Nat} {c : Char} (h : isCalm c) : isDigitIn base c = false := by
  rcases isCalm_iff.1 h with rfl | rfl | rfl | rfl <;> rfl

theorem local_splitDigits (base : Nat) : Local (splitDigits base) :=
  local_splitWhile fun c h => by
    rw [isDigitIn_of_isCalm h]
    rcases isCalm_iff.1 h with rfl | rfl | rfl | rfl <;> rfl

theorem local_splitExponentDigits : Local splitExponentDigits := by
  refine .dispatch (fun c => c == '+' || c == '-') (fun c h => ?_) (local_splitDigits 10)
    (local_splitDigits 10) (fun c cs h => ?_) fun cs h => ?_
  · rcases isCalm_iff.1 h with rfl | rfl | rfl | rfl <;> rfl
  · obtain rfl | rfl : c = '+' ∨ c = '-' := by simpa using h
    all_goals rfl
  · unfold splitExponentDigits
    split
    · cases h '+' rfl
    · cases h '-' rfl
    · rfl

theorem local_splitExponent : Local splitExponent := by
  refine .dispatch (fun c => c == 'e' || c == 'E') (fun c h => ?_) local_splitExponentDigits
    local_stop (fun c cs h => ?_) fun cs h => ?_
  · rcases isCalm_iff.1 h with rfl | rfl | rfl | rfl <;> rfl
  · obtain rfl | rfl : c = 'e' ∨ c = 'E' := by simpa using h
    all_goals rfl
  · unfold splitExponent
    split
    · cases h 'e' rfl
    · cases h 'E' rfl
    · rfl

theorem local_splitFraction : Local splitFraction := by
  refine .dispatch (· == '.') (fun c h => ?_) ((local_splitDigits 10).andThen local_splitExponent)
    local_splitExponent (fun c cs h => ?_) fun cs h => ?_
  · rcases isCalm_iff.1 h with rfl | rfl | rfl | rfl <;> rfl
  · obtain rfl : c = '.' := by simpa using h
    rfl
  · unfold splitFraction
    split
    · cases h '.' rfl
    · rfl

theorem local_splitDecimal : Local splitDecimal :=
  (local_splitDigits 10).andThen local_splitFraction

theorem baseOfLetter?_of_isCalm {c : Char} (h : isCalm c) : baseOfLetter? c = none := by
  rcases isCalm_iff.1 h with rfl | rfl | rfl | rfl <;> rfl

/-- A numeral without a letter for its base is a decimal one. -/
theorem splitNumeral_of {cs : List Char}
    (h : cs.head? = some '0' → ∀ c ∈ cs.tail.head?, baseOfLetter? c = none) :
    splitNumeral cs = splitDecimal cs := by
  unfold splitNumeral
  split
  · rw [h rfl _ rfl]
  · rfl

theorem local_splitNumeral : Local splitNumeral where
  append cs := by
    unfold splitNumeral
    split
    · split
      · rw [prepend_fst_append_snd, (local_splitDigits _).append]
        rfl
      · exact local_splitDecimal.append _
    · exact local_splitDecimal.append _
  exchange cs y hy := by
    by_cases h : cs.head? = some '0' → ∀ c ∈ cs.tail.head?, baseOfLetter? c = none
    · rw [splitNumeral_of h] at hy ⊢
      rw [splitNumeral_of, local_splitDecimal.exchange cs hy]
      -- the character after a leading zero is one of the numeral, or stands in place of one
      intro h0 c hc
      have happend := local_splitDecimal.append cs
      have hhead : cs.head? = some '0' :=
        (local_splitDecimal.headLike cs hy).head_eq h0 (by decide)
      cases hw : (splitDecimal cs).1 with
      | nil =>
        rw [hw, List.nil_append] at happend h0 hc
        obtain ⟨tail, rfl⟩ : ∃ tail, cs = '0' :: tail := by
          cases cs with
          | nil => cases hhead
          | cons d tail =>
            cases hhead
            exact ⟨tail, rfl⟩
        simp [splitDecimal, splitDigits, splitWhile, isDigitIn, prepend, hexDigit?] at hw
      | cons d w =>
        rw [hw] at happend h0 hc
        rw [← happend] at h hhead
        cases w with
        | nil =>
          refine hy.forall_head (fun _ => baseOfLetter?_of_isCalm) ?_ c hc
          exact h hhead
        | cons d' w => exact h hhead c hc
    · obtain ⟨h0, h⟩ := Classical.not_imp.1 h
      obtain ⟨c, h⟩ := not_forall.1 h
      obtain ⟨hc, hbase⟩ := Classical.not_imp.1 h
      obtain ⟨tail, rfl⟩ : ∃ tail, cs = '0' :: c :: tail := by
        rcases cs with _ | ⟨d, _ | ⟨d', tail⟩⟩ <;> cases h0 <;> cases hc
        exact ⟨tail, rfl⟩
      obtain ⟨base, hbase⟩ := Option.ne_none_iff_exists'.1 hbase
      simp only [splitNumeral, hbase] at hy ⊢
      change splitNumeral ('0' :: c :: ((splitDigits base tail).1 ++ y)) = _
      simp only [splitNumeral, hbase]
      rw [(local_splitDigits base).exchange tail hy]
      rfl

end WithScope
