import Mathlib.Data.List.Basic
import Mathlib.Data.List.Induction
import WithScope.Proofs.Token.Splitting

/-!
# Code points in hexadecimal digits

Escapes write characters as numbers in hexadecimal digits of either case. `Writes` says which digits
write a number, and `CodePoint` how a code point is written after a `\u`, both without the functions
that read them. There has to be a digit between braces at least. Digits are counted in 32 bits, which
goes wrong where there are 2³¹ of them or more: `Counted` says which numbers of digits are taken for
at least one.

* `writes_iff` — what the reader of digits makes of them;
* `readCodePoint?_eq_some_iff` — the code points that are read are those that are written.
-/

namespace WithScope

/-! ## Digits -/

/-- A hexadecimal digit in either case, and its value. -/
def IsDigit (d : Char) (value : Nat) : Prop :=
  value < 16 ∧ (d = Nat.digitChar value ∨ d = (Nat.digitChar value).toUpper)

instance (d : Char) (value : Nat) : Decidable (IsDigit d value) :=
  inferInstanceAs (Decidable (_ ∧ _))

/-- Hexadecimal digits write a number, the most significant first. -/
inductive Writes : List Char → Nat → Prop
  | nil : Writes [] 0
  | concat {digits : List Char} {n : Nat} {d : Char} {value : Nat} (h : Writes digits n)
      (hd : IsDigit d value) : Writes (digits ++ [d]) (16 * n + value)

theorem toNat_lt_of_hexDigit? {d : Char} {value : Nat} (h : hexDigit? d = some value) :
    d.toNat < 128 := by
  have hle {last : Char} (hlast : last.toNat < 128) (hd : d ≤ last) : d.toNat < 128 :=
    Nat.lt_of_le_of_lt hd hlast
  unfold hexDigit? at h
  split at h
  · exact hle (by decide) ‹_ ∧ d ≤ '9'›.2
  split at h
  · exact hle (by decide) ‹_ ∧ d ≤ 'f'›.2
  split at h
  · exact hle (by decide) ‹_ ∧ d ≤ 'F'›.2
  · cases h

theorem hexDigit?_eq_some_iff {d : Char} {value : Nat} :
    hexDigit? d = some value ↔ IsDigit d value := by
  constructor
  · intro h
    have hall : ∀ n < 128, ∀ v ∈ hexDigit? (Char.ofNat n), IsDigit (Char.ofNat n) v := by decide
    have hd := hall d.toNat (toNat_lt_of_hexDigit? h)
    rw [Char.ofNat_toNat] at hd
    exact hd value h
  · have hall : ∀ v < 16, hexDigit? (Nat.digitChar v) = some v ∧
        hexDigit? (Nat.digitChar v).toUpper = some v := by decide
    rintro ⟨hlt, rfl | rfl⟩
    · exact (hall value hlt).1
    · exact (hall value hlt).2

theorem isHexDigit_iff {d : Char} : isHexDigit d ↔ ∃ value, IsDigit d value := by
  rw [isHexDigit, Option.isSome_iff_exists]
  exact exists_congr fun _ => hexDigit?_eq_some_iff

theorem digitsValue_concat (base : Nat) (digits : List Char) (d : Char) :
    digitsValue base (digits ++ [d])
      = base * digitsValue base digits + (hexDigit? d).getD 0 := by
  rw [digitsValue, List.foldl_append]
  rfl

/-- Characters write a number iff all of them are digits and it is their value. -/
theorem writes_iff {digits : List Char} {n : Nat} :
    Writes digits n ↔ (∀ d ∈ digits, isHexDigit d) ∧ digitsValue 16 digits = n := by
  constructor
  · intro h
    induction h with
    | nil => exact ⟨List.forall_mem_nil _, rfl⟩
    | @concat digits n d value _ hd ih =>
      obtain ⟨hdigits, hn⟩ := ih
      refine ⟨fun d' hd' => ?_, ?_⟩
      · rcases List.mem_append.1 hd' with hd' | hd'
        · exact hdigits d' hd'
        · exact isHexDigit_iff.2 ⟨value, List.mem_singleton.1 hd' ▸ hd⟩
      · rw [digitsValue_concat, hn, hexDigit?_eq_some_iff.2 hd, Option.getD_some]
  · rintro ⟨hdigits, rfl⟩
    induction digits using List.reverseRecOn with
    | nil => exact .nil
    | append_singleton digits d ih =>
      obtain ⟨value, hvalue⟩ := isHexDigit_iff.1 (hdigits d (by simp))
      rw [digitsValue_concat, hexDigit?_eq_some_iff.2 hvalue]
      exact .concat (ih fun d' hd' => hdigits d' (List.mem_append_left _ hd')) hvalue

/-! ## Code points -/

/-- Whether a count in 32 bits, the highest of them for the sign, says of so many digits that there are
any. -/
def Counted (n : Nat) : Prop := 0 < Int32.ofNat n

instance (n : Nat) : Decidable (Counted n) := inferInstanceAs (Decidable (_ < _))

/-- A text begins with a code point as it is written after a `\u`, and goes on with the rest. The code
point has four digits, or enough of them between braces. -/
inductive CodePoint (enough : Nat → Prop) : List Char → Nat → List Char → Prop
  | unit {digits rest : List Char} {n : Nat} (hlength : digits.length = 4) (h : Writes digits n) :
      CodePoint enough (digits ++ rest) n rest
  | braced {digits rest : List Char} {n : Nat} (hcount : enough digits.length)
      (h : Writes digits n) (hle : n ≤ 0x10FFFF) :
      CodePoint enough ('{' :: (digits ++ '}' :: rest)) n rest

/-- A code point is written by digits and braces, whatever follows it. -/
theorem CodePoint.split {enough : Nat → Prop} {cs rest : List Char} {n : Nat}
    (h : CodePoint enough cs n rest) :
    ∃ w, cs = w ++ rest ∧ (∀ c ∈ w, isHexDigit c ∨ c = '{' ∨ c = '}') ∧
      ∀ rest', CodePoint enough (w ++ rest') n rest' := by
  cases h with
  | @unit digits _ _ hlength h =>
    exact ⟨digits, rfl, fun c hc => .inl ((writes_iff.1 h).1 c hc), fun _ => .unit hlength h⟩
  | @braced digits _ _ hcount h hle =>
    refine ⟨'{' :: (digits ++ ['}']), by simp, fun c hc => ?_, fun rest' => ?_⟩
    · simp only [List.mem_cons, List.mem_append, List.not_mem_nil, or_false] at hc
      rcases hc with hc | hc | hc
      · exact .inr (.inl hc)
      · exact .inl ((writes_iff.1 h).1 c hc)
      · exact .inr (.inr hc)
    · simpa using CodePoint.braced hcount h hle

/-- No more digits are asked about than the text has characters. -/
theorem CodePoint.mono {enough enough' : Nat → Prop} {cs rest : List Char} {n : Nat}
    (hle : ∀ k ≤ cs.length, enough k → enough' k) (h : CodePoint enough cs n rest) :
    CodePoint enough' cs n rest := by
  cases h with
  | unit hlength h => exact .unit hlength h
  | @braced digits _ _ hcount h hn =>
    refine .braced (hle _ ?_ hcount) h hn
    simp only [List.length_cons, List.length_append]
    omega

/-- More digits write no smaller number. -/
theorem le_foldl_digits (value : Nat) (digits : List Char) :
    value ≤ digits.foldl (fun value c => 16 * value + (hexDigit? c).getD 0) value := by
  induction digits generalizing value with
  | nil => exact Nat.le_refl _
  | cons d digits ih =>
    have hstep : value ≤ 16 * value + (hexDigit? d).getD 0 := by omega
    exact hstep.trans (ih _)

/-- Between braces, digits are read up to the first character that is none. -/
theorem readBraced?_eq_some_iff {value n : Nat} {count : Int32} {cs rest : List Char} :
    readBraced? value count cs = some (n, rest) ↔ ∃ digits, cs = digits ++ '}' :: rest ∧
      (∀ d ∈ digits, isHexDigit d) ∧
      digits.foldl (fun value c => 16 * value + (hexDigit? c).getD 0) value = n ∧ n ≤ 0x10FFFF ∧
      0 < count + Int32.ofNat digits.length := by
  induction cs generalizing value count with
  | nil => simp [readBraced?]
  | cons c cs ih =>
    by_cases hbrace : c = '}'
    · subst hbrace
      rw [readBraced?, if_pos rfl]
      constructor
      · intro h
        split at h
        · next hend =>
          obtain ⟨rfl, rfl⟩ := Prod.mk.inj (Option.some.inj h)
          exact ⟨[], rfl, by simp, rfl, hend.2, by simpa using hend.1⟩
        · cases h
      · rintro ⟨_ | ⟨d, digits⟩, hcs, hdigits, rfl, hle, hcount⟩
        · obtain rfl := (List.cons.inj hcs).2
          rw [if_pos ⟨by simpa using hcount, hle⟩]
          rfl
        · obtain rfl := (List.cons.inj hcs).1
          cases hdigits _ (List.mem_cons_self ..)
    · rw [readBraced?, if_neg hbrace]
      cases hdigit : hexDigit? c with
      | none =>
        refine ⟨nofun, ?_⟩
        rintro ⟨_ | ⟨d, digits⟩, hcs, hdigits, -⟩
        · exact absurd (List.cons.inj hcs).1 hbrace
        · obtain rfl := (List.cons.inj hcs).1
          have := hdigits _ (List.mem_cons_self ..)
          simp [isHexDigit, hdigit] at this
      | some digit =>
        have hcount (digits : List Char) : count + 1 + Int32.ofNat digits.length
            = count + Int32.ofNat (c :: digits).length := by
          rw [List.length_cons, Nat.add_comm, Int32.ofNat_add, Int32.add_assoc]
          rfl
        constructor
        · intro h
          simp only at h
          split at h
          · obtain ⟨digits, rfl, hdigits, hvalue, hle, hpos⟩ := ih.1 h
            refine ⟨c :: digits, rfl, ?_, by simpa [hdigit] using hvalue, hle, hcount digits ▸ hpos⟩
            exact List.forall_mem_cons.2 ⟨by simp [isHexDigit, hdigit], hdigits⟩
          · cases h
        · rintro ⟨_ | ⟨d, digits⟩, hcs, hdigits, hvalue, hle, hpos⟩
          · exact absurd (List.cons.inj hcs).1 hbrace
          · obtain ⟨rfl, rfl⟩ := List.cons.inj hcs
            rw [List.foldl_cons, hdigit, Option.getD_some] at hvalue
            -- the number only grows, so it has fitted all along
            have hgrows := le_foldl_digits (16 * value + digit) digits
            simp only
            rw [if_pos (by omega)]
            exact ih.2 ⟨digits, rfl, (List.forall_mem_cons.1 hdigits).2, hvalue, hle,
              (hcount digits).symm ▸ hpos⟩

/-- The code points that are read are those that are written with digits that are counted. -/
theorem readCodePoint?_eq_some_iff {cs rest : List Char} {n : Nat} :
    readCodePoint? cs = some (n, rest) ↔ CodePoint Counted cs n rest := by
  constructor
  · intro h
    unfold readCodePoint? at h
    split at h
    · obtain ⟨digits, rfl, hdigits, hvalue, hle, hcount⟩ := readBraced?_eq_some_iff.1 h
      rw [Int32.zero_add] at hcount
      exact .braced hcount (writes_iff.2 ⟨hdigits, hvalue⟩) hle
    · next a b c d rest' _ =>
      split at h
      · next hdigits =>
        obtain ⟨rfl, rfl⟩ := Prod.mk.inj (Option.some.inj h)
        have hwrites : Writes [a, b, c, d] (digitsValue 16 [a, b, c, d]) :=
          writes_iff.2 ⟨List.all_eq_true.1 hdigits, rfl⟩
        exact .unit rfl hwrites
      · cases h
    · cases h
  · rintro (⟨hlength, h⟩ | ⟨hcount, h, hle⟩)
    · obtain ⟨hdigits, rfl⟩ := writes_iff.1 h
      obtain ⟨a, b, c, d, rfl⟩ := List.length_eq_four.1 hlength
      have hbrace : a ≠ '{' := by
        rintro rfl
        cases hdigits '{' (List.mem_cons_self ..)
      simp only [List.cons_append, List.nil_append]
      rw [readCodePoint?.eq_2 _ _ _ _ _ hbrace, if_pos (List.all_eq_true.2 hdigits)]
    · obtain ⟨hdigits, hvalue⟩ := writes_iff.1 h
      rw [readCodePoint?]
      refine readBraced?_eq_some_iff.2 ⟨_, rfl, hdigits, hvalue, hle, ?_⟩
      rw [Int32.zero_add]
      exact hcount

end WithScope
