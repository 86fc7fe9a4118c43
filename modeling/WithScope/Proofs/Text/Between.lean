import WithScope.Proofs.Text.Place
import WithScope.Text.Slice

/-!
# The text between two places

A place of a text says what stands before it, so two places say what stands between them.

* `exists_append_of_byteLength_le`, `IsPlace.exists_append` — of two places, one comes first;
* `exists_slice_eq` — a span between two places covers a part of the text;
* `TextBetween` — the same from the other side: a part that is known, and where it begins and ends.
-/

namespace WithScope

/-! ## Two places -/

/-- What stands before a place begins with what stands before an earlier one. -/
theorem exists_append_of_byteLength_le {a a' b b' : List Char} (h : a ++ b = a' ++ b')
    (hle : byteLength a ≤ byteLength a') : ∃ between, a' = a ++ between ∧ b = between ++ b' := by
  rcases List.append_eq_append_iff.1 h with ⟨between, rfl, rfl⟩ | ⟨between, rfl, rfl⟩
  · exact ⟨between, rfl, rfl⟩
  · obtain rfl : between = [] := by
      cases between with
      | nil => rfl
      | cons c between =>
        have := c.utf8Size_pos
        simp only [byteLength_append, byteLength_cons] at hle
        omega
    exact ⟨[], by simp, by simp⟩

/-- The part of a text that a place cuts off, seen from an earlier place. -/
theorem IsPlace.exists_append {before rest : List Char} {p : Position}
    (h : IsPlace (before ++ rest) p) (hle : byteLength before ≤ p.offset) :
    ∃ between after, rest = between ++ after ∧ p = placeAfter (before ++ between) := by
  obtain ⟨upto, after, hsource, rfl⟩ := h
  obtain ⟨between, rfl, rfl⟩ := exists_append_of_byteLength_le hsource hle
  exact ⟨between, after, rfl, rfl⟩

/-- What has as many bytes is the same part of a text. -/
theorem eq_of_byteLength_eq {a a' b b' : List Char} (h : a ++ b = a' ++ b')
    (hlength : byteLength a = byteLength a') : a = a' ∧ b = b' := by
  obtain ⟨between, rfl, rfl⟩ := exists_append_of_byteLength_le h hlength.le
  obtain ⟨between', ha, -⟩ := exists_append_of_byteLength_le h.symm hlength.ge
  obtain rfl : between = [] := by
    rw [List.append_assoc] at ha
    exact (List.append_eq_nil_iff.1 (List.self_eq_append_right.1 ha)).1
  simp

/-- The same place has the same text before it. -/
theorem eq_of_placeAfter_eq {a a' b b' : List Char} (h : a ++ b = a' ++ b')
    (hplace : placeAfter a = placeAfter a') : a = a' ∧ b = b' :=
  eq_of_byteLength_eq h (congrArg Position.offset hplace)

/-! ## Spans -/

/-- The text between two places of a text. -/
theorem slice_between (before text rest : List Char) :
    slice (before ++ text ++ rest) ⟨placeAfter before, placeAfter (before ++ text)⟩ = text := by
  have hlength : byteLength (before ++ text) - byteLength before = byteLength text := by simp
  rw [slice, placeAfter, placeAfter, hlength, List.append_assoc, dropBytes_byteLength_append,
    takeBytes_byteLength_append]

variable {source : List Char}

/-- A span that begins and ends at places of a text covers a part of it. -/
theorem exists_slice_eq {loc : Span} (hstart : IsPlace source loc.start)
    (hstop : IsPlace source loc.stop) (hle : loc.start.offset ≤ loc.stop.offset) :
    ∃ before rest, source = before ++ slice source loc ++ rest ∧
      loc = ⟨placeAfter before, placeAfter (before ++ slice source loc)⟩ := by
  obtain ⟨start, stop⟩ := loc
  obtain ⟨before, rest, rfl, rfl⟩ := hstart
  obtain ⟨text, rest, rfl, rfl⟩ := hstop.exists_append hle
  rw [← List.append_assoc, slice_between]
  exact ⟨before, rest, rfl, rfl⟩

/-! ## Parts -/

/-- A part of a text goes from one of its places to another. -/
def TextBetween (source : List Char) (p q : Position) (text : List Char) : Prop :=
  ∃ before rest, source = before ++ text ++ rest ∧ p = placeAfter before ∧
    q = placeAfter (before ++ text)

/-- Between two places, of which one comes first, there is a part. -/
theorem exists_textBetween {p q : Position} (hp : IsPlace source p) (hq : IsPlace source q)
    (hle : p.offset ≤ q.offset) : ∃ text, TextBetween source p q text := by
  obtain ⟨before, rest, hsource, hloc⟩ := @exists_slice_eq source ⟨p, q⟩ hp hq hle
  exact ⟨_, before, rest, hsource, congrArg Span.start hloc, congrArg Span.stop hloc⟩

namespace TextBetween

variable {p q r : Position} {text text' : List Char}

theorem slice_eq (h : TextBetween source p q text) : slice source ⟨p, q⟩ = text := by
  obtain ⟨before, rest, rfl, rfl, rfl⟩ := h
  exact slice_between before text rest

theorem isPlace_left (h : TextBetween source p q text) : IsPlace source p := by
  obtain ⟨before, rest, rfl, rfl, -⟩ := h
  exact ⟨before, text ++ rest, List.append_assoc .., rfl⟩

/-- Two parts of which one begins where the other ends are one part. -/
theorem trans (h : TextBetween source p q text) (h' : TextBetween source q r text') :
    TextBetween source p r (text ++ text') := by
  obtain ⟨before, rest, hsource, rfl, rfl⟩ := h
  obtain ⟨before', rest', hsource', hq, rfl⟩ := h'
  rw [hsource, List.append_assoc before'] at hsource'
  obtain ⟨rfl, rfl⟩ := eq_of_placeAfter_eq hsource' hq
  exact ⟨before, rest', by simp [hsource], rfl, by simp⟩

/-- From an earlier place on, a longer part ends in the same way. -/
theorem extend (h : TextBetween source q r text) (hp : IsPlace source p)
    (hle : p.offset ≤ q.offset) : ∃ text', TextBetween source p r (text' ++ text) := by
  obtain ⟨before, rest, rfl, rfl⟩ := hp
  obtain ⟨between, after, rfl, rfl⟩ := h.isPlace_left.exists_append hle
  exact ⟨between, trans ⟨before, after, by simp, rfl, rfl⟩ h⟩

end TextBetween

end WithScope
