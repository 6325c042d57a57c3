import Mathlib.Data.List.TakeWhile
import Emend.Span

/-!
# Cutting a text in three

A span that fits a text cuts it in three: what stands before the span, what
stands at it, and what stands after it (`Span.fits_iff`).  On a text that is
written in this way, slicing and replacing are read off without any arithmetic of
offsets.  `Span.around` is the span of a part, by what stands before it.

Sizes decide how two ways to cut one text compare.  A leading part that is no
larger than another is a leading part of it (`exists_append_of_size_le`), since
every character has a size.

The ends of a text can be cut off by a test on characters, and what passes the test
there leaves no trace in the stripped text.
-/

namespace Emend

namespace Text

/-! ## Sizes -/

theorem size_eq_zero_iff {t : Text} : size t = 0 ↔ t = [] := by
  cases t with
  | nil => simp
  | cons c t =>
      have hc := Char.utf8Size_pos c
      simp only [size_cons, reduceCtorEq, iff_false]
      omega

/-- Of two leading parts of one text, the larger one starts with the other. -/
theorem exists_append_of_size_le {a b c d : Text} (h : a ++ b = c ++ d) (hs : size a ≤ size c) :
    ∃ k, c = a ++ k ∧ b = k ++ d := by
  rcases List.append_eq_append_iff.mp h with hk | ⟨k, rfl, rfl⟩
  · exact hk
  · have hzero : size k = 0 := by
      rw [size_append] at hs
      omega
    have hnil := size_eq_zero_iff.mp hzero
    exact ⟨[], by simp [hnil], by simp [hnil]⟩

theorem append_inj_of_size {a b c d : Text} (h : a ++ b = c ++ d) (hs : a.size = c.size) :
    a = c ∧ b = d := by
  obtain ⟨k, hc, hb⟩ := exists_append_of_size_le h (Nat.le_of_eq hs)
  have hk : k = [] := by
    rw [hc, size_append] at hs
    exact size_eq_zero_iff.mp (by omega)
  exact ⟨by rw [hc, hk, List.append_nil], by rw [hb, hk, List.nil_append]⟩

/-! ## Cuts of a text that is given in parts -/

theorem drop?_append (a b : Text) : drop? (a ++ b) (size a) = some b := by
  simp [drop?]

theorem take?_append (a b : Text) : take? (a ++ b) (size a) = some a := by
  simp [take?]

/-- What stands from an offset on is what comes after a leading part of this size. -/
theorem drop?_eq_some_iff {t b : Text} {n : Nat} :
    t.drop? n = some b ↔ ∃ a, t = a ++ b ∧ size a = n := by
  simp [drop?, splitAt?_eq_some_iff]

theorem take?_eq_some_iff {t a : Text} {n : Nat} :
    t.take? n = some a ↔ ∃ b, t = a ++ b ∧ size a = n := by
  simp [take?, splitAt?_eq_some_iff]

theorem slice?_append (a b c : Text) :
    slice? (a ++ (b ++ c)) (size a) (size a + size b) = some b := by
  have hsub : size a + size b - size a = size b := by omega
  rw [slice?, if_pos (Nat.le_add_right _ _), drop?_append, hsub]
  exact take?_append b c

theorem replace?_append (a b c code : Text) :
    replace? (a ++ (b ++ c)) (size a) (size a + size b) code = some (a ++ (code ++ c)) := by
  have hsub : size a + size b - size a = size b := by omega
  rw [replace?, if_pos (Nat.le_add_right _ _), splitAt?_append, hsub]
  simp [drop?]

/-- An offset is a boundary exactly if a leading part has this size. -/
theorem isBoundary_iff {t : Text} {n : Nat} :
    t.isBoundary n = true ↔ ∃ a b, t = a ++ b ∧ size a = n := by
  rw [isBoundary, Option.isSome_iff_exists]
  constructor
  · rintro ⟨⟨a, b⟩, h⟩
    exact ⟨a, b, splitAt?_eq_some h⟩
  · rintro ⟨a, b, h⟩
    exact ⟨(a, b), splitAt?_eq_some_iff.mpr h⟩

/-! ## The ends of a text -/

section

variable {p : Char → Bool}

/-- A text without the characters at its two ends that pass a test. -/
def strip (p : Char → Bool) (t : Text) : Text := dropTail p (t.dropWhile p)

/-- A text is what is left without its tail, and the tail. -/
theorem exists_dropTail (p : Char → Bool) (t : Text) :
    ∃ tail, t = t.dropTail p ++ tail ∧ ∀ c ∈ tail, p c = true := by
  refine ⟨(t.reverse.takeWhile p).reverse, ?_, fun c hc => ?_⟩
  · rw [dropTail, ← List.reverse_append, List.takeWhile_append_dropWhile, List.reverse_reverse]
  · exact List.all_eq_true.mp List.all_takeWhile c (List.mem_reverse.mp hc)

theorem dropTail_append {tail : Text} (h : ∀ c ∈ tail, p c = true) (t : Text) :
    dropTail p (t ++ tail) = dropTail p t := by
  have hreverse : ∀ c ∈ tail.reverse, p c = true := fun c hc => h c (List.mem_reverse.mp hc)
  rw [dropTail, List.reverse_append, List.dropWhile_append_of_pos hreverse]
  rfl

/-- What passes the test at the start of a text does not change its stripped form. -/
theorem strip_append_left {front : Text} (h : ∀ c ∈ front, p c = true) (t : Text) :
    strip p (front ++ t) = strip p t := by
  rw [strip, List.dropWhile_append_of_pos h]
  rfl

/-- Neither does what passes the test at the end. -/
theorem strip_append_right {tail : Text} (h : ∀ c ∈ tail, p c = true) (t : Text) :
    strip p (t ++ tail) = strip p t := by
  by_cases ht : t.dropWhile p = []
  · have hall : ∀ c ∈ t, p c = true := List.dropWhile_eq_nil_iff.mp ht
    have hnone : tail.dropWhile p = [] := List.dropWhile_eq_nil_iff.mpr h
    rw [strip_append_left hall, strip, strip, hnone, ht]
  · have hstart : (t ++ tail).dropWhile p = t.dropWhile p ++ tail := by
      rw [List.dropWhile_append]
      exact if_neg fun he => ht (List.isEmpty_iff.mp he)
    rw [strip, hstart, dropTail_append h]
    rfl

end

end Text

namespace Span

/-- A span fits a text exactly if it cuts the text in three. -/
theorem fits_iff {s : Span} {t : Text} :
    s.fits t = true ↔
      ∃ a b c, t = a ++ (b ++ c) ∧ s.start = a.size ∧ s.stop = a.size + b.size := by
  simp only [fits, Bool.and_eq_true, decide_eq_true_eq, Text.isBoundary_iff]
  constructor
  · rintro ⟨⟨⟨hle, -⟩, a, rest, hrest, ha⟩, x, c, hc, hx⟩
    -- The part before the stop starts with the part before the start.
    have hsize : a.size ≤ x.size := by omega
    obtain ⟨b, hb, hrest'⟩ := Text.exists_append_of_size_le (hrest.symm.trans hc) hsize
    refine ⟨a, b, c, by rw [hrest, hrest'], ha.symm, ?_⟩
    rw [← hx, hb, Text.size_append]
  · rintro ⟨a, b, c, ht, hstart, hstop⟩
    refine ⟨⟨⟨by omega, ?_⟩, a, b ++ c, ht, hstart.symm⟩, a ++ b, c, ?_, ?_⟩
    · rw [ht, Text.size_append, Text.size_append]
      omega
    · rw [ht, List.append_assoc]
    · rw [Text.size_append, hstop]

/-- The span of a part of a text, by what stands before it. -/
def around (before part : Text) : Span := ⟨before.size, before.size + part.size⟩

@[simp] theorem around_start (before part : Text) : (around before part).start = before.size := rfl

@[simp] theorem around_stop (before part : Text) :
    (around before part).stop = before.size + part.size := rfl

theorem fits_iff_around {s : Span} {t : Text} :
    s.fits t = true ↔ ∃ a b c, t = a ++ (b ++ c) ∧ s = around a b := by
  rw [fits_iff]
  refine exists_congr fun a => exists_congr fun b => exists_congr fun c =>
    and_congr_right fun _ => ?_
  obtain ⟨start, stop⟩ := s
  simp [around]

/-- A text can be cut at a span in one way only. -/
theorem around_inj {a b c a' b' c' : Text} (h : a ++ (b ++ c) = a' ++ (b' ++ c'))
    (hs : around a b = around a' b') : a = a' ∧ b = b' ∧ c = c' := by
  simp only [around, mk.injEq] at hs
  obtain ⟨rfl, hrest⟩ := Text.append_inj_of_size h hs.1
  obtain ⟨rfl, rfl⟩ := Text.append_inj_of_size hrest (by omega)
  exact ⟨rfl, rfl, rfl⟩

theorem start_le_stop_of_fits {s : Span} {t : Text} (h : s.fits t = true) : s.start ≤ s.stop := by
  obtain ⟨a, b, c, -, hstart, hstop⟩ := fits_iff.mp h
  omega

/-- A span that fits the rest of a text fits there in three parts too. -/
theorem fits_append {s : Span} {before rest : Text} (h : s.fits (before ++ rest) = true)
    (hs : before.size ≤ s.start) :
    ∃ kept old rest', rest = kept ++ (old ++ rest') ∧ s.start = before.size + kept.size ∧
      s.stop = before.size + kept.size + old.size := by
  obtain ⟨a, old, rest', ht, hstart, hstop⟩ := fits_iff.mp h
  obtain ⟨kept, ha, hrest⟩ := Text.exists_append_of_size_le ht (by omega)
  subst ha
  rw [Text.size_append] at hstart hstop
  exact ⟨kept, old, rest', hrest, hstart, hstop⟩

/-- A text can only be replaced where a span fits. -/
theorem fits_of_replace? {s : Span} {t code u : Text}
    (h : t.replace? s.start s.stop code = some u) : s.fits t = true := by
  rw [Text.replace?] at h
  split at h
  next hle =>
    obtain ⟨⟨a, rest⟩, ha, h'⟩ := Option.bind_eq_some_iff.mp h
    obtain ⟨c, hc, -⟩ := Option.bind_eq_some_iff.mp h'
    obtain ⟨⟨b, c'⟩, hb, -⟩ := Option.map_eq_some_iff.mp hc
    obtain ⟨rfl, hsa⟩ := Text.splitAt?_eq_some ha
    obtain ⟨rfl, hsb⟩ := Text.splitAt?_eq_some hb
    exact fits_iff.mpr ⟨a, b, c', rfl, hsa.symm, by omega⟩
  next => simp at h

end Span

end Emend
