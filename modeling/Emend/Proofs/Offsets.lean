import Emend.Proofs.LineCuts

/-!
# Positions stand for offsets

A position is computed by a walk over characters, while offsets count bytes.  Seen byte by byte
the walk is a fold that knows two things: a newline byte starts the next line, and every other
byte is one more column (`Position.walk_eq_foldl`).  No byte of a character other than the newline
is a newline byte, so the two agree also inside a character.

What the fold says about the bytes it has passed is the relation `Reaches`: they hold no newline,
or they are some bytes, a newline, and as many bytes without one as the column says.  From there
an offset can be read back off its position (`offset_position`), so positions come in the order of
the offsets they stand for (`position_encodes_offset`).
-/

namespace Emend

/-! ## Bytes -/

namespace Text

/-- The bytes of a text in UTF-8. -/
def bytes (t : Text) : List UInt8 := t.flatMap String.utf8EncodeChar

/-- The byte that ends a line. -/
def newlineByte : UInt8 := 10

theorem bytes_cons (c : Char) (t : Text) : bytes (c :: t) = String.utf8EncodeChar c ++ t.bytes :=
  List.flatMap_cons

theorem length_bytes (t : Text) : t.bytes.length = t.size := by
  induction t with
  | nil => rfl
  | cons c t ih => rw [bytes_cons, List.length_append, String.length_utf8EncodeChar, ih, size_cons]

theorem newlineByte_eq_ofNat_iff {n : Nat} : newlineByte = UInt8.ofNat n ↔ n % 256 = 10 := by
  rw [← UInt8.toNat_inj, UInt8.toNat_ofNat']
  exact eq_comm

/-- A newline is one byte, and no other character has this byte in it. -/
theorem newlineByte_mem_utf8EncodeChar {c : Char} :
    newlineByte ∈ String.utf8EncodeChar c ↔ c = '\n' := by
  constructor
  · intro h
    have hvalue : c.val.toNat = 10 := by
      -- A byte of a character of several bytes is 128 or more.
      simp only [String.utf8EncodeChar] at h
      split_ifs at h <;>
        simp only [List.mem_cons, List.not_mem_nil, or_false, newlineByte_eq_ofNat_iff] at h <;>
        omega
    exact Char.toNat_inj.mp hvalue
  · rintro rfl
    decide

end Text

/-! ## Positions byte by byte -/

open Text (newlineByte bytes_cons length_bytes)

namespace Position

/-- The position after a byte. -/
def afterByte (p : Position) (b : UInt8) : Position :=
  if b = newlineByte then ⟨p.line + 1, 0⟩ else ⟨p.line, p.column + 1⟩

theorem foldl_afterByte_of_not_mem {bs : List UInt8} (h : newlineByte ∉ bs) :
    ∀ p : Position, bs.foldl afterByte p = ⟨p.line, p.column + bs.length⟩ := by
  induction bs with
  | nil => exact fun p => rfl
  | cons b bs ih =>
      intro p
      obtain ⟨hb, hbs⟩ := not_or.mp (mt List.mem_cons.mpr h)
      rw [List.foldl_cons, afterByte, if_neg (Ne.symm hb), ih hbs, List.length_cons]
      simp only [Nat.add_comm, Nat.add_left_comm]

/-- A walk goes byte by byte. -/
theorem walk_eq_foldl (t : Text) :
    ∀ (p : Position) (n : Nat), p.walk t n = (t.bytes.take n).foldl afterByte p := by
  induction t with
  | nil =>
      intro p n
      cases n with
      | zero => rfl
      | succ n => rfl
  | cons c t ih =>
      intro p n
      cases n with
      | zero => rfl
      | succ n =>
          rw [walk, bytes_cons]
          split
          next hc =>
            subst hc
            exact ih _ n
          next hc =>
            have hnot := mt Text.newlineByte_mem_utf8EncodeChar.mp hc
            rw [List.take_append, List.foldl_append,
              foldl_afterByte_of_not_mem fun h => hnot (List.mem_of_mem_take h),
              List.length_take, String.length_utf8EncodeChar]
            split
            next hsize => rw [ih, Nat.min_eq_right hsize]
            next hsize =>
              -- The walk ends inside the character, so no byte of the rest is passed.
              rw [Nat.min_eq_left (by omega), Nat.sub_eq_zero_of_le (by omega), List.take_zero]
              rfl

/-- Which position some bytes lead to. -/
inductive Reaches : List UInt8 → Position → Prop where
  /-- The bytes are all on the first line. -/
  | first {current : List UInt8} : newlineByte ∉ current → Reaches current ⟨1, current.length⟩
  /-- The last of several newlines comes before the bytes of the current line. -/
  | later {front current : List UInt8} : newlineByte ∉ current →
      Reaches (front ++ newlineByte :: current) ⟨front.count newlineByte + 2, current.length⟩

section

variable {bs : List UInt8} {p : Position}

theorem Reaches.line_eq (h : Reaches bs p) : bs.count newlineByte + 1 = p.line := by
  cases h with
  | first hcurrent => rw [List.count_eq_zero.mpr hcurrent]
  | later hcurrent =>
      rw [List.count_append, List.count_cons_self, List.count_eq_zero.mpr hcurrent]

/-- One more byte leads to the position after it. -/
theorem Reaches.afterByte (h : Reaches bs p) (b : UInt8) :
    Reaches (bs ++ [b]) (p.afterByte b) := by
  rw [Position.afterByte]
  split
  next hb =>
    rw [hb, ← h.line_eq]
    exact .later List.not_mem_nil
  next hb =>
    have hconcat : ∀ {current : List UInt8}, newlineByte ∉ current →
        newlineByte ∉ current ++ [b] := fun hcurrent hmem =>
      (List.mem_append.mp hmem).elim hcurrent fun hlast => hb (List.mem_singleton.mp hlast).symm
    cases h with
    | first hcurrent =>
        have hfirst := Reaches.first (hconcat hcurrent)
        rwa [List.length_append] at hfirst
    | @later front current hcurrent =>
        have hlater := @Reaches.later front _ (hconcat hcurrent)
        rwa [List.length_append, ← List.cons_append, ← List.append_assoc] at hlater

theorem reaches_foldl (bs : List UInt8) : Reaches bs (bs.foldl Position.afterByte .origin) := by
  induction bs using List.reverseRecOn with
  | nil => exact .first List.not_mem_nil
  | append_singleton bs b ih =>
      rw [List.foldl_concat]
      exact ih.afterByte b

end

/-- In reading order a position comes before another if its line does, or its column on the same
line. -/
def Before (p q : Position) : Prop := p.line < q.line ∨ p.line = q.line ∧ p.column < q.column

end Position

/-! ## Where lines start -/

namespace Text

/-- The first line starts with the bytes, and each other line just after the newline byte that has
two newlines fewer before it than the number of the line. -/
def LineStartsAt (bs : List UInt8) (line start : Nat) : Prop :=
  line = 1 ∧ start = 0 ∨
    ∃ k, bs[k]? = some newlineByte ∧ (bs.take k).count newlineByte + 2 = line ∧ start = k + 1

/-- Where a line starts that has `k` newlines before it. -/
def lineStart : Nat → List UInt8 → Nat
  | 0, _ => 0
  | _ + 1, [] => 0
  | k + 1, b :: bs => (if b = newlineByte then lineStart k bs else lineStart (k + 1) bs) + 1

theorem lineStart_append (front rest : List UInt8) :
    lineStart (front.count newlineByte + 1) (front ++ newlineByte :: rest) = front.length + 1 := by
  induction front with
  | nil => rw [List.nil_append, List.count_nil, lineStart, if_pos rfl, lineStart]; rfl
  | cons b front ih =>
      rw [List.cons_append, lineStart, List.length_cons]
      by_cases hb : b = newlineByte
      · rw [if_pos hb, hb, List.count_cons_self, ih]
      · rw [if_neg hb, List.count_cons_of_ne hb, ih]

/-- The offset of a position. -/
def offset (t : Text) (p : Position) : Nat := lineStart (p.line - 1) t.bytes + p.column

end Text

namespace Position

open Text (lineStart LineStartsAt)

variable {bs : List UInt8} {p : Position}

theorem Reaches.column_le (h : Reaches bs p) : p.column ≤ bs.length := by
  cases h with
  | first hcurrent => exact Nat.le_refl _
  | later hcurrent =>
      simp only [List.length_append, List.length_cons]
      omega

/-- The line of a position starts as many bytes before it as the column says. -/
theorem Reaches.lineStartsAt (h : Reaches bs p) (rest : List UInt8) :
    LineStartsAt (bs ++ rest) p.line (bs.length - p.column) := by
  cases h with
  | first hcurrent => exact Or.inl ⟨rfl, Nat.sub_self _⟩
  | @later front current hcurrent =>
      refine Or.inr ⟨front.length, ?_, ?_, ?_⟩
      · simp
      · simp
      · simp only [List.length_append, List.length_cons]
        omega

/-- There is no newline between the start of its line and a position. -/
theorem Reaches.no_newline (h : Reaches bs p) {k : Nat} (hk : bs.length - p.column ≤ k) :
    bs[k]? ≠ some newlineByte := by
  intro hnewline
  cases h with
  | first hcurrent => exact hcurrent (List.mem_of_getElem? hnewline)
  | @later front current hcurrent =>
      simp only [List.length_append, List.length_cons] at hk
      obtain ⟨i, rfl⟩ : ∃ i, k = front.length + (i + 1) := ⟨k - front.length - 1, by omega⟩
      rw [List.getElem?_append_right (by omega), Nat.add_sub_cancel_left,
        List.getElem?_cons_succ] at hnewline
      exact hcurrent (List.mem_of_getElem? hnewline)

/-- The start of its line and the column of a position add up to the bytes before it. -/
theorem Reaches.length_eq (h : Reaches bs p) (rest : List UInt8) :
    lineStart (p.line - 1) (bs ++ rest) + p.column = bs.length := by
  cases h with
  | first hcurrent => simp only [Nat.sub_self, lineStart, Nat.zero_add]
  | @later front current hcurrent =>
      have hstart := Text.lineStart_append front (current ++ rest)
      rw [List.append_assoc, List.cons_append, Nat.add_sub_assoc (by decide), hstart]
      simp only [List.length_append, List.length_cons]
      omega

end Position

/-! ## Positions and offsets of a text -/

namespace Text

open Position (Reaches)

section

variable {t : Text} {o : Nat}

theorem reaches_position (t : Text) (o : Nat) : Reaches (t.bytes.take o) (t.position o) := by
  rw [position, Position.walk_eq_foldl]
  exact Position.reaches_foldl _

theorem length_take_bytes (h : o ≤ t.size) : (t.bytes.take o).length = o := by
  rw [List.length_take, length_bytes, Nat.min_eq_left h]

/-- An offset is read back off its position. -/
theorem offset_position (h : o ≤ t.size) : t.offset (t.position o) = o := by
  have hlength := (t.reaches_position o).length_eq (t.bytes.drop o)
  rwa [List.take_append_drop, length_take_bytes h] at hlength

/-- Positions come in the order of their offsets. -/
theorem position_before {o₁ o₂ : Nat} (hlt : o₁ < o₂) (hle : o₂ ≤ t.size) :
    (t.position o₁).Before (t.position o₂) := by
  have hline₁ := (t.reaches_position o₁).line_eq
  have hline₂ := (t.reaches_position o₂).line_eq
  have hcount : (t.bytes.take o₁).count newlineByte ≤ (t.bytes.take o₂).count newlineByte :=
    (List.take_sublist_take_left (by omega)).count_le newlineByte
  have hoffset₁ := offset_position (t := t) (o := o₁) (by omega)
  have hoffset₂ := offset_position hle
  rcases Nat.lt_or_eq_of_le hcount with hless | hsame
  · exact Or.inl (by omega)
  · -- On one line only the columns can tell the offsets apart.
    have hline : (t.position o₁).line = (t.position o₂).line := by omega
    rw [offset, hline] at hoffset₁
    rw [offset] at hoffset₂
    exact Or.inr ⟨hline, by omega⟩

theorem position_of_size_le (h : t.size ≤ o) : t.position o = t.position t.size := by
  have htake : ∀ n, t.size ≤ n → t.bytes.take n = t.bytes := fun n hn =>
    List.take_of_length_le (by rwa [length_bytes])
  rw [position, position, Position.walk_eq_foldl, Position.walk_eq_foldl, htake o h,
    htake t.size (Nat.le_refl _)]

end

/-- Positions stand for offsets, in their order.  The line of an offset is one more than the
newline bytes before it, and its column is the number of bytes since that line started, with no
newline among them.  So the offset can be read back off its position, a smaller offset has an
earlier position, and every offset past the end has the position of the end.  All this holds of
offsets inside a character too. -/
theorem position_encodes_offset (t : Text) :
    (∀ o ≤ t.size,
      (t.bytes.take o).count newlineByte + 1 = (t.position o).line ∧
      (t.position o).column ≤ o ∧
      LineStartsAt t.bytes (t.position o).line (o - (t.position o).column) ∧
      (∀ k, o - (t.position o).column ≤ k → k < o → t.bytes[k]? ≠ some newlineByte) ∧
      t.offset (t.position o) = o) ∧
    (∀ o₁ o₂, o₁ < o₂ → o₂ ≤ t.size → (t.position o₁).Before (t.position o₂)) ∧
    ∀ o, t.size ≤ o → t.position o = t.position t.size := by
  refine ⟨fun o ho => ?_, fun o₁ o₂ => position_before, fun o => position_of_size_le⟩
  have hreaches := t.reaches_position o
  have hcolumn := hreaches.column_le
  have hstart := hreaches.lineStartsAt (t.bytes.drop o)
  have hnone := fun k => hreaches.no_newline (k := k)
  rw [List.take_append_drop] at hstart
  simp only [length_take_bytes ho] at hcolumn hstart hnone
  refine ⟨hreaches.line_eq, hcolumn, hstart, fun k hk hlt => ?_, offset_position ho⟩
  rw [← List.getElem?_take_of_lt hlt]
  exact hnone k hk

/-- Three lines, the first of which has a character of two bytes and the second of which is
empty. -/
def threeLines : Text := "aé\n\nb".toList

/-- The offset inside the character, the one after the second newline, and the one past the end. -/
theorem position_encodes_offset_threeLines :
    threeLines.size = 6 ∧
    (threeLines.position 2).line = 1 ∧
    threeLines.offset (threeLines.position 2) = 2 ∧
    LineStartsAt threeLines.bytes 3 (5 - (threeLines.position 5).column) ∧
    (threeLines.position 2).Before (threeLines.position 5) ∧
    threeLines.position 99 = threeLines.position 6 := by
  have hsize : threeLines.size = 6 := by decide
  obtain ⟨hat, hbefore, hpast⟩ := position_encodes_offset threeLines
  obtain ⟨hline, -, -, -, hoffset⟩ := hat 2 (by decide)
  obtain ⟨-, -, hstart, -, -⟩ := hat 5 (by decide)
  exact ⟨hsize, hline.symm.trans (by decide), hoffset, hstart, hbefore 2 5 (by decide) (by decide),
    hsize ▸ hpast 99 (by decide)⟩

end Text

end Emend
