/-!
# Text and byte offsets

A text is a list of characters.  Every offset of this library counts bytes of
the UTF-8 form of a text, so a character takes one to four of them and an offset
may fall inside one.  An offset where a character starts, or where the text
ends, is a *boundary*.

`splitAt?` cuts a text at a boundary and refuses every other offset.  Slicing,
replacing and looking at one character are all read off it, so none of them can
tear a character apart.  Its two laws are `splitAt?_eq_some`, which says that
the two parts make up the text and that the first one has the asked size, and
`splitAt?_append`, which says that the end of a leading part is a boundary.

Names and contents of files are bytes, and these need not be the UTF-8 form of a text.
`ofUTF8?` gives the text if they are (`ofUTF8?_eq_some_iff`).
-/

namespace Emend

/-- A text, character by character. -/
abbrev Text := List Char

namespace Text

/-- The number of bytes of a text in UTF-8. -/
def size : Text → Nat
  | [] => 0
  | c :: t => c.utf8Size + size t

/-- The text before a byte offset and the text from there on, if the offset is a
boundary of the text. -/
def splitAt? : Text → Nat → Option (Text × Text)
  | t, 0 => some ([], t)
  | [], _ + 1 => none
  | c :: t, n + 1 =>
      if c.utf8Size ≤ n + 1 then
        (splitAt? t (n + 1 - c.utf8Size)).map fun (a, b) => (c :: a, b)
      else none

/-- Whether a byte offset is a boundary of the text. -/
def isBoundary (t : Text) (n : Nat) : Bool :=
  (t.splitAt? n).isSome

/-- The text before a boundary. -/
def take? (t : Text) (n : Nat) : Option Text :=
  (t.splitAt? n).map Prod.fst

/-- The text from a boundary on. -/
def drop? (t : Text) (n : Nat) : Option Text :=
  (t.splitAt? n).map Prod.snd

/-- The text between two boundaries.  Nothing is read from the second offset back
to the first. -/
def slice? (t : Text) (start stop : Nat) : Option Text :=
  if start ≤ stop then do
    let rest ← t.drop? start
    rest.take? (stop - start)
  else none

/-- The text with what stands between two boundaries replaced. -/
def replace? (t : Text) (start stop : Nat) (code : Text) : Option Text :=
  if start ≤ stop then do
    let (before, rest) ← t.splitAt? start
    let after ← rest.drop? (stop - start)
    some (before ++ code ++ after)
  else none

/-- The character that starts at a byte offset. -/
def charAt? (t : Text) (n : Nat) : Option Char :=
  (t.drop? n).bind List.head?

/-- The bytes of a text in UTF-8. -/
def toUTF8 (t : Text) : ByteArray :=
  (String.ofList t).toUTF8

/-- The text that bytes are the UTF-8 form of, if there is one. -/
def ofUTF8? (bytes : ByteArray) : Option Text :=
  (String.fromUTF8? bytes).map String.toList

/-- A text without the longest tail whose characters all pass a test. -/
def dropTail (p : Char → Bool) (t : Text) : Text :=
  (t.reverse.dropWhile p).reverse

/-- A run of spaces. -/
def spaces (n : Nat) : Text :=
  List.replicate n ' '

/-- Whether a code point lies in one of the ranges. -/
def inRanges (ranges : List (Nat × Nat)) (n : Nat) : Bool :=
  ranges.any fun (lo, hi) => lo ≤ n && n ≤ hi

/-! ## Laws of sizes and cuts -/

@[simp] theorem size_nil : size [] = 0 := rfl

@[simp] theorem size_cons (c : Char) (t : Text) : size (c :: t) = c.utf8Size + size t := rfl

@[simp] theorem size_append (a b : Text) : size (a ++ b) = size a + size b := by
  induction a with
  | nil => simp
  | cons c a ih => simp [ih, Nat.add_assoc]

@[simp] theorem splitAt?_zero (t : Text) : splitAt? t 0 = some ([], t) := by
  cases t <;> rfl

/-- A cut loses nothing, and its first part has the asked size. -/
theorem splitAt?_eq_some {t a b : Text} {n : Nat} (h : splitAt? t n = some (a, b)) :
    t = a ++ b ∧ size a = n := by
  induction t generalizing n a with
  | nil =>
      cases n with
      | zero => simp at h; simp [h]
      | succ n => simp [splitAt?] at h
  | cons c t ih =>
      cases n with
      | zero => simp at h; simp [h.1, h.2]
      | succ n =>
          rw [splitAt?] at h
          split at h
          next hc =>
            obtain ⟨⟨x, y⟩, hx, he⟩ := Option.map_eq_some_iff.mp h
            obtain ⟨rfl, rfl⟩ := Prod.mk.inj he
            obtain ⟨ht, hn⟩ := ih hx
            exact ⟨by rw [ht]; rfl, by rw [size_cons, hn]; omega⟩
          next => simp at h

/-- The end of a leading part is a boundary. -/
@[simp] theorem splitAt?_append (a b : Text) : splitAt? (a ++ b) (size a) = some (a, b) := by
  induction a with
  | nil => simp
  | cons c a ih =>
      have hc : 0 < c.utf8Size := Char.utf8Size_pos c
      obtain ⟨k, hk⟩ : ∃ k, c.utf8Size + size a = k + 1 := ⟨c.utf8Size + size a - 1, by omega⟩
      have hs : k + 1 - c.utf8Size = size a := by omega
      simp only [size_cons, hk, List.cons_append, splitAt?]
      rw [if_pos (by omega), hs, ih]
      rfl

/-- A cut is exactly a way to write the text as two parts. -/
theorem splitAt?_eq_some_iff {t a b : Text} {n : Nat} :
    splitAt? t n = some (a, b) ↔ t = a ++ b ∧ size a = n :=
  ⟨splitAt?_eq_some, fun ⟨ht, hn⟩ => by subst ht hn; exact splitAt?_append a b⟩

/-! ## Bytes that are a text -/

/-- Bytes are read as a text exactly if they are the bytes of that text. -/
theorem ofUTF8?_eq_some_iff {bytes : ByteArray} {t : Text} :
    ofUTF8? bytes = some t ↔ t.toUTF8 = bytes := by
  constructor
  · intro h
    obtain ⟨s, hs, rfl⟩ := Option.map_eq_some_iff.mp h
    rw [toUTF8, String.ofList_toList]
    rw [String.fromUTF8?] at hs
    split at hs
    next =>
      cases hs
      rfl
    next => cases hs
  · rintro rfl
    have hvalid : t.toUTF8.IsValidUTF8 := (String.ofList t).isValidUTF8
    rw [ofUTF8?, String.fromUTF8?, dif_pos hvalid]
    exact congrArg some String.toList_ofList

end Text

end Emend
