import Mathlib.Data.List.DropRight
import Emend.Position
import Emend.Proofs.Cuts

/-!
# Lines of a text in parts

The lines of a text that is given in parts are made of the lines of the parts.  Only the
line on which two parts meet needs care: it is the last line of the one and the first line
of the other.  A part in front of whole lines is empty or ends in a newline, and a part
behind them is empty or starts with one.  `Above` and `Below` say so, and say which lines
these parts hold.

Where a part ends is read off it too.  Its number of lines is the line, and the size of its
last line is the column (`position_append`).

The empty lines at the end of a text do not count as payload.  An empty line stays in the
payload exactly if a line that is not empty comes after it (`getElem?_payloadLines`).
-/

namespace Emend

namespace Text

/-! ## First and last lines -/

/-- The first line of a text ends the text or comes before a newline. -/
theorem exists_firstLine (t : Text) :
    ∃ back, t = t.firstLine ++ back ∧ (back = [] ∨ ∃ rest, back = '\n' :: rest) := by
  refine ⟨t.dropWhile (· ≠ '\n'), List.takeWhile_append_dropWhile.symm, ?_⟩
  cases hback : t.dropWhile (· ≠ '\n') with
  | nil => exact Or.inl rfl
  | cons c rest =>
      have hc := List.head?_dropWhile_not (· ≠ '\n') t
      rw [hback] at hc
      obtain rfl : c = '\n' := by simpa using hc
      exact Or.inr ⟨rest, rfl⟩

/-- The last line of a text starts the text or follows a newline. -/
theorem exists_lastLine (t : Text) :
    ∃ front, t = front ++ t.lastLine ∧ (front = [] ∨ ∃ rest, front = rest ++ ['\n']) := by
  obtain ⟨back, hback, hend⟩ := exists_firstLine t.reverse
  refine ⟨back.reverse, ?_, ?_⟩
  · have hreverse := congrArg List.reverse hback
    rwa [List.reverse_reverse, List.reverse_append] at hreverse
  · rcases hend with rfl | ⟨rest, rfl⟩
    · exact Or.inl rfl
    · exact Or.inr ⟨rest.reverse, by simp⟩

theorem newline_not_mem_firstLine (t : Text) : '\n' ∉ t.firstLine := fun h => by
  simpa using List.mem_takeWhile_imp h

theorem newline_not_mem_lastLine (t : Text) : '\n' ∉ t.lastLine := fun h => by
  simpa using List.mem_takeWhile_imp (List.mem_reverse.mp h)

theorem firstLine_append {a : Text} (h : '\n' ∉ a) (b : Text) :
    (a ++ b).firstLine = a ++ b.firstLine := by
  refine List.takeWhile_append_of_pos fun c hc => ?_
  simpa using ne_of_mem_of_not_mem hc h

theorem lastLine_concat_newline (t : Text) : lastLine (t ++ ['\n']) = [] := by
  simp [lastLine]

theorem lastLine_concat {c : Char} (h : c ≠ '\n') (t : Text) :
    lastLine (t ++ [c]) = t.lastLine ++ [c] := by
  simp [lastLine, h]

/-! ## Lines of parts -/

theorem lines_append_newline (a b : Text) : lines (a ++ '\n' :: b) = a.lines ++ b.lines :=
  List.splitOn_append_cons_self a b

theorem lines_of_no_newline {t : Text} (h : '\n' ∉ t) : t.lines = [t] :=
  List.splitOn_eq_singleton h

theorem length_lines (t : Text) : t.lines.length = t.count '\n' + 1 := by
  induction t with
  | nil => rfl
  | cons c t ih =>
      rw [lines, List.splitOn_cons_eq_if_modifyHead, List.count_cons]
      split
      next => rw [List.length_cons]; exact congrArg (· + 1) ih
      next => rw [List.length_modifyHead]; exact ih

/-- What stands in front of whole lines, and the lines it holds. -/
inductive Above : Text → List Text → Prop where
  /-- The lines come first. -/
  | start : Above [] []
  /-- Other lines come before them. -/
  | newline (t : Text) : Above (t ++ ['\n']) t.lines

/-- What stands behind whole lines, and the lines it holds. -/
inductive Below : Text → List Text → Prop where
  /-- The lines come last. -/
  | stop : Below [] []
  /-- Other lines come after them. -/
  | newline (t : Text) : Below ('\n' :: t) t.lines

theorem Above.lines_append {front : Text} {above : List Text} (h : Above front above) (t : Text) :
    (front ++ t).lines = above ++ t.lines := by
  cases h with
  | start => rfl
  | newline u => rw [← List.append_cons]; exact lines_append_newline u t

theorem Below.append_lines {back : Text} {below : List Text} (h : Below back below) (t : Text) :
    (t ++ back).lines = t.lines ++ below := by
  cases h with
  | stop => simp
  | newline u => exact lines_append_newline t u

/-- A text is what stands above its last line, and that line. -/
theorem exists_above (t : Text) : ∃ front above, Above front above ∧ t = front ++ t.lastLine := by
  obtain ⟨front, hfront, hend⟩ := exists_lastLine t
  rcases hend with rfl | ⟨rest, rfl⟩
  · exact ⟨[], [], .start, hfront⟩
  · exact ⟨rest ++ ['\n'], rest.lines, .newline rest, hfront⟩

/-- A text is its first line, and what stands below that line. -/
theorem exists_below (t : Text) : ∃ back below, Below back below ∧ t = t.firstLine ++ back := by
  obtain ⟨back, hback, hend⟩ := exists_firstLine t
  rcases hend with rfl | ⟨rest, rfl⟩
  · exact ⟨[], [], .stop, hback⟩
  · exact ⟨'\n' :: rest, lines rest, .newline rest, hback⟩

/-- A text of several lines is the first one, a newline, and the others. -/
theorem exists_of_lines_eq_cons {t line : Text} {ls : List Text} (h : t.lines = line :: ls)
    (hls : ls ≠ []) : ∃ rest, t = line ++ '\n' :: rest ∧ ls = lines rest := by
  obtain ⟨back, below, hbelow, ht⟩ := exists_below t
  have hlines := hbelow.append_lines t.firstLine
  rw [← ht, h, lines_of_no_newline (newline_not_mem_firstLine t)] at hlines
  obtain ⟨hline, hrest⟩ := List.cons.inj hlines
  cases hbelow with
  | stop => exact absurd hrest hls
  | newline rest => exact ⟨rest, by rwa [← hline] at ht, hrest⟩

/-- A fact about texts can be shown line by line, from the last line on. -/
theorem lines_induction {motive : Text → Prop} (last : ∀ t, '\n' ∉ t → motive t)
    (newline : ∀ line rest, '\n' ∉ line → motive rest → motive (line ++ '\n' :: rest)) :
    ∀ t, motive t := by
  intro t
  induction hn : t.length using Nat.strong_induction_on generalizing t with
  | _ n ih =>
      obtain ⟨back, hback, rfl | ⟨rest, rfl⟩⟩ := exists_firstLine t
      · rw [List.append_nil] at hback
        exact last t (hback ▸ newline_not_mem_firstLine t)
      · have hlt : rest.length < n := by
          rw [← hn, hback]
          simp
          omega
        rw [hback]
        exact newline _ rest (newline_not_mem_firstLine t) (ih _ hlt rest rfl)

/-! ## Pieces and joined lines -/

theorem pieces_of_no_newline {t : Text} (h : '\n' ∉ t) (hne : t ≠ []) : t.pieces = [t] := by
  induction t with
  | nil => exact absurd rfl hne
  | cons c t ih =>
      rw [List.mem_cons, not_or] at h
      rw [pieces, if_neg (Ne.symm h.1)]
      cases t with
      | nil => rfl
      | cons d t => rw [ih h.2 (List.cons_ne_nil d t)]

theorem pieces_append_newline {line : Text} (h : '\n' ∉ line) (rest : Text) :
    pieces (line ++ '\n' :: rest) = (line ++ ['\n']) :: pieces rest := by
  induction line with
  | nil => rw [List.nil_append, pieces, if_pos rfl]; rfl
  | cons c line ih =>
      rw [List.mem_cons, not_or] at h
      rw [List.cons_append, pieces, if_neg (Ne.symm h.1), ih h.2]
      rfl

theorem unlines_append_newline (line : Text) {ls : List Text} (h : ls ≠ []) :
    unlines (line :: ls) = line ++ '\n' :: unlines ls := by
  rw [unlines, List.intercalate_cons_of_ne_nil h, List.append_assoc, List.singleton_append]
  rfl

/-! ## Positions -/

end Text

namespace Position

/-- The position after a character. -/
def next (p : Position) (c : Char) : Position :=
  if c = '\n' then ⟨p.line + 1, 0⟩ else ⟨p.line, p.column + c.utf8Size⟩

theorem walk_cons (p : Position) (c : Char) (t : Text) (n : Nat) :
    p.walk (c :: t) (c.utf8Size + n) = (p.next c).walk t n := by
  obtain ⟨k, hk⟩ : ∃ k, c.utf8Size + n = k + 1 :=
    ⟨c.utf8Size + n - 1, by have := Char.utf8Size_pos c; omega⟩
  rw [hk, walk, next]
  split
  next hc =>
    have hone : c.utf8Size = 1 := by rw [hc]; rfl
    rw [show k = n by omega]
  next => rw [if_pos (by omega), show k + 1 - c.utf8Size = n by omega]

theorem walk_append (a b : Text) (n : Nat) :
    ∀ p : Position, p.walk (a ++ b) (a.size + n) = (p.walk a a.size).walk b n := by
  induction a with
  | nil => intro p; simp [walk]
  | cons c a ih =>
      intro p
      rw [List.cons_append, Text.size_cons, Nat.add_assoc, walk_cons, ih, walk_cons]

end Position

namespace Text

/-- A text ends on the last of its lines, behind that line. -/
theorem position_size (t : Text) : t.position t.size = ⟨t.lines.length, t.lastLine.size⟩ := by
  induction t using List.reverseRecOn with
  | nil => rfl
  | append_singleton t c ih =>
      have hwalk := Position.walk_append t [c] (c.utf8Size + 0) .origin
      rw [Position.walk_cons, ← position, ← position, ih] at hwalk
      rw [size_append, size_cons, size_nil, hwalk, length_lines, length_lines, List.count_append,
        Position.next]
      by_cases hc : c = '\n'
      · rw [if_pos hc, hc, lastLine_concat_newline]
        rfl
      · rw [if_neg hc, lastLine_concat hc, size_append, List.count_singleton]
        simp [hc, Position.walk]

/-- The position where a leading part of a text ends. -/
theorem position_append (a b : Text) :
    (a ++ b).position a.size = ⟨a.lines.length, a.lastLine.size⟩ := by
  rw [← position_size]
  have hwalk := Position.walk_append a b 0 .origin
  simpa [position, Position.walk] using hwalk

/-! ## Payload -/

/-- The lines of a text are its payload and empty lines. -/
theorem exists_payloadLines (t : Text) :
    ∃ empties, t.lines = t.payloadLines ++ empties ∧ ∀ line ∈ empties, line = [] := by
  refine ⟨(t.lines.reverse.takeWhile List.isEmpty).reverse, ?_, fun line hline => ?_⟩
  · rw [payloadLines, ← List.reverse_append, List.takeWhile_append_dropWhile, List.reverse_reverse]
  · exact List.isEmpty_iff.mp (List.mem_takeWhile_imp (List.mem_reverse.mp hline))

/-- The payload does not end in an empty line. -/
theorem getLast_payloadLines_ne_nil {t : Text} (h : t.payloadLines ≠ []) :
    t.payloadLines.getLast h ≠ [] := fun hnil =>
  List.rdropWhile_last_not List.isEmpty t.lines h (List.isEmpty_iff.mpr hnil)

/-- An empty line belongs to the payload if a line that is not empty comes after it. -/
theorem getElem?_payloadLines {t : Text} {i : Nat} :
    t.payloadLines[i]? = some [] ↔
      t.lines[i]? = some [] ∧ ∃ line ∈ t.lines.drop (i + 1), line ≠ [] := by
  obtain ⟨empties, hlines, hempties⟩ := exists_payloadLines t
  have hlast := @getLast_payloadLines_ne_nil t
  generalize t.payloadLines = payload at *
  rw [hlines, List.drop_append]
  constructor
  · intro hi
    obtain ⟨hlt, hnil⟩ := List.getElem?_eq_some_iff.mp hi
    have hne : payload ≠ [] := List.ne_nil_of_length_pos (by omega)
    have hlater : i + 1 < payload.length := by
      -- The line at the end of the payload is not empty.
      by_contra hge
      have hend : payload.getLast hne = [] := by
        rw [List.getLast_eq_getElem, ← hnil]
        congr 1
        omega
      exact hlast hne hend
    refine ⟨by rw [List.getElem?_append_left hlt, hi], payload.getLast hne, ?_, hlast hne⟩
    rw [← List.getLast_drop (by simpa using hlater)]
    exact List.mem_append_left _ (List.getLast_mem _)
  · rintro ⟨hi, line, hline, hne⟩
    by_cases hlt : i < payload.length
    · rwa [List.getElem?_append_left hlt] at hi
    · rw [List.drop_eq_nil_of_le (by omega), List.nil_append] at hline
      exact absurd (hempties line (List.mem_of_mem_drop hline)) hne

end Text

end Emend
