import Emend.Proofs.Statements

/-!
# Indentation

Indenting a node puts spaces in front of each of its lines that is not blank.  The text of the
node is cut behind its newlines, so the newline at the end of a line is part of what is tested
for blanks and of what is moved.

Spaces in front of a line neither make it blank nor hold a newline.  So an indented text has the
lines of the text, each indented, and the same of them are blank (`pieces_indented`).  What is
said of texts is then read off what happens to one line: spaces add up, and as many as were put
there can be taken away again.
-/

namespace Emend

namespace Text

/-! ## One line -/

theorem isBlank_spaces (k : Nat) : (spaces k).isBlank = true := by
  refine List.all_eq_true.mpr fun c hc => ?_
  rw [(List.mem_replicate.mp hc).2]
  decide

theorem newline_not_mem_spaces (k : Nat) : '\n' ∉ spaces k := by
  simp [spaces]

theorem spaces_append (k m : Nat) : spaces m ++ spaces k = spaces (k + m) := by
  rw [spaces, spaces, List.replicate_append_replicate, Nat.add_comm]
  rfl

theorem isBlank_spaces_append (k : Nat) (line : Text) :
    isBlank (spaces k ++ line) = line.isBlank := by
  rw [isBlank, List.all_append]
  exact (congrArg (· && _) (isBlank_spaces k)).trans (Bool.true_and _)

/-- Indentation does not change whether a line is blank. -/
theorem isBlank_indentLine (k : Nat) (line : Text) :
    (indentLine (spaces k) line).isBlank = line.isBlank := by
  rw [indentLine]
  split
  next => rfl
  next => exact isBlank_spaces_append k line

theorem indentLine_zero (line : Text) : indentLine (spaces 0) line = line :=
  ite_self line

theorem indentLine_indentLine (k m : Nat) (line : Text) :
    indentLine (spaces m) (indentLine (spaces k) line) = indentLine (spaces (k + m)) line := by
  rw [indentLine, isBlank_indentLine, indentLine, indentLine]
  split
  next => rfl
  next => rw [← List.append_assoc, spaces_append]

/-- A line without `k` of the spaces it starts with.  A blank line stays as it is, and any
other has to start with so many. -/
def outdentLine? (k : Nat) (line : Text) : Option Text :=
  if line.isBlank then some line
  else if spaces k <+: line then some (line.drop k)
  else none

theorem outdentLine?_indentLine (k : Nat) (line : Text) :
    outdentLine? k (indentLine (spaces k) line) = some line := by
  rw [outdentLine?, isBlank_indentLine, indentLine]
  split
  next => rfl
  next =>
    have hdrop : (spaces k ++ line).drop k = line := List.drop_left' List.length_replicate
    rw [if_pos (List.prefix_append _ _), hdrop]

end Text

namespace Payload

/-! ## All lines -/

/-- A text moved to the right by so many columns. -/
def shifted (k : Nat) (text : Text) : Text := indented (Text.spaces k) text

/-- A text moved to the left by so many columns.  There is none if a line that is not blank
does not start with as many spaces. -/
def unshifted? (k : Nat) (text : Text) : Option Text :=
  (text.pieces.mapM (Text.outdentLine? k)).map List.flatten

/-- The lines of an indented text are the lines of the text, indented. -/
theorem pieces_indented {margin : Text} (hmargin : '\n' ∉ margin) (t : Text) :
    (indented margin t).pieces = t.pieces.map (Text.indentLine margin) := by
  induction t using Text.lines_induction with
  | last t ht =>
      by_cases hne : t = []
      · rw [hne]
        rfl
      · have hline := Text.newline_not_mem_indentLine hmargin ht
        have hne' : Text.indentLine margin t ≠ [] := by
          rw [Text.indentLine]
          split
          next => exact hne
          next => exact List.append_ne_nil_of_right_ne_nil margin hne
        rw [indented, Text.pieces_of_no_newline ht hne, List.flatMap_singleton,
          Text.pieces_of_no_newline hline hne', List.map_singleton]
  | newline line rest hline ih =>
      have hcut : indented margin (line ++ '\n' :: rest) =
          Text.indentLine margin line ++ '\n' :: indented margin rest := by
        rw [indented, Text.pieces_append_newline hline, List.flatMap_cons,
          Text.indentLine_append_newline, ← List.append_cons]
        rfl
      rw [hcut, Text.pieces_append_newline (Text.newline_not_mem_indentLine hmargin hline), ih,
        Text.pieces_append_newline hline, List.map_cons, Text.indentLine_append_newline]

theorem pieces_shifted (k : Nat) (t : Text) :
    (shifted k t).pieces = t.pieces.map (Text.indentLine (Text.spaces k)) :=
  pieces_indented (Text.newline_not_mem_spaces k) t

theorem lines_shifted (k : Nat) (t : Text) :
    (shifted k t).lines = t.lines.map (Text.indentLine (Text.spaces k)) := by
  rw [shifted, indented_eq_unlines, lines_indented (Text.newline_not_mem_spaces k)]

theorem shifted_zero (t : Text) : shifted 0 t = t := by
  have hid : Text.indentLine (Text.spaces 0) = id := funext Text.indentLine_zero
  rw [shifted, indented, hid, List.flatMap_id, Text.flatten_pieces]

theorem shifted_shifted (k m : Nat) (t : Text) : shifted m (shifted k t) = shifted (k + m) t := by
  rw [shifted, indented, pieces_shifted, List.flatMap_map]
  simp only [Text.indentLine_indentLine]
  rfl

theorem unshifted?_shifted (k : Nat) (t : Text) : unshifted? k (shifted k t) = some t := by
  have hline : Text.outdentLine? k ∘ Text.indentLine (Text.spaces k) = some :=
    funext (Text.outdentLine?_indentLine k)
  have hall : t.pieces.mapM some = some t.pieces := by
    simpa using List.mapM_pure (m := Option) (l := t.pieces) (f := id)
  rw [unshifted?, pieces_shifted, List.mapM_map, hline, hall, Option.map_some,
    Text.flatten_pieces]

end Payload

namespace Request

open Payload (shifted unshifted?)

/-- Indentation of nodes is an action of the numbers on texts.  A request to indent a node puts
its shifted text in its place.  Shifting by nothing changes nothing, and shifting twice is
shifting by the sum.  The lines of a shifted text are as many as before.  The blank ones are
the same, with their newlines, and all others have the spaces in front.  Shifting to the left
again gives the text back. -/
theorem indent_shifts_lines (k m : Nat) (text : Text) :
    (∀ (ν : Type) (h : Host ν) (n : ν) (tabWidth level : Nat), h.sourceOf n = text →
      tabWidth * level = k →
      (Request.indent n level).edit h tabWidth =
        .ok ⟨.indent, h.span n, some (shifted k text)⟩) ∧
    shifted 0 text = text ∧
    shifted m (shifted k text) = shifted (k + m) text ∧
    (shifted k text).pieces.length = text.pieces.length ∧
    (shifted k text).lines.length = text.lines.length ∧
    (∀ (i : Nat) (line : Text), text.pieces[i]? = some line → line.isBlank = true →
      (shifted k text).pieces[i]? = some line) ∧
    (∀ (i : Nat) (line : Text), text.pieces[i]? = some line → line.isBlank = false →
      (shifted k text).pieces[i]? = some (Text.spaces k ++ line)) ∧
    unshifted? k (shifted k text) = some text := by
  have hpieces := Payload.pieces_shifted k text
  refine ⟨?_, Payload.shifted_zero text, Payload.shifted_shifted k m text, ?_, ?_, ?_, ?_,
    Payload.unshifted?_shifted k text⟩
  · rintro ν h n tabWidth level rfl rfl
    rfl
  · rw [hpieces, List.length_map]
  · rw [Payload.lines_shifted, List.length_map]
  · intro i line hline hblank
    rw [hpieces, List.getElem?_map, hline, Option.map_some, Text.indentLine, if_pos hblank]
  · intro i line hline hblank
    rw [hpieces, List.getElem?_map, hline, Option.map_some, Text.indentLine,
      if_neg (Bool.eq_false_iff.mp hblank)]

/-- Four lines with different ends, of which the second and the third are blank. -/
def ragged : Text := "a\r\n\u00a0\r\n\n\té".toList

theorem indent_shifts_lines_ragged :
    (Request.indent ⟨0, 11⟩ 3).edit (.ofSpans ragged) 2 =
      .ok ⟨.indent, ⟨0, 11⟩, some (shifted 6 ragged)⟩ ∧
    (shifted 6 ragged).pieces[1]? = some "\u00a0\r\n".toList ∧
    (shifted 6 ragged).pieces[3]? = some "      \té".toList := by
  obtain ⟨hedit, -, -, -, -, hblank, hfilled, -⟩ := indent_shifts_lines 6 0 ragged
  refine ⟨?_, ?_, ?_⟩
  · exact hedit Span (.ofSpans ragged) ⟨0, 11⟩ 2 3 (by decide) rfl
  · exact hblank 1 _ (by decide) (by decide)
  · exact hfilled 3 "\té".toList (by decide) (by decide)

end Request

end Emend
