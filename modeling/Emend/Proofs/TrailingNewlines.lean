import Emend.Proofs.Statements

/-!
# Newlines at the end of a statement

Code is a *stem* and the newlines after it.  The stem does not end in a newline, so its lines are
the payload of the code (`Text.payloadLines_eq`), and whether a statement has several lines is
whether its stem holds a newline (`Text.one_lt_length_payloadLines_iff`).

A statement of several lines is laid out from its payload, so it ends in one newline however many
its code ends in.  A statement of one line is laid out from its code.  There each newline at the
end of the code is one more empty line after the statement (`statement_trailing_newlines`).
-/

namespace Emend

namespace Text

/-! ## Stems -/

/-- A run of newlines. -/
def newlines (k : Nat) : Text := List.replicate k '\n'

/-- A text without the newlines at its end. -/
def stem (t : Text) : Text := t.dropTail (· = '\n')

/-- How many newlines there are at the end of a text. -/
def finalNewlines (t : Text) : Nat := (t.reverse.takeWhile (· = '\n')).length

section

variable {a b t : Text} {k : Nat}

theorem eq_newline_of_mem_newlines {c : Char} (h : c ∈ newlines k) : c = '\n' :=
  List.eq_of_mem_replicate h

theorem newlines_append (j k : Nat) : newlines j ++ newlines k = newlines (j + k) :=
  List.replicate_append_replicate

theorem eq_stem_append (t : Text) : t = t.stem ++ newlines t.finalNewlines := by
  have hrun : (t.reverse.takeWhile (· = '\n')).reverse = newlines t.finalNewlines := by
    refine List.eq_replicate_iff.mpr ⟨List.length_reverse, fun c hc => ?_⟩
    simpa using List.mem_takeWhile_imp (List.mem_reverse.mp hc)
  rw [← hrun, stem, dropTail, ← List.reverse_append, List.takeWhile_append_dropWhile,
    List.reverse_reverse]

theorem stem_append_newlines (t : Text) (k : Nat) : (t ++ newlines k).stem = t.stem :=
  dropTail_append (fun _ hc => decide_eq_true (eq_newline_of_mem_newlines hc)) t

theorem finalNewlines_append_newlines (t : Text) (k : Nat) :
    (t ++ newlines k).finalNewlines = t.finalNewlines + k := by
  rw [finalNewlines, newlines, List.reverse_append, List.reverse_replicate,
    List.takeWhile_append_of_pos (by simp), List.length_append, List.length_replicate,
    Nat.add_comm]
  rfl

theorem finalNewlines_eq_zero_iff : t.finalNewlines = 0 ↔ t.getLast? ≠ some '\n' := by
  rw [finalNewlines, List.length_eq_zero_iff, ← List.head?_reverse]
  cases t.reverse with
  | nil => simp
  | cons c rest => simp

theorem getLast?_stem_ne (t : Text) : t.stem.getLast? ≠ some '\n' := by
  rw [← finalNewlines_eq_zero_iff]
  have hfinal := congrArg finalNewlines t.eq_stem_append
  rw [finalNewlines_append_newlines] at hfinal
  omega

/-- A part that ends the text, and does not itself end in a newline, ends its newlines. -/
theorem finalNewlines_append (hne : b ≠ []) (hlast : b.getLast? ≠ some '\n') :
    (a ++ b).finalNewlines = 0 := by
  rw [finalNewlines_eq_zero_iff, List.getLast?_append_of_ne_nil a hne]
  exact hlast

theorem lines_append_newlines (t : Text) (k : Nat) :
    (t ++ newlines k).lines = t.lines ++ List.replicate k [] := by
  induction k with
  | zero => simp [newlines]
  | succ k ih =>
      have hlast : t ++ newlines (k + 1) = t ++ newlines k ++ '\n' :: [] := by
        rw [newlines, newlines, List.replicate_succ', List.append_assoc]
      rw [hlast, lines_append_newline, ih, List.append_assoc, List.replicate_succ']
      rfl

theorem payloadLines_append_newlines (t : Text) (k : Nat) :
    (t ++ newlines k).payloadLines = t.payloadLines := by
  rw [payloadLines, lines_append_newlines, List.reverse_append, List.reverse_replicate,
    List.dropWhile_append_of_pos (by simp)]
  rfl

theorem payloadLines_stem (t : Text) : t.stem.payloadLines = t.payloadLines := by
  rw [← payloadLines_append_newlines t.stem t.finalNewlines, ← eq_stem_append]

/-- The payload of several lines is the lines of the stem. -/
theorem payloadLines_eq (h : '\n' ∈ t.stem) : t.payloadLines = t.stem.lines := by
  rw [← payloadLines_stem, payloadLines_eq_lines (lastLine_ne_nil h t.getLast?_stem_ne)]

theorem one_lt_length_payloadLines_iff : 1 < t.payloadLines.length ↔ '\n' ∈ t.stem := by
  constructor
  · intro hmany
    by_contra hnot
    have hle := length_payloadLines_le t.stem
    rw [length_lines_eq_one_iff.mpr hnot, payloadLines_stem] at hle
    omega
  · intro h
    have hcount := List.count_pos_iff.mpr h
    rw [payloadLines_eq h, length_lines]
    omega

theorem stem_ne_nil (h : ∃ line ∈ t.lines, line.isBlank = false) : t.stem ≠ [] := by
  obtain ⟨line, hline, hblank⟩ := h
  intro hnil
  have hlines := lines_append_newlines t.stem t.finalNewlines
  rw [← eq_stem_append, hnil] at hlines
  rw [hlines] at hline
  -- All lines of a text without a stem are empty, and so blank.
  have hempty : line = [] := by
    rcases List.mem_append.mp hline with hfirst | hlater
    · exact List.mem_singleton.mp hfirst
    · exact List.eq_of_mem_replicate hlater
  rw [hempty] at hblank
  cases hblank

end

/-! ## The last of some lines -/

theorem exists_unlines_eq {ls : List Text} (h : ls ≠ []) :
    ∃ front, unlines ls = front ++ ls.getLast h := by
  induction ls with
  | nil => exact absurd rfl h
  | cons line ls ih =>
      by_cases hls : ls = []
      · subst hls
        exact ⟨[], by simp [unlines]⟩
      · obtain ⟨front, hfront⟩ := ih hls
        refine ⟨line ++ '\n' :: front, ?_⟩
        rw [unlines_append_newline line hls, hfront, List.getLast_cons hls]
        simp

theorem exists_indentLine_eq (margin line : Text) :
    ∃ front, indentLine margin line = front ++ line := by
  rw [indentLine]
  split
  next => exact ⟨[], rfl⟩
  next => exact ⟨margin, rfl⟩

end Text

/-! ## Statements -/

namespace Payload

open Text (newlines)

section

variable {margin code : Text}

theorem statement_of_several (h : '\n' ∈ code.stem) :
    statement margin code =
      '\n' :: Text.unlines (code.stem.lines.map (Text.indentLine margin)) ++ ['\n'] := by
  have hmany := Text.one_lt_length_payloadLines_iff.mpr h
  rw [statement, if_pos hmany, Text.payloadLines_eq h]

theorem statement_of_single (h : '\n' ∉ code.stem) :
    statement margin code = margin ++ code ++ newlines 1 := by
  rw [statement, if_neg (mt Text.one_lt_length_payloadLines_iff.mp h)]
  rfl

/-- Newlines at the end of its code do not matter to a statement of several lines. -/
theorem statement_append_of_several (h : '\n' ∈ code.stem) (k : Nat) :
    statement margin (code ++ newlines k) = statement margin code := by
  have hstem := code.stem_append_newlines k
  rw [statement_of_several h, statement_of_several (hstem ▸ h), hstem]

/-- They stay after a statement of one line. -/
theorem statement_append_of_single (h : '\n' ∉ code.stem) (k : Nat) :
    statement margin (code ++ newlines k) = statement margin code ++ newlines k := by
  rw [statement_of_single h, statement_of_single (code.stem_append_newlines k ▸ h),
    List.append_assoc, List.append_assoc, List.append_assoc, List.append_assoc,
    Text.newlines_append, Text.newlines_append, Nat.add_comm]

/-- A statement of several lines ends in the last of them and one newline. -/
theorem exists_statement_of_several (margin : Text) (h : '\n' ∈ code.stem) :
    ∃ front, statement margin code = front ++ code.stem.lastLine ++ newlines 1 := by
  have hlines : code.stem.lines.map (Text.indentLine margin) ≠ [] :=
    mt List.map_eq_nil_iff.mp (List.splitOn_ne_nil '\n' code.stem)
  obtain ⟨front, hfront⟩ := Text.exists_unlines_eq hlines
  obtain ⟨gap, hgap⟩ := Text.exists_indentLine_eq margin code.stem.lastLine
  have hlast : code.stem.lines.getLast (mt List.map_eq_nil_iff.mpr hlines) = code.stem.lastLine :=
    List.getLast_of_getLast?_eq_some code.stem.getLast?_lines
  rw [List.getLast_map, hlast, hgap] at hfront
  refine ⟨'\n' :: (front ++ gap), ?_⟩
  rw [statement_of_several h, hfront]
  simp [newlines]

theorem finalNewlines_of_several (h : '\n' ∈ code.stem) :
    (statement margin code).finalNewlines = 1 := by
  obtain ⟨front, hfront⟩ := exists_statement_of_several margin h
  have hnewline := code.stem.newline_not_mem_lastLine
  have hnone := Text.finalNewlines_append (a := front)
    (Text.lastLine_ne_nil h code.getLast?_stem_ne) fun hlast =>
      hnewline (List.mem_of_getLast? hlast)
  rw [hfront, Text.finalNewlines_append_newlines, hnone]

theorem finalNewlines_of_single (h : '\n' ∉ code.stem) (hne : code.stem ≠ []) :
    (statement margin code).finalNewlines = code.finalNewlines + 1 := by
  have hnone := Text.finalNewlines_append (a := margin) hne code.getLast?_stem_ne
  rw [statement_of_single h, Text.finalNewlines_append_newlines]
  nth_rewrite 1 [code.eq_stem_append]
  rw [← List.append_assoc, Text.finalNewlines_append_newlines, hnone, Nat.zero_add]

end

/-- Newlines at the end of its code do not matter to a statement of several lines, which ends in
one newline.  They do matter to a statement of one line: the newline that ends it comes after all
of them, so that each leaves an empty line behind. -/
theorem statement_trailing_newlines (margin : Text) {code : Text}
    (hcode : ∃ line ∈ code.lines, line.isBlank = false) (k : Nat) :
    (statement margin (code ++ newlines k) = statement margin code ↔ k = 0 ∨ '\n' ∈ code.stem) ∧
    (statement margin (code ++ newlines k)).finalNewlines =
      (if '\n' ∈ code.stem then 1 else code.finalNewlines + k + 1) ∧
    ('\n' ∈ code.stem →
      ∃ front, statement margin code = front ++ code.stem.lastLine ++ newlines 1) ∧
    ('\n' ∉ code.stem →
      statement margin (code ++ newlines k) = statement margin code ++ newlines k) := by
  have hstem := code.stem_append_newlines k
  have hne := Text.stem_ne_nil hcode
  refine ⟨?_, ?_, exists_statement_of_several margin, fun h => statement_append_of_single h k⟩
  · by_cases h : '\n' ∈ code.stem
    · exact iff_of_true (statement_append_of_several h k) (Or.inr h)
    · rw [statement_append_of_single h k, List.append_right_eq_self]
      simp [newlines, h]
  · split
    next h => exact finalNewlines_of_several (hstem ▸ h)
    next h =>
      rw [finalNewlines_of_single (hstem ▸ h) (hstem ▸ hne), Text.finalNewlines_append_newlines]

/-- Two calls with an empty line between them. -/
def twoCalls : Text := "a();\n\nb();\n".toList

/-- One call. -/
def oneCall : Text := "a();".toList

theorem statement_trailing_newlines_calls :
    ((∃ line ∈ twoCalls.lines, line.isBlank = false) ∧
      statement "  ".toList (twoCalls ++ newlines 2) = statement "  ".toList twoCalls) ∧
    ((∃ line ∈ oneCall.lines, line.isBlank = false) ∧
      (statement "  ".toList (oneCall ++ newlines 2)).finalNewlines = 3) := by
  have htwo : ∃ line ∈ twoCalls.lines, line.isBlank = false :=
    ⟨"b();".toList, by decide, by decide⟩
  have hone : ∃ line ∈ oneCall.lines, line.isBlank = false := ⟨oneCall, by decide, by decide⟩
  refine ⟨⟨htwo, ?_⟩, hone, ?_⟩
  · exact (statement_trailing_newlines "  ".toList htwo 2).1.mpr (Or.inr (by decide))
  · exact (statement_trailing_newlines "  ".toList hone 2).2.1.trans (by decide)

/-- A newline after one call leaves an empty line behind. -/
theorem statement_keeps_newline :
    (∃ line ∈ oneCall.lines, line.isBlank = false) ∧
    statement "  ".toList oneCall = "  a();\n".toList ∧
    statement "  ".toList (oneCall ++ newlines 1) = "  a();\n\n".toList ∧
    statement "  ".toList (oneCall ++ newlines 1) ≠ statement "  ".toList oneCall :=
  ⟨⟨oneCall, by decide, by decide⟩, by decide, by decide, by decide⟩

end Payload

end Emend
