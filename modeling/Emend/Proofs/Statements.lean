import Emend.Proofs.Wrapping

/-!
# Statements on lines of their own

Appending to a block puts a statement before the last line of the block, and prepending
puts it after the first.  Both are insertions at an offset that is computed from the size of
a line of the block.  What they do is said in lines of the source: the lines of the statement
come between two lines of the source, and all these stay as they are
(`statements_insert_lines`).

Two things carry this.

* The code of a statement is some lines and the newline that ends the last of them
  (`Payload.exists_statement`).  Put in where a line starts, it adds these lines and no
  others (`Text.lines_insert`).
* A block of several lines has a newline before its last line and one after its first.  So
  both offsets are where a line of the source starts, and the number of lines before each of
  them is read off the line on which the block ends or starts.

In a block of one line a statement goes to the start of the block or to its end.
-/

namespace Emend

open Text (HasDouble)

/-! ## Lines that are put in -/

namespace Text

theorem newline_not_mem_of_mem_lines {t line : Text} (h : line ∈ t.lines) : '\n' ∉ line := by
  induction t using lines_induction with
  | last t ht =>
      rw [lines_of_no_newline ht, List.mem_singleton] at h
      rwa [h]
  | newline first rest hfirst ih =>
      rw [lines_append_newline, lines_of_no_newline hfirst, List.singleton_append,
        List.mem_cons] at h
      rcases h with rfl | hrest
      · exact hfirst
      · exact ih hrest

theorem getLast?_lines (t : Text) : t.lines.getLast? = some t.lastLine := by
  obtain ⟨front, above, habove, ht⟩ := exists_above t
  have hlines := habove.lines_append t.lastLine
  rw [← ht, lines_of_no_newline (newline_not_mem_lastLine t)] at hlines
  rw [hlines, List.getLast?_concat]

theorem length_lines_eq_one_iff {t : Text} : t.lines.length = 1 ↔ '\n' ∉ t := by
  rw [length_lines, Nat.add_eq_right, List.count_eq_zero]

/-- A text of several lines that does not end in a newline ends in a line that is not empty. -/
theorem lastLine_ne_nil {t : Text} (hnewline : '\n' ∈ t) (hlast : t.getLast? ≠ some '\n') :
    t.lastLine ≠ [] := by
  intro hnil
  obtain ⟨front, hfront, rfl | ⟨rest, rfl⟩⟩ := exists_lastLine t
  · rw [hfront, hnil] at hnewline
    cases hnewline
  · rw [hfront, hnil, List.append_nil, List.getLast?_concat] at hlast
    exact hlast rfl

/-- All lines are payload if the last one is not empty. -/
theorem payloadLines_eq_lines {t : Text} (h : t.lastLine ≠ []) : t.payloadLines = t.lines := by
  obtain ⟨empties, hlines, hempties⟩ := exists_payloadLines t
  have hlast := getLast?_lines t
  cases hrev : empties.getLast? with
  | none => rw [hlines, List.getLast?_eq_none_iff.mp hrev, List.append_nil]
  | some line =>
      rw [hlines, List.getLast?_append, hrev] at hlast
      have hline : line = t.lastLine := Option.some.inj hlast
      exact absurd (hempties line (List.mem_of_getLast? hrev)) (hline ▸ h)

theorem length_payloadLines_le (t : Text) : t.payloadLines.length ≤ t.lines.length := by
  obtain ⟨empties, hlines, -⟩ := exists_payloadLines t
  rw [hlines, List.length_append]
  exact Nat.le_add_right _ _

/-- What is put in where a line starts, and ends in a newline, adds its lines to the lines
around it. -/
theorem lines_insert (front new back : Text) :
    lines (front ++ '\n' :: (new ++ '\n' :: back)) = front.lines ++ (new.lines ++ back.lines) := by
  rw [lines_append_newline, lines_append_newline]

/-- The lines of a text with new ones after the first `k`. -/
def linesWith (t : Text) (k : Nat) (new : List Text) : List Text :=
  t.lines.take k ++ (new ++ t.lines.drop k)

theorem linesWith_append_newline (front back : Text) (new : List Text) :
    linesWith (front ++ '\n' :: back) front.lines.length new =
      front.lines ++ (new ++ back.lines) := by
  rw [linesWith, lines_append_newline, List.take_left, List.drop_left]

end Text

namespace Payload

/-- The lines that a statement adds at a margin.  A statement of several lines comes after an
empty line, and its blank lines get no margin. -/
def statementLines (margin code : Text) : List Text :=
  if code.lines.length = 1 then [margin ++ code]
  else [] :: code.lines.map fun line => if line.isBlank then line else margin ++ line

theorem lines_indented {margin : Text} (hmargin : '\n' ∉ margin) (code : Text) :
    (Text.unlines (code.lines.map (Text.indentLine margin))).lines =
      code.lines.map (Text.indentLine margin) := by
  refine List.splitOn_intercalate '\n' (fun line hline => ?_)
    (mt List.map_eq_nil_iff.mp (List.splitOn_ne_nil '\n' code))
  obtain ⟨line, hmem, rfl⟩ := List.mem_map.mp hline
  exact Text.newline_not_mem_indentLine hmargin (Text.newline_not_mem_of_mem_lines hmem)

/-- A statement is the lines it adds, with the newline that ends them. -/
theorem exists_statement {margin code : Text} (hmargin : '\n' ∉ margin)
    (hlast : code.getLast? ≠ some '\n') :
    ∃ new, statement margin code = new ++ ['\n'] ∧ new.lines = statementLines margin code := by
  by_cases hone : code.lines.length = 1
  · -- Code of one line is not looked at further, so it gets the margin even if it is blank.
    have hnot := Text.length_lines_eq_one_iff.mp hone
    have hle := Text.length_payloadLines_le code
    refine ⟨margin ++ code, ?_, ?_⟩
    · rw [statement, if_neg (by omega)]
    · have hnew : '\n' ∉ margin ++ code := fun h => (List.mem_append.mp h).elim hmargin hnot
      rw [statementLines, if_pos hone, Text.lines_of_no_newline hnew]
  · -- The last line is not empty, so none of the lines is dropped as trailing.
    have hnewline : '\n' ∈ code := not_not.mp (mt Text.length_lines_eq_one_iff.mpr hone)
    have hpayload := Text.payloadLines_eq_lines (Text.lastLine_ne_nil hnewline hlast)
    have hmany : 1 < code.lines.length := by
      have hcount := List.count_pos_iff.mpr hnewline
      rw [Text.length_lines]
      omega
    refine ⟨[] ++ '\n' :: Text.unlines (code.lines.map (Text.indentLine margin)), ?_, ?_⟩
    · rw [statement, hpayload, if_pos hmany]
      rfl
    · rw [Text.lines_append_newline, lines_indented hmargin, statementLines, if_neg hone]
      rfl

end Payload

/-! ## Where a statement goes -/

namespace Site

variable {p : Site}

/-- A cut of the node is a boundary of the source between the bounds of the node. -/
theorem cut_inside {x y : Text} (hnode : p.node = x ++ y) :
    p.span.start ≤ (p.before ++ x).size ∧ (p.before ++ x).size ≤ p.span.stop ∧
      p.source.isBoundary (p.before ++ x).size = true := by
  simp only [span, Span.around_start, Span.around_stop, hnode, Text.size_append]
  refine ⟨by omega, by omega, Text.isBoundary_iff.mpr ⟨p.before ++ x, y ++ p.after, ?_, by simp⟩⟩
  rw [source, hnode]
  simp

/-- A node that starts and ends on different lines holds a newline. -/
theorem newline_mem_node (h : p.firstLine < p.lastLine) : '\n' ∈ p.node := by
  refine List.count_pos_iff.mp ?_
  rw [firstLine, lastLine, Text.length_lines, Text.length_lines, List.count_append] at h
  omega

end Site

namespace Request

variable {ν : Type} {h : Host ν} {n : ν} {p : Site}

theorem newline_not_mem_margin (h : Host ν) (n : ν) (more : Nat) : '\n' ∉ margin h n more := by
  simp [margin, Text.spaces]

/-- Appending cuts a block before its last line. -/
theorem appendOffset_eq (hsource : h.source = p.source) (hspan : h.span n = p.span) {front : Text}
    (hnode : p.node = front ++ p.node.lastLine) : appendOffset h n = (p.before ++ front).size := by
  have hsize := congrArg Text.size hnode
  rw [Text.size_append] at hsize
  rw [appendOffset, Session.sourceOf_eq_node hsource hspan, hspan, Site.span, Span.around_stop,
    Text.size_append]
  omega

/-- Prepending cuts a block of several lines after its first newline. -/
theorem prependOffset_eq (hsource : h.source = p.source) (hspan : h.span n = p.span) {rest : Text}
    (hnode : p.node = p.node.firstLine ++ '\n' :: rest) :
    prependOffset h n = (p.before ++ (p.node.firstLine ++ ['\n'])).size := by
  have hmem : '\n' ∈ p.node := by
    rw [hnode]
    simp
  rw [prependOffset, Session.sourceOf_eq_node hsource hspan]
  simp only [if_pos hmem]
  rw [hspan, Site.span, Span.around_start, Text.size_append, Text.size_append, Region.size_newline]
  rfl

/-- Prepending to a block of one line goes to its end. -/
theorem prependOffset_of_no_newline (hsource : h.source = p.source) (hspan : h.span n = p.span)
    (hnode : '\n' ∉ p.node) : prependOffset h n = (p.before ++ p.node).size := by
  rw [prependOffset, Session.sourceOf_eq_node hsource hspan]
  simp only [if_neg hnode]
  rw [hspan, Site.span, Span.around_stop, Text.size_append]

theorem exists_append_cut (hsource : h.source = p.source) (hspan : h.span n = p.span) :
    ∃ x y, p.node = x ++ y ∧ appendOffset h n = (p.before ++ x).size := by
  obtain ⟨front, hnode, -⟩ := Text.exists_lastLine p.node
  exact ⟨front, p.node.lastLine, hnode, appendOffset_eq hsource hspan hnode⟩

theorem exists_prepend_cut (hsource : h.source = p.source) (hspan : h.span n = p.span) :
    ∃ x y, p.node = x ++ y ∧ prependOffset h n = (p.before ++ x).size := by
  obtain ⟨back, hnode, rfl | ⟨rest, rfl⟩⟩ := Text.exists_firstLine p.node
  · rw [List.append_nil] at hnode
    have hnot : '\n' ∉ p.node := hnode ▸ Text.newline_not_mem_firstLine p.node
    exact ⟨p.node, [], by simp, prependOffset_of_no_newline hsource hspan hnot⟩
  · refine ⟨p.node.firstLine ++ ['\n'], rest, ?_, prependOffset_eq hsource hspan hnode⟩
    rw [← List.append_cons]
    exact hnode

/-- Both requests lay out their code as a statement at the margin of the block. -/
theorem edit_statement {r : Request ν} {code : Text} {offset : Nat} (tabWidth : Nat)
    (hr : r ∈ [Request.append n code, Request.prepend n code])
    (hspan : r.span h = .ok (.point offset)) (hdouble : ¬ HasDouble '\x7b' code) :
    r.edit h tabWidth =
      .ok ⟨r.kind, .point offset, some (Payload.statement (margin h n tabWidth) code)⟩ := by
  have hcode : r.code h tabWidth =
      .ok (some (Payload.statement (margin h n tabWidth) code)) := by
    rcases List.mem_pair.mp hr with rfl | rfl
    · rw [Request.code, h.render_literal n hdouble]
      rfl
    · rw [Request.code, h.render_literal n hdouble]
      rfl
  rw [edit, hspan, hcode]
  rfl

end Request

/-! ## Sessions -/

section

variable {ν : Type} (h : Host ν) (n : ν)

/-- The line on which a node starts, counted from one. -/
def Host.startLine : Nat := (h.source.position (h.span n).start).line

/-- The line on which a node ends, counted from one. -/
def Host.stopLine : Nat := (h.source.position (h.span n).stop).line

end

namespace Session

variable {ν : Type}

/-- What processing gives if the only step of a session is a request. -/
def requestAlone (h : Host ν) (settings : Settings) (r : Request ν) :
    Option (Except Failure Outcome) :=
  (run ⟨h, settings, [], []⟩ [.build r]).map fun x => x.1.process none

section

variable {h : Host ν} {n : ν} {p : Site} {code : Text} (settings : Settings)

/-- A statement that is put in where a line of the source starts adds its lines there. -/
theorem requestAlone_statement {r : Request ν} {front back : Text}
    (hr : r ∈ [Request.append n code, Request.prepend n code])
    (hspan : r.span h = .ok (.point (front ++ ['\n']).size))
    (hsource : h.source = front ++ '\n' :: back) (hdouble : ¬ HasDouble '\x7b' code)
    (hlast : code.getLast? ≠ some '\n') :
    ∃ text, requestAlone h settings r = becomes text ∧
      text.lines = h.source.linesWith front.lines.length
        (Payload.statementLines (Request.margin h n settings.tabWidth) code) := by
  obtain ⟨new, hnew, hlines⟩ :=
    Payload.exists_statement (Request.newline_not_mem_margin h n settings.tabWidth) hlast
  have hedit := Request.edit_statement settings.tabWidth hr hspan hdouble
  have happly := Patch.apply_around r.kind (front ++ ['\n']) [] back (new ++ ['\n'])
  rw [List.nil_append, ← List.append_cons, ← hsource, ← hnew] at happly
  refine ⟨_, process_build hedit happly, ?_⟩
  rw [hsource, Text.linesWith_append_newline, ← hlines, ← Text.lines_insert, hnew]
  simp

/-- A statement that is appended to a block of several lines comes before the last of them. -/
theorem append_inserts_lines (hsource : h.source = p.source) (hspan : h.span n = p.span)
    (hdouble : ¬ HasDouble '\x7b' code) (hlast : code.getLast? ≠ some '\n')
    (hlines : p.firstLine < p.lastLine) :
    ∃ text, requestAlone h settings (.append n code) = becomes text ∧
      text.lines = h.source.linesWith (p.lastLine - 1)
        (Payload.statementLines (Request.margin h n settings.tabWidth) code) := by
  obtain ⟨front, hnode, rfl | ⟨rest, rfl⟩⟩ := Text.exists_lastLine p.node
  · rw [List.nil_append] at hnode
    exact absurd (Site.newline_mem_node hlines) (hnode ▸ Text.newline_not_mem_lastLine p.node)
  · have hoffset : (Request.append n code).span h =
        .ok (.point (p.before ++ rest ++ ['\n']).size) := by
      rw [Request.span, Request.appendOffset_eq hsource hspan hnode, ← List.append_assoc]
    have hcut : h.source = p.before ++ rest ++ '\n' :: (p.node.lastLine ++ p.after) := by
      rw [hsource, Site.source]
      nth_rewrite 1 [hnode]
      simp
    have hcount : (p.before ++ rest).lines.length = p.lastLine - 1 := by
      have hnone := List.count_eq_zero.mpr (Text.newline_not_mem_lastLine p.node)
      rw [Site.lastLine, hnode, Text.length_lines, Text.length_lines]
      simp only [List.count_append, hnone, List.count_singleton_self]
      omega
    rw [← hcount]
    exact requestAlone_statement settings (by simp) hoffset hcut hdouble hlast

/-- A statement that is prepended to a block of several lines comes after the first of them. -/
theorem prepend_inserts_lines (hsource : h.source = p.source) (hspan : h.span n = p.span)
    (hdouble : ¬ HasDouble '\x7b' code) (hlast : code.getLast? ≠ some '\n')
    (hlines : p.firstLine < p.lastLine) :
    ∃ text, requestAlone h settings (.prepend n code) = becomes text ∧
      text.lines = h.source.linesWith p.firstLine
        (Payload.statementLines (Request.margin h n settings.tabWidth) code) := by
  obtain ⟨back, hnode, rfl | ⟨rest, rfl⟩⟩ := Text.exists_firstLine p.node
  · rw [List.append_nil] at hnode
    exact absurd (Site.newline_mem_node hlines) (hnode ▸ Text.newline_not_mem_firstLine p.node)
  · have hoffset : (Request.prepend n code).span h =
        .ok (.point (p.before ++ p.node.firstLine ++ ['\n']).size) := by
      rw [Request.span, Request.prependOffset_eq hsource hspan hnode, ← List.append_assoc]
    have hcut : h.source = p.before ++ p.node.firstLine ++ '\n' :: (rest ++ p.after) := by
      rw [hsource, Site.source]
      nth_rewrite 1 [hnode]
      simp
    have hcount : (p.before ++ p.node.firstLine).lines.length = p.firstLine := by
      have hnone := List.count_eq_zero.mpr (Text.newline_not_mem_firstLine p.node)
      rw [Site.firstLine, Text.length_lines, Text.length_lines, List.count_append, hnone,
        Nat.add_zero]
    rw [← hcount]
    exact requestAlone_statement settings (by simp) hoffset hcut hdouble hlast

end

/-- Statements go on lines of their own.  Appended to a block of several lines, a statement
puts its lines before the last line of the block, and prepended to it, after the first.  All
lines of the source stay as they are.  In every block, also in one of a single line, the
statement is put in between the bounds of the block and not inside a character. -/
theorem statements_insert_lines {h : Host ν} {n : ν} (settings : Settings)
    (hfits : (h.span n).fits h.source = true) (code : Text) :
    (¬ HasDouble '\x7b' code → code.getLast? ≠ some '\n' → h.startLine n < h.stopLine n →
      (∃ text, requestAlone h settings (.append n code) = becomes text ∧
        text.lines = h.source.linesWith (h.stopLine n - 1) (Payload.statementLines
          (Text.spaces (h.source.column (h.span n).start + settings.tabWidth)) code)) ∧
      (∃ text, requestAlone h settings (.prepend n code) = becomes text ∧
        text.lines = h.source.linesWith (h.startLine n) (Payload.statementLines
          (Text.spaces (h.source.column (h.span n).start + settings.tabWidth)) code))) ∧
    ∀ r ∈ [Request.append n code, Request.prepend n code],
      ∃ offset, r.span h = .ok (.point offset) ∧ (h.span n).start ≤ offset ∧
        offset ≤ (h.span n).stop ∧ h.source.isBoundary offset = true := by
  obtain ⟨before, node, after, hsource, hspan⟩ := Span.fits_iff_around.mp hfits
  let p : Site := ⟨before, node, after⟩
  replace hsource : h.source = p.source := hsource
  replace hspan : h.span n = p.span := hspan
  constructor
  · intro hdouble hlast hlt
    have hstart : h.startLine n = p.firstLine := by
      rw [Host.startLine, hsource, hspan, p.position_start]
    have hstop : h.stopLine n = p.lastLine := by
      rw [Host.stopLine, hsource, hspan, p.position_stop]
    rw [hstart, hstop] at hlt ⊢
    exact ⟨append_inserts_lines settings hsource hspan hdouble hlast hlt,
      prepend_inserts_lines settings hsource hspan hdouble hlast hlt⟩
  · intro r hr
    rw [hspan, hsource]
    rcases List.mem_pair.mp hr with rfl | rfl
    · obtain ⟨x, y, hnode, hoffset⟩ := Request.exists_append_cut hsource hspan
      exact ⟨_, rfl, hoffset ▸ Site.cut_inside hnode⟩
    · obtain ⟨x, y, hnode, hoffset⟩ := Request.exists_prepend_cut hsource hspan
      exact ⟨_, rfl, hoffset ▸ Site.cut_inside hnode⟩

/-- A block of four lines that starts in column four. -/
def tallBlock : Text := "é: \x7b\n\n  a();\n  \x7d\n".toList

/-- The lines before a statement that is appended to the block, those of the statement and
those after it; and the place for a statement in a block of one line. -/
theorem statements_insert_lines_tall :
    ((Span.mk 4 17).fits tallBlock = true ∧
      ∃ text, requestAlone (.ofSpans tallBlock) .default (.append ⟨4, 17⟩ "b();\n\n\tc();".toList) =
          becomes text ∧
        text.lines = ["é: \x7b".toList, [], "  a();".toList,
          [], "      b();".toList, [], "      \tc();".toList,
          "  \x7d".toList, []]) ∧
    ((Span.mk 9 13).fits tallBlock = true ∧
      ∃ offset, (Request.prepend ⟨9, 13⟩ "b();".toList).span (.ofSpans tallBlock) =
          .ok (.point offset) ∧
        9 ≤ offset ∧ offset ≤ 13 ∧ tallBlock.isBoundary offset = true) := by
  have hblock : (Span.mk 4 17).fits tallBlock = true := by decide
  have hcall : (Span.mk 9 13).fits tallBlock = true := by decide
  have hdouble : ¬ HasDouble '\x7b' "b();\n\n\tc();".toList :=
    Text.not_hasDouble_of_not_mem (by decide)
  refine ⟨⟨hblock, ?_⟩, hcall, ?_⟩
  · obtain ⟨⟨text, htext, hlines⟩, -⟩ :=
      (statements_insert_lines (h := .ofSpans tallBlock) (n := ⟨4, 17⟩) .default hblock
        "b();\n\n\tc();".toList).1 hdouble (by decide) (by decide)
    exact ⟨text, htext, hlines.trans (by decide)⟩
  · exact (statements_insert_lines (h := .ofSpans tallBlock) (n := ⟨9, 13⟩) .default hcall
      "b();".toList).2 _ (List.mem_pair.mpr (Or.inr rfl))

end Session

end Emend
