import Emend.Host.Spans
import Emend.Proofs.Placeholders
import Emend.Proofs.Widening

/-!
# Removing a node with its lines

A node that stands alone on its lines is removed with them.  What that means is said in
lines: the lines of the source are those above the node, those of the node, and those
below it, and the lines above and below are left.  The removal itself is computed from
offsets, in steps that look at the source in different ways.

* The lines of the node go with a newline, the one below them, or the one above them if
  they are the last.  Either way the lines around them are joined as they should be
  (`Framed.removes_below`, `Framed.removes_last`).
* An empty line below goes too if the node is isolated.  That test counts lines, and it
  counts them without the empty lines at the end of the source (`isIsolated_iff`).  So of
  two empty lines around a node one goes, unless all lines from there on are empty.

A node that does not stand alone goes with the spaces behind it.
-/

namespace Emend

open Region (removal? squeeze withNewline isIsolated leadingSpaces)

/-- The lines of a text are these.  The empty text may stand for no line. -/
def Text.HasLines (t : Text) (ls : List Text) : Prop :=
  t.lines = ls ∨ ls = [] ∧ t = []

/-- A text is what is left of a source if a span is taken out of it. -/
def Span.Leaves (source : Text) (s : Span) (text : Text) : Prop :=
  ∃ a b c, source = a ++ (b ++ c) ∧ s = .around a b ∧ text = a ++ c

/-! ## Nodes and their lines -/

/-- A node of a source, between what stands before it and what stands after it. -/
structure Site where
  /-- What stands before the node. -/
  before : Text
  /-- The text of the node. -/
  node : Text
  /-- What stands after the node. -/
  after : Text

namespace Site

section

variable (p : Site)

/-- The source. -/
def source : Text := p.before ++ (p.node ++ p.after)

/-- The span of the node. -/
def span : Span := .around p.before p.node

/-- The line on which the node starts, counted from one. -/
def firstLine : Nat := p.before.lines.length

/-- The line on which the node ends, counted from one. -/
def lastLine : Nat := (p.before ++ p.node).lines.length

/-- The lines of the source before the first line of the node. -/
def linesAbove : List Text := p.source.lines.take (p.firstLine - 1)

/-- The lines of the source after the last line of the node. -/
def linesBelow : List Text := p.source.lines.drop p.lastLine

/-- Besides the node there are only blanks on its first and its last line. -/
def Alone : Prop := p.before.lastLine.isBlank = true ∧ p.after.firstLine.isBlank = true

instance : Decidable p.Alone :=
  inferInstanceAs (Decidable (p.before.lastLine.isBlank = true ∧ p.after.firstLine.isBlank = true))

/-- The lines of the node, as one text. -/
def whole : Text := p.before.lastLine ++ (p.node ++ p.after.firstLine)

theorem position_start : (p.source.position p.span.start).line = p.firstLine := by
  rw [source, span, Span.around_start, Text.position_append]
  rfl

theorem position_stop : (p.source.position p.span.stop).line = p.lastLine := by
  rw [source, span, Span.around_stop, ← List.append_assoc, ← Text.size_append,
    Text.position_append]
  rfl

/-- These parts of the source stand around the lines of the node. -/
structure Framed (front back : Text) : Prop where
  /-- What stands in front holds the lines above. -/
  above : Text.Above front p.linesAbove
  /-- What stands behind holds the lines below. -/
  below : Text.Below back p.linesBelow
  /-- The node starts on the line after what stands in front. -/
  before_eq : p.before = front ++ p.before.lastLine
  /-- The node ends on the line before what stands behind. -/
  after_eq : p.after = p.after.firstLine ++ back

end

section

variable {p : Site} {front back : Text} {above below : List Text}

theorem source_eq (hbefore : p.before = front ++ p.before.lastLine)
    (hafter : p.after = p.after.firstLine ++ back) : p.source = front ++ (p.whole ++ back) := by
  rw [source, hbefore, hafter]
  simp [whole]

theorem firstLine_eq (habove : Text.Above front above)
    (hbefore : p.before = front ++ p.before.lastLine) : p.firstLine = above.length + 1 := by
  have hlast := Text.lines_of_no_newline (Text.newline_not_mem_lastLine p.before)
  rw [firstLine, hbefore, habove.lines_append, hlast]
  simp

theorem lastLine_eq (habove : Text.Above front above)
    (hbefore : p.before = front ++ p.before.lastLine) :
    p.lastLine = above.length + p.whole.lines.length := by
  have hfirst := List.count_eq_zero.mpr (Text.newline_not_mem_firstLine p.after)
  rw [lastLine, hbefore, List.append_assoc, habove.lines_append, List.length_append, whole,
    Text.length_lines, Text.length_lines, List.count_append, List.count_append, List.count_append,
    hfirst]
  rfl

theorem Framed.source_eq (h : p.Framed front back) : p.source = front ++ (p.whole ++ back) :=
  Site.source_eq h.before_eq h.after_eq

end

theorem exists_framed (p : Site) : ∃ front back, p.Framed front back := by
  obtain ⟨front, above, habove, hbefore⟩ := Text.exists_above p.before
  obtain ⟨back, below, hbelow, hafter⟩ := Text.exists_below p.after
  have hlines : p.source.lines = above ++ (p.whole.lines ++ below) := by
    rw [source_eq hbefore hafter, habove.lines_append, hbelow.append_lines]
  have hlinesAbove : p.linesAbove = above := by
    rw [linesAbove, hlines, firstLine_eq habove hbefore, Nat.add_sub_cancel, List.take_left]
  have hlinesBelow : p.linesBelow = below := by
    rw [linesBelow, hlines, lastLine_eq habove hbefore, ← List.append_assoc, ← List.length_append,
      List.drop_left]
  exact ⟨front, back, hlinesAbove ▸ habove, hlinesBelow ▸ hbelow, hbefore, hafter⟩

end Site

/-! ## What is removed -/

namespace Region

theorem firstLine_dropSpaces (t : Text) :
    leadingSpaces t ++ Text.firstLine (t.dropWhile (· = ' ')) = t.firstLine := by
  have hspaces : '\n' ∉ leadingSpaces t := fun h =>
    absurd (eq_space_of_mem_leadingSpaces h) (by decide)
  rw [← Text.firstLine_append hspaces, leadingSpaces_append_dropWhile]

section

variable (p : Site)

/-- The spaces behind a node do not matter to whether it stands alone. -/
theorem alone_iff :
    p.Alone ↔
      (p.before.lastLine.isBlank && Text.isBlank (Text.firstLine (p.after.dropWhile (· = ' ')))) =
        true := by
  have hblank : p.after.firstLine.isBlank =
      Text.isBlank (Text.firstLine (p.after.dropWhile (· = ' '))) := by
    rw [← firstLine_dropSpaces p.after, Text.isBlank, List.all_append]
    exact (congrArg (· && _) (leadingSpaces_isBlank p.after)).trans (Bool.true_and _)
  rw [Site.Alone, hblank, Bool.and_eq_true]

/-- A node on its own lines is removed with them, and any other with the spaces behind it. -/
theorem removal?_eq :
    removal? false p.source p.span =
      if p.Alone then
        some (squeeze p.source p.span (withNewline p.source
          ⟨p.before.size - p.before.lastLine.size,
            p.before.size + p.node.size + p.after.firstLine.size⟩))
      else some (.around p.before (p.node ++ leadingSpaces p.after)) := by
  have hover : overSpaces p.source p.span = .around p.before (p.node ++ leadingSpaces p.after) :=
    overSpaces_around p.before p.node p.after
  have htake : p.source.take? p.before.size = some p.before := Text.take?_append p.before _
  have hdrop : p.source.drop? (p.before.size + (p.node ++ leadingSpaces p.after).size) =
      some (p.after.dropWhile (· = ' ')) := by
    have hrest := Text.drop?_append (p.before ++ (p.node ++ leadingSpaces p.after))
      (p.after.dropWhile (· = ' '))
    simpa only [List.append_assoc, leadingSpaces_append_dropWhile, Text.size_append, Site.source]
      using hrest
  simp only [removal?, overCommaIf?, Bool.false_eq_true, if_false, Option.bind_eq_bind,
    Option.bind_some, hover, Span.around_start, Span.around_stop, htake, hdrop, ← alone_iff]
  rw [← firstLine_dropSpaces p.after, Text.size_append, Text.size_append]
  simp only [Nat.add_assoc]

/-- A node is isolated between empty lines, or at the start of the source before an empty
line, if a line that is not empty comes later. -/
theorem isIsolated_iff :
    isIsolated p.source p.span = true ↔
      (p.linesAbove = [] ∨ p.linesAbove.getLast? = some []) ∧ p.linesBelow.head? = some [] ∧
      ∃ line ∈ p.linesBelow.tail, line ≠ [] := by
  obtain ⟨front, back, h⟩ := p.exists_framed
  have hfirst : p.firstLine = p.linesAbove.length + 1 := Site.firstLine_eq h.above h.before_eq
  have hlast : p.firstLine ≤ p.lastLine := by
    rw [hfirst, Site.lastLine_eq h.above h.before_eq, Text.length_lines]
    omega
  have habove : p.linesAbove ≠ [] →
      p.linesAbove.getLast? = p.source.lines[p.firstLine - 2]? := by
    intro hne
    have hpos := List.length_pos_iff.mpr hne
    rw [List.getLast?_eq_getElem?, show p.linesAbove.length - 1 = p.firstLine - 2 by omega,
      Site.linesAbove, List.getElem?_take_of_lt (by omega)]
  rw [Site.linesBelow, List.head?_drop, List.tail_drop]
  simp only [isIsolated, p.position_start, p.position_stop, Bool.and_eq_true, Bool.or_eq_true,
    decide_eq_true_eq, Text.getElem?_payloadLines]
  constructor
  · rintro ⟨⟨-, hstart⟩, hbelow⟩
    refine ⟨?_, hbelow⟩
    by_cases hne : p.linesAbove = []
    · exact Or.inl hne
    · have hpos := List.length_pos_iff.mpr hne
      rcases hstart with hone | ⟨hnil, -⟩
      · omega
      · exact Or.inr ((habove hne).trans hnil)
  · rintro ⟨hstart, hbelow, line, hline, hne⟩
    have hpayload := Text.getElem?_payloadLines.mpr ⟨hbelow, line, hline, hne⟩
    obtain ⟨hlt, -⟩ := List.getElem?_eq_some_iff.mp hpayload
    refine ⟨⟨by omega, ?_⟩, hbelow, line, hline, hne⟩
    by_cases hnil : p.linesAbove = []
    · exact Or.inl (by rw [hfirst, hnil]; rfl)
    · -- The line that is not empty comes after the node, so after the line above it.
      have hlater : line ∈ p.source.lines.drop (p.firstLine - 2 + 1) :=
        List.drop_subset_drop_left p.source.lines (by omega) hline
      exact Or.inr ⟨(habove hnil).symm.trans (hstart.resolve_left hnil), line, hlater, hne⟩

end

theorem squeeze_at_end {source : Text} {lines : Span} (node : Span) (h : lines.stop = source.size) :
    squeeze source node lines = lines := by
  have hchar : source.charAt? source.size = none := by
    simpa using Text.charAt?_append source []
  rw [squeeze, h, hchar]
  simp

theorem squeeze_around (node : Span) (front lines rest : Text) :
    squeeze (front ++ (lines ++ rest)) node (.around front lines) =
      if isIsolated (front ++ (lines ++ rest)) node = true ∧ rest.head? = some '\n' then
        .around front (lines ++ ['\n'])
      else .around front lines := by
  have hchar := Text.charAt?_append (front ++ lines) rest
  rw [List.append_assoc, Text.size_append] at hchar
  rw [squeeze, Span.around_stop, hchar]
  simp only [Bool.and_eq_true, decide_eq_true_eq, Span.around, Text.size_append, size_newline,
    Nat.add_assoc]

end Region

/-! ## What is left -/

namespace Site

/-- Removing the node, without a comma, leaves a text. -/
def Removes (p : Site) (text : Text) : Prop :=
  ∃ s, removal? false p.source p.span = some s ∧ Span.Leaves p.source s text

/-- A node that does not stand alone goes with the spaces behind it. -/
theorem removes_of_not_alone {p : Site} (h : ¬ p.Alone) :
    p.Removes (p.before ++ p.after.dropWhile (· = ' ')) := by
  refine ⟨_, (Region.removal?_eq p).trans (if_neg h), p.before, p.node ++ leadingSpaces p.after,
    p.after.dropWhile (· = ' '), ?_, rfl, rfl⟩
  rw [List.append_assoc, Region.leadingSpaces_append_dropWhile]
  rfl

namespace Framed

variable {p : Site} {front back rest : Text}

theorem removal?_eq (h : p.Framed front back) (halone : p.Alone) :
    removal? false p.source p.span =
      some (squeeze p.source p.span (withNewline p.source (.around front p.whole))) := by
  have hspan : (⟨p.before.size - p.before.lastLine.size,
      p.before.size + p.node.size + p.after.firstLine.size⟩ : Span) = .around front p.whole := by
    have hsize := congrArg Text.size h.before_eq
    rw [Text.size_append] at hsize
    simp only [Span.around, whole, Text.size_append, Span.mk.injEq]
    omega
  rw [Region.removal?_eq, if_pos halone, hspan]

/-- The lines of the node at the end of the source go with the newline before them. -/
theorem removes_last (h : p.Framed front []) (halone : p.Alone) :
    ∃ text, p.Removes text ∧ text.HasLines p.linesAbove := by
  have hremoval := h.removal?_eq halone
  have hsource := h.source_eq
  have habove := h.above
  rw [List.append_nil] at hsource
  generalize p.linesAbove = above at habove ⊢
  cases habove with
  | start =>
      rw [List.nil_append] at hsource
      rw [hsource, Region.withNewline_all, Region.squeeze_at_end _ (by simp)] at hremoval
      refine ⟨[], ⟨_, hsource ▸ hremoval, [], p.whole, [], ?_, rfl, rfl⟩, Or.inr ⟨rfl, rfl⟩⟩
      rw [hsource, List.append_nil, List.nil_append]
  | newline t =>
      have hstop : (Span.around t ('\n' :: p.whole)).stop = p.source.size := by
        rw [hsource]
        simp
      rw [hsource, Region.withNewline_before, ← hsource, Region.squeeze_at_end _ hstop] at hremoval
      refine ⟨t, ⟨_, hremoval, t, '\n' :: p.whole, [], ?_, rfl, by simp⟩, Or.inl rfl⟩
      simp [hsource]

theorem removal?_below (h : p.Framed front ('\n' :: rest)) (halone : p.Alone) :
    removal? false p.source p.span =
      some (if isIsolated p.source p.span = true ∧ rest.head? = some '\n' then
        .around front (p.whole ++ ['\n'] ++ ['\n'])
      else .around front (p.whole ++ ['\n'])) := by
  have hsqueeze := Region.squeeze_around p.span front (p.whole ++ ['\n']) rest
  rw [List.append_assoc, List.singleton_append, ← h.source_eq] at hsqueeze
  have hnewline := Region.withNewline_after front p.whole rest
  rw [← h.source_eq] at hnewline
  rw [h.removal?_eq halone, hnewline, hsqueeze]

/-- The lines of the node before other lines go with the newline behind them. -/
theorem removes_below (h : p.Framed front ('\n' :: rest)) (halone : p.Alone)
    (hkeep : ¬ (isIsolated p.source p.span = true ∧ rest.head? = some '\n')) :
    p.Removes (front ++ rest) := by
  have hremoval := h.removal?_below halone
  rw [if_neg hkeep] at hremoval
  refine ⟨_, hremoval, front, p.whole ++ ['\n'], rest, ?_, rfl, rfl⟩
  simp [h.source_eq]

/-- The empty line below goes too if the node is isolated. -/
theorem removes_isolated (h : p.Framed front ('\n' :: '\n' :: rest)) (halone : p.Alone)
    (hisolated : isIsolated p.source p.span = true) : p.Removes (front ++ rest) := by
  have hremoval := h.removal?_below halone
  rw [if_pos ⟨hisolated, rfl⟩] at hremoval
  refine ⟨_, hremoval, front, p.whole ++ ['\n'] ++ ['\n'], rest, ?_, rfl, rfl⟩
  simp [h.source_eq]

end Framed

/-- The node goes with its lines, and possibly with the line below them.  In that case this
line is empty, and so is the line above, if there is one. -/
theorem removes_of_alone {p : Site} (halone : p.Alone) :
    ∃ text, p.Removes text ∧
      (text.HasLines (p.linesAbove ++ p.linesBelow) ∨
        p.linesBelow.head? = some [] ∧
        (p.linesAbove = [] ∨ p.linesAbove.getLast? = some []) ∧
        text.lines = p.linesAbove ++ p.linesBelow.tail) := by
  obtain ⟨front, back, h⟩ := p.exists_framed
  have hbelow := h.below
  have hisolated := Region.isIsolated_iff p
  generalize p.linesBelow = below at *
  cases hbelow with
  | stop =>
      obtain ⟨text, hremoves, hlines⟩ := h.removes_last halone
      exact ⟨text, hremoves, Or.inl (by rwa [List.append_nil])⟩
  | newline rest =>
      by_cases hsqueeze : isIsolated p.source p.span = true ∧ rest.head? = some '\n'
      · obtain ⟨rest, rfl⟩ := List.head?_eq_some_iff.mp hsqueeze.2
        obtain ⟨habove, hhead, -⟩ := hisolated.mp hsqueeze.1
        have hlines : Text.lines ('\n' :: rest) = [] :: Text.lines rest :=
          Text.lines_append_newline [] rest
        refine ⟨front ++ rest, h.removes_isolated halone hsqueeze.1, Or.inr ⟨hhead, habove, ?_⟩⟩
        rw [h.above.lines_append, hlines]
        rfl
      · exact ⟨front ++ rest, h.removes_below halone hsqueeze,
          Or.inl (Or.inl (h.above.lines_append rest))⟩

/-- Below an empty line, or at the start of the source, and above an empty line that a newline
ends, the node goes with that line exactly if a line after it is not empty. -/
theorem removes_between_empty_lines {p : Site} (halone : p.Alone)
    (habove : p.linesAbove = [] ∨ p.linesAbove.getLast? = some [])
    (hbelow : p.linesBelow.head? = some []) (hnewline : 1 < p.linesBelow.length) :
    ∃ text, p.Removes text ∧
      text.lines = p.linesAbove ++
        if ∃ line ∈ p.linesBelow.tail, line ≠ [] then p.linesBelow.tail else p.linesBelow := by
  obtain ⟨front, back, h⟩ := p.exists_framed
  have hframe := h.below
  have hisolated := Region.isIsolated_iff p
  simp only [habove, hbelow, true_and] at hisolated
  generalize p.linesBelow = below at *
  cases hframe with
  | stop => cases hbelow
  | newline rest =>
      obtain ⟨ls, hls⟩ := List.head?_eq_some_iff.mp hbelow
      have hne : ls ≠ [] := by
        rintro rfl
        simp [hls] at hnewline
      obtain ⟨rest, rfl, rfl⟩ := Text.exists_of_lines_eq_cons hls hne
      by_cases hlater : ∃ line ∈ (Text.lines ([] ++ '\n' :: rest)).tail, line ≠ []
      · refine ⟨front ++ rest, h.removes_isolated halone (hisolated.mpr hlater), ?_⟩
        rw [if_pos hlater, h.above.lines_append, hls]
        rfl
      · refine ⟨front ++ '\n' :: rest,
          h.removes_below halone fun hi => hlater (hisolated.mp hi.1), ?_⟩
        rw [if_neg hlater, h.above.lines_append]
        rfl

end Site

/-! ## Sessions -/

namespace Session

variable {ν : Type}

/-- What processing gives if the only step of a session removes a node, without a comma. -/
def removeNode (h : Host ν) (settings : Settings) (n : ν) : Option (Except Failure Outcome) :=
  (run ⟨h, settings, [], []⟩ [.build (.remove n false)]).map fun x => x.1.process none

/-- All is applied, and the source becomes this text. -/
def becomes (text : Text) : Option (Except Failure Outcome) :=
  some (.ok ⟨none, true, false, some text, none⟩)

theorem removeNode_of_removes {h : Host ν} {n : ν} {p : Site} {text : Text} (settings : Settings)
    (hsource : h.source = p.source) (hspan : h.span n = p.span) (hremoves : p.Removes text) :
    removeNode h settings n = becomes text := by
  obtain ⟨s, hremoval, a, b, c, hcut, rfl, rfl⟩ := hremoves
  have hedit : (Request.remove n false).edit h settings.tabWidth =
      .ok ⟨.remove, .around a b, some []⟩ := by
    rw [Request.edit, Request.span, hsource, hspan, hremoval]
    rfl
  refine process_build hedit ?_
  rw [hsource, hcut, Patch.apply_around, List.nil_append]

/-- Removing a node that stands alone on its lines leaves all other lines as they are.  One
line may be missing besides: the line below, if it is empty, and if the line above is empty
too or there is none.  Removing any other node takes out the node and the spaces behind
it. -/
theorem remove_whole_lines {h : Host ν} {n : ν} (settings : Settings) (p : Site)
    (hsource : h.source = p.source) (hspan : h.span n = p.span) :
    (p.Alone → ∃ text, removeNode h settings n = becomes text ∧
      (text.HasLines (p.linesAbove ++ p.linesBelow) ∨
        p.linesBelow.head? = some [] ∧
        (p.linesAbove = [] ∨ p.linesAbove.getLast? = some []) ∧
        text.lines = p.linesAbove ++ p.linesBelow.tail)) ∧
    (¬ p.Alone →
      removeNode h settings n = becomes (p.before ++ p.after.dropWhile (· = ' '))) := by
  constructor
  · intro halone
    obtain ⟨text, hremoves, hlines⟩ := Site.removes_of_alone halone
    exact ⟨text, removeNode_of_removes settings hsource hspan hremoves, hlines⟩
  · intro halone
    exact removeNode_of_removes settings hsource hspan (Site.removes_of_not_alone halone)

/-- Two calls on lines of their own between two empty lines, with blanks around them. -/
def spacedCalls : Site where
  before := "é\n\n\u00a0".toList
  node := "a();\nb();".toList
  after := "  \n\nc\n".toList

/-- A call that shares its line. -/
def sharedLine : Site where
  before := "a(); ".toList
  node := "b();".toList
  after := "  c();\n".toList

theorem remove_whole_lines_spaced :
    (spacedCalls.Alone ∧
      ∃ text, removeNode (.ofSpans spacedCalls.source) .default spacedCalls.span = becomes text ∧
        (text.HasLines (spacedCalls.linesAbove ++ spacedCalls.linesBelow) ∨
          spacedCalls.linesBelow.head? = some [] ∧
          (spacedCalls.linesAbove = [] ∨ spacedCalls.linesAbove.getLast? = some []) ∧
          text.lines = spacedCalls.linesAbove ++ spacedCalls.linesBelow.tail)) ∧
    (¬ sharedLine.Alone ∧
      removeNode (.ofSpans sharedLine.source) .default sharedLine.span =
        becomes (sharedLine.before ++ sharedLine.after.dropWhile (· = ' '))) := by
  have hspaced : spacedCalls.Alone := by decide
  have hshared : ¬ sharedLine.Alone := by decide
  refine ⟨⟨hspaced, ?_⟩, hshared, ?_⟩
  · exact (remove_whole_lines (h := .ofSpans spacedCalls.source) _ spacedCalls rfl rfl).1 hspaced
  · exact (remove_whole_lines (h := .ofSpans sharedLine.source) _ sharedLine rfl rfl).2 hshared

-- The two lines go with their newline and the empty line below.
example : removal? false spacedCalls.source spacedCalls.span = some ⟨4, 19⟩ := by decide

/-- A node that stands alone below an empty line, or at the start of the source, and above an
empty line that a newline ends, is removed with the line below if a line after that one is not
empty.  If all lines from there on are empty, it is removed with its own lines only. -/
theorem remove_between_empty_lines {h : Host ν} {n : ν} (settings : Settings) (p : Site)
    (hsource : h.source = p.source) (hspan : h.span n = p.span) (halone : p.Alone)
    (habove : p.linesAbove = [] ∨ p.linesAbove.getLast? = some [])
    (hbelow : p.linesBelow.head? = some []) (hnewline : 1 < p.linesBelow.length) :
    ∃ text, removeNode h settings n = becomes text ∧
      text.lines = p.linesAbove ++
        if ∃ line ∈ p.linesBelow.tail, line ≠ [] then p.linesBelow.tail else p.linesBelow := by
  obtain ⟨text, hremoves, hlines⟩ := Site.removes_between_empty_lines halone habove hbelow hnewline
  exact ⟨text, removeNode_of_removes settings hsource hspan hremoves, hlines⟩

theorem remove_between_empty_lines_spaced :
    spacedCalls.Alone ∧ spacedCalls.linesAbove.getLast? = some [] ∧
    spacedCalls.linesBelow.head? = some [] ∧ 1 < spacedCalls.linesBelow.length ∧
    ∃ text, removeNode (.ofSpans spacedCalls.source) .default spacedCalls.span = becomes text ∧
      text.lines = spacedCalls.linesAbove ++
        if ∃ line ∈ spacedCalls.linesBelow.tail, line ≠ [] then spacedCalls.linesBelow.tail
        else spacedCalls.linesBelow := by
  have halone : spacedCalls.Alone := by decide
  have habove : spacedCalls.linesAbove.getLast? = some [] := by decide
  have hbelow : spacedCalls.linesBelow.head? = some [] := by decide
  have hnewline : 1 < spacedCalls.linesBelow.length := by decide
  exact ⟨halone, habove, hbelow, hnewline, remove_between_empty_lines
    (h := .ofSpans spacedCalls.source) _ spacedCalls rfl rfl halone (Or.inr habove) hbelow hnewline⟩

/-- A call between two empty lines at the end of the source. -/
def finalCall : Site where
  before := "use a;\n\n".toList
  node := "x();".toList
  after := "\n\n".toList

/-- At the end of the source both empty lines stay. -/
theorem remove_keeps_final_empty_lines :
    finalCall.Alone ∧ finalCall.linesAbove.getLast? = some [] ∧
    finalCall.linesBelow.head? = some [] ∧ 1 < finalCall.linesBelow.length ∧
    removeNode (.ofSpans finalCall.source) .default finalCall.span =
      becomes "use a;\n\n\n".toList ∧
    Text.lines "use a;\n\n\n".toList ≠ finalCall.linesAbove ++ finalCall.linesBelow.tail := by
  have hremoves : finalCall.Removes "use a;\n\n\n".toList :=
    ⟨⟨8, 13⟩, by decide, "use a;\n\n".toList, "x();\n".toList, "\n".toList, by decide, by decide,
      by decide⟩
  exact ⟨by decide, by decide, by decide, by decide,
    removeNode_of_removes .default rfl rfl hremoves, by decide⟩

end Session

end Emend
