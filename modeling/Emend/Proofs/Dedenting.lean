import Emend.Proofs.LineCuts
import Emend.Proofs.Placeholders

/-!
# Dedented sequences

The text of a sequence is the source from its first to its last node.  If there are as many
lines in it as nodes, the lines after the first lose leading spaces and tabs, and nobody asks
whether each node has a line of its own, or whether the spaces and tabs stand in a node.

Dedenting goes by lines, and nodes do not.  So it is first put as a scan over characters
(`Text.dedent`), which remembers how many spaces and tabs the line at hand may still lose.
The scan splits at every place of the text (`dedent_append`).  Hence it can be followed from
one node to the next: what it does to a node depends on the text before the node only through
what the line may still lose.

A node comes out as it is unless it holds a part of the margin (`Text.HoldsMargin`).
-/

namespace Emend

namespace Text

/-! ## A scan that dedents -/

/-- Whether a character can be a part of a margin. -/
def isMargin (c : Char) : Bool := c = ' ' || c = '\t'

/-- How much of its margin a line may still lose after a character, if it may lose `k` with
it. -/
def allowance (column k : Nat) (c : Char) : Nat :=
  if c = '\n' then column else if isMargin c then k - 1 else 0

/-- A text whose lines lose up to `column` spaces and tabs, and the first line up to `k`. -/
def dedent (column : Nat) : Nat → Text → Text
  | _, [] => []
  | k, c :: t =>
      if isMargin c && 0 < k then dedent column (allowance column k c) t
      else c :: dedent column (allowance column k c) t

/-- The scan of two parts is the scan of the first, and of the second with what is left
then. -/
theorem dedent_append (column k : Nat) (a b : Text) :
    dedent column k (a ++ b) =
      dedent column k a ++ dedent column (a.foldl (allowance column) k) b := by
  induction a generalizing k with
  | nil => rfl
  | cons c a ih =>
      rw [List.cons_append, dedent, dedent, List.foldl_cons, ih]
      split
      next => rfl
      next => rfl

theorem dedent_of_no_newline (column : Nat) {t : Text} (h : '\n' ∉ t) (k : Nat) :
    dedent column k t = dedentLine k t := by
  induction t generalizing k with
  | nil => cases k <;> rfl
  | cons c t ih =>
      rw [List.mem_cons, not_or] at h
      rw [dedent, allowance, if_neg (Ne.symm h.1), ih h.2]
      cases k with
      | zero => simp [dedentLine]
      | succ k =>
          rw [dedentLine]
          by_cases hc : c = ' ' ∨ c = '\t'
          · simp [isMargin, hc]
          · simp [isMargin, hc, dedentLine]

theorem dedent_newline (column k : Nat) (rest : Text) :
    dedent column k ('\n' :: rest) = '\n' :: dedent column column rest := by
  simp [dedent, allowance, isMargin]

/-- Dedenting line by line is the scan. -/
theorem unlines_dedentLine (column : Nat) (t : Text) :
    ∀ {k : Nat} {line : Text} {ls : List Text}, t.lines = line :: ls →
      unlines (dedentLine k line :: ls.map (dedentLine column)) = dedent column k t := by
  induction t using lines_induction with
  | last t ht =>
      intro k line ls hlines
      rw [lines_of_no_newline ht] at hlines
      obtain ⟨rfl, rfl⟩ := List.cons.inj hlines
      rw [dedent_of_no_newline column ht]
      simp [unlines]
  | newline first rest hfirst ih =>
      intro k line ls hlines
      rw [lines_append_newline, lines_of_no_newline hfirst, List.singleton_append] at hlines
      obtain ⟨rfl, rfl⟩ := List.cons.inj hlines
      have hne : lines rest ≠ [] := List.splitOn_ne_nil '\n' rest
      obtain ⟨second, ls, hrest⟩ := List.exists_cons_of_ne_nil hne
      have hmap : (lines rest).map (dedentLine column) ≠ [] := mt List.map_eq_nil_iff.mp hne
      have hscan := ih (k := column) hrest
      rw [← List.map_cons, ← hrest] at hscan
      rw [unlines_append_newline _ hmap, dedent_append, dedent_of_no_newline column hfirst,
        dedent_newline, hscan]

/-! ## What is left of a part -/

/-- A text without some of its blank characters. -/
inductive Thinned : Text → Text → Prop where
  /-- Nothing is left of nothing. -/
  | nil : Thinned [] []
  /-- A character stays. -/
  | keep (c : Char) {t u : Text} (h : Thinned t u) : Thinned (c :: t) (c :: u)
  /-- A blank character goes. -/
  | drop {c : Char} (hc : isBlankChar c = true) {t u : Text} (h : Thinned t u) : Thinned (c :: t) u

theorem isBlankChar_of_isMargin {c : Char} (h : isMargin c = true) : isBlankChar c = true := by
  rcases Bool.or_eq_true .. ▸ h with hc | hc
  · rw [of_decide_eq_true hc]
    decide
  · rw [of_decide_eq_true hc]
    decide

/-- Dedenting takes out blanks only. -/
theorem thinned_dedent (column k : Nat) (t : Text) : Thinned t (dedent column k t) := by
  induction t generalizing k with
  | nil => exact .nil
  | cons c t ih =>
      rw [dedent]
      split
      next hc => exact .drop (isBlankChar_of_isMargin (Bool.and_eq_true .. ▸ hc).1) (ih _)
      next => exact .keep c (ih _)

/-- A text stays as it is if at no space or tab the line may still lose any. -/
theorem dedent_eq_self {column k : Nat} {t : Text}
    (h : ∀ x c y, t = x ++ c :: y → isMargin c = true → x.foldl (allowance column) k = 0) :
    dedent column k t = t := by
  induction t generalizing k with
  | nil => rfl
  | cons c t ih =>
      have hc : ¬ (isMargin c && 0 < k) = true := by
        intro hc
        obtain ⟨hmargin, hk⟩ := Bool.and_eq_true .. ▸ hc
        have hzero : k = 0 := h [] c t rfl hmargin
        exact absurd (of_decide_eq_true hk) (by omega)
      have hrest : dedent column (allowance column k c) t = t :=
        ih fun x d y ht hd => h (c :: x) d y (by rw [ht]; rfl) hd
      rw [dedent, if_neg hc, hrest]

/-- If a line may still lose a part of its margin, it is not the first, and it has only margin
so far. -/
theorem margin_of_allowance {column : Nat} (t : Text) (h : 0 < t.foldl (allowance column) 0) :
    '\n' ∈ t ∧ (∀ c ∈ t.lastLine, isMargin c = true) ∧
      t.foldl (allowance column) 0 + t.lastLine.length = column := by
  induction t using List.reverseRecOn with
  | nil => simp at h
  | append_singleton t c ih =>
      rw [List.foldl_append, List.foldl_cons, List.foldl_nil] at h ⊢
      by_cases hc : c = '\n'
      · rw [hc, lastLine_concat_newline]
        simp [allowance]
      · rw [allowance, if_neg hc] at h ⊢
        by_cases hmargin : isMargin c = true
        · rw [if_pos hmargin] at h ⊢
          obtain ⟨hnewline, hline, hlength⟩ := ih (by omega)
          rw [lastLine_concat hc]
          refine ⟨List.mem_append_left _ hnewline, ?_, ?_⟩
          · simpa [or_imp, forall_and, hmargin] using hline
          · rw [List.length_append, List.length_singleton]
            omega
        · rw [if_neg hmargin] at h
          omega

/-- A part of a text, behind another one, holds margin: one of the first `column` characters of
a line, of which all up to there are spaces and tabs.  The line is not the first. -/
def HoldsMargin (column : Nat) (before part : Text) : Prop :=
  ∃ x c y, part = x ++ c :: y ∧ isMargin c = true ∧ '\n' ∈ before ++ x ∧
    (∀ d ∈ (before ++ x).lastLine, isMargin d = true) ∧ (before ++ x).lastLine.length < column

/-- A part that holds no margin stays as it is. -/
theorem dedent_of_not_holdsMargin {column : Nat} {before part : Text}
    (h : ¬ HoldsMargin column before part) :
    dedent column (before.foldl (allowance column) 0) part = part := by
  refine dedent_eq_self fun x c y hpart hc => ?_
  rw [← List.foldl_append]
  by_contra hne
  obtain ⟨hnewline, hline, hlength⟩ := margin_of_allowance _ (Nat.pos_of_ne_zero hne)
  exact h ⟨x, c, y, hpart, hc, hnewline, hline, by omega⟩

/-- At column zero nothing is dedented. -/
theorem dedent_zero (t : Text) : dedent 0 0 t = t := by
  have hnot : ¬ HoldsMargin 0 [] t := fun ⟨_, _, _, _, _, _, _, hlt⟩ => Nat.not_lt_zero _ hlt
  exact dedent_of_not_holdsMargin hnot

end Text

/-! ## Nodes in order -/

namespace Span

theorem fits_start {s : Span} {t : Text} (h : s.fits t = true) :
    (Span.mk s.start s.start).fits t = true := by
  simp only [fits, Bool.and_eq_true, decide_eq_true_eq] at h ⊢
  exact ⟨⟨⟨Nat.le_refl _, by omega⟩, h.1.2⟩, h.1.2⟩

/-- Spans that meet and fit make up a span that fits. -/
theorem fits_append_span {i j k : Nat} {t : Text} (hij : (Span.mk i j).fits t = true)
    (hjk : (Span.mk j k).fits t = true) : (Span.mk i k).fits t = true := by
  simp only [fits, Bool.and_eq_true, decide_eq_true_eq] at hij hjk ⊢
  exact ⟨⟨⟨by omega, hjk.1.1.2⟩, hij.1.2⟩, hjk.2⟩

theorem fits_between {a b : Span} {t : Text} (ha : a.fits t = true) (hb : b.fits t = true)
    (hab : a.stop ≤ b.start) : (Span.mk a.stop b.start).fits t = true := by
  simp only [fits, Bool.and_eq_true, decide_eq_true_eq] at ha hb ⊢
  exact ⟨⟨⟨hab, by omega⟩, ha.2⟩, hb.1.2⟩

end Span

namespace Host

variable {ν : Type}

/-- The source at a span is that at its two parts. -/
theorem sourceAt_append {h : Host ν} {i j k : Nat} (hij : (Span.mk i j).fits h.source = true)
    (hjk : (Span.mk j k).fits h.source = true) :
    h.sourceAt ⟨i, k⟩ = h.sourceAt ⟨i, j⟩ ++ h.sourceAt ⟨j, k⟩ := by
  obtain ⟨a, b, rest, hsource, rfl, rfl⟩ := Span.fits_iff.mp hij
  have hsize : (a ++ b).size = a.size + b.size := Text.size_append a b
  rw [hsource, ← List.append_assoc] at hjk
  obtain ⟨kept, c, d, rfl, hkept, rfl⟩ := Span.fits_append hjk (Nat.le_of_eq hsize)
  obtain rfl : kept = [] := by
    refine Text.size_eq_zero_iff.mp ?_
    simp only [hsize] at hkept
    omega
  have hback : h.source = (a ++ b) ++ (c ++ d) := by simp [hsource]
  have hwhole : h.source = a ++ ((b ++ c) ++ d) := by simp [hsource]
  replace hsource := sourceAt_around hsource
  replace hback := sourceAt_around hback
  replace hwhole := sourceAt_around hwhole
  simp only [Span.around, Text.size_append, ← Nat.add_assoc] at hsource hback hwhole
  simp only [Text.size_append, Text.size_nil, Nat.add_zero, hsource, hback, hwhole]

theorem sourceAt_start {h : Host ν} {s : Span} (hs : s.fits h.source = true) :
    h.sourceAt ⟨s.start, s.start⟩ = [] := by
  obtain ⟨a, b, c, hsource, hstart, -⟩ := Span.fits_iff.mp hs
  have hnone : h.source = a ++ ([] ++ (b ++ c)) := hsource
  rw [hstart]
  exact sourceAt_around hnone

/-- Nodes that fit the source, each behind the one before. -/
structure InOrder (h : Host ν) (ns : List ν) : Prop where
  /-- The spans of the nodes fit. -/
  fits : ∀ n ∈ ns, (h.span n).fits h.source = true
  /-- No node starts before one in front of it stops. -/
  ordered : ns.Pairwise fun a b => (h.span a).stop ≤ (h.span b).start

namespace InOrder

variable {h : Host ν} {a b : ν} {ns : List ν}

theorem tail (ho : h.InOrder (a :: ns)) : h.InOrder ns where
  fits := fun n hn => ho.fits n (List.mem_cons_of_mem a hn)
  ordered := (List.pairwise_cons.mp ho.ordered).2

/-- The last node starts and stops no sooner than the first. -/
theorem le_last (ho : h.InOrder (a :: ns)) :
    (h.span a).start ≤ (h.span (ns.getLastD a)).start ∧
      (h.span a).stop ≤ (h.span (ns.getLastD a)).stop := by
  have hmem : ns.getLastD a ∈ a :: ns := List.getLastD_mem_cons
  rcases List.mem_cons.mp hmem with hlast | hlast
  · rw [hlast]
    exact ⟨Nat.le_refl _, Nat.le_refl _⟩
  · have hle := (List.pairwise_cons.mp ho.ordered).1 _ hlast
    have hfirst := Span.start_le_stop_of_fits (ho.fits a (List.mem_cons_self ..))
    have hlast := Span.start_le_stop_of_fits (ho.fits _ (List.mem_cons_of_mem a hlast))
    omega

/-- The span of a sequence goes from the start of its first node to the stop of its last. -/
theorem sequenceSpan?_eq (ho : h.InOrder (a :: ns)) :
    h.sequenceSpan? (a :: ns) = some ⟨(h.span a).start, (h.span (ns.getLastD a)).stop⟩ := by
  obtain ⟨hstart, hstop⟩ := ho.le_last
  rw [sequenceSpan?, List.head?_cons, List.getLast?_cons, ← List.getLastD_eq_getLast?]
  simp only [Span.cover, Nat.min_eq_left hstart, Nat.max_eq_right hstop]

theorem fits_sequence (ho : h.InOrder (a :: ns)) :
    (Span.mk (h.span a).start (h.span (ns.getLastD a)).stop).fits h.source = true := by
  have hfirst := ho.fits a (List.mem_cons_self ..)
  have hlast := ho.fits _ (List.getLastD_mem_cons (l := ns) (a := a))
  have hle := ho.le_last
  simp only [Span.fits, Bool.and_eq_true, decide_eq_true_eq] at hfirst hlast ⊢
  exact ⟨⟨⟨by omega, hlast.1.1.2⟩, hfirst.1.2⟩, hlast.2⟩

theorem sequenceSource_eq (ho : h.InOrder (a :: ns)) :
    h.sequenceSource (a :: ns) =
      h.sourceAt ⟨(h.span a).start, (h.span (ns.getLastD a)).stop⟩ := by
  rw [sequenceSource, ho.sequenceSpan?_eq]

/-- Between two nodes in order a span fits. -/
theorem fits_between (ho : h.InOrder (a :: b :: ns)) :
    (Span.mk (h.span a).stop (h.span b).start).fits h.source = true :=
  Span.fits_between (ho.fits a (by simp)) (ho.fits b (by simp))
    ((List.pairwise_cons.mp ho.ordered).1 b (List.mem_cons_self ..))

end InOrder

/-- The source between two nodes. -/
def between (h : Host ν) (a b : ν) : Text := h.sourceAt ⟨(h.span a).stop, (h.span b).start⟩

/-- The source of a sequence is its first node, what stands behind it, and the source of the
others. -/
theorem InOrder.sequenceSource_cons {h : Host ν} {a b : ν} {ns : List ν}
    (ho : h.InOrder (a :: b :: ns)) :
    h.sequenceSource (a :: b :: ns) =
      h.sourceOf a ++ (h.between a b ++ h.sequenceSource (b :: ns)) := by
  have hnode := ho.fits a (List.mem_cons_self ..)
  have hrest := Span.fits_append_span ho.fits_between ho.tail.fits_sequence
  rw [ho.sequenceSource_eq, ho.tail.sequenceSource_eq, List.getLastD_cons,
    sourceAt_append hnode hrest, sourceAt_append ho.fits_between ho.tail.fits_sequence]
  rfl

/-! ## The text of a sequence -/

/-- How much of its margin a line after the first loses in the text of a sequence. -/
def dedentColumn (h : Host ν) (first : ν) (rest : List ν) : Nat :=
  if 1 < (h.sequenceSource (first :: rest)).pieces.length ∧
      (h.sequenceSource (first :: rest)).pieces.length = (first :: rest).length then
    h.source.column (h.span first).start
  else 0

/-- The text of a sequence is the scan of its source. -/
theorem InOrder.sequenceText_eq {h : Host ν} {first : ν} {rest : List ν}
    (ho : h.InOrder (first :: rest)) :
    h.sequenceText (first :: rest) =
      (h.sequenceSource (first :: rest)).dedent (h.dedentColumn first rest) 0 := by
  have hne : (h.sequenceSource (first :: rest)).lines ≠ [] := List.splitOn_ne_nil '\n' _
  obtain ⟨line, ls, hlines⟩ := List.exists_cons_of_ne_nil hne
  rw [sequenceText, ho.sequenceSpan?_eq, dedentColumn]
  simp only
  split
  next hkeeps =>
    rw [if_neg (by omega), Text.dedent_zero]
  next hdedents =>
    rw [if_pos (by omega), hlines]
    exact Text.unlines_dedentLine _ _ (k := 0) hlines

/-- A text lists nodes.  Each is there as `shown` has it, and between two of them stands what
is between them in the source, without some of its blanks. -/
inductive Lists (h : Host ν) (shown : ν → Text → Prop) : List ν → Text → Prop where
  /-- The last node. -/
  | last {n : ν} {t : Text} (ht : shown n t) : Lists h shown [n] t
  /-- A node in front of others. -/
  | next {a b : ν} {ns : List ν} {t gap rest : Text} (ht : shown a t)
      (hgap : (h.between a b).Thinned gap) (hrest : Lists h shown (b :: ns) rest) :
      Lists h shown (a :: b :: ns) (t ++ (gap ++ rest))

/-- A node of a sequence is shown without some of its blanks, and as it is unless it holds
margin. -/
def Shown (h : Host ν) (first : ν) (column : Nat) (n : ν) (t : Text) : Prop :=
  (h.sourceOf n).Thinned t ∧
    (¬ Text.HoldsMargin column (h.sourceAt ⟨(h.span first).start, (h.span n).start⟩)
        (h.sourceOf n) → t = h.sourceOf n)

/-- The scan meets a node with what the text in front of it left. -/
theorem shown_dedent (h : Host ν) (first n : ν) (column : Nat) :
    h.Shown first column n ((h.sourceOf n).dedent column
      ((h.sourceAt ⟨(h.span first).start, (h.span n).start⟩).foldl
        (Text.allowance column) 0)) :=
  ⟨Text.thinned_dedent .., Text.dedent_of_not_holdsMargin⟩

/-- A dedented sequence lists its nodes. -/
theorem lists_dedent {h : Host ν} (first : ν) (column : Nat) {ns : List ν} :
    ∀ {a : ν}, h.InOrder (a :: ns) →
      (Span.mk (h.span first).start (h.span a).start).fits h.source = true →
      h.Lists (h.Shown first column) (a :: ns) ((h.sequenceSource (a :: ns)).dedent column
        ((h.sourceAt ⟨(h.span first).start, (h.span a).start⟩).foldl
          (Text.allowance column) 0)) := by
  induction ns with
  | nil =>
      intro a ho _
      rw [ho.sequenceSource_eq]
      exact .last (h.shown_dedent first a column)
  | cons b ns ih =>
      -- What the scan has seen before `b` is what it had seen before `a`, then `a`, then the gap.
      intro a ho hfits
      have hnode := ho.fits a (List.mem_cons_self ..)
      have hfits' := Span.fits_append_span hfits (Span.fits_append_span hnode ho.fits_between)
      have hbefore : h.sourceAt ⟨(h.span first).start, (h.span b).start⟩ =
          h.sourceAt ⟨(h.span first).start, (h.span a).start⟩ ++
            (h.sourceOf a ++ h.between a b) := by
        rw [sourceAt_append hfits (Span.fits_append_span hnode ho.fits_between),
          sourceAt_append hnode ho.fits_between]
        rfl
      have hrest := ih ho.tail hfits'
      rw [hbefore, List.foldl_append, List.foldl_append] at hrest
      rw [ho.sequenceSource_cons, Text.dedent_append, Text.dedent_append]
      exact .next (h.shown_dedent first a column) (Text.thinned_dedent ..) hrest

section

variable {h : Host ν} {n first : ν} {rest : List ν} {p : Text} {path : Path}

/-- A template of one placeholder has the text of the value that its path leads to. -/
theorem render_of_resolve {v : Value ν} (hpath : Path.parse p = .ok path)
    (hresolve : h.resolve n path = .ok v) :
    h.render n (Template.placeholder p) = h.valueText path v := by
  rw [render, Template.parse_placeholder hpath]
  simp only [bind, Except.bind, renderTemplate, segmentText, hresolve]
  cases h.valueText path v with
  | error e => rfl
  | ok t => simp

/-- A placeholder that leads to nodes in order is replaced by a text that lists them: the nodes
in their order and what stands between them, with nothing left out but blanks.  A node comes
out as it is, unless there are as many lines as nodes, and more than one, and the node holds a
space or tab that a line after the first starts with, no deeper than the column of the first
node. -/
theorem render_lists_nodes (hpath : Path.parse p = .ok path)
    (hresolve : h.resolve n path = .ok (.sequence (first :: rest)))
    (ho : h.InOrder (first :: rest)) :
    ∃ text, h.segmentText n (.placeholder path) = .ok text ∧
      h.render n (Template.placeholder p) = .ok text ∧
      h.Lists (h.Shown first (h.dedentColumn first rest)) (first :: rest) text := by
  have hsegment : h.segmentText n (.placeholder path) =
      .ok (h.sequenceText (first :: rest)) := by
    rw [segmentText, hresolve]
    rfl
  have hfits := ho.fits first (List.mem_cons_self ..)
  have hlists := lists_dedent first (h.dedentColumn first rest) ho (Span.fits_start hfits)
  rw [sourceAt_start hfits, List.foldl_nil, ← ho.sequenceText_eq] at hlists
  exact ⟨_, hsegment, render_of_resolve hpath hresolve, hlists⟩

end

/-- Four arguments on four lines.  The first has a line break in it, and the last two share a
line. -/
def fourLines : Host Nat :=
  .ofTable .span "f(\n  \"é\n  x\",\n   b,\n\tc, d)".toList
    [⟨⟨0, 27⟩, [("args".toList, .sequence [1, 2, 3, 4])]⟩, ⟨⟨5, 13⟩, []⟩, ⟨⟨18, 19⟩, []⟩,
      ⟨⟨22, 23⟩, []⟩, ⟨⟨25, 26⟩, []⟩]

theorem render_lists_nodes_fourLines :
    fourLines.InOrder [1, 2, 3, 4] ∧ fourLines.dedentColumn 1 [2, 3, 4] = 2 ∧
    ∃ text, fourLines.segmentText 0 (.placeholder ⟨"args".toList, [.name "args".toList]⟩) =
        .ok text ∧
      fourLines.render 0 (Template.placeholder " args ".toList) = .ok text ∧
      fourLines.Lists (fourLines.Shown 1 (fourLines.dedentColumn 1 [2, 3, 4])) [1, 2, 3, 4]
        text := by
  have hpath : Path.parse " args ".toList = .ok ⟨"args".toList, [.name "args".toList]⟩ := rfl
  have ho : fourLines.InOrder [1, 2, 3, 4] := ⟨by decide, by decide⟩
  exact ⟨ho, by decide, render_lists_nodes hpath rfl ho⟩

example : fourLines.sequenceText [1, 2, 3, 4] = "\"é\nx\",\n b,\nc, d".toList := by decide

/-- Two arguments on one line.  The second is a literal with a line break in it. -/
def sharedLine : Host Nat :=
  .ofTable .span "f(a, \"x\n    y\")".toList
    [⟨⟨0, 15⟩, [("args".toList, .sequence [1, 2])]⟩, ⟨⟨2, 3⟩, []⟩, ⟨⟨5, 14⟩, []⟩]

/-- A literal is altered, though the nodes are not on a line each. -/
theorem render_alters_literal :
    sharedLine.InOrder [1, 2] ∧
    (sharedLine.source.position 2).line = (sharedLine.source.position 5).line ∧
    sharedLine.resolve 0 ⟨"args".toList, [.name "args".toList]⟩ = .ok (.sequence [1, 2]) ∧
    sharedLine.render 0 (Template.placeholder "args".toList) = .ok "a, \"x\n  y\"".toList ∧
    ¬ sharedLine.Lists (fun n t => t = sharedLine.sourceOf n) [1, 2] "a, \"x\n  y\"".toList := by
  have hpath : Path.parse "args".toList = .ok ⟨"args".toList, [.name "args".toList]⟩ := rfl
  have hresolve : sharedLine.resolve 0 ⟨"args".toList, [.name "args".toList]⟩ =
      .ok (.sequence [1, 2]) := rfl
  refine ⟨⟨by decide, by decide⟩, by decide, hresolve, render_of_resolve hpath hresolve, ?_⟩
  generalize htext : "a, \"x\n  y\"".toList = text
  intro hlists
  cases hlists with
  | @next _ _ _ t gap rest ht hgap hrest =>
      cases hrest with
      | last hlast =>
          have hsuffix : sharedLine.sourceOf 2 <:+ "a, \"x\n  y\"".toList :=
            ⟨t ++ gap, by rw [htext, hlast, List.append_assoc]⟩
          exact absurd hsuffix (by decide)

end Host

end Emend
