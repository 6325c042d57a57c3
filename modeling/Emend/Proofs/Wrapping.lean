import Emend.Proofs.Insertions
import Emend.Proofs.TemplateGrammar
import Emend.Proofs.WholeLines

/-!
# Code around a node

Wrapping a node registers a group of edits that share the bounds of the node: code is
inserted before the node and after it, and on lines of its own the node is indented in
between.  The edits of the group are sorted before they are applied.  If the node is not
empty, that puts the indentation between the insertions.  If it is empty, all spans are
equal, and the indentation comes last, where it inserts nothing.

A group of edits goes through whole if its sorted edits lay out the source
(`results_group`), since such edits do not overlap.  What is left is the layout of the
source around the node.
-/

namespace Emend

open Text (HasDouble)

/-! ## Code without placeholders -/

theorem Text.not_hasDouble_of_not_mem {c : Char} {t : Text} (h : c ∉ t) : ¬ HasDouble c t :=
  fun hdouble => h (hdouble.subset (List.mem_cons_self ..))

theorem Text.not_hasDouble_append {c : Char} {a b : Text} (ha : ¬ HasDouble c a)
    (hb : ¬ HasDouble c b) (h : c ∉ a ∨ c ∉ b) : ¬ HasDouble c (a ++ b) := by
  rw [not_hasDouble_iff] at ha hb ⊢
  refine List.isChain_append.mpr ⟨ha, hb, ?_⟩
  rintro x hx y hy ⟨rfl, rfl⟩
  exact h.elim (· (List.mem_of_mem_getLast? hx)) (· (List.mem_of_mem_head? hy))

theorem Host.render_literal {ν : Type} (h : Host ν) (n : ν) {t : Text}
    (ht : ¬ HasDouble '\x7b' t) : h.render n t = .ok t := by
  rw [render, Template.parse, Template.parseRest_literal ht, Template.literal]
  split
  next hempty => rw [List.isEmpty_iff.mp hempty]; rfl
  next => simp [bind, Except.bind, renderTemplate, segmentText]

/-! ## Groups of edits -/

namespace Action

theorem leaves_map_edit (es : List Edit) : leaves (es.map .edit) = es := by
  induction es with
  | nil => rfl
  | cons e es ih => rw [List.map_cons, leaves, ih]; rfl

/-- A group of edits is sorted as its edits are. -/
theorem sort_group (es : List Edit) :
    sort [.group (es.map .edit)] = [.group ((Span.sortOn Edit.span es).map .edit)] := by
  have heach : sortEach (es.map .edit) = es.map .edit := by
    rw [sortEach_eq_map, List.map_map]
    rfl
  have htop : sortTop (es.map .edit) = (Span.sortOn Edit.span es).map .edit :=
    Span.sortOn_map span .edit es
  rw [sort, sortEach, sortEach, sortIn, heach, htop]
  rfl

end Action

/-- Splices that lay out a text do not overlap. -/
theorem Patch.Woven.anyOverlap_eq_false {p : Nat} {after text : Text} {l : List Splice}
    (h : Woven p after l text) : Span.anyOverlap (l.map Splice.span) = false := by
  induction h with
  | rest => rfl
  | @splice p kept old rest text s l hstart hstop h ih =>
      cases l with
      | nil => rfl
      | cons t l =>
          have hle := h.le_start t (List.mem_cons_self ..)
          rw [List.map_cons, List.map_cons, Span.anyOverlap, ← List.map_cons, ih, Bool.or_false]
          exact decide_eq_false (Nat.not_lt.mpr hle)

section

variable {q : Nat} {rest text : Text} {l : List Splice}

/-- A layout may go on with an insertion. -/
theorem Patch.Woven.insertion (kept code : Text) (h : Woven (q + kept.size) rest l text) :
    Woven q (kept ++ rest) (⟨.point (q + kept.size), code⟩ :: l) (kept ++ (code ++ text)) := by
  have hsplice : Woven q (kept ++ ([] ++ rest)) (⟨.point (q + kept.size), code⟩ :: l)
      (kept ++ (code ++ text)) := .splice rfl rfl h
  exact hsplice

/-- A layout may start with a replacement. -/
theorem Patch.Woven.replacement (old code : Text) (h : Woven (q + old.size) rest l text) :
    Woven q (old ++ rest) (⟨⟨q, q + old.size⟩, code⟩ :: l) (code ++ text) := by
  have hsplice : Woven q ([] ++ (old ++ rest)) (⟨⟨q, q + old.size⟩, code⟩ :: l)
      ([] ++ (code ++ text)) := .splice rfl rfl h
  exact hsplice

end

/-- Edits in order whose splices lay out a source with a text. -/
structure Patch.LaidOut (source : Text) (es : List Edit) (text : Text) : Prop where
  /-- The edits are in the order of their spans. -/
  ordered : es.Pairwise fun a b => a.span ≤ b.span
  /-- The edits fit the source. -/
  fits : ∀ e ∈ es, e.span.fits source = true
  /-- The splices lay out the source. -/
  woven : Patch.Woven 0 source (es.filterMap Edit.splice?) text

namespace Patch.LaidOut

variable {source text : Text} {es : List Edit}

theorem splices_ordered (h : LaidOut source es text) :
    (es.filterMap Edit.splice?).Pairwise fun a b => a.span ≤ b.span := by
  refine h.ordered.filterMap _ fun a b hab s hs t ht => ?_
  obtain ⟨c, -, rfl⟩ := Option.map_eq_some_iff.mp hs
  obtain ⟨d, -, rfl⟩ := Option.map_eq_some_iff.mp ht
  exact hab

/-- A group of such edits is not broken. -/
theorem not_broken (h : LaidOut source es text) :
    Clash.isBroken (.group (es.map .edit)) = false := by
  have hordered : ((es.filterMap Edit.splice?).map Splice.span).Pairwise fun a b => id a ≤ id b :=
    List.pairwise_map.mpr h.splices_ordered
  rw [Clash.isBroken, Clash.spliceSpans_eq_map, Action.leaves_map_edit,
    Span.sortOn_eq_self hordered]
  exact h.woven.anyOverlap_eq_false

theorem apply_eq (h : LaidOut source es text) : Patch.apply source es = .ok text := by
  have hproper : ∀ e ∈ Action.leaves (es.map .edit), e.span.start ≤ e.span.stop := by
    rw [Action.leaves_map_edit]
    exact fun e he => Span.start_le_stop_of_fits (h.fits e he)
  have hapart := (Clash.isBroken_group_eq_false_iff hproper).mp h.not_broken
  rw [Action.leaves_map_edit] at hapart
  refine Patch.apply_of_woven h.fits hapart ?_
  rw [Patch.splices, Span.sortOn_eq_self h.splices_ordered]
  exact h.woven

end Patch.LaidOut

/-- A group of two or more edits is accepted if its sorted edits lay out the source. -/
theorem Resolution.resolve_group {source text : Text} {es sorted : List Edit} (policy : Policy)
    (htwo : 2 ≤ es.length) (hsorted : Span.sortOn Edit.span es = sorted)
    (h : Patch.LaidOut source sorted text) :
    resolve policy none [.group (es.map .edit)] = .ok (some ⟨[.group (sorted.map .edit)], []⟩) := by
  have hnormal : Action.Normal (.group (es.map .edit)) := by
    refine .group (by rwa [List.length_map]) fun a ha => ?_
    obtain ⟨e, -, rfl⟩ := List.mem_map.mp ha
    exact .edit e
  have hprune : Action.prune [.group (es.map .edit)] = [.group (es.map .edit)] :=
    Action.prune_eq_self fun a ha => List.mem_singleton.mp ha ▸ hnormal
  have harrange : arrange none [.group (es.map .edit)] = [.group (sorted.map .edit)] := by
    rw [arrange, Action.sort_group, hsorted]
  have hclear : Clash.Clear policy [.group (sorted.map .edit)] := ⟨h.not_broken, trivial⟩
  have hleaves : Action.leaves [.group (es.map .edit)] ≠ [] := by
    intro hnil
    rw [← Action.prune_eq_nil_iff, hprune] at hnil
    exact List.cons_ne_nil _ _ hnil
  rw [resolve_of_edit hleaves, hprune, harrange, hclear.rejected_eq, hclear.accepted_eq]
  simp

/-! ## Indentation -/

/-- The newline that ends a line has no bearing on its indentation. -/
theorem Text.indentLine_append_newline (margin line : Text) :
    indentLine margin (line ++ ['\n']) = indentLine margin line ++ ['\n'] := by
  have hnewline : isBlank (line ++ ['\n']) = line.isBlank := by
    rw [isBlank, List.all_append]
    exact Bool.and_true _
  rw [indentLine, indentLine, hnewline]
  split
  next => rfl
  next => rw [List.append_assoc]

theorem Text.newline_not_mem_indentLine {margin line : Text} (hmargin : '\n' ∉ margin)
    (hline : '\n' ∉ line) : '\n' ∉ indentLine margin line := by
  rw [indentLine]
  split
  next => exact hline
  next => exact fun h => (List.mem_append.mp h).elim hmargin hline

/-- Indented text is the text with every line indented. -/
theorem Payload.indented_eq_unlines (margin t : Text) :
    indented margin t = Text.unlines (t.lines.map (Text.indentLine margin)) := by
  induction t using Text.lines_induction with
  | last t ht =>
      rw [Text.lines_of_no_newline ht]
      by_cases hne : t = []
      · rw [hne]
        rfl
      · rw [indented, Text.pieces_of_no_newline ht hne]
        simp [Text.unlines]
  | newline line rest hline ih =>
      have hne : (Text.lines rest).map (Text.indentLine margin) ≠ [] :=
        mt List.map_eq_nil_iff.mp (List.splitOn_ne_nil '\n' rest)
      rw [Text.lines_append_newline, Text.lines_of_no_newline hline, List.singleton_append,
        List.map_cons, Text.unlines_append_newline _ hne, ← ih, indented,
        Text.pieces_append_newline hline, List.flatMap_cons, Text.indentLine_append_newline,
        ← indented]
      simp

/-! ## Layouts around a node -/

namespace Site

variable (p : Site)

theorem fits_span : p.span.fits p.source = true :=
  Span.fits_iff_around.mpr ⟨p.before, p.node, p.after, rfl, rfl⟩

theorem fits_start : (Span.point p.span.start).fits p.source = true :=
  Span.fits_iff_around.mpr ⟨p.before, [], p.node ++ p.after, rfl, rfl⟩

theorem fits_stop : (Span.point p.span.stop).fits p.source = true :=
  Span.fits_iff_around.mpr ⟨p.before ++ p.node, [], p.after, by simp [source], by
    simp [Span.point, span, Span.around]⟩

theorem start_le_stop : p.span.start ≤ p.span.stop := Span.start_le_stop_of_fits p.fits_span

/-- Code is put before the node. -/
def opens (code : Text) : Edit := ⟨.insert, .point p.span.start, some code⟩

/-- Code is put after the node. -/
def closes (code : Text) : Edit := ⟨.insert, .point p.span.stop, some code⟩

/-- Code is put in place of the node. -/
def indents (code : Text) : Edit := ⟨.indent, p.span, some code⟩

section

variable (opening code closing : Text)

theorem opens_le_closes : (p.opens opening).span ≤ (p.closes closing).span := by
  have hle := p.start_le_stop
  simp only [Span.le_def, opens, closes, Span.point]
  omega

theorem opens_le_indents : (p.opens opening).span ≤ (p.indents code).span :=
  Or.inr ⟨rfl, p.start_le_stop⟩

theorem indents_le_closes : (p.indents code).span ≤ (p.closes closing).span := by
  have hle := p.start_le_stop
  simp only [Span.le_def, indents, closes, Span.point]
  omega

end

/-- Code before the node is the first splice of a layout. -/
theorem woven_opens {rest text : Text} {l : List Splice} (code : Text)
    (h : Patch.Woven p.span.start rest l text) :
    Patch.Woven 0 (p.before ++ rest) (⟨.point p.span.start, code⟩ :: l)
      (p.before ++ (code ++ text)) := by
  have hstart : 0 + p.before.size = p.span.start := Nat.zero_add p.before.size
  rw [← hstart] at h ⊢
  exact h.insertion p.before code

theorem laidOut_insertions (opening closing : Text) :
    Patch.LaidOut p.source [p.opens opening, p.closes closing]
      (p.before ++ (opening ++ (p.node ++ (closing ++ p.after)))) where
  ordered := List.pairwise_pair.mpr (p.opens_le_closes opening closing)
  fits := by
    simp [opens, closes, p.fits_start, p.fits_stop]
  woven := p.woven_opens opening (.insertion p.node closing (.rest _ _))

/-- The edits of a node that is not empty, in order. -/
theorem laidOut_indented (opening code closing : Text) :
    Patch.LaidOut p.source [p.opens opening, p.indents code, p.closes closing]
      (p.before ++ (opening ++ (code ++ (closing ++ p.after)))) where
  ordered := by
    simp [p.opens_le_indents opening code, p.opens_le_closes opening closing,
      p.indents_le_closes code closing]
  fits := by
    simp [opens, closes, indents, p.fits_start, p.fits_stop, p.fits_span]
  woven := p.woven_opens opening (.replacement p.node code (.insertion [] closing (.rest _ _)))

/-- The edits of an empty node, in order. -/
theorem laidOut_empty (hnode : p.node = []) (opening closing : Text) :
    Patch.LaidOut p.source [p.opens opening, p.closes closing, p.indents []]
      (p.before ++ (opening ++ (closing ++ p.after))) where
  ordered := by
    simp [Span.le_def, opens, closes, indents, Span.point, span, Span.around, hnode]
  fits := by
    simp [opens, closes, indents, p.fits_start, p.fits_stop, p.fits_span]
  woven := by
    obtain ⟨before, node, after⟩ := p
    subst hnode
    exact woven_opens _ opening (.insertion [] closing (.replacement [] [] (.rest _ _)))

theorem sortOn_insertions (opening closing : Text) :
    Span.sortOn Edit.span [p.opens opening, p.closes closing] =
      [p.opens opening, p.closes closing] :=
  Span.sortOn_eq_self (p.laidOut_insertions opening closing).ordered

/-- Sorting puts the indentation of a node that is not empty between the insertions. -/
theorem sortOn_indented (hlt : p.span.start < p.span.stop) (opening code closing : Text) :
    Span.sortOn Edit.span [p.opens opening, p.closes closing, p.indents code] =
      [p.opens opening, p.indents code, p.closes closing] := by
  have hnot : ¬ (p.closes closing).span ≤ (p.indents code).span := by
    simp only [Span.le_def, closes, indents, Span.point]
    omega
  have hclosing : Span.sortOn Edit.span [p.closes closing, p.indents code] =
      [p.indents code, p.closes closing] := by
    simp only [Span.sortOn, Span.insertOn, if_neg hnot]
  rw [Span.sortOn, hclosing, Span.insertOn, if_pos (p.opens_le_indents opening code)]

/-- The edits that indent a node and put code around it come out in an order that lays out
the source. -/
theorem exists_laidOut (opening margin closing : Text) :
    ∃ sorted, Span.sortOn Edit.span [p.opens opening, p.closes closing,
        p.indents (Payload.indented margin p.node)] = sorted ∧
      Patch.LaidOut p.source sorted
        (p.before ++ (opening ++ (Payload.indented margin p.node ++ (closing ++ p.after)))) := by
  by_cases hnode : p.node = []
  · -- All three spans are equal, so the edits keep the order they were registered in.
    have hlaid := p.laidOut_empty hnode opening closing
    rw [hnode]
    exact ⟨_, Span.sortOn_eq_self hlaid.ordered, hlaid⟩
  · have hlt : p.span.start < p.span.stop := by
      have hsize := mt Text.size_eq_zero_iff.mp hnode
      simp only [span, Span.around_start, Span.around_stop]
      omega
    exact ⟨_, p.sortOn_indented hlt opening _ closing, p.laidOut_indented opening _ closing⟩

theorem hull?_insertions :
    Span.hull? [.point p.span.start, .point p.span.stop] = some p.span := by
  simp [Span.hull?, Span.cover, Span.point, p.start_le_stop]

theorem hull?_indented :
    Span.hull? [.point p.span.start, .point p.span.stop, p.span] = some p.span := by
  simp [Span.hull?, Span.cover, Span.point, p.start_le_stop]

/-- The edits around a node span the node. -/
theorem span_group {es sorted : List Edit} (hsorted : Span.sortOn Edit.span es = sorted)
    (hhull : Span.hull? (es.map Edit.span) = some p.span) :
    (Action.group (sorted.map .edit)).span = p.span := by
  have hspans : Action.spans (sorted.map .edit) = sorted.map Edit.span := by
    rw [Action.spans_eq_map, List.map_map]
    rfl
  have hperm : (sorted.map Edit.span).Perm (es.map Edit.span) := by
    rw [← hsorted]
    exact (Span.sortOn_perm Edit.span es).map Edit.span
  rw [Action.span, hspans, Span.hull?_perm hperm, hhull]
  rfl

end Site

/-! ## Sessions -/

namespace Session

variable {ν : Type}

/-- The state of a session whose only step wraps a node. -/
def wrapNode (h : Host ν) (settings : Settings) (n : ν) (opening closing : Text)
    (ownLines : Bool) : Option (Session ν) :=
  (run ⟨h, settings, [], []⟩ [.wrap n opening closing ownLines]).map Prod.fst

section

variable {h : Host ν} {n : ν} {settings : Settings} {opening closing : Text} {ownLines : Bool}

theorem wrapNode_of_edits {es : List Edit}
    (hedits : (wrapRequests h n opening closing ownLines).mapM
      (Request.edit h settings.tabWidth) = .ok es) :
    wrapNode h settings n opening closing ownLines =
      some ⟨h, settings, [.group (es.map .edit)], []⟩ := by
  have hrun := run_eq_eval [.wrap n opening closing ownLines] ⟨h, settings, [], []⟩
  rw [Step.evalAll, Step.eval, hedits] at hrun
  obtain ⟨x, hx, hland⟩ := Option.map_eq_some_iff.mp hrun
  rw [wrapNode, hx]
  exact congrArg some (Prod.mk.inj hland).1

/-- Code that is put next to a node goes to a bound of its span. -/
theorem edit_insert_comma {code : Text} (side : Side) (comma : Bool) (tabWidth : Nat)
    (hcode : ¬ HasDouble '\x7b' code) :
    (Request.insert n code side none comma).edit h tabWidth =
      .ok ⟨.insert, .point (match side with
        | .beginning => (h.span n).start
        | .ending => (h.span n).stop),
        some (if comma then Request.withComma side code else code)⟩ := by
  rw [Request.edit, Request.span, Request.code, h.render_literal n hcode]
  cases side with
  | beginning => rfl
  | ending => rfl

theorem edit_insert {code : Text} (side : Side) (tabWidth : Nat)
    (hcode : ¬ HasDouble '\x7b' code) :
    (Request.insert n code side none false).edit h tabWidth =
      .ok ⟨.insert, .point (match side with
        | .beginning => (h.span n).start
        | .ending => (h.span n).stop), some code⟩ :=
  edit_insert_comma side false tabWidth hcode

end

/-- The processed source and the listed actions of a session that holds one group of
edits. -/
theorem results_group {h : Host ν} (settings : Settings) {es sorted : List Edit} {text : Text}
    (htwo : 2 ≤ es.length) (hsorted : Span.sortOn Edit.span es = sorted)
    (hlaid : Patch.LaidOut h.source sorted text) :
    process ⟨h, settings, [.group (es.map .edit)], []⟩ none =
        .ok ⟨none, true, false, some text, none⟩ ∧
      preview ⟨h, settings, [.group (es.map .edit)], []⟩ none =
        .ok ⟨none, true, false, none, some [.group (sorted.map .edit)]⟩ := by
  have hresolve := Resolution.resolve_group settings.policy htwo hsorted hlaid
  constructor
  · have hprocess := Outcome.process_of_some h.source hresolve
    have hleaves : Action.leaves [.group (sorted.map .edit)] = sorted := by
      rw [Action.leaves, Action.edits, Action.leaves_map_edit]
      exact List.append_nil sorted
    rw [hleaves, hlaid.apply_eq] at hprocess
    exact hprocess
  · exact Outcome.preview_of_some hresolve

section

variable {h : Host ν} {n : ν} {p : Site} {opening closing : Text}

theorem sourceOf_eq_node (hsource : h.source = p.source) (hspan : h.span n = p.span) :
    h.sourceOf n = p.node := by
  rw [Host.sourceOf, hspan]
  exact Host.sourceAt_around hsource

theorem margin_eq_spaces (hsource : h.source = p.source) (hspan : h.span n = p.span) :
    Request.margin h n 0 = Text.spaces p.before.lastLine.size := by
  have hposition := Text.position_append p.before (p.node ++ p.after)
  have hcolumn : p.source.column p.before.size = p.before.lastLine.size :=
    congrArg Position.column hposition
  rw [Request.margin, hsource, hspan]
  exact congrArg Text.spaces hcolumn

theorem edits_wrap (tabWidth : Nat) (hspan : h.span n = p.span)
    (hopening : ¬ HasDouble '\x7b' opening) (hclosing : ¬ HasDouble '\x7b' closing) :
    (wrapRequests h n opening closing false).mapM (Request.edit h tabWidth) =
      .ok [p.opens opening, p.closes closing] := by
  have hopens := edit_insert (h := h) (n := n) .beginning tabWidth hopening
  have hcloses := edit_insert (h := h) (n := n) .ending tabWidth hclosing
  rw [hspan] at hopens hcloses
  rw [wrapRequests, if_neg (by decide), List.mapM_cons, List.mapM_cons, List.mapM_nil, hopens,
    hcloses]
  rfl

theorem edits_wrap_ownLines (tabWidth : Nat) (hsource : h.source = p.source)
    (hspan : h.span n = p.span) (hopening : ¬ HasDouble '\x7b' opening)
    (hclosing : ¬ HasDouble '\x7b' closing) :
    (wrapRequests h n opening closing true).mapM (Request.edit h tabWidth) =
      .ok [p.opens (opening ++ '\n' :: Text.spaces p.before.lastLine.size),
        p.closes ('\n' :: Text.spaces p.before.lastLine.size ++ closing),
        p.indents (Payload.indented (Text.spaces tabWidth) p.node)] := by
  have hpad : '\x7b' ∉ '\n' :: Text.spaces p.before.lastLine.size := by
    simp [Text.spaces]
  have hdouble := Text.not_hasDouble_of_not_mem hpad
  have hopens := edit_insert (h := h) (n := n) .beginning tabWidth
    (Text.not_hasDouble_append hopening hdouble (Or.inr hpad))
  have hcloses := edit_insert (h := h) (n := n) .ending tabWidth
    (Text.not_hasDouble_append hdouble hclosing (Or.inl hpad))
  have hindents : (Request.indent n 1).edit h tabWidth =
      .ok (p.indents (Payload.indented (Text.spaces tabWidth) p.node)) := by
    rw [Request.edit, Request.span, Request.code, hspan, sourceOf_eq_node hsource hspan,
      Nat.mul_one]
    rfl
  rw [hspan] at hopens hcloses
  rw [wrapRequests, if_pos rfl, margin_eq_spaces hsource hspan, List.mapM_cons, List.mapM_cons,
    List.mapM_cons, List.mapM_nil, hopens, hcloses, hindents]
  rfl

end

/-- Wrapping a node puts code on both sides of it and changes nothing else.  On lines of its
own the code before the node ends its line, the code after it starts a line at the column of
the node, and in between every line of the node that is not blank moves by the width of a
tab.  Either way the edits are accepted as one group that spans the node. -/
theorem wrap_surrounds_node {h : Host ν} {n : ν} (settings : Settings) (p : Site)
    {opening closing : Text} (hsource : h.source = p.source) (hspan : h.span n = p.span)
    (hopening : ¬ HasDouble '\x7b' opening) (hclosing : ¬ HasDouble '\x7b' closing) :
    (wrapNode h settings n opening closing false).map (·.process none) =
      becomes (p.before ++ (opening ++ (p.node ++ (closing ++ p.after)))) ∧
    (wrapNode h settings n opening closing true).map (·.process none) =
      becomes (p.before ++ (opening ++ ('\n' :: Text.spaces p.before.lastLine.size ++
        (Text.unlines (p.node.lines.map (Text.indentLine (Text.spaces settings.tabWidth))) ++
          ('\n' :: Text.spaces p.before.lastLine.size ++ (closing ++ p.after)))))) ∧
    ∀ ownLines, ∃ members,
      (wrapNode h settings n opening closing ownLines).map (·.preview none) =
        some (.ok ⟨none, true, false, none, some [.group members]⟩) ∧
      (Action.group members).span = p.span := by
  have hedits := edits_wrap settings.tabWidth hspan hopening hclosing
  have hedits' := edits_wrap_ownLines settings.tabWidth hsource hspan hopening hclosing
  have hlaid := p.laidOut_insertions opening closing
  obtain ⟨sorted, hsorted, hlaid'⟩ := p.exists_laidOut
    (opening ++ '\n' :: Text.spaces p.before.lastLine.size) (Text.spaces settings.tabWidth)
    ('\n' :: Text.spaces p.before.lastLine.size ++ closing)
  rw [← hsource] at hlaid hlaid'
  obtain ⟨hprocess, hpreview⟩ := results_group settings (by simp)
    (p.sortOn_insertions opening closing) hlaid
  obtain ⟨hprocess', hpreview'⟩ := results_group settings (by simp) hsorted hlaid'
  rw [wrapNode_of_edits hedits, wrapNode_of_edits hedits']
  refine ⟨congrArg some hprocess, ?_, fun ownLines => ?_⟩
  · rw [Option.map_some, hprocess', Payload.indented_eq_unlines]
    simp [becomes]
  · cases ownLines with
    | false =>
        rw [wrapNode_of_edits hedits]
        exact ⟨_, congrArg some hpreview, p.span_group (p.sortOn_insertions opening closing)
          p.hull?_insertions⟩
    | true =>
        rw [wrapNode_of_edits hedits']
        exact ⟨_, congrArg some hpreview', p.span_group hsorted p.hull?_indented⟩

/-- An empty node behind a character of two bytes, on the last line of a source. -/
def emptyNode : Site where
  before := "a\né ".toList
  node := []
  after := []

/-- A block of three lines, one of them blank. -/
def blockNode : Site where
  before := "ü = ".toList
  node := "\x7b\n \n  x\x7d".toList
  after := ";\n".toList

theorem wrap_surrounds_node_empty_block :
    (¬ HasDouble '\x7b' "if \x7b".toList ∧ ¬ HasDouble '\x7b' "\x7d".toList) ∧
    (wrapNode (.ofSpans emptyNode.source) .default emptyNode.span "if \x7b".toList "\x7d".toList
        true).map (·.process none) = becomes "a\né if \x7b\n   \n   \x7d".toList ∧
    (wrapNode (.ofSpans blockNode.source) .default blockNode.span "if \x7b".toList "\x7d".toList
        true).map (·.process none) =
      becomes "ü = if \x7b\n       \x7b\n \n    x\x7d\n     \x7d;\n".toList := by
  have hopening : ¬ HasDouble '\x7b' "if \x7b".toList := by decide
  have hclosing : ¬ HasDouble '\x7b' "\x7d".toList := by decide
  refine ⟨⟨hopening, hclosing⟩, ?_, ?_⟩
  · exact (wrap_surrounds_node (h := .ofSpans emptyNode.source) .default emptyNode rfl rfl hopening
      hclosing).2.1
  · exact (wrap_surrounds_node (h := .ofSpans blockNode.source) .default blockNode rfl rfl hopening
      hclosing).2.1

end Session

end Emend
