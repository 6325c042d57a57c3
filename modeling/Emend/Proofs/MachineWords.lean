import Emend.Proofs.Statements

/-!
# Offsets in machine words

Offsets are natural numbers here.  A sum of them has no bound, and a difference that would be
negative is zero.  A machine keeps offsets in words of 64 bits, where a sum may be too large and
a difference must not be negative.

`Checked` does the computations of requests again.  Every sum, difference and product is checked
there, and if one is not a word, nothing comes of the computation.  It turns out that the checks
never fail (`Checked.edit_eq`).  Whatever is added to an offset was found in the source behind
it, so the sum lies in the source too.  Whatever is subtracted was found in the source before it.
That needs no more than that the bounds of the node are words and that a source, with a tab,
is no larger than a word.  The bounds may lie anywhere.
-/

namespace Emend

/-! ## Where offsets lie -/

namespace Text

theorem size_lastLine_le (t : Text) : t.lastLine.size ≤ t.size := by
  obtain ⟨front, ht, -⟩ := exists_lastLine t
  have hsize := congrArg size ht
  rw [size_append] at hsize
  omega

theorem size_firstLine_le (t : Text) : t.firstLine.size ≤ t.size := by
  obtain ⟨back, ht, -⟩ := exists_firstLine t
  have hsize := congrArg size ht
  rw [size_append] at hsize
  omega

/-- The newline that ends the first line belongs to the text. -/
theorem size_firstLine_lt {t : Text} (h : '\n' ∈ t) : t.firstLine.size < t.size := by
  obtain ⟨back, ht, rfl | ⟨rest, rfl⟩⟩ := exists_firstLine t
  · rw [List.append_nil] at ht
    exact absurd (ht ▸ h) (newline_not_mem_firstLine t)
  · have hsize := congrArg size ht
    have hnewline := Char.utf8Size_pos '\n'
    rw [size_append, size_cons] at hsize
    omega

theorem isSome_take? (t : Text) (n : Nat) : (t.take? n).isSome = t.isBoundary n := Option.isSome_map

theorem isSome_drop? (t : Text) (n : Nat) : (t.drop? n).isSome = t.isBoundary n := Option.isSome_map

theorem exists_of_charAt? {t : Text} {n : Nat} {c : Char} (h : t.charAt? n = some c) :
    ∃ front tail, t = front ++ c :: tail ∧ n = front.size := by
  obtain ⟨rest, hrest, hhead⟩ := Option.bind_eq_some_iff.mp h
  obtain ⟨front, rfl, rfl⟩ := drop?_eq_some_iff.mp hrest
  obtain ⟨tail, rfl⟩ := List.head?_eq_some_iff.mp hhead
  exact ⟨front, tail, rfl, rfl⟩

/-- A character that starts at an offset ends inside the text. -/
theorem lt_size_of_charAt? {t : Text} {n : Nat} {c : Char} (h : t.charAt? n = some c) :
    n < t.size := by
  obtain ⟨front, tail, rfl, rfl⟩ := exists_of_charAt? h
  have hc := Char.utf8Size_pos c
  rw [size_append, size_cons]
  omega

end Text

/-- A walk never goes up, and it goes no further to the right than the text is large. -/
theorem Position.walk_bounds (t : Text) : ∀ (p : Position) (n : Nat),
    p.line ≤ (p.walk t n).line ∧ (p.walk t n).column ≤ p.column + t.size := by
  induction t with
  | nil =>
      intro p n
      cases n with
      | zero => exact ⟨Nat.le_refl _, Nat.le_refl _⟩
      | succ n => exact ⟨Nat.le_refl _, Nat.le_refl _⟩
  | cons c t ih =>
      intro p n
      cases n with
      | zero => exact ⟨Nat.le_refl _, Nat.le_add_right _ _⟩
      | succ n =>
          rw [walk, Text.size_cons]
          split
          next =>
            have hwalk := ih ⟨p.line + 1, 0⟩ n
            simp only at hwalk
            omega
          next =>
            split
            next =>
              have hwalk := ih ⟨p.line, p.column + c.utf8Size⟩ (n + 1 - c.utf8Size)
              simp only at hwalk
              omega
            next hsize =>
              simp only
              omega

namespace Text

theorem one_le_line (t : Text) (n : Nat) : 1 ≤ (t.position n).line :=
  (Position.walk_bounds t .origin n).1

theorem column_le_size (t : Text) (n : Nat) : t.column n ≤ t.size := by
  have hwalk := (Position.walk_bounds t .origin n).2
  rwa [Position.origin, Nat.zero_add] at hwalk

end Text

/-- The source at a span lies before the stop of the span. -/
theorem Span.exists_of_slice? {s : Span} {t part : Text} (h : s.slice? t = some part) :
    ∃ before after, t = before ++ (part ++ after) ∧ s = .around before part := by
  rw [slice?, Text.slice?] at h
  split at h
  next hle =>
    obtain ⟨rest, hrest, hpart⟩ := Option.bind_eq_some_iff.mp h
    obtain ⟨before, rfl, hstart⟩ := Text.drop?_eq_some_iff.mp hrest
    obtain ⟨after, rfl, hstop⟩ := Text.take?_eq_some_iff.mp hpart
    refine ⟨before, after, rfl, ?_⟩
    obtain ⟨start, stop⟩ := s
    simp only [around, Span.mk.injEq] at *
    omega
  next => cases h

/-- The source of a node is empty, or as large as its span is wide. -/
theorem Host.start_add_size_sourceOf {ν : Type} {h : Host ν} {n : ν} (hne : h.sourceOf n ≠ []) :
    (h.span n).start + (h.sourceOf n).size = (h.span n).stop := by
  rw [sourceOf, sourceAt] at hne ⊢
  cases hslice : (h.span n).slice? h.source with
  | none =>
      rw [hslice] at hne
      exact absurd rfl hne
  | some part =>
      obtain ⟨before, after, -, hspan⟩ := Span.exists_of_slice? hslice
      rw [hspan]
      rfl

namespace Region

/-- There are no spaces behind an offset that is no boundary. -/
theorem spacesAt_of_not_isBoundary {source : Text} {n : Nat} (h : source.isBoundary n = false) :
    spacesAt source n = 0 := by
  rw [← Text.isSome_drop?, Option.isSome_eq_false_iff, Option.isNone_iff_eq_none] at h
  rw [spacesAt, h]

theorem add_spacesAt_le (source : Text) (n : Nat) : n + spacesAt source n ≤ max n source.size := by
  cases hn : source.isBoundary n with
  | false =>
      rw [spacesAt_of_not_isBoundary hn]
      exact Nat.le_max_left n source.size
  | true =>
      obtain ⟨front, after, rfl, rfl⟩ := Text.isBoundary_iff.mp hn
      have hspaces := congrArg Text.size (leadingSpaces_append_dropWhile after)
      rw [Text.size_append] at hspaces
      rw [spacesAt_append, Text.size_append]
      omega

section

variable {source : Text} {s t : Span}

/-- A span takes no comma before it, or its start moves back to one over a gap. -/
theorem overCommaBefore?_cases (h : overCommaBefore? source s = some t) :
    t = s ∨ ∃ front gap rest, source = front ++ ',' :: (gap ++ rest) ∧
      s.start = (front ++ ',' :: gap).size ∧ t = ⟨front.size, s.stop⟩ := by
  rw [overCommaBefore?] at h
  split at h
  next before htake =>
    simp only at h
    split at h
    next hcomma =>
      obtain ⟨rest, hsource, hstart⟩ := Text.take?_eq_some_iff.mp htake
      obtain ⟨front, hfront⟩ := List.getLast?_eq_some_iff.mp hcomma
      obtain ⟨gap, hgap, -⟩ := Text.exists_dropTail isGap before
      rw [hfront, List.append_assoc, List.singleton_append] at hgap
      refine Or.inr ⟨front, gap, rest, by rw [hsource, hgap]; simp, by rw [← hstart, hgap], ?_⟩
      rw [← Option.some.inj h, hfront, Text.size_append]
      rfl
    next => exact Or.inl (Option.some.inj h).symm
  next =>
    split at h
    next => exact Or.inl (Option.some.inj h).symm
    next => cases h

/-- What a step over a comma does: nothing, or the stop moves on behind a comma, or the start
moves back to one. -/
theorem overCommaIf?_cases {comma : Bool} (h : overCommaIf? comma source s = some t) :
    t = s ∨
    (source.charAt? (s.stop + spacesAt source s.stop) = some ',' ∧
      t = ⟨s.start, s.stop + spacesAt source s.stop + 1⟩) ∨
    ∃ front gap rest, source = front ++ ',' :: (gap ++ rest) ∧
      s.start = (front ++ ',' :: gap).size ∧ t = ⟨front.size, s.stop⟩ := by
  cases comma with
  | false => exact Or.inl (Option.some.inj h).symm
  | true =>
      replace h : overComma? source s = some t := h
      rw [overComma?] at h
      split at h
      next hcomma => exact Or.inr (Or.inl ⟨hcomma, (Option.some.inj h).symm⟩)
      next => exact (overCommaBefore?_cases h).imp_right Or.inr

end

end Region

/-! ## Checked computations -/

namespace Checked

open Region (spacesAt isGap)

/-- Numbers below this are words of 64 bits. -/
def limit : Nat := 18446744073709551616

/-- The sum of two words, if it is a word. -/
def add? (a b : Nat) : Option Nat := if a + b < limit then some (a + b) else none

/-- The difference of two words, if it is not negative. -/
def sub? (a b : Nat) : Option Nat := if b ≤ a then some (a - b) else none

/-- The product of two words, if it is a word. -/
def mul? (a b : Nat) : Option Nat := if a * b < limit then some (a * b) else none

theorem add?_eq {a b : Nat} (h : a + b < limit) : add? a b = some (a + b) := if_pos h

theorem sub?_eq {a b : Nat} (h : b ≤ a) : sub? a b = some (a - b) := if_pos h

theorem mul?_eq {a b : Nat} (h : a * b < limit) : mul? a b = some (a * b) := if_pos h

/-! ### Regions -/

/-- A span with the spaces after it. -/
def overSpaces? (source : Text) (s : Span) : Option Span := do
  let stop ← add? s.stop (spacesAt source s.stop)
  some ⟨s.start, stop⟩

/-- A span with the comma before it, if there is one. -/
def overCommaBefore? (source : Text) (s : Span) : Option Span :=
  match source.take? s.start with
  | some before =>
      let kept := before.dropTail isGap
      if kept.getLast? = some ',' then do
        let start ← sub? kept.size 1
        some ⟨start, s.stop⟩
      else some s
  | none => if s.start ≤ source.size then some s else none

/-- A span with one comma next to it, if there is one. -/
def overComma? (source : Text) (s : Span) : Option Span := do
  let stop ← add? s.stop (spacesAt source s.stop)
  if source.charAt? stop = some ',' then do
    let stop ← add? stop 1
    some ⟨s.start, stop⟩
  else overCommaBefore? source s

/-- A span with one comma next to it, if one is asked for. -/
def overCommaIf? (comma : Bool) (source : Text) (s : Span) : Option Span :=
  if comma then overComma? source s else some s

/-- Whole lines with a newline. -/
def withNewline? (source : Text) (lines : Span) : Option Span :=
  if lines.stop < source.size then do
    let stop ← add? lines.stop 1
    some ⟨lines.start, stop⟩
  else if 0 < lines.start then do
    let start ← sub? lines.start 1
    some ⟨start, lines.stop⟩
  else some lines

/-- Whether the lines of a node stand between empty ones. -/
def isIsolated? (source : Text) (node : Span) : Option Bool := do
  let lines := source.payloadLines
  let first := (source.position node.start).line
  let last := (source.position node.stop).line
  let above ←
    if first = 1 then some true
    else do
      let line ← sub? first 2
      some (lines[line]? = some [])
  some (1 < lines.length && above && lines[last]? = some [])

/-- Whole lines of a node, with the empty line after them if they stand between two. -/
def squeeze? (source : Text) (node lines : Span) : Option Span := do
  let isolated ← isIsolated? source node
  if isolated && source.charAt? lines.stop = some '\n' then do
    let stop ← add? lines.stop 1
    some ⟨lines.start, stop⟩
  else some lines

/-- All that goes when a node is removed. -/
def removal? (comma : Bool) (source : Text) (node : Span) : Option Span := do
  let s ← overCommaIf? comma source node
  let s ← overSpaces? source s
  let before ← source.take? s.start
  let after ← source.drop? s.stop
  let start ← sub? s.start before.lastLine.size
  let stop ← add? s.stop after.firstLine.size
  if before.lastLine.isBlank && after.firstLine.isBlank then do
    let lines ← withNewline? source ⟨start, stop⟩
    squeeze? source node lines
  else some s

/-- All that goes when the text at a span is deleted. -/
def deletion? (comma : Bool) (source : Text) (s : Span) : Option Span := do
  let s ← overCommaIf? comma source s
  overSpaces? source s

section

variable {source : Text} {s t node : Span}

theorem overSpaces?_eq (hsource : source.size < limit) (hs : s.stop < limit) :
    overSpaces? source s = some (Region.overSpaces source s) := by
  have hle := Region.add_spacesAt_le source s.stop
  rw [overSpaces?, add?_eq (by omega)]
  rfl

theorem overCommaBefore?_eq : overCommaBefore? source s = Region.overCommaBefore? source s := by
  rw [overCommaBefore?, Region.overCommaBefore?]
  cases source.take? s.start with
  | none => rfl
  | some before =>
      by_cases hcomma : (before.dropTail isGap).getLast? = some ','
      · obtain ⟨front, hfront⟩ := List.getLast?_eq_some_iff.mp hcomma
        have hsize : 1 ≤ (before.dropTail isGap).size := by
          rw [hfront, Text.size_append]
          exact Nat.le_add_left _ _
        simp only [if_pos hcomma, sub?_eq hsize]
        rfl
      · simp only [if_neg hcomma]

theorem overComma?_eq (hsource : source.size < limit) (hs : s.stop < limit) :
    overComma? source s = Region.overComma? source s := by
  have hle := Region.add_spacesAt_le source s.stop
  rw [overComma?, Region.overComma?, add?_eq (by omega), Option.bind_eq_bind, Option.bind_some,
    overCommaBefore?_eq]
  split
  next hcomma =>
    have hlt := Text.lt_size_of_charAt? hcomma
    rw [add?_eq (by omega)]
    rfl
  next => rfl

theorem overCommaIf?_eq (comma : Bool) (hsource : source.size < limit) (hs : s.stop < limit) :
    overCommaIf? comma source s = Region.overCommaIf? comma source s := by
  cases comma with
  | true => exact overComma?_eq hsource hs
  | false => rfl

/-- A step over a comma stays in the source. -/
theorem overCommaIf?_stop_le {comma : Bool} (h : Region.overCommaIf? comma source s = some t) :
    t.stop ≤ max s.stop source.size := by
  rcases Region.overCommaIf?_cases h with rfl | ⟨hcomma, rfl⟩ | ⟨front, gap, rest, -, -, rfl⟩
  · exact Nat.le_max_left _ _
  · exact Nat.le_trans (Text.lt_size_of_charAt? hcomma) (Nat.le_max_right _ _)
  · exact Nat.le_max_left _ _

theorem withNewline?_eq (hsource : source.size < limit) :
    withNewline? source s = some (Region.withNewline source s) := by
  rw [withNewline?, Region.withNewline]
  split
  next hlt =>
    rw [add?_eq (by omega)]
    rfl
  next =>
    split
    next hpos =>
      rw [sub?_eq hpos]
      rfl
    next => rfl

theorem isIsolated?_eq : isIsolated? source node = some (Region.isIsolated source node) := by
  have hline := source.one_le_line node.start
  rw [isIsolated?, Region.isIsolated]
  by_cases hfirst : (source.position node.start).line = 1
  · simp [hfirst]
  · simp [hfirst, sub?_eq (show 2 ≤ (source.position node.start).line by omega)]

theorem squeeze?_eq (hsource : source.size < limit) :
    squeeze? source node s = some (Region.squeeze source node s) := by
  rw [squeeze?, isIsolated?_eq, Option.bind_eq_bind, Option.bind_some, Region.squeeze]
  split
  next h =>
    have hchar := (Bool.and_eq_true_iff.mp h).2
    have hlt := Text.lt_size_of_charAt? (of_decide_eq_true hchar)
    rw [add?_eq (by omega)]
    rfl
  next => rfl

theorem deletion?_eq (comma : Bool) (hsource : source.size < limit) (hs : s.stop < limit) :
    deletion? comma source s = Region.deletion? comma source s := by
  rw [deletion?, Region.deletion?, overCommaIf?_eq comma hsource hs]
  cases hcomma : Region.overCommaIf? comma source s with
  | none => rfl
  | some t =>
      have hle := overCommaIf?_stop_le hcomma
      exact overSpaces?_eq hsource (by omega)

theorem removal?_eq (comma : Bool) (hsource : source.size < limit) (hs : node.stop < limit) :
    removal? comma source node = Region.removal? comma source node := by
  rw [removal?, Region.removal?, overCommaIf?_eq comma hsource hs]
  cases hcomma : Region.overCommaIf? comma source node with
  | none => rfl
  | some t =>
      have hle := overCommaIf?_stop_le hcomma
      simp only [Option.bind_eq_bind, Option.bind_some,
        overSpaces?_eq hsource (show t.stop < limit by omega)]
      generalize Region.overSpaces source t = u
      cases htake : source.take? u.start with
      | none => rfl
      | some before =>
          cases hdrop : source.drop? u.stop with
          | none => rfl
          | some after =>
              obtain ⟨_, -, hstart⟩ := Text.take?_eq_some_iff.mp htake
              obtain ⟨front, hfront, hstop⟩ := Text.drop?_eq_some_iff.mp hdrop
              have hsize := congrArg Text.size hfront
              have hlast := before.size_lastLine_le
              have hfirst := after.size_firstLine_le
              rw [Text.size_append] at hsize
              simp only [Option.bind_some, sub?_eq (show before.lastLine.size ≤ u.start by omega),
                add?_eq (show u.stop + after.firstLine.size < limit by omega),
                withNewline?_eq hsource, squeeze?_eq hsource]

end

/-! ### Requests -/

section

variable {ν : Type}

/-- A computed word, or a breakdown. -/
def wordOr : Option Nat → Except Failure Nat
  | some n => .ok n
  | none => .error .crashed

/-- The span of the edit that is asked for. -/
def span (h : Host ν) : Request ν → Except Failure Span
  | .append n _ => do
      let offset ← wordOr (sub? (h.span n).stop (h.sourceOf n).lastLine.size)
      .ok (.point offset)
  | .prepend n _ =>
      if '\n' ∈ h.sourceOf n then do
        let offset ← wordOr (add? (h.span n).start (h.sourceOf n).firstLine.size)
        let offset ← wordOr (add? offset 1)
        .ok (.point offset)
      else .ok (.point (h.span n).stop)
  | .delete n selectors comma => do
      let s ← Failure.lift (Request.deletedSpan h n selectors)
      Request.regionOr (deletion? comma h.source s)
  | .remove n comma => Request.regionOr (removal? comma h.source (h.span n))
  | r => r.span h

/-- The code of the edit that is asked for, with tabs of this width. -/
def code (h : Host ν) (tabWidth : Nat) : Request ν → Except Failure (Option Text)
  | .append n code | .prepend n code => do
      let code ← Failure.lift (h.render n code)
      let margin ← wordOr (add? (h.source.column (h.span n).start) tabWidth)
      .ok (some (Payload.statement (Text.spaces margin) code))
  | .indent n level => do
      let shift ← wordOr (mul? tabWidth level)
      .ok (some (Payload.indented (Text.spaces shift) (h.sourceOf n)))
  | r => Failure.lift (r.code h tabWidth)

/-- The edit that is asked for. -/
def edit (h : Host ν) (tabWidth : Nat) (r : Request ν) : Except Failure Edit := do
  let span ← span h r
  let code ← code h tabWidth r
  .ok ⟨r.kind, span, code⟩

/-- What the computation of an edit starts from is a word. -/
def InWords (h : Host ν) (tabWidth : Nat) : Request ν → Prop
  | .prepend n _ | .remove n _ => (h.span n).stop < limit
  | .delete n selectors _ => ∀ s, Request.deletedSpan h n selectors = .ok s → s.stop < limit
  | .indent _ level => tabWidth * level < limit
  | _ => True

variable {h : Host ν} {tabWidth : Nat} {n : ν}

theorem span_append (h : Host ν) (n : ν) (code : Text) :
    span h (.append n code) = (Request.append n code).span h := by
  have hle : (h.sourceOf n).lastLine.size ≤ (h.span n).stop := by
    by_cases hne : h.sourceOf n = []
    · rw [hne]
      exact Nat.zero_le _
    · have hlast := (h.sourceOf n).size_lastLine_le
      have hstop := Host.start_add_size_sourceOf hne
      omega
  rw [span, sub?_eq hle]
  rfl

theorem span_prepend (code : Text) (hn : (h.span n).stop < limit) :
    span h (.prepend n code) = (Request.prepend n code).span h := by
  rw [span, Request.span, Request.prependOffset]
  by_cases hnewline : '\n' ∈ h.sourceOf n
  · have hfirst := Text.size_firstLine_lt hnewline
    have hstop := Host.start_add_size_sourceOf (List.ne_nil_of_mem hnewline)
    have hsum : (h.span n).start + (h.sourceOf n).firstLine.size + 1 < limit := by omega
    simp only [if_pos hnewline, add?_eq (Nat.lt_of_succ_lt hsum), add?_eq hsum, wordOr, bind,
      Except.bind]
  · simp only [if_neg hnewline]

theorem span_eq (hsource : h.source.size < limit) {r : Request ν} (hr : InWords h tabWidth r) :
    span h r = r.span h := by
  cases r with
  | append n code => exact span_append h n code
  | prepend n code => exact span_prepend code hr
  | delete n selectors comma =>
      rw [span, Request.span]
      cases hspan : Request.deletedSpan h n selectors with
      | error e => rfl
      | ok s =>
          exact congrArg Request.regionOr (deletion?_eq comma hsource (hr s hspan))
  | remove n comma =>
      rw [span, removal?_eq comma hsource hr]
      rfl
  | insert | replace | replaceWith | indent | noop => rfl

theorem code_eq (hsource : h.source.size + tabWidth < limit) {r : Request ν}
    (hr : InWords h tabWidth r) : code h tabWidth r = Failure.lift (r.code h tabWidth) := by
  have hmargin (n : ν) : h.source.column (h.span n).start + tabWidth < limit := by
    have hcolumn := h.source.column_le_size (h.span n).start
    omega
  cases r with
  | append n text | prepend n text =>
      rw [code, Request.code, add?_eq (hmargin n)]
      cases h.render n text with
      | error e => rfl
      | ok rendered => rfl
  | indent n level =>
      rw [code, mul?_eq hr]
      rfl
  | insert | delete | remove | replace | replaceWith | noop => rfl

/-- No check fails. -/
theorem edit_eq (hsource : h.source.size + tabWidth < limit) {r : Request ν}
    (hr : InWords h tabWidth r) : edit h tabWidth r = r.edit h tabWidth := by
  rw [edit, Request.edit, span_eq (by omega) hr, code_eq hsource hr]

end

end Checked

end Emend
